import GraphLang.Json.Basic
import GraphLang.Optimize.DeadCode

/-!
# Optimizing programs

All passes in their order, and the report of what they changed.
-/

namespace GraphLang

/-- What the passes changed. -/
structure OptimizeReport where
  /-- How many operators became literals. -/
  folded : Nat
  /-- How many branches were folded. -/
  branchesFolded : Nat
  /-- How many statements were removed because they cannot run. -/
  pruned : Nat
  /-- How many nodes are gone. -/
  removedNodes : Nat
  /-- How many functions are gone. -/
  removedFunctions : Nat
deriving Repr, DecidableEq, Inhabited

namespace OptimizeReport

/-- Whether nothing was changed. -/
def isUnchanged (r : OptimizeReport) : Bool := r == ⟨0, 0, 0, 0, 0⟩

/-- The report as a document. -/
def encode (r : OptimizeReport) : Json :=
  .obj [
    ("folded", .nat r.folded),
    ("branches_folded", .nat r.branchesFolded),
    ("pruned", .nat r.pruned),
    ("removed_nodes", .nat r.removedNodes),
    ("removed_functions", .nat r.removedFunctions)]

/-- The text of a report that names all of its fields. -/
def diagnostic (r : OptimizeReport) : String :=
  "OptimizeReport \x7b folded: " ++ toString r.folded ++
    ", branches_folded: " ++ toString r.branchesFolded ++
    ", pruned: " ++ toString r.pruned ++
    ", removed_nodes: " ++ toString r.removedNodes ++
    ", removed_functions: " ++ toString r.removedFunctions ++ " \x7d"

end OptimizeReport

namespace Optimize

/-- The part of the program that events of the whole run name. -/
def target : String := "weft_eval::optimize"

/-- Runs all passes. Constants are folded again where a branch was folded. -/
def passes : Pass OptimizeReport := do
  let before := (← Pass.program).graph.nodeCount
  let first ← Fold.constants
  let branches ← Fold.branches
  let again ← if 0 < branches then Fold.constants else pure 0
  let pruned ← DeadCode.prune
  let (_, functions) ← DeadCode.eliminate
  let removed := before - (← Pass.program).graph.nodeCount
  Pass.report .debug target "optimized"
    [("unit", (← Pass.program).name),
     ("folded", toString (first + again)),
     ("branches", toString branches),
     ("pruned", toString pruned),
     ("removed", toString removed)]
  return ⟨first + again, branches, pruned, removed, functions⟩

end Optimize

/-- Optimizes a program. Gives the report, the program and the events. -/
def Program.optimize (p : Program) : OptimizeReport × Program × List Event :=
  let (report, r) := Optimize.passes.run ⟨p, #[]⟩
  (report, r.program, r.events.toList)

end GraphLang
