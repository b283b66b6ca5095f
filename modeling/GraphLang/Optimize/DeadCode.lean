import GraphLang.Optimize.Fold

/-!
# Removing dead code

Statements that follow one that never goes on, functions that no closure is ever made
of, and nodes outside all bodies.
-/

namespace GraphLang

/-- The functions that can be reached from the main one through function nodes. -/
def Program.liveFunctions (p : Program) : Std.HashSet FunctionId :=
  reach p.nestedFunctions (p.graph.slots.size + p.functions.length + 2) [mainId] ∅

namespace DeadCode

/-- The part of the program that events of the removal name. -/
def target : String := "weft_eval::optimize::dce"

/-- Whether no statement after this node can run. -/
def diverges (p : Program) (n : Nat) : Bool :=
  match p.op? n with
  | some op => op.diverges
  | none => false

/-- The statements after the first one that never goes on. -/
def unreachableStatements (p : Program) (block : Nat) : List (Role × Nat) :=
  ((p.indexed block (.statement 0)).dropWhile fun (_, n) => !diverges p n).drop 1

/-- Removes statements of a block, and counts them. -/
def dropStatements (block : Nat) : List (Role × Nat) → Pass Nat
  | [] => return 0
  | (role, n) :: rest => do
    discard <| Pass.disconnect block role
    Pass.removeSubtree n
    let others ← dropStatements block rest
    return 1 + others

/-- Prunes the given blocks, and counts the statements removed. -/
def pruneBlocks : List Nat → Pass Nat
  | [] => return 0
  | block :: rest => do
    let count ← dropStatements block (unreachableStatements (← Pass.program) block)
    let others ← pruneBlocks rest
    return count + others

/-- Removes the statements that cannot run, and counts them. -/
def prune : Pass Nat := do
  let p ← Pass.program
  pruneBlocks (p.nodeIds.filter (Fold.isBlock p))

/-- Removes functions. -/
def removeFunctions : List FunctionId → Pass Unit
  | [] => return
  | f :: rest => do
    Pass.report .trace target "removing dead function" [("function", toString f)]
    modify fun r => { r with program := (r.program.removeFunction f).2 }
    removeFunctions rest

/-- The nodes of the bodies of all functions. -/
def bodyNodes (p : Program) : List Nat :=
  (p.functionDefs.filterMap (·.body)).flatMap p.subtree

/-- The nodes outside all bodies, ascending. -/
def orphans (p : Program) : List Nat :=
  let kept := Std.HashSet.ofList (bodyNodes p)
  p.nodeIds.filter fun n => !kept.contains n

/-- Removes the functions that no closure is ever made of and the nodes outside all bodies. Counts
the nodes and the functions removed. -/
def eliminate : Pass (Nat × Nat) := do
  let p ← Pass.program
  let live := p.liveFunctions
  let dead := (p.functionDefs.map (·.id)).filter fun f => !live.contains f
  removeFunctions dead
  modify fun r => { r with program := r.program.removeNodes (orphans r.program) }
  return (p.graph.nodeCount - (← Pass.program).graph.nodeCount, dead.length)

end DeadCode

end GraphLang
