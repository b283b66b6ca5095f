import GraphLang.SlotGraph.Basic
import Std.Data.HashSet.Basic

/-!
# Topological order

Two depth-first searches look for a directed cycle. The first one lists the nodes
by finishing time. The second one follows edges backwards from each node of the
reversed list, and reaches a second node only if the graph has a cycle.

The marks of both searches are bits, one for each number up to the last node. Edges
of a graph read from a document may end in a slot behind that node, where there is
no bit to set: a search that gets there breaks off.
-/

namespace GraphLang.SlotGraph

variable {α β : Type}

/-- Why a search ends before its time. -/
inductive SearchStop where
  /-- The node shows a directed cycle. -/
  | cycle (n : Nat)
  /-- The number is behind the last node, and there is no mark for it. -/
  | unmarked (n : Nat)
deriving Repr, DecidableEq

/-- The state of the search for finishing times. -/
structure FinishSearch where
  /-- The nodes met so far. -/
  discovered : Std.HashSet Nat
  /-- The nodes whose search is over. -/
  finished : Std.HashSet Nat
  /-- The finished nodes, last one first. -/
  order : List Nat

/-- Works off the stack. A node met for the first time stays on it under its new successors; a node
met again is finished. Breaks off at a self loop as soon as it meets one. -/
def finishFrom (g : SlotGraph α β) (marks : Nat) :
    Nat → List Nat → FinishSearch → Except SearchStop FinishSearch
  | 0, _, st => .ok st
  | _ + 1, [], st => .ok st
  | fuel + 1, n :: stack, st =>
    if marks ≤ n then .error (.unmarked n)
    else if st.discovered.contains n then
      if st.finished.contains n then finishFrom g marks fuel stack st
      else
        finishFrom g marks fuel stack
          { st with finished := st.finished.insert n, order := n :: st.order }
    else
      let discovered := st.discovered.insert n
      let next := g.successors n
      if next.contains n then .error (.cycle n)
      else
        let fresh := next.filter fun s => !discovered.contains s
        finishFrom g marks fuel (fresh.reverse ++ n :: stack) { st with discovered := discovered }

/-- More steps than the search for finishing times can take. -/
def searchBound (g : SlotGraph α β) : Nat := 2 * g.slots.size + g.edges.size + 2

/-- The nodes by finishing time, last one first. -/
def finishOrder (g : SlotGraph α β) : Except SearchStop (List Nat) := do
  let marks := g.nodeBound
  let st ← g.nodeIds.foldlM (fun st n =>
    if st.discovered.contains n then .ok st else finishFrom g marks g.searchBound [n] st)
    ⟨∅, ∅, []⟩
  return st.order

/-- Follows edges backwards over nodes not seen yet, and gives the nodes seen. Breaks off at the
second node that this search visits. -/
def visitBack (g : SlotGraph α β) (marks : Nat) :
    Nat → Bool → List Nat → Std.HashSet Nat → Except SearchStop (Std.HashSet Nat)
  | 0, _, _, seen => .ok seen
  | _ + 1, _, [], seen => .ok seen
  | fuel + 1, started, n :: stack, seen =>
    if marks ≤ n then .error (.unmarked n)
    else if seen.contains n then visitBack g marks fuel started stack seen
    else if started then .error (.cycle n)
    else
      let seen := seen.insert n
      let fresh := (g.predecessors n).filter fun s => !seen.contains s
      visitBack g marks fuel true (fresh.reverse ++ stack) seen

/-- The backward searches, one from each node in the given order. -/
def visitAllBack (g : SlotGraph α β) (order : List Nat) : Except SearchStop (Std.HashSet Nat) :=
  let marks := g.nodeBound
  order.foldlM (fun seen n => visitBack g marks g.searchBound false [n] seen) ∅

/-- The nodes, each before the nodes that it leads to. -/
def topologicalOrder (g : SlotGraph α β) : Except SearchStop (List Nat) := do
  let order ← g.finishOrder
  let _ ← g.visitAllBack order
  return order

end GraphLang.SlotGraph
