import GraphLang.SlotGraph.Basic

/-!
# Edges at vacant slots

A document may hold edges that start or end at a vacant slot. The vacant slots form
a chain, and the place of a slot in it is kept where an occupied slot keeps its newest
edges: the slot after it in the place of the newest outgoing edge, the slot before it in
the place of the newest incoming one. So an edge at a vacant slot hides a neighbour, and
when the slot is used again, the number of the edge is taken for the one of the
neighbour.
-/

namespace GraphLang.SlotGraph

variable {α β : Type}

/-- The rest of a list of outgoing edges, from the given edge on. -/
def outgoingFrom (g : SlotGraph α β) (e : Nat) : List Nat :=
  match (g.edge? e).bind fun edge => g.slots[edge.source]? with
  | some slot => slot.outgoing.dropWhile (· != e)
  | none => []

/-- Closes the chain of vacant slots around its first slot: the slot before it is followed by the
slot after it, which is preceded by the slot before it. -/
def closeChain (g : SlotGraph α β) : SlotGraph α β :=
  match g.vacantNodes with
  | [] => g
  | n :: rest =>
    let (starting, ending) := match g.slots[n]? with
      | some slot => (slot.outgoing, slot.incoming)
      | none => ([], [])
    let next := starting.head? <|> rest.head?
    let slots := match ending.head? with
      | some before => g.slots.modify before fun s =>
        { s with outgoing := (next.map g.outgoingFrom).getD [] }
      | none => g.slots
    let slots := match next with
      | some after => slots.modify after fun s => { s with incoming := ending }
      | none => slots
    let rest := match starting.head? with
      | some after => after :: (rest.dropWhile (· != after)).drop 1
      | none => rest
    { g with slots := slots, vacantNodes := n :: rest }

/-- Adds a node and gives its number, in a graph that may have edges at vacant slots. -/
def occupy (g : SlotGraph α β) (w : α) : Nat × SlotGraph α β := g.closeChain.addNode w

end GraphLang.SlotGraph
