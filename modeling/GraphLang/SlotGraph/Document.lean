import GraphLang.Json.Decode
import GraphLang.SlotGraph.Basic

/-!
# Graphs as documents

A graph is written as the contents of its nodes, the numbers of its vacant node
slots, and its edges by number, with null in vacant slots. Vacant slots after the
last one in use are left out.
-/

namespace GraphLang.SlotGraph

variable {α β : Type}

/-- One more than the number of the last edge. -/
def edgeBound (g : SlotGraph α β) : Nat := (g.edgeList.getLast?.map fun e => e.1 + 1).getD 0

/-- The graph as a document. -/
def encode (node : α → Json) (edge : β → Json) (g : SlotGraph α β) : Json :=
  .obj [
    ("nodes", .arr (g.nodes.map fun n => node n.2)),
    ("node_holes", .arr (((List.range g.nodeBound).filter fun n => !g.hasNode n).map Json.nat)),
    ("edge_property", .str "directed"),
    ("edges", .arr ((List.range g.edgeBound).map fun e =>
      match g.edge? e with
      | some found => .arr [.nat found.source, .nat found.target, edge found.weight]
      | none => .null))]

/-- Puts contents and holes into slots. The holes ascend and lie below the number of slots. -/
def placeNodes (total : Nat) : Nat → List α → List Nat → Option (List (Option α))
  | n, contents, hole :: holes =>
    if n ≤ hole && hole < total then do
      let before := contents.take (hole - n)
      let rest ← placeNodes total (hole + 1) (contents.drop (hole - n)) holes
      return before.map some ++ none :: rest
    else none
  | _, contents, [] => some (contents.map some)

/-- Links the edges of a list, in order. Fails where an end is no slot. -/
def linkAll : Nat → List (Option (Edge β)) → Array (Slot α) → Option (Array (Slot α))
  | _, [], slots => some slots
  | e, none :: rest, slots => linkAll (e + 1) rest slots
  | e, some edge :: rest, slots =>
    if edge.source < slots.size && edge.target < slots.size then
      linkAll (e + 1) rest (linkEnds slots e edge.source edge.target)
    else none

/-- The positions of the vacant slots, last one first. -/
def vacancies {γ : Type} (slots : List (Option γ)) : List Nat :=
  ((List.range slots.length).filter fun i => (slots[i]?.getD none).isNone).reverse

/-- A graph with the given contents of its slots. -/
def ofSlots (nodes : List (Option α)) (edges : List (Option (Edge β))) : Option (SlotGraph α β) :=
  let slots := (nodes.map fun w => (⟨w, [], []⟩ : Slot α)).toArray
  (linkAll 0 edges slots).map fun slots =>
    ⟨slots, edges.toArray, vacancies nodes, vacancies edges⟩

/-- Reads an edge, or null in a vacant slot. -/
def decodeEdge (edge : Json → Option β) : Json → Option (Option (Edge β))
  | .null => some none
  | .arr [source, target, weight] => do
    return some ⟨← source.toNat32?, ← target.toNat32?, ← edge weight⟩
  | _ => none

/-- Reads a graph. -/
def decode (node : Json → Option α) (edge : Json → Option β) (d : Json) :
    Option (SlotGraph α β) := do
  let record := [⟨"nodes", false⟩, ⟨"node_holes", true⟩, ⟨"edge_property", false⟩, ⟨"edges", false⟩]
  match ← d.fields? record with
  | [some nodes, holes, some property, some edges] =>
    let nodes ← nodes.toList? node
    let holes ← (holes.getD (.arr [])).toList? Json.toNat32?
    match ← property.variant? with
    | ("directed", content) => if Json.isUnit content then pure () else failure
    | _ => failure
    let edges ← edges.toList? (decodeEdge edge)
    let slots ← placeNodes (nodes.length + holes.length) 0 nodes holes
    ofSlots slots edges
  | _ => none

end GraphLang.SlotGraph
