import GraphLang.Json.Decode
import GraphLang.Json.Exact
import GraphLang.Store.Basic

/-!
# Snapshots of values

A value as a document that shows everything that can be reached from it. Containers
are numbered in the order in which they are met, and one that was met before is shown
by its number only, so that sharing and cycles can be seen. A host can give names to
containers; those are shown by their names.
-/

namespace GraphLang

/-- The key as a document. -/
def Key.encode : Key → Json
  | .bool b => .bool b
  | .int i => .int i.toInt
  | .str s => .str s

/-- The call site as a document. -/
def CallSite.encode (s : CallSite) : Json :=
  .arr [.str s.name, .nat s.unit, .nat s.function, .option (s.callNode.map .nat), .nat s.frame]

/-- Reads a key. -/
def Key.decode : Json → Option Key
  | .bool b => some (.bool b)
  | .str s => some (.str s)
  | d => d.toInt64?.map .int

/-- Reads a call site. -/
def CallSite.decode : Json → Option CallSite
  | .arr [name, unit, function, callNode, frame] => do
    return ⟨← name.toString?, ← unit.toNat32?, ← function.toNat32?,
      ← Json.optionalField? Json.toNat32? (some callNode), ← frame.toNat64?⟩
  | _ => none

/-- The edge as a document, without what it carries. -/
def Container.EdgeView.encode (e : Container.EdgeView) : List Json :=
  [.nat e.id, .nat e.source, .nat e.target, .str e.tie.label.display, .nat e.tie.seq]

/-- Notes as a document. -/
def Container.encodeNotes (notes : List (String × String)) : Json :=
  .arr (notes.map fun (key, text) => .arr [.str key, .str text])

/-- A part of a snapshot, with the containers met so far and their numbers, newest first. -/
abbrev Snapshot := StateM (List (GraphId × Nat))

/-- Takes a whole snapshot. -/
def Snapshot.take {α : Type} (s : Snapshot α) : α := (s.run []).1

/-- The snapshot of a value, given those of containers. -/
def Value.snapshot (graph : GraphId → Snapshot Json) : Value → Snapshot Json
  | .nil => return .null
  | .bool b => return .bool b
  | .int i => return .int i.toInt
  | .float x => return .bits x
  | .str s => return .str s
  | .graph g => graph g
  | .function f =>
    return .obj [("fn", .str f.name), ("unit", .nat f.unit), ("function", .nat f.function),
      ("arity", .nat f.arity)]
  | .native n => return .obj [("native", .str n.name), ("arity", .option (n.arity.map .nat))]
  | .exception _ kind message payload path => do
    let payload ← payload.snapshot graph
    return .obj [("exc", .str kind), ("message", .str message), ("payload", payload),
      ("path", .arr (path.map CallSite.encode))]

/-- What a snapshot is taken of. -/
structure View where
  /-- The containers. -/
  store : Store
  /-- The names of containers that have one. -/
  name? : GraphId → Option String

namespace View

/-- The view in which no container has a name. -/
def anonymous (s : Store) : View := ⟨s, fun _ => none⟩

/-- The snapshot of what an edge carries, after the given description of the edge. -/
def edge (value : Value → Snapshot Json) (description : List Json) (tie : Tie) : Snapshot Json := do
  let data ← tie.data.toList.mapM value
  return .arr (description ++ data)

/-- A member with the edges that start at it. -/
def member (value : Value → Snapshot Json) (c : Container) (n : Nat) :
    Snapshot (Json × List Json) := do
  let shown ← value ((c.value? n).getD .nil)
  let edges ← (c.edgesFrom n).mapM fun e =>
    edge value [.nat e.source, .nat e.target, .str e.tie.label.display] e.tie
  return (.arr [.nat n, shown], edges)

/-- What a container holds. -/
def contents (value : Value → Snapshot Json) (c : Container) : Snapshot (List (String × Json)) := do
  match c.kind with
  | .list => return [("list", .arr (← c.elements.mapM value))]
  | .map =>
    let entries ← c.entries.mapM fun (key, v) => return .arr [key.encode, ← value v]
    return [("map", .arr entries)]
  | .user name =>
    let members ← c.members.mapM (member value c)
    return [("user", .str name), ("members", .arr (members.map (·.1))),
      ("links", .arr (members.flatMap (·.2)))]

/-- Whether a container is frozen, and its rules, as far as there is something to say. -/
def properties (s : Store) (c : Container) : List (String × Json) :=
  (if c.frozen then [("frozen", .bool true)] else []) ++
    if c.rules.isEmpty then [] else [("rules", .arr (c.rules.map fun r => .str (r.display s none)))]

/-- The snapshot of a container, going so many containers deep. -/
def graphWithin (v : View) : Nat → GraphId → Snapshot Json
  | 0, _ => return .null
  | depth + 1, g => do
    match v.name? g, (← get).lookup g with
    | some name, _ => return .obj [("ref", .str name)]
    | none, some number => return .obj [("seen", .nat number)]
    | none, none =>
      let number := (← get).length
      modify fun met => (g, number) :: met
      let c := v.store.get g
      let body ← contents (Value.snapshot (graphWithin v depth)) c
      return .obj ([("id", .nat number)] ++ body ++ properties v.store c)

/-- The snapshot of a value. On each way down every container is met once, so the depth is at most
their number. -/
def value (v : View) : Value → Snapshot Json :=
  Value.snapshot (v.graphWithin (v.store.graphs.size + 1))

/-- The snapshot of one value. -/
def one (v : View) (x : Value) : Json := (v.value x).take

/-- One snapshot of several values. -/
def all (v : View) (xs : List Value) : Json := .arr (xs.mapM v.value).take

/-- A node of a container with the edges that start at it. -/
def node (v : View) (c : Container) (n : Nat × Member) : Snapshot (Json × List Json) := do
  let shown ← v.value n.2.value
  let edges ← (c.edgesFrom n.1).mapM fun e => edge v.value e.encode e.tie
  let notes := n.2.notes.toList.map Container.encodeNotes
  return (.arr ([.nat n.1, shown] ++ notes), edges)

/-- Everything about one container, its root included. -/
def inside (v : View) (c : Container) : Json :=
  let nodes := (c.graph.nodes.mapM (v.node c)).take
  .obj [
    ("frozen", .bool c.frozen),
    ("len", .nat c.size),
    ("empty", .bool (c.size == 0)),
    ("counts", .arr [.nat c.graph.nodeCount, .nat c.graph.edgeCount]),
    ("nodes", .arr (nodes.map (·.1))),
    ("edges", .arr (nodes.flatMap (·.2))),
    ("rules", .arr (c.rules.map fun r => .str (r.display v.store none)))]

end View

end GraphLang
