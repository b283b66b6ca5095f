import GraphLang.Rule.Basic
import GraphLang.SlotGraph.Basic

/-!
# Containers

Lists, maps and user graphs are one structure: a graph whose node 0 is the
container itself. Membership is an edge out of that root: an element of a list, a
keyed entry of a map, or a plain member of a user graph. User graphs also have
named links between members. Every edge carries the number of edges made before
it, and the edges at a node are listed in that order.
-/

namespace GraphLang

/-- What a container is to a program. -/
inductive Kind where
  /-- A sequence of elements. -/
  | list
  /-- A sequence of entries with distinct keys. -/
  | map
  /-- A graph of a named type. -/
  | user (name : String)
deriving Repr, DecidableEq, Inhabited

/-- What an edge of a container means. -/
inductive Label where
  /-- From the root to an element of a list. -/
  | element
  /-- From the root to the value under a key. -/
  | entry (key : Key)
  /-- From the root to a member of a user graph. -/
  | contains
  /-- From one member to another. -/
  | link (name : String)
deriving DecidableEq, Inhabited

namespace Label

/-- Whether the edge is a link between members. -/
def isLink : Label → Bool
  | .link _ => true
  | _ => false

/-- The text of a label. -/
def display : Label → String
  | .element => "element"
  | .entry key => "entry(" ++ key.display ++ ")"
  | .contains => "contains"
  | .link name => "link(" ++ name ++ ")"

end Label

/-- A member: its value, and notes about it if there are any. -/
structure Member where
  /-- The value. -/
  value : Value
  /-- Named notes, in the order of their first writing. -/
  notes : Option (List (String × String))
deriving Inhabited

/-- What an edge of a container carries. -/
structure Tie where
  /-- What the edge means. -/
  label : Label
  /-- A value attached to the edge. -/
  data : Option Value
  /-- How many edges were made before this one. -/
  seq : Nat
deriving Inhabited

/-- Why a change of a container fails. -/
inductive ContainerError where
  /-- There is no node of that number. -/
  | unknownNode (node : Nat)
  /-- There is no edge of that number. -/
  | unknownEdge (edge : Nat)
  /-- The container is frozen. -/
  | frozen
  /-- The root cannot be removed. -/
  | protectedRoot
deriving Repr, DecidableEq, Inhabited

/-- The text of the error. -/
def ContainerError.message : ContainerError → String
  | .unknownNode n => s!"unknown node: NodeId({n})"
  | .unknownEdge e => s!"unknown edge: EdgeId({e})"
  | .frozen => "graph is frozen"
  | .protectedRoot => "the container root cannot be removed"

/-- The name of the kind of error. -/
def ContainerError.code : ContainerError → String
  | .unknownNode _ => "UnknownNode"
  | .unknownEdge _ => "UnknownEdge"
  | .frozen => "Frozen"
  | .protectedRoot => "ProtectedRoot"

/-- A list, a map or a user graph. -/
structure Container where
  /-- What the container is to a program. -/
  kind : Kind
  /-- The root, the members and the edges. -/
  graph : SlotGraph Member Tie
  /-- The rules, in the order of attachment. -/
  rules : List Rule
  /-- Whether the container can no longer change. -/
  frozen : Bool
  /-- How many edges were made. -/
  nextSeq : Nat
deriving Inhabited

namespace Container

/-- The number of the root node. -/
def root : Nat := 0

/-- An empty container. -/
def new (kind : Kind) : Container :=
  ⟨kind, (SlotGraph.empty.addNode ⟨.nil, none⟩).2, [], false, 0⟩

/-- Adds an edge between two nodes and gives its number. -/
def connect (c : Container) (source target : Nat) (label : Label) (data : Option Value) :
    Nat × Container :=
  let (edge, graph) := c.graph.addEdge source target ⟨label, data, c.nextSeq⟩
  (edge, { c with graph := graph, nextSeq := c.nextSeq + 1 })

/-- Adds a member under the root, whatever the rules say, and gives its number. -/
def attach (c : Container) (label : Label) (value : Value) : Nat × Container :=
  let (node, graph) := c.graph.addNode ⟨value, none⟩
  let (_, c) := { c with graph := graph }.connect root node label none
  (node, c)

/-- An edge as queries show it. -/
structure EdgeView where
  /-- The number of the edge. -/
  id : Nat
  /-- The node it starts at. -/
  source : Nat
  /-- The node it ends at. -/
  target : Nat
  /-- What it carries. -/
  tie : Tie
deriving Inhabited

/-- Numbered edges as queries show them, in the order in which they were made. -/
def viewed (edges : List (Nat × Edge Tie)) : List EdgeView :=
  (edges.map fun (id, edge) => ⟨id, edge.source, edge.target, edge.weight⟩).mergeSort
    fun a b => a.tie.seq ≤ b.tie.seq

/-- The edges that start at a node, oldest first. -/
def edgesFrom (c : Container) (node : Nat) : List EdgeView :=
  if c.graph.hasNode node then viewed (c.graph.outgoing node) else []

/-- The edges that end at a node, oldest first. -/
def edgesTo (c : Container) (node : Nat) : List EdgeView :=
  if c.graph.hasNode node then viewed (c.graph.incoming node) else []

/-- The value of a node. -/
def value? (c : Container) (node : Nat) : Option Value := (c.graph.node? node).map (·.value)

/-- The member nodes, oldest first. -/
def members (c : Container) : List Nat :=
  ((c.edgesFrom root).filter fun view => !view.tie.label.isLink).map (·.target)

/-- The number of members. -/
def size (c : Container) : Nat := c.members.length

/-- The member values, oldest first. -/
def memberValues (c : Container) : List Value := c.members.filterMap c.value?

/-- The nodes of the list elements, in order. -/
def elementNodes (c : Container) : List Nat :=
  ((c.edgesFrom root).filter fun view => view.tie.label == .element).map (·.target)

/-- The list elements, in order. -/
def elements (c : Container) : List Value := c.elementNodes.filterMap c.value?

/-- The node of a list element. -/
def elementNode? (c : Container) (index : Nat) : Option Nat := c.elementNodes[index]?

/-- A list element. -/
def element? (c : Container) (index : Nat) : Option Value := (c.elementNode? index).bind c.value?

/-- The node of a map entry. -/
def entryNode? (c : Container) (key : Key) : Option Nat :=
  ((c.edgesFrom root).find? fun view => view.tie.label == .entry key).map (·.target)

/-- The value under a key. -/
def entry? (c : Container) (key : Key) : Option Value := (c.entryNode? key).bind c.value?

/-- The map entries, oldest first. -/
def entries (c : Container) : List (Key × Value) :=
  (c.edgesFrom root).filterMap fun view =>
    match view.tie.label with
    | .entry key => (c.value? view.target).map fun value => (key, value)
    | _ => none

/-- The keys of a map, oldest first. -/
def keys (c : Container) : List Key := c.entries.map (·.1)

/-- The links, oldest first, with their ends and names. -/
def links (c : Container) : List (Nat × Nat × String) :=
  let found := c.graph.edgeList.filterMap fun (_, edge) =>
    match edge.weight.label with
    | .link name => some (edge.weight.seq, edge.source, edge.target, name)
    | _ => none
  (found.mergeSort fun a b => a.1 ≤ b.1).map (·.2)

/-- The members that no link leads to, oldest first. -/
def linkRoots (c : Container) : List Nat :=
  c.members.filter fun m => (c.graph.incoming m).all fun (_, edge) => !edge.weight.label.isLink

/-- The notes about a node. -/
def notes? (c : Container) (node : Nat) : Option (List (String × String)) :=
  (c.graph.node? node).bind (·.notes)

/-- A list of the given elements. -/
def ofElements (values : List Value) : Container :=
  values.foldl (fun c value => (c.attach .element value).2) (new .list)

/-- Replaces the value of a node. -/
def putValue (c : Container) (node : Nat) (value : Value) : Container :=
  { c with graph := c.graph.modifyNode node fun m => { m with value := value } }

/-- Puts a value under a key, in the place of an earlier one. -/
def putEntry (c : Container) (key : Key) (value : Value) : Container :=
  match c.entryNode? key with
  | some node => c.putValue node value
  | none => (c.attach (.entry key) value).2

/-- A map of the given entries; a later value of the same key takes the place of the earlier one. -/
def ofEntries (entries : List (Key × Value)) : Container :=
  entries.foldl (fun c entry => c.putEntry entry.1 entry.2) (new .map)

/-- Fails on a frozen container. -/
def ensureMutable (c : Container) : Except ContainerError Unit :=
  if c.frozen then .error .frozen else .ok ()

/-- Fails where there is no such node. -/
def ensureNode (c : Container) (node : Nat) : Except ContainerError Unit :=
  if c.graph.hasNode node then .ok () else .error (.unknownNode node)

/-- Adds a node that is no member. -/
def addNode (c : Container) (value : Value) : Except ContainerError (Nat × Container) := do
  c.ensureMutable
  let (node, graph) := c.graph.addNode ⟨value, none⟩
  return (node, { c with graph := graph })

/-- Adds an edge, if both nodes are there. -/
def addEdge (c : Container) (source target : Nat) (label : Label) (data : Option Value) :
    Except ContainerError (Nat × Container) := do
  c.ensureMutable
  c.ensureNode source
  c.ensureNode target
  return c.connect source target label data

/-- Removes a node with every edge at it and gives its value. -/
def removeNode (c : Container) (node : Nat) : Except ContainerError (Value × Container) := do
  c.ensureMutable
  if node == root then .error .protectedRoot
  else
    match c.graph.node? node with
    | none => .error (.unknownNode node)
    | some m => return (m.value, { c with graph := c.graph.removeNode node })

/-- Removes an edge and gives what it carried. -/
def removeEdge (c : Container) (edge : Nat) : Except ContainerError (Tie × Container) := do
  c.ensureMutable
  match c.graph.edge? edge with
  | none => .error (.unknownEdge edge)
  | some found => return (found.weight, { c with graph := c.graph.removeEdge edge })

/-- Replaces the value of a node and gives the old one. -/
def setValue (c : Container) (node : Nat) (value : Value) :
    Except ContainerError (Value × Container) := do
  c.ensureMutable
  match c.graph.node? node with
  | none => .error (.unknownNode node)
  | some m => return (m.value, c.putValue node value)

/-- Writes a note into a list of notes, in the place of the one of the same name. -/
def writeNote (notes : List (String × String)) (key value : String) : List (String × String) :=
  if notes.any (·.1 == key) then notes.map fun note => if note.1 == key then (key, value) else note
  else notes ++ [(key, value)]

/-- Writes a note about a node. -/
def setNote (c : Container) (node : Nat) (key value : String) :
    Except ContainerError Container := do
  c.ensureMutable
  c.ensureNode node
  return { c with
    graph := c.graph.modifyNode node fun m =>
      { m with notes := some (writeNote (m.notes.getD []) key value) } }

/-- Adds a member under the root. -/
def addMember (c : Container) (label : Label) (value : Value) :
    Except ContainerError (Nat × Container) := do
  c.ensureMutable
  return c.attach label value

/-- Attaches a rule after the others. -/
def pushRule (c : Container) (rule : Rule) : Except ContainerError Container := do
  c.ensureMutable
  return { c with rules := c.rules ++ [rule] }

/-- The container, frozen. -/
def freeze (c : Container) : Container := { c with frozen := true }

/-- Every value that the container holds: of its members, on the edges from its members, and in its
rules. -/
def heldValues (c : Container) : List Value :=
  c.memberValues ++ (c.members.flatMap fun m => (c.edgesFrom m).filterMap (·.tie.data)) ++
    c.rules.flatMap Rule.callbacks

end Container

end GraphLang
