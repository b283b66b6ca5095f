/-!
# Graphs with recycled slots

A directed graph whose nodes and edges live in numbered slots. Removing a node or
an edge vacates its slot, and the slot vacated last is the first one used again,
so numbers stay small and stay valid while the thing they name is there. Each node
lists its outgoing and its incoming edges, newest first.
-/

namespace GraphLang

/-- The place of one node: what it holds, if anything, and the edges at it, newest first. -/
structure Slot (α : Type) where
  /-- The content, or nothing in a vacant slot. -/
  weight : Option α
  /-- The edges that start here. -/
  outgoing : List Nat
  /-- The edges that end here. -/
  incoming : List Nat
deriving Inhabited

/-- An edge with its two ends. -/
structure Edge (β : Type) where
  /-- The node it starts at. -/
  source : Nat
  /-- The node it ends at. -/
  target : Nat
  /-- What the edge carries. -/
  weight : β
deriving Inhabited

/-- A directed graph with recycled slots. -/
structure SlotGraph (α β : Type) where
  /-- The node slots. -/
  slots : Array (Slot α)
  /-- The edge slots. -/
  edges : Array (Option (Edge β))
  /-- The vacant node slots, the one to use next at the front. -/
  vacantNodes : List Nat
  /-- The vacant edge slots, the one to use next at the front. -/
  vacantEdges : List Nat
deriving Inhabited

namespace SlotGraph

variable {α β : Type}

/-- The graph without nodes. -/
def empty : SlotGraph α β := ⟨#[], #[], [], []⟩

/-- The content of a node. -/
def node? (g : SlotGraph α β) (n : Nat) : Option α :=
  match g.slots[n]? with
  | some slot => slot.weight
  | none => none

/-- Whether there is a node of that number. -/
def hasNode (g : SlotGraph α β) (n : Nat) : Bool := (g.node? n).isSome

/-- The edge of that number. -/
def edge? (g : SlotGraph α β) (e : Nat) : Option (Edge β) :=
  match g.edges[e]? with
  | some edge => edge
  | none => none

/-- The slot of a node, unless it is vacant. -/
def occupied? (g : SlotGraph α β) (n : Nat) : Option (Slot α) :=
  g.slots[n]?.filter (·.weight.isSome)

/-- The numbers of the edges that start at a node, newest first. A vacant slot has none, even where
an edge says that it starts there. -/
def outgoingIds (g : SlotGraph α β) (n : Nat) : List Nat :=
  match g.occupied? n with
  | some slot => slot.outgoing
  | none => []

/-- The numbers of the edges that end at a node, newest first. A vacant slot has none, even where
an edge says that it ends there. -/
def incomingIds (g : SlotGraph α β) (n : Nat) : List Nat :=
  match g.occupied? n with
  | some slot => slot.incoming
  | none => []

/-- Pairs each edge number with its edge. -/
def edgesOf (g : SlotGraph α β) (ids : List Nat) : List (Nat × Edge β) :=
  ids.filterMap fun e => (g.edge? e).map fun edge => (e, edge)

/-- The edges that start at a node, newest first. -/
def outgoing (g : SlotGraph α β) (n : Nat) : List (Nat × Edge β) := g.edgesOf (g.outgoingIds n)

/-- The edges that end at a node, newest first. -/
def incoming (g : SlotGraph α β) (n : Nat) : List (Nat × Edge β) := g.edgesOf (g.incomingIds n)

/-- The nodes that edges from this one lead to, newest edge first. -/
def successors (g : SlotGraph α β) (n : Nat) : List Nat := (g.outgoing n).map (·.2.target)

/-- The nodes that edges to this one come from, newest edge first. -/
def predecessors (g : SlotGraph α β) (n : Nat) : List Nat := (g.incoming n).map (·.2.source)

/-- The numbers of the nodes, ascending. -/
def nodeIds (g : SlotGraph α β) : List Nat := (List.range g.slots.size).filter g.hasNode

/-- One more than the number of the last node. -/
def nodeBound (g : SlotGraph α β) : Nat := (g.nodeIds.getLast?.map (· + 1)).getD 0

/-- The nodes with their numbers, ascending. -/
def nodes (g : SlotGraph α β) : List (Nat × α) :=
  (List.range g.slots.size).filterMap fun n => (g.node? n).map fun w => (n, w)

/-- The edges with their numbers, ascending. -/
def edgeList (g : SlotGraph α β) : List (Nat × Edge β) := g.edgesOf (List.range g.edges.size)

/-- The number of nodes. -/
def nodeCount (g : SlotGraph α β) : Nat :=
  g.slots.foldl (fun n s => if s.weight.isSome then n + 1 else n) 0

/-- The number of edges. -/
def edgeCount (g : SlotGraph α β) : Nat :=
  g.edges.foldl (fun n e => if e.isSome then n + 1 else n) 0

/-- Adds a node and gives its number. -/
def addNode (g : SlotGraph α β) (w : α) : Nat × SlotGraph α β :=
  match g.vacantNodes with
  | n :: rest =>
    (n, { g with slots := g.slots.setIfInBounds n ⟨some w, [], []⟩, vacantNodes := rest })
  | [] => (g.slots.size, { g with slots := g.slots.push ⟨some w, [], []⟩ })

/-- Puts an edge number at the front of the lists of its two ends. -/
def linkEnds (slots : Array (Slot α)) (e source target : Nat) : Array (Slot α) :=
  (slots.modify source fun s => { s with outgoing := e :: s.outgoing }).modify target
    fun s => { s with incoming := e :: s.incoming }

/-- Adds an edge between two nodes and gives its number. -/
def addEdge (g : SlotGraph α β) (source target : Nat) (w : β) : Nat × SlotGraph α β :=
  match g.vacantEdges with
  | e :: rest =>
    (e, { g with
      slots := linkEnds g.slots e source target
      edges := g.edges.setIfInBounds e (some ⟨source, target, w⟩)
      vacantEdges := rest })
  | [] =>
    (g.edges.size, { g with
      slots := linkEnds g.slots g.edges.size source target
      edges := g.edges.push (some ⟨source, target, w⟩) })

/-- Takes an edge number out of the lists of its two ends. -/
def unlinkEnds (slots : Array (Slot α)) (e source target : Nat) : Array (Slot α) :=
  (slots.modify source fun s => { s with outgoing := s.outgoing.erase e }).modify target
    fun s => { s with incoming := s.incoming.erase e }

/-- Removes an edge, if it is there. -/
def removeEdge (g : SlotGraph α β) (e : Nat) : SlotGraph α β :=
  match g.edge? e with
  | none => g
  | some edge =>
    { g with
      slots := unlinkEnds g.slots e edge.source edge.target
      edges := g.edges.setIfInBounds e none
      vacantEdges := e :: g.vacantEdges }

/-- Empties the slot of a node. -/
def vacate (slots : Array (Slot α)) (n : Nat) : Array (Slot α) :=
  slots.setIfInBounds n ⟨none, [], []⟩

/-- Removes a node, if it is there: first the edges that start at it, newest first, then those that
end at it, and last the node. -/
def removeNode (g : SlotGraph α β) (n : Nat) : SlotGraph α β :=
  match g.node? n with
  | none => g
  | some _ =>
    let g := (g.outgoingIds n).foldl removeEdge g
    let g := (g.incomingIds n).foldl removeEdge g
    { g with
      slots := vacate g.slots n
      vacantNodes := n :: g.vacantNodes }

/-- Replaces the content of a node, if it is there. -/
def modifyNode (g : SlotGraph α β) (n : Nat) (f : α → α) : SlotGraph α β :=
  { g with slots := g.slots.modify n fun s => { s with weight := s.weight.map f } }

/-- Replaces the contents of all nodes. -/
def mapNodes (g : SlotGraph α β) (f : α → α) : SlotGraph α β :=
  { g with slots := g.slots.map fun s => { s with weight := s.weight.map f } }

end SlotGraph

end GraphLang
