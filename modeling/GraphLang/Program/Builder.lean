import GraphLang.Program.Basic

/-!
# Building programs

A program is built from the leaves up: children first, then the node that takes
them. Building never fails; a child that is no node leaves its role empty, which
validation then finds.
-/

namespace GraphLang

/-- The state of building the body of one function. -/
structure Builder where
  /-- The program so far. -/
  program : Program
  /-- The function that new nodes belong to. -/
  function : FunctionId
  /-- The place that new nodes come from. -/
  location : Option Location
deriving Inhabited

/-- A step of building. -/
abbrev Build := StateM Builder

namespace Build

/-- Sets the place that nodes come from, from now on. -/
def at_ (line column : Nat) : Build Unit :=
  modify fun b => { b with location := some ⟨line, column⟩ }

/-- Adds an edge if both of its ends are there. -/
def attachChild (graph : SlotGraph Node Role) (parent : Nat) (child : Role × Nat) :
    SlotGraph Node Role :=
  if graph.hasNode parent && graph.hasNode child.2 then (graph.addEdge parent child.2 child.1).2
  else graph

/-- Adds a node with the given children. -/
def node (op : Op) (children : List (Role × Nat)) : Build Nat :=
  modifyGet fun b =>
    let (n, graph) := b.program.graph.occupy ⟨op, b.function, b.location⟩
    let graph := children.foldl (attachChild · n) graph
    (n, { b with program := { b.program with graph := graph } })

/-- Children by position. Positions are words of 16 bits. -/
def byPosition (role : Nat → Role) (nodes : List Nat) : List (Role × Nat) :=
  nodes.mapIdx fun i n => (role (i % UInt16.size), n)

/-- A scalar. -/
def literal (l : Literal) : Build Nat := node (.literal l) []

/-- A list of elements. -/
def list (elements : List Nat) : Build Nat := node .list (byPosition .element elements)

/-- A map of entries. -/
def map (entries : List (Literal × Nat)) : Build Nat :=
  node (.map (entries.map (·.1))) (byPosition .element (entries.map (·.2)))

/-- Reads a variable. -/
def var (name : String) : Build Nat := node (.var name) []

/-- Defines a variable that can be written. -/
def define (name : String) (value : Nat) : Build Nat := node (.define name true) [(.value, value)]

/-- Defines a variable that cannot be written. -/
def defineConst (name : String) (value : Nat) : Build Nat :=
  node (.define name false) [(.value, value)]

/-- Writes a variable. -/
def assign (name : String) (value : Nat) : Build Nat := node (.assign name) [(.value, value)]

/-- An operator with two operands. -/
def binary (op : BinaryOp) (left right : Nat) : Build Nat :=
  node (.binary op) [(.left, left), (.right, right)]

/-- An operator with one operand. -/
def unary (op : UnaryOp) (operand : Nat) : Build Nat := node (.unary op) [(.operand, operand)]

/-- A connective. -/
def logical (op : LogicalOp) (left right : Nat) : Build Nat :=
  node (.logical op) [(.left, left), (.right, right)]

/-- A call. -/
def call (callee : Nat) (args : List Nat) : Build Nat :=
  node .call (byPosition .argument args ++ [(.callee, callee)])

/-- A call of the function that a variable holds. -/
def callNamed (name : String) (args : List Nat) : Build Nat := do
  let callee ← var name
  call callee args

/-- Adds a function to the current one, builds its body, and gives the node that makes its
closure. -/
def function (name : String) (params : List String) (body : Build Nat) : Build Nat := do
  let outer ← get
  let (id, program) := outer.program.pushFunction name params outer.function
  let (root, inner) := body.run ⟨program, id, outer.location⟩
  let program := match inner.program.setBody id root with
    | .ok program => program
    | .error _ => inner.program
  set { outer with program := program }
  node (.function id) []

/-- A function under a variable of its name. -/
def def_ (name : String) (params : List String) (body : Build Nat) : Build Nat := do
  let closure ← function name params body
  define name closure

/-- Children that may be missing. -/
def optional (role : Role) : Option Nat → List (Role × Nat)
  | some n => [(role, n)]
  | none => []

/-- Leaves the function. -/
def leave (value : Option Nat) : Build Nat := node .leave (optional .value value)

/-- One branch or the other. -/
def branch (condition whenTrue : Nat) (whenFalse : Option Nat) : Build Nat :=
  node .branch ([(.condition, condition), (.whenTrue, whenTrue)] ++ optional .whenFalse whenFalse)

/-- Repeats a body while a condition holds. -/
def loop (condition body : Nat) : Build Nat :=
  node .loop [(.condition, condition), (.body, body)]

/-- Runs a body for each item. -/
def each (name : String) (items body : Nat) : Build Nat :=
  node (.each name) [(.target, items), (.body, body)]

/-- Raises an exception. -/
def raise (value : Nat) : Build Nat := node .raise [(.value, value)]

/-- A body with a handler, with a closing part, or with both. -/
def guarded (body : Nat) (catchName : Option String) (handler finalizer : Option Nat) : Build Nat :=
  node (.guarded catchName)
    ([(.body, body)] ++ optional .handler handler ++ optional .finalizer finalizer)

/-- Statements in a scope of their own. -/
def block (statements : List Nat) : Build Nat := node .block (byPosition .statement statements)

/-- Reads a member. -/
def index (target position : Nat) : Build Nat :=
  node .index [(.target, target), (.index, position)]

/-- Writes a member. -/
def setIndex (target position value : Nat) : Build Nat :=
  node .setIndex [(.target, target), (.index, position), (.value, value)]

/-- Appends to a list. -/
def append (target value : Nat) : Build Nat := node .append [(.target, target), (.value, value)]

/-- Removes a member. -/
def removeAt (target position : Nat) : Build Nat :=
  node .removeAt [(.target, target), (.index, position)]

/-- Attaches a rule. -/
def addRule (target : Nat) (rule : RuleSpec) (args : List Nat) : Build Nat :=
  node (.addRule rule) (byPosition .argument args ++ [(.target, target)])

/-- Defines a ruleset. -/
def defineRuleset (name : String) (rules : List RuleSpec) (args : List Nat) : Build Nat :=
  node (.defineRuleset name rules) (byPosition .argument args)

/-- Attaches the rules of a ruleset. -/
def applyRuleset (name : String) (target : Nat) : Build Nat :=
  node (.applyRuleset name) [(.target, target)]

/-- Freezes a container. -/
def freeze (target : Nat) : Build Nat := node .freeze [(.target, target)]

/-- Makes an empty user graph. -/
def newGraph (kind : String) : Build Nat := node (.newGraph kind) []

/-- Adds a member to a user graph, perhaps with a link from another member. -/
def addMember (target value : Nat) (parent : Option (Nat × String)) : Build Nat :=
  node (.addMember (parent.map (·.2)))
    ([(.target, target), (.value, value)] ++ optional .left (parent.map (·.1)))

/-- Adds a link between members. -/
def link (target source end_ : Nat) (name : String) (data : Option Nat) : Build Nat :=
  node (.link name)
    ([(.target, target), (.left, source), (.right, end_)] ++ optional .value data)

end Build

namespace Program

/-- Builds nodes of the main function; gives the node that stands for them. -/
def buildMain (p : Program) (body : Build Nat) : Nat × Program :=
  let (root, b) := body.run ⟨p, mainId, none⟩
  (root, b.program)

/-- Builds nodes of an existing function; gives the node that stands for them. -/
def buildIn (p : Program) (f : FunctionId) (body : Build Nat) :
    Except ConstructionError (Nat × Program) :=
  match p.function? f with
  | none => .error (.unknownFunction f)
  | some _ =>
    let (root, b) := body.run ⟨p, f, none⟩
    .ok (root, b.program)

/-- A program of that name with the given body. -/
def ofBody (name : String) (body : Build Nat) : Except ConstructionError Program :=
  let (root, p) := (Program.new name).buildMain body
  p.setBody mainId root

end Program

end GraphLang
