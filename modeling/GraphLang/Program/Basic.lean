import GraphLang.Program.Op
import GraphLang.Search
import GraphLang.SlotGraph.Dangling

/-!
# Programs

A program is one graph of nodes, with edges from parents to children that name the
role of the child, and a table of functions. Every node belongs to one function, and
function 0 is the program's own body.
-/

namespace GraphLang

/-- A place in a source text. -/
structure Location where
  /-- The line. -/
  line : Nat
  /-- The column. -/
  column : Nat
deriving Repr, DecidableEq, Inhabited

/-- The text of a place. -/
def Location.display (l : Location) : String := s!"{l.line}:{l.column}"

/-- A node of a program. -/
structure Node where
  /-- What it does. -/
  op : Op
  /-- The function it belongs to. -/
  owner : FunctionId
  /-- Where it came from, if that is known. -/
  location : Option Location
deriving Inhabited

/-- A function of a program. -/
structure FunctionDef where
  /-- The number of the function. -/
  id : FunctionId
  /-- Its name. -/
  name : String
  /-- The names of its parameters. -/
  params : List String
  /-- The root of its body, once it has one. -/
  body : Option Nat
  /-- The function it is defined in, if it is not the main one. -/
  parent : Option FunctionId
deriving Repr, DecidableEq, Inhabited

/-- The number of parameters. -/
def FunctionDef.arity (f : FunctionDef) : Nat := f.params.length

/-- The number of the main function. -/
def mainId : FunctionId := 0

/-- The name of the main function. -/
def mainName : String := "<main>"

/-- A table of functions, ascending by number. -/
abbrev FunctionTable := List (FunctionId × FunctionDef)

namespace FunctionTable

/-- The function under a number. -/
def get? (t : FunctionTable) (f : FunctionId) : Option FunctionDef :=
  match t with
  | [] => none
  | (id, d) :: rest => if id == f then some d else FunctionTable.get? rest f

/-- Puts a function under a number. -/
def insert (t : FunctionTable) (f : FunctionId) (d : FunctionDef) : FunctionTable :=
  match t with
  | [] => [(f, d)]
  | (id, old) :: rest =>
    if f < id then (f, d) :: (id, old) :: rest
    else if f == id then (f, d) :: rest
    else (id, old) :: FunctionTable.insert rest f d

/-- Removes the function under a number. -/
def erase (t : FunctionTable) (f : FunctionId) : FunctionTable := t.filter (·.1 != f)

/-- Changes the function under a number. -/
def modify (t : FunctionTable) (f : FunctionId) (change : FunctionDef → FunctionDef) :
    FunctionTable :=
  t.map fun (id, d) => if id == f then (id, change d) else (id, d)

end FunctionTable

/-- A program. -/
structure Program where
  /-- The name of the program. -/
  name : String
  /-- The nodes, and the edges from parents to children. -/
  graph : SlotGraph Node Role
  /-- The functions. -/
  functions : FunctionTable
  /-- The number of the next function. -/
  nextFunction : Nat
deriving Inhabited

/-- Why a program is malformed, or a step of building it fails. -/
inductive ConstructionError where
  /-- A required child is missing. -/
  | missingRole (node : Nat) (op : String) (role : Role) (location : Option Location)
  /-- A child has a role that the operation does not take. -/
  | unexpectedRole (node : Nat) (op : String) (role : Role) (location : Option Location)
  /-- Two children have one role. -/
  | duplicateRole (node : Nat) (role : Role) (location : Option Location)
  /-- The positions of indexed children have a gap. -/
  | gap (node : Nat) (expected : Role) (location : Option Location)
  /-- The number of indexed children is wrong. -/
  | childCount (node : Nat) (op : String) (expected actual : Nat) (location : Option Location)
  /-- A loop is left where there is none. -/
  | outsideLoop (node : Nat) (keyword : String) (location : Option Location)
  /-- The children form a cycle. -/
  | cycle (function : FunctionId) (node : Nat)
  /-- A node has several parents. -/
  | sharedChild (node : Nat)
  /-- Parent and child belong to different functions. -/
  | crossFunction (source target : Nat)
  /-- There is no such node. -/
  | unknownNode (node : Nat)
  /-- There is no such function. -/
  | unknownFunction (function : FunctionId)
  /-- A function has no body. -/
  | missingBody (function : FunctionId) (name : String)
  /-- A rule is malformed. -/
  | invalidRule (cause : SpecError) (location : Option Location)
deriving Inhabited

/-- How a message ends that knows a place. -/
def atLocation : Option Location → String
  | some l => " at " ++ l.display
  | none => ""

/-- The text of the error. -/
def ConstructionError.message : ConstructionError → String
  | .missingRole node op role l =>
    s!"{op} node {node} is missing its `{role.display}` edge" ++ atLocation l
  | .unexpectedRole node op role l =>
    s!"{op} node {node} does not accept a `{role.display}` edge" ++ atLocation l
  | .duplicateRole node role l =>
    s!"node {node} has more than one `{role.display}` edge" ++ atLocation l
  | .gap node expected l =>
    s!"node {node} has a gap in its indexed edges: expected `{expected.display}`" ++ atLocation l
  | .childCount node op expected actual l =>
    s!"{op} node {node} expects {expected} children, found {actual}" ++ atLocation l
  | .outsideLoop node keyword l => s!"`{keyword}` outside of a loop at node {node}" ++ atLocation l
  | .cycle function node => s!"structural cycle through node {node} in function {function}"
  | .sharedChild node => s!"node {node} is shared by more than one parent"
  | .crossFunction source target =>
    s!"edge from node {source} to node {target} crosses a function boundary"
  | .unknownNode node => s!"unknown node: ExecNodeId({node})"
  | .unknownFunction function => s!"unknown function: FunctionId({function})"
  | .missingBody _ name => s!"function '{name}' has no body"
  | .invalidRule cause l => "invalid rule: " ++ cause.message ++ atLocation l

/-- The name of the kind of error. -/
def ConstructionError.code : ConstructionError → String
  | .missingRole .. => "MissingRole"
  | .unexpectedRole .. => "UnexpectedRole"
  | .duplicateRole .. => "DuplicateRole"
  | .gap .. => "NonContiguousRoles"
  | .childCount .. => "ChildCountMismatch"
  | .outsideLoop .. => "LoopControlOutsideLoop"
  | .cycle .. => "CycleInBody"
  | .sharedChild _ => "SharedChild"
  | .crossFunction .. => "CrossFunctionEdge"
  | .unknownNode _ => "UnknownNode"
  | .unknownFunction _ => "UnknownFunction"
  | .missingBody .. => "MissingBody"
  | .invalidRule .. => "InvalidRule"

namespace Program

/-- A program with a main function that has no body yet. -/
def new (name : String) : Program :=
  ⟨name, .empty, [(mainId, ⟨mainId, mainName, [], none, none⟩)], 1⟩

/-- The function under a number. -/
def function? (p : Program) (f : FunctionId) : Option FunctionDef := p.functions.get? f

/-- The functions, ascending by number. -/
def functionDefs (p : Program) : List FunctionDef := p.functions.map (·.2)

/-- The node under a number. -/
def node? (p : Program) (n : Nat) : Option Node := p.graph.node? n

/-- What a node does. -/
def op? (p : Program) (n : Nat) : Option Op := (p.node? n).map (·.op)

/-- The numbers of the nodes, ascending. -/
def nodeIds (p : Program) : List Nat := p.graph.nodeIds

/-- Adds a function without a body under the next number. Numbers are words of 32 bits. -/
def pushFunction (p : Program) (name : String) (params : List String) (parent : FunctionId) :
    FunctionId × Program :=
  let id := p.nextFunction
  (id, { p with
    nextFunction := (id + 1) % UInt32.size
    functions := p.functions.insert id ⟨id, name, params, none, some parent⟩ })

/-- Adds a function to an existing one. -/
def addFunction (p : Program) (name : String) (params : List String) (parent : FunctionId) :
    Except ConstructionError (FunctionId × Program) :=
  match p.function? parent with
  | none => .error (.unknownFunction parent)
  | some _ => .ok (p.pushFunction name params parent)

/-- Makes a node the body of a function. -/
def setBody (p : Program) (f : FunctionId) (body : Nat) : Except ConstructionError Program :=
  if !p.graph.hasNode body then .error (.unknownNode body)
  else
    match p.function? f with
    | none => .error (.unknownFunction f)
    | some _ =>
      .ok { p with functions := p.functions.modify f fun d => { d with body := some body } }

/-- The nodes of a function, ascending. -/
def functionNodes (p : Program) (f : FunctionId) : List Nat :=
  p.nodeIds.filter fun n => ((p.node? n).map (·.owner)) == some f

/-- Removes nodes one after the other. -/
def removeNodes (p : Program) (nodes : List Nat) : Program :=
  { p with graph := nodes.foldl SlotGraph.removeNode p.graph }

/-- Removes a function with all of its nodes, and gives it. The main function stays. -/
def removeFunction (p : Program) (f : FunctionId) : Option FunctionDef × Program :=
  if f == mainId then (none, p)
  else
    let found := p.function? f
    let p := p.removeNodes (p.functionNodes f)
    (found, { p with functions := p.functions.erase f })

/-- Removes the nodes of a function and its body, builds a new body and sets it. The changed program
is given also where a step fails. -/
def rebuildFunction (p : Program) (f : FunctionId)
    (build : Program → Except ConstructionError Nat × Program) :
    Except ConstructionError Unit × Program :=
  match p.function? f with
  | none => (.error (.unknownFunction f), p)
  | some _ =>
    let p := p.removeNodes (p.functionNodes f)
    let p := { p with functions := p.functions.modify f fun d => { d with body := none } }
    match build p with
    | (.error e, p) => (.error e, p)
    | (.ok body, p) =>
      match p.setBody f body with
      | .error e => (.error e, p)
      | .ok p => (.ok (), p)

/-- Adds a node to a function. -/
def addNode (p : Program) (op : Op) (owner : FunctionId) (location : Option Location) :
    Except ConstructionError (Nat × Program) :=
  match p.function? owner with
  | none => .error (.unknownFunction owner)
  | some _ =>
    let (n, graph) := p.graph.occupy ⟨op, owner, location⟩
    .ok (n, { p with graph := graph })

/-- Makes a node the child of another one. -/
def connect (p : Program) (parent child : Nat) (role : Role) : Except ConstructionError Program :=
  if !p.graph.hasNode parent then .error (.unknownNode parent)
  else if !p.graph.hasNode child then .error (.unknownNode child)
  else .ok { p with graph := (p.graph.addEdge parent child role).2 }

/-- The newest edge from a parent with that role. -/
def roleEdge? (p : Program) (parent : Nat) (role : Role) : Option (Nat × Edge Role) :=
  (p.graph.outgoing parent).find? fun (_, edge) => edge.weight == role

/-- Takes the child with that role away from its parent, and gives it. -/
def disconnect (p : Program) (parent : Nat) (role : Role) : Option Nat × Program :=
  match p.roleEdge? parent role with
  | none => (none, p)
  | some (e, edge) => (some edge.target, { p with graph := p.graph.removeEdge e })

/-- Removes a node, and gives it. -/
def removeNode (p : Program) (n : Nat) : Option Node × Program :=
  (p.node? n, { p with graph := p.graph.removeNode n })

/-- Changes what a node does, and gives what it did. -/
def replaceOp (p : Program) (n : Nat) (op : Op) : Except ConstructionError (Op × Program) :=
  match p.op? n with
  | none => .error (.unknownNode n)
  | some old =>
    .ok (old, { p with graph := p.graph.modifyNode n fun node => { node with op := op } })

/-- The child with that role. -/
def child? (p : Program) (n : Nat) (role : Role) : Option Nat :=
  (p.roleEdge? n role).map (·.2.target)

/-- The children with their roles, by role; of two with one role the newer comes first. -/
def children (p : Program) (n : Nat) : List (Role × Nat) :=
  ((p.graph.outgoing n).map fun (_, edge) => (edge.weight, edge.target)).mergeSort
    fun a b => a.1.le b.1

/-- The children of one family of roles, by position. -/
def indexed (p : Program) (n : Nat) (family : Role) : List (Role × Nat) :=
  (p.children n).filter fun (role, _) => role.sameFamily family

/-- The parents of a node, with the role it has under each, newest edge first. -/
def parents (p : Program) (n : Nat) : List (Nat × Role) :=
  (p.graph.incoming n).map fun (_, edge) => (edge.source, edge.weight)

/-- The edges, by number: parent, child and role. -/
def edges (p : Program) : List (Nat × Nat × Role) :=
  p.graph.edgeList.map fun (_, edge) => (edge.source, edge.target, edge.weight)

/-- The nodes that can be reached from a node through children, each before its children, and the
children by role. -/
def subtree (p : Program) (n : Nat) : List Nat :=
  preorder (fun n => (p.children n).map (·.2)) p.graph.hasNode (p.graph.slots.size + 1) [n] ∅

/-- The functions that closures are made of in the body of a function, in the order of the body. -/
def nestedFunctions (p : Program) (f : FunctionId) : List FunctionId :=
  match (p.function? f).bind (·.body) with
  | none => []
  | some body =>
    (p.subtree body).filterMap fun n =>
      match p.op? n with
      | some (.function g) => some g
      | _ => none

/-- The name that an operation binds in the function it belongs to. -/
def boundName? : Op → Option String
  | .define name _ | .each name => some name
  | .guarded catchName => catchName
  | _ => none

/-- Adds a name to a list, unless it is bound or in it already. -/
def addFree (bound : List String) (free : List String) (name : String) : List String :=
  if bound.contains name || free.contains name then free else free ++ [name]

/-- The names that a function reads or writes and does not bind, in the order of its body, with
those of the functions made in it. A function that was visited before adds nothing; the functions
visited are given too. -/
def freeFrom (p : Program) : Nat → FunctionId → List FunctionId → List String × List FunctionId
  | 0, _, visited => ([], visited)
  | fuel + 1, f, visited =>
    if visited.contains f then ([], visited)
    else
      let visited := f :: visited
      match p.function? f with
      | none => ([], visited)
      | some d =>
        match d.body with
        | none => ([], visited)
        | some body =>
          let ops := (p.subtree body).filterMap p.op?
          let bound := d.params ++ ops.filterMap boundName?
          ops.foldl (fun (free, visited) op =>
            match op with
            | .var name | .assign name => (addFree bound free name, visited)
            | .function g =>
              let (inner, visited) := freeFrom p fuel g visited
              (inner.foldl (addFree bound) free, visited)
            | _ => (free, visited)) ([], visited)

/-- The names that a closure of the function captures. -/
def freeVariables (p : Program) (f : FunctionId) : List String :=
  (p.freeFrom (p.functions.length + 2) f []).1

end Program

end GraphLang
