import GraphLang.Eval.Fault
import GraphLang.SlotGraph.Basic
import Std.Data.HashMap.Basic

/-!
# Scopes

Scopes, variables, bound values and closures are the nodes of one graph. A scope
leads to its parent and to the variables it declares, a variable leads to its value,
and a closure leads to the scope it was made in and to the variables it captured.
Writing a variable replaces its value node and keeps the variable, so every closure
that captured it sees the new value. Leaving a scope only marks it.
-/

namespace GraphLang

/-- The number of a scope. -/
abbrev ScopeId := Nat

/-- The number of a variable. -/
abbrev VarId := Nat

/-- What opened a scope. -/
inductive ScopeKind where
  /-- The natives. -/
  | prelude
  /-- A unit. -/
  | module
  /-- A call. -/
  | function
  /-- A block. -/
  | block
  /-- One iteration of a loop over items. -/
  | loop
  /-- A handler. -/
  | catch
deriving Repr, DecidableEq, Inhabited

/-- A node of the scope graph. -/
inductive ScopeNode where
  /-- A scope, and whether it is still open. -/
  | scope (kind : ScopeKind) (active : Bool)
  /-- A variable, and whether it can be written. -/
  | variable (name : String) (mutable : Bool)
  /-- The value of a variable. -/
  | binding (value : Value)
  /-- A closure of the function of that name. -/
  | closure (name : String)
deriving Inhabited

/-- Marks a scope as left. -/
def ScopeNode.leave : ScopeNode → ScopeNode
  | .scope kind _ => .scope kind false
  | other => other

/-- Lets a variable be written, or not. -/
def ScopeNode.withMutable (mutable : Bool) : ScopeNode → ScopeNode
  | .variable name _ => .variable name mutable
  | other => other

/-- An edge of the scope graph. -/
inductive ScopeEdge where
  /-- From a scope to the one around it. -/
  | parent
  /-- From a scope to a variable it declares. -/
  | contains
  /-- From a variable to its value. -/
  | bindsTo
  /-- From a closure to its scope and to captured variables, or from a scope to an imported
  variable. -/
  | captures
deriving Repr, DecidableEq, Inhabited

/-- The name of a kind of edge. -/
def ScopeEdge.display : ScopeEdge → String
  | .parent => "parent"
  | .contains => "contains"
  | .bindsTo => "binds_to"
  | .captures => "captures"

/-- The scopes of a run. -/
structure Scopes where
  /-- Scopes, variables, values and closures. -/
  graph : SlotGraph ScopeNode ScopeEdge
  /-- The variables by scope and name. -/
  declared : Std.HashMap (ScopeId × String) VarId
deriving Inhabited

namespace Scopes

/-- No scopes. -/
def empty : Scopes := ⟨.empty, ∅⟩

/-- Whether there is a scope of that number. -/
def isScope (s : Scopes) (scope : ScopeId) : Bool :=
  match s.graph.node? scope with
  | some (.scope ..) => true
  | _ => false

/-- Fails where there is no such scope. -/
def ensureScope (s : Scopes) (scope : ScopeId) : Except BindingError Unit :=
  if s.isScope scope then .ok () else .error (.unknownScope scope)

/-- Opens a scope without a parent. -/
def pushRoot (s : Scopes) (kind : ScopeKind) : ScopeId × Scopes :=
  let (scope, graph) := s.graph.addNode (.scope kind true)
  (scope, { s with graph := graph })

/-- Opens a scope inside another one. -/
def push (s : Scopes) (parent : ScopeId) (kind : ScopeKind) :
    Except BindingError ScopeId × Scopes :=
  if s.isScope parent then
    let (scope, graph) := s.graph.addNode (.scope kind true)
    (.ok scope, { s with graph := (graph.addEdge scope parent .parent).2 })
  else (.error (.unknownScope parent), s)

/-- Leaves a scope. Nothing is removed. -/
def pop (s : Scopes) (scope : ScopeId) : Except BindingError Unit × Scopes :=
  if s.isScope scope then
    (.ok (), { s with graph := s.graph.modifyNode scope ScopeNode.leave })
  else (.error (.unknownScope scope), s)

/-- Whether a scope is open. -/
def isActive (s : Scopes) (scope : ScopeId) : Bool :=
  match s.graph.node? scope with
  | some (.scope _ active) => active
  | _ => false

/-- What opened a scope. -/
def kind? (s : Scopes) (scope : ScopeId) : Option ScopeKind :=
  match s.graph.node? scope with
  | some (.scope kind _) => some kind
  | _ => none

/-- The newest edge of a kind from a node. -/
def firstEdge? (graph : SlotGraph ScopeNode ScopeEdge) (node : Nat) (kind : ScopeEdge) :
    Option (Nat × Edge ScopeEdge) :=
  (graph.outgoing node).find? fun (_, edge) => edge.weight == kind

/-- The scope around a scope. -/
def parent? (s : Scopes) (scope : ScopeId) : Option ScopeId :=
  (firstEdge? s.graph scope .parent).map (·.2.target)

/-- The scopes from one outward, so many at most. -/
def chain (s : Scopes) : Nat → ScopeId → List ScopeId
  | 0, _ => []
  | fuel + 1, scope =>
    scope ::
      (match s.parent? scope with
      | some parent => chain s fuel parent
      | none => [])

/-- The scopes from one outward. -/
def ancestry (s : Scopes) (scope : ScopeId) : List ScopeId := s.chain (s.graph.slots.size + 1) scope

/-- How many scopes lie around a scope. -/
def depth (s : Scopes) (scope : ScopeId) : Nat := (s.ancestry scope).length - 1

/-- The name of a variable. -/
def variableName? (s : Scopes) (var : VarId) : Option String :=
  match s.graph.node? var with
  | some (.variable name _) => some name
  | _ => none

/-- Whether a variable can be written. -/
def isMutable? (s : Scopes) (var : VarId) : Option Bool :=
  match s.graph.node? var with
  | some (.variable _ mutable) => some mutable
  | _ => none

/-- The value of a variable. -/
def valueOf? (s : Scopes) (var : VarId) : Option Value :=
  match firstEdge? s.graph var .bindsTo with
  | some (_, edge) =>
    match s.graph.node? edge.target with
    | some (.binding value) => some value
    | _ => none
  | none => none

/-- Adds a value node and leads a variable to it. -/
def bind (graph : SlotGraph ScopeNode ScopeEdge) (var : VarId) (value : Value) :
    SlotGraph ScopeNode ScopeEdge :=
  let (binding, graph) := graph.addNode (.binding value)
  (graph.addEdge var binding .bindsTo).2

/-- Removes the value node of a variable. -/
def unbind (graph : SlotGraph ScopeNode ScopeEdge) (var : VarId) : SlotGraph ScopeNode ScopeEdge :=
  match firstEdge? graph var .bindsTo with
  | some (e, edge) => (graph.removeEdge e).removeNode edge.target
  | none => graph

/-- Replaces the value of a variable. -/
def rebind (s : Scopes) (var : VarId) (value : Value) : Except BindingError Unit × Scopes :=
  match s.variableName? var with
  | none => (.error (.unknownVariable var), s)
  | some _ => (.ok (), { s with graph := bind (unbind s.graph var) var value })

/-- Adds a variable to a scope. -/
def declare (s : Scopes) (scope : ScopeId) (name : String) (value : Value) (mutable : Bool) :
    VarId × Scopes :=
  let (var, graph) := s.graph.addNode (.variable name mutable)
  let (_, graph) := graph.addEdge scope var .contains
  (var, ⟨bind graph var value, s.declared.insert (scope, name) var⟩)

/-- Gives a variable that was declared before a new value. -/
def redefine (s : Scopes) (var : VarId) (value : Value) (mutable : Bool) :
    Except BindingError VarId × Scopes :=
  let graph := s.graph.modifyNode var (ScopeNode.withMutable mutable)
  let (result, s) := ({ s with graph := graph } : Scopes).rebind var value
  (result.map fun _ => var, s)

/-- Defines a variable in a scope. A variable of that name in the same scope is used again, unless
it cannot be written. -/
def define (s : Scopes) (scope : ScopeId) (name : String) (value : Value) (mutable : Bool) :
    Except BindingError VarId × Scopes :=
  if !s.isScope scope then (.error (.unknownScope scope), s)
  else
    match s.declared[(scope, name)]? with
    | some var =>
      if s.isMutable? var == some false then (.error (.immutable name), s)
      else s.redefine var value mutable
    | none =>
      let (var, s) := s.declare scope name value mutable
      (.ok var, s)

/-- The variable of a name that was imported into a scope. -/
def imported? (s : Scopes) (scope : ScopeId) (name : String) : Option VarId :=
  ((s.graph.outgoing scope).find? fun (_, edge) =>
    edge.weight == .captures && s.variableName? edge.target == some name).map (·.2.target)

/-- The variable of a name that a scope declares, or else one that was imported into it. -/
def localVar? (s : Scopes) (name : String) (scope : ScopeId) : Option VarId :=
  match s.declared[(scope, name)]? with
  | some var => some var
  | none => s.imported? scope name

/-- The variable of a name that can be seen from a scope, so many scopes outward at most. -/
def lookup? (s : Scopes) (name : String) : Nat → ScopeId → Option VarId
  | 0, _ => none
  | fuel + 1, scope =>
    match s.localVar? name scope with
    | some var => some var
    | none =>
      match s.parent? scope with
      | some parent => lookup? s name fuel parent
      | none => none

/-- The variable of a name that can be seen from a scope: the scope's own, or else one of the
nearest scope around it. -/
def resolve (s : Scopes) (scope : ScopeId) (name : String) :
    Except BindingError (Option VarId) := do
  s.ensureScope scope
  return s.lookup? name (s.graph.slots.size + 1) scope

/-- The variable of a name that can be seen from a scope, or a failure. -/
def find (s : Scopes) (scope : ScopeId) (name : String) : Except BindingError VarId := do
  match ← s.resolve scope name with
  | some var => return var
  | none => throw (.unbound name)

/-- The value of a name as seen from a scope. -/
def get (s : Scopes) (scope : ScopeId) (name : String) : Except BindingError Value := do
  let var ← s.find scope name
  match s.valueOf? var with
  | some value => return value
  | none => throw (.unknownVariable var)

/-- Writes a variable that can be seen from a scope. -/
def assign (s : Scopes) (scope : ScopeId) (name : String) (value : Value) :
    Except BindingError VarId × Scopes :=
  match s.find scope name with
  | .error e => (.error e, s)
  | .ok var =>
    if s.isMutable? var == some false then (.error (.immutable name), s)
    else
      let (result, s) := s.rebind var value
      (result.map fun _ => var, s)

/-- The order of named variables: by name, then by number. -/
def nameOrder (a b : String × VarId) : Bool := a.1 < b.1 || (a.1 == b.1 && a.2 ≤ b.2)

/-- The variables that a scope declares, by name. -/
def contents (s : Scopes) (scope : ScopeId) : List (String × VarId) :=
  ((s.graph.outgoing scope).filterMap fun (_, edge) =>
    if edge.weight == .contains then
      (s.variableName? edge.target).map fun name => (name, edge.target)
    else none).mergeSort nameOrder

/-- How many values a variable leads to. -/
def bindingCount (s : Scopes) (var : VarId) : Nat :=
  ((s.graph.outgoing var).filter fun (_, edge) => edge.weight == .bindsTo).length

/-- The variables of the given names that can be seen from a scope. -/
def visible (s : Scopes) (scope : ScopeId) (names : List String) : List VarId :=
  names.filterMap fun n => s.lookup? n (s.graph.slots.size + 1) scope

/-- Makes a closure in a scope. It captures the variables of the given names that can be seen. -/
def createClosure (s : Scopes) (scope : ScopeId) (name : String) (names : List String) :
    Except BindingError ClosureId × Scopes :=
  if s.isScope scope then
    let captured := s.visible scope names
    let (closure, graph) := s.graph.addNode (.closure name)
    let graph := (graph.addEdge closure scope .captures).2
    let graph := captured.foldl (fun graph var => (graph.addEdge closure var .captures).2) graph
    (.ok closure, { s with graph := graph })
  else (.error (.unknownScope scope), s)

/-- The scope that a closure was made in. -/
def closureScope (s : Scopes) (closure : ClosureId) : Except BindingError ScopeId :=
  match s.graph.node? closure with
  | some (.closure _) =>
    match (s.graph.successors closure).find? s.isScope with
    | some scope => .ok scope
    | none => .error (.unknownClosure closure)
  | _ => .error (.unknownClosure closure)

/-- The variables that a closure captured, by name. -/
def captured (s : Scopes) (closure : ClosureId) : List (String × VarId) :=
  ((s.graph.successors closure).filterMap fun var =>
    (s.variableName? var).map fun name => (name, var)).mergeSort nameOrder

/-- Lets a scope see a variable of another one. -/
def importVar (s : Scopes) (scope : ScopeId) (var : VarId) : Except BindingError Unit × Scopes :=
  if !s.isScope scope then (.error (.unknownScope scope), s)
  else
    match s.variableName? var with
    | none => (.error (.unknownVariable var), s)
    | some _ => (.ok (), { s with graph := (s.graph.addEdge scope var .captures).2 })

/-- The number of scopes. -/
def scopeCount (s : Scopes) : Nat := (s.graph.nodeIds.filter s.isScope).length

end Scopes

end GraphLang
