import GraphLang.Container.Links
import GraphLang.Signal
import GraphLang.Store.Basic

/-!
# Changes of containers

The changes that rules govern, the conditions they must meet whatever the rules
say, and the reasons for which they are refused.
-/

namespace GraphLang

/-- Which member is to be removed. -/
inductive Target where
  /-- A position in a list. -/
  | index (i : Nat)
  /-- A key of a map. -/
  | key (k : Key)
  /-- A member of a user graph. -/
  | node (n : Nat)
deriving DecidableEq, Inhabited

/-- A change that is asked for. -/
inductive Mutation where
  /-- Appends to a list. -/
  | insert (value : Value)
  /-- Replaces a list element. -/
  | set (index : Nat) (value : Value)
  /-- Puts a value under a key. -/
  | put (key : Key) (value : Value)
  /-- Removes a member. -/
  | remove (target : Target)
  /-- Adds a member to a user graph, perhaps with a link from another member. -/
  | addMember (value : Value) (parent : Option (Nat × String))
  /-- Adds a link between members. -/
  | link (source target : Nat) (name : String) (data : Option Value)
deriving Inhabited

namespace Mutation

/-- The value that becomes a member. -/
def incomingMember? : Mutation → Option Value
  | .insert value | .set _ value | .put _ value | .addMember value _ => some value
  | .remove _ | .link .. => none

/-- The value that predicates and transforms see: the new member or the data of a new link. -/
def incoming? : Mutation → Option Value
  | .link _ _ _ data => data
  | m => m.incomingMember?

/-- The change with another incoming value. -/
def withIncoming (m : Mutation) (value : Value) : Mutation :=
  match m with
  | .insert _ => .insert value
  | .set index _ => .set index value
  | .put key _ => .put key value
  | .addMember _ parent => .addMember value parent
  | .link source target name (some _) => .link source target name (some value)
  | m => m

/-- Whether the change adds a member. -/
def grows (m : Mutation) (c : Container) : Bool :=
  match m with
  | .insert _ | .addMember .. => true
  | .put key _ => (c.entryNode? key).isNone
  | _ => false

/-- The member whose value the change replaces. -/
def replaced? (m : Mutation) (c : Container) : Option Nat :=
  match m with
  | .set index _ => c.elementNode? index
  | .put key _ => c.entryNode? key
  | _ => none

/-- The name of the kind of change. -/
def describe : Mutation → String
  | .insert _ => "insert"
  | .set .. => "set"
  | .put .. => "put"
  | .remove _ => "remove"
  | .addMember .. => "add_member"
  | .link .. => "link"

end Mutation

/-- Why a validation refuses. -/
inductive Rejection where
  /-- The container would have that many members. -/
  | sizeAfter (n : Nat)
  /-- The container has that many members. -/
  | sizeNow (n : Nat)
  /-- The link would close a cycle. -/
  | closesCycle (source target : Nat)
  /-- There is a cycle of links. -/
  | hasCycle
  /-- There is a member without incoming links already. -/
  | secondRoot
  /-- No member without incoming links would be left. -/
  | noRoot
  /-- So many members without incoming links would be left. -/
  | rootsAfter (n : Nat)
  /-- There are so many members without incoming links. -/
  | rootsNow (n : Nat)
  /-- The incoming value has another type than the members. -/
  | typeDiffers (expected found : ValueType)
  /-- There are members of two types. -/
  | typesDiffer (first other : ValueType)
  /-- The predicate raised something, shown by its text. -/
  | predicateRaised (exception : String)
  /-- The predicate does not hold of a member, shown by its text. -/
  | memberFails (member : String)
  /-- One container is frozen and the other one is not. -/
  | mixedFreeze (held into : Bool)
  /-- A member container is not frozen. -/
  | memberUnfrozen
deriving Repr, DecidableEq, Inhabited

/-- The text of a reason. -/
def Rejection.message : Rejection → String
  | .sizeAfter n => s!"size would be {n}"
  | .sizeNow n => s!"size is already {n}"
  | .closesCycle source target => s!"link {source} -> {target} would close a cycle"
  | .hasCycle => "graph already contains a cycle"
  | .secondRoot => "graph already has a root"
  | .noRoot => "link would leave the graph without a root"
  | .rootsAfter n => s!"removal would leave {n} roots"
  | .rootsNow n => s!"graph has {n} roots"
  | .typeDiffers expected found => s!"expected {expected.display}, found {found.display}"
  | .typesDiffer first other => s!"found both {first.display} and {other.display}"
  | .predicateRaised exception => "predicate raised " ++ exception
  | .memberFails member => "existing member " ++ member ++ " fails"
  | .mixedFreeze held into =>
    let state (frozen : Bool) : String := if frozen then "frozen" else "unfrozen"
    "cannot hold a " ++ state held ++ " graph in a " ++ state into ++ " one"
  | .memberUnfrozen => "a member graph is not frozen"

/-- Why a transform has no result. -/
inductive TransformError where
  /-- A bound of a range is no number. -/
  | boundsNotNumbers
  /-- The table of a look-up is no container. -/
  | tableNotMap (found : ValueType)
  /-- The table of a look-up is a container, but no map. -/
  | tableOtherKind
  /-- The procedure can only be called by an evaluator. -/
  | needsEvaluator (name : String)
deriving Repr, DecidableEq, Inhabited

/-- The text of the error. -/
def TransformError.message : TransformError → String
  | .boundsNotNumbers => "range bounds must be numbers"
  | .tableNotMap found => s!"lookup table must be a map, found {found.display}"
  | .tableOtherKind => "lookup table must be a map"
  | .needsEvaluator name => "'" ++ name ++ "' needs an evaluator"

/-- Why a governed change fails; `ε` says why a callback could not be finished. -/
inductive MutationError (ε : Type) where
  /-- The container is frozen. -/
  | frozen
  /-- A validation refuses the change. -/
  | validationFailed (rule : String) (reason : Option Rejection)
  /-- A transform has no result. -/
  | transformFailed (rule : String) (cause : TransformError)
  /-- A callback of a transform raised an exception. -/
  | transformRaised (rule : String) (raised : Raised)
  /-- A callback could not be finished. -/
  | aborted (cause : ε)
  /-- There is no such position. -/
  | indexOutOfRange (index size : Nat)
  /-- There is no such key. -/
  | keyNotFound (key : Key)
  /-- The container is of another kind. -/
  | wrongKind (expected : String) (actual : Kind)
  /-- The container has no such part. -/
  | container (cause : ContainerError)
deriving Inhabited

/-- How an error names the kind of a container. -/
def Kind.describe : Kind → String
  | .list => "list"
  | .map => "map"
  | .user name => "graph " ++ name

/-- A 64-bit word read as a signed number. -/
def signedWord (n : Nat) : Int :=
  if n < Nat.pow 2 63 then n else (n : Int) - UInt64.size

namespace MutationError

variable {ε : Type}

/-- A failure of a container as a failure of a change. -/
def ofContainer : ContainerError → MutationError ε
  | .frozen => .frozen
  | cause => .container cause

/-- The name of the kind of error. -/
def code : MutationError ε → String
  | .frozen => "Frozen"
  | .validationFailed .. => "ValidationFailed"
  | .transformFailed .. => "TransformFailed"
  | .transformRaised .. => "TransformRaised"
  | .aborted _ => "Aborted"
  | .indexOutOfRange .. => "IndexOutOfRange"
  | .keyNotFound _ => "KeyNotFound"
  | .wrongKind .. => "WrongKind"
  | .container cause => cause.code

/-- The text of the error. -/
def message (s : Store) (fatal : ε → String) : MutationError ε → String
  | .frozen => "graph is frozen"
  | .validationFailed rule reason =>
    "validation rule '" ++ rule ++ "' rejected the mutation" ++
      (match reason with
      | some reason => ": " ++ reason.message
      | none => "")
  | .transformFailed rule cause => "transformation rule '" ++ rule ++ "' failed: " ++ cause.message
  | .transformRaised rule raised =>
    "transformation rule '" ++ rule ++ "' raised " ++ s.display raised.exception
  | .aborted cause => "rule evaluation aborted: " ++ fatal cause
  | .indexOutOfRange index size =>
    s!"index {intText (signedWord index)} out of range for length {size}"
  | .keyNotFound key => s!"key {key.display} not found"
  | .wrongKind expected actual => s!"operation needs a {expected}, found a {actual.describe}"
  | .container cause => cause.message

end MutationError

namespace Container

variable {ε : Type}

/-- Fails unless the container is a list. -/
def expectList (c : Container) : Except (MutationError ε) Unit :=
  match c.kind with
  | .list => .ok ()
  | kind => .error (.wrongKind "list" kind)

/-- Fails unless the container is a map. -/
def expectMap (c : Container) : Except (MutationError ε) Unit :=
  match c.kind with
  | .map => .ok ()
  | kind => .error (.wrongKind "map" kind)

/-- Fails unless the container is a user graph. -/
def expectUser (c : Container) : Except (MutationError ε) Unit :=
  match c.kind with
  | .user _ => .ok ()
  | kind => .error (.wrongKind "graph" kind)

/-- The node at a list position. -/
def nodeAt (c : Container) (index : Nat) : Except (MutationError ε) Nat :=
  match c.elementNode? index with
  | some node => .ok node
  | none => .error (.indexOutOfRange index c.size)

/-- The node under a key. -/
def nodeUnder (c : Container) (key : Key) : Except (MutationError ε) Nat :=
  match c.entryNode? key with
  | some node => .ok node
  | none => .error (.keyNotFound key)

/-- Fails on the root and where there is no such node. -/
def expectMember (c : Container) (node : Nat) : Except (MutationError ε) Unit :=
  if node == root || !c.graph.hasNode node then .error (.container (.unknownNode node)) else .ok ()

/-- The conditions of a change that do not depend on rules. -/
def preflight (c : Container) (m : Mutation) : Except (MutationError ε) Unit := do
  match m with
  | .insert _ => c.expectList
  | .set index _ | .remove (.index index) =>
    c.expectList
    discard <| c.nodeAt index
  | .put .. => c.expectMap
  | .remove (.key key) =>
    c.expectMap
    discard <| c.nodeUnder key
  | .remove (.node node) =>
    c.expectUser
    c.expectMember node
  | .addMember _ parent =>
    c.expectUser
    match parent with
    | some (node, _) => c.expectMember node
    | none => pure ()
  | .link source target _ _ =>
    c.expectUser
    c.expectMember source
    c.expectMember target

/-- What a change gave. -/
inductive Applied where
  /-- The node that was added or written to. -/
  | node (n : Nat)
  /-- The link that was added. -/
  | edge (e : Nat)
  /-- The value that was replaced or removed. -/
  | value (v : Value)
deriving Inhabited

end Container

end GraphLang
