import GraphLang.Rule.Mutation

/-!
# Faults

Failures that a program can catch: each becomes an exception with a kind and a
message.
-/

namespace GraphLang

/-- Why a name cannot be bound or read. -/
inductive BindingError where
  /-- No variable of that name can be seen. -/
  | unbound (name : String)
  /-- The variable cannot be written. -/
  | immutable (name : String)
  /-- There is no scope of that number. -/
  | unknownScope (id : Nat)
  /-- There is no variable of that number. -/
  | unknownVariable (id : Nat)
  /-- There is no closure of that number. -/
  | unknownClosure (id : Nat)
deriving Repr, DecidableEq, Inhabited

/-- The text of the error. -/
def BindingError.message : BindingError → String
  | .unbound name => s!"unbound variable '{name}'"
  | .immutable name => s!"cannot rebind immutable variable '{name}'"
  | .unknownScope id => s!"unknown scope: ScopeId({id})"
  | .unknownVariable id => s!"unknown variable: VarId({id})"
  | .unknownClosure id => s!"unknown closure: ClosureId({id})"

/-- The name of the kind of error. -/
def BindingError.code : BindingError → String
  | .unbound _ => "UnboundVariable"
  | .immutable _ => "ImmutableBinding"
  | .unknownScope _ => "UnknownScope"
  | .unknownVariable _ => "UnknownVariable"
  | .unknownClosure _ => "UnknownClosure"

/-- A failure that a program can catch. Where a fault shows a value, it holds its text. -/
inductive Fault where
  /-- The result of an operator does not fit into 64 bits. -/
  | overflow (symbol : String)
  /-- The negation does not fit into 64 bits. -/
  | negationOverflow
  /-- A whole number is divided by zero. -/
  | intDivision
  /-- A double is divided by zero. -/
  | floatDivision
  /-- The operator does not take these types. -/
  | operandTypes (symbol : String) (left right : ValueType)
  /-- The types have no order. -/
  | unordered (left right : ValueType)
  /-- Something other than two lists is to be concatenated. -/
  | concatenation
  /-- The type has no negation. -/
  | negation (found : ValueType)
  /-- The position in a text is no whole number. -/
  | textIndex (found : ValueType)
  /-- The position in a list is no whole number. -/
  | listIndex (found : ValueType)
  /-- The type has no members to look up. -/
  | notIndexable (found : ValueType)
  /-- The type cannot be a key. -/
  | notKey (found : ValueType)
  /-- The value is no member handle. -/
  | notHandle (found : String)
  /-- A container is needed. -/
  | notContainer (found : ValueType)
  /-- The value cannot be called. -/
  | notCallable (found : ValueType)
  /-- The value cannot be iterated over. -/
  | notIterable (found : ValueType)
  /-- Members of a user graph are not assigned to. -/
  | memberAssignment (graph : String)
  /-- The value has no length. -/
  | noLength (found : ValueType)
  /-- The bound of a range is no whole number. -/
  | rangeBound (found : ValueType)
  /-- The keys of something other than a map are asked for. -/
  | keysOf (found : ValueType)
  /-- The kind of an exception is no text. -/
  | exceptionKind (found : ValueType)
  /-- The position is outside the list or text. -/
  | outOfRange (index : String) (size : Nat)
  /-- The map has no such key. -/
  | noKey (key : Key)
  /-- The user graph has no such member. -/
  | noMember (node : Nat)
  /-- The number of arguments is wrong. -/
  | arity (name : String) (expected found : Nat)
  /-- A name cannot be bound or read. -/
  | binding (cause : BindingError)
  /-- There is no ruleset of that name. -/
  | noRuleset (name : String)
  /-- A rule cannot be made, for the given reason. -/
  | rule (reason : String)
  /-- A governed change fails, with the kind and the text of its failure. -/
  | mutation (kind message : String)
deriving DecidableEq, Inhabited

namespace Fault

/-- The kind of the exception. -/
def kind : Fault → String
  | .overflow _ | .negationOverflow => "OverflowError"
  | .intDivision | .floatDivision => "ZeroDivisionError"
  | .outOfRange .. => "IndexError"
  | .noKey _ | .noMember _ => "KeyError"
  | .arity .. => "ArityError"
  | .binding (.immutable _) => "BindingError"
  | .binding _ | .noRuleset _ => "NameError"
  | .rule _ => "RuleError"
  | .mutation kind _ => kind
  | _ => "TypeError"

/-- The message of the exception. -/
def message : Fault → String
  | .overflow symbol => s!"integer overflow in '{symbol}'"
  | .negationOverflow => "integer overflow in unary '-'"
  | .intDivision => "integer division by zero"
  | .floatDivision => "float division by zero"
  | .operandTypes symbol left right =>
    s!"unsupported operand types for '{symbol}': {left.display} and {right.display}"
  | .unordered left right => s!"cannot order {left.display} and {right.display}"
  | .concatenation => "only lists can be concatenated"
  | .negation found => s!"cannot negate a {found.display}"
  | .textIndex found => s!"string index must be an int, not {found.display}"
  | .listIndex found => s!"list index must be an int, not {found.display}"
  | .notIndexable found => s!"a {found.display} cannot be indexed"
  | .notKey found => s!"a {found.display} cannot be a map key"
  | .notHandle found => "expected a member handle, found " ++ found
  | .notContainer found => s!"expected a list, map or graph, found a {found.display}"
  | .notCallable found => s!"a {found.display} is not callable"
  | .notIterable found => s!"a {found.display} is not iterable"
  | .memberAssignment graph => s!"members of graph {graph} are replaced with add_member"
  | .noLength found => s!"a {found.display} has no length"
  | .rangeBound found => s!"range needs an int, not {found.display}"
  | .keysOf found => s!"keys needs a map, not {found.display}"
  | .exceptionKind found => s!"exception kind must be a str, not {found.display}"
  | .outOfRange index size => s!"index {index} out of range for length {size}"
  | .noKey key => s!"key {key.display} not found"
  | .noMember node => s!"no member {node}"
  | .arity name expected found => s!"{name} takes {expected} arguments, got {found}"
  | .binding cause => cause.message
  | .noRuleset name => s!"no ruleset named '{name}'"
  | .rule reason => reason
  | .mutation _ message => message

end Fault

end GraphLang
