import GraphLang.Value.Basic

/-!
# Rules

A rule is attached to a container and consulted whenever the container is about
to change. Validations decide whether the change may happen; transforms replace the
value that comes in; freeze rules speak about containers held in containers.
-/

namespace GraphLang

/-- A condition that a change must meet. -/
inductive Validation where
  /-- At most so many members. -/
  | maxSize (limit : Nat)
  /-- No cycle of links. -/
  | acyclic
  /-- A user graph with members has exactly one without incoming links. -/
  | singleRoot
  /-- All member values have the same type. -/
  | homogeneous
  /-- A predicate holds of the incoming value. -/
  | predicate (name : String) (callee : Value)
deriving Inhabited

/-- A replacement of the incoming value. -/
inductive Transform where
  /-- Zero in place of `none`. -/
  | noneToZero
  /-- A given value in place of `none`. -/
  | coalesce (replacement : Value)
  /-- Numbers are moved into a range. -/
  | clamp (min max : Value)
  /-- Doubles are rounded to so many decimal places. -/
  | round (digits : Nat)
  /-- Texts in lower case. -/
  | lowercase
  /-- Texts in upper case. -/
  | uppercase
  /-- Texts without blanks at their ends. -/
  | trim
  /-- The value that a map holds under the incoming one, or a default. -/
  | lookup (table default : Value)
  /-- The result of a procedure. -/
  | custom (name : String) (callee : Value)
deriving Inhabited

/-- A rule about containers held in containers. -/
inductive FreezeRule where
  /-- A member container must be as frozen as the one that holds it. -/
  | rejectMixed
  /-- Member containers are stored as unfrozen copies. -/
  | copyElements
deriving Repr, DecidableEq, Inhabited

/-- A rule attached to a container. -/
inductive Rule where
  /-- A condition on changes. -/
  | validate (v : Validation)
  /-- A replacement of incoming values. -/
  | transform (r : Transform)
  /-- One replacement where a predicate holds, perhaps another one elsewhere. -/
  | conditional (predicate : Value) (whenTrue : Transform) (whenFalse : Option Transform)
  /-- A rule about member containers. -/
  | freeze (f : FreezeRule)
deriving Inhabited

/-- The name of a validation. -/
def Validation.display : Validation → String
  | .maxSize n => s!"max_size({n})"
  | .acyclic => "acyclic"
  | .singleRoot => "single_root"
  | .homogeneous => "homogeneous"
  | .predicate name _ => name

/-- The values that a transform keeps alive: callees, tables, and what takes the place of another
value. -/
def Transform.callbacks : Transform → List Value
  | .coalesce replacement => [replacement]
  | .lookup table default => [table, default]
  | .custom _ callee => [callee]
  | _ => []

namespace Rule

/-- Whether the rule is a condition on changes. -/
def isValidation : Rule → Bool
  | .validate _ => true
  | _ => false

/-- Whether the rule is a transform, perhaps a conditional one. -/
def isTransform : Rule → Bool
  | .transform _ | .conditional .. => true
  | _ => false

/-- Whether the rule replaces incoming values. -/
def transformsIncoming : Rule → Bool
  | .transform _ | .conditional .. | .freeze .copyElements => true
  | _ => false

/-- The values that a rule keeps alive. -/
def callbacks : Rule → List Value
  | .validate (.predicate _ callee) => [callee]
  | .validate _ | .freeze _ => []
  | .transform r => r.callbacks
  | .conditional predicate whenTrue whenFalse =>
    predicate :: whenTrue.callbacks ++ (whenFalse.map Transform.callbacks).getD []

end Rule

/-- Rules under a common name. -/
structure Ruleset where
  /-- The name. -/
  name : String
  /-- The rules, in the order in which they are attached. -/
  rules : List Rule
deriving Inhabited

/-- The rulesets of a program, in the order of their first definition. -/
abbrev Rulesets := List Ruleset

namespace Rulesets

/-- The ruleset of that name. -/
def get? (sets : Rulesets) (name : String) : Option Ruleset := sets.find? (·.name == name)

/-- Adds a ruleset, in the place of the one of the same name if there is one. -/
def define (sets : Rulesets) (set : Ruleset) : Rulesets :=
  if sets.any (·.name == set.name) then
    sets.map fun old => if old.name == set.name then set else old
  else sets ++ [set]

/-- The values that the rules of all rulesets hold. -/
def callbacks (sets : Rulesets) : List Value :=
  sets.flatMap fun set => set.rules.flatMap Rule.callbacks

end Rulesets

end GraphLang
