import GraphLang.Rule.Basic

/-!
# Rule descriptions

A rule as it stands in a program. Scalars are part of the description; callees and
tables are arguments, taken in order when the rule is made.
-/

namespace GraphLang

/-- The description of a rule. -/
inductive RuleSpec where
  /-- At most so many members. -/
  | maxSize (limit : Nat)
  /-- No cycle of links. -/
  | acyclic
  /-- At most one member without incoming links. -/
  | singleRoot
  /-- Members of one type. -/
  | homogeneous
  /-- A named predicate, which is the argument. -/
  | predicate (name : String)
  /-- Zero in place of `none`. -/
  | noneToZero
  /-- A scalar in place of `none`. -/
  | coalesce (replacement : Literal)
  /-- Numbers moved into a range. -/
  | clamp (min max : Literal)
  /-- Doubles rounded to so many decimal places. -/
  | round (digits : Nat)
  /-- Texts in lower case. -/
  | lowercase
  /-- Texts in upper case. -/
  | uppercase
  /-- Texts without blanks at their ends. -/
  | trim
  /-- A look-up in a table, which is the argument. -/
  | lookup (default : Literal)
  /-- A named procedure, which is the argument. -/
  | custom (name : String)
  /-- A transform where a predicate holds. The predicate is the first argument, the others are those
  of the transform. -/
  | conditional (whenTrue : RuleSpec)
  /-- One transform where a predicate holds and another one elsewhere. The arguments of the second
  follow those of the first. -/
  | conditionalElse (whenTrue whenFalse : RuleSpec)
  /-- Member containers must be as frozen as the one that holds them. -/
  | rejectMixedFreeze
  /-- Member containers are stored as unfrozen copies. -/
  | copyElements
deriving Inhabited

/-- Why a description makes no rule. -/
inductive SpecError where
  /-- The range is empty. -/
  | emptyRange (min max : Literal)
  /-- A bound of the range is no number. -/
  | boundsNotNumbers
  /-- A branch of a conditional is no transform. -/
  | branchNotTransform (branch : RuleSpec)
  /-- The number of arguments is wrong. -/
  | argumentCount (expected found : Nat)
  /-- A transform is needed. -/
  | notTransform (found : RuleSpec)
  /-- An argument is missing. -/
  | missingArgument
deriving Inhabited

namespace RuleSpec

/-- The text of a description that shows all of it. -/
def diagnostic : RuleSpec → String
  | .maxSize n => s!"MaxSize({n})"
  | .acyclic => "Acyclic"
  | .singleRoot => "SingleRoot"
  | .homogeneous => "Homogeneous"
  | .predicate name => "Predicate \x7b name: " ++ Text.quoted name ++ " \x7d"
  | .noneToZero => "NoneToZero"
  | .coalesce l => "Coalesce(" ++ l.diagnostic ++ ")"
  | .clamp min max =>
    "ValidateRange \x7b min: " ++ min.diagnostic ++ ", max: " ++ max.diagnostic ++ " \x7d"
  | .round digits => s!"Round({digits})"
  | .lowercase => "Lowercase"
  | .uppercase => "Uppercase"
  | .trim => "Trim"
  | .lookup l => "Lookup \x7b default: " ++ l.diagnostic ++ " \x7d"
  | .custom name => "Custom \x7b name: " ++ Text.quoted name ++ " \x7d"
  | .conditional t => "Conditional \x7b transform: " ++ t.diagnostic ++ ", fallback: None \x7d"
  | .conditionalElse t f =>
    "Conditional \x7b transform: " ++ t.diagnostic ++ ", fallback: Some(" ++ f.diagnostic ++
      ") \x7d"
  | .rejectMixedFreeze => "RejectMixedFreeze"
  | .copyElements => "CopyElements"

/-- How many arguments the rule takes. -/
def argCount : RuleSpec → Nat
  | .predicate _ | .lookup _ | .custom _ => 1
  | .conditional t => 1 + t.argCount
  | .conditionalElse t f => 1 + t.argCount + f.argCount
  | _ => 0

/-- Whether the description is one of a plain transform. -/
def isTransform : RuleSpec → Bool
  | .noneToZero | .coalesce _ | .clamp .. | .round _ | .lowercase | .uppercase | .trim | .lookup _
  | .custom _ => true
  | _ => false

/-- Fails on a range without numbers in it, and on a conditional with a branch that is no
transform. -/
def check : RuleSpec → Except SpecError Unit
  | .clamp min max =>
    match min.number?, max.number? with
    | some low, some high => if low ≤ high then .ok () else .error (.emptyRange min max)
    | _, _ => .error .boundsNotNumbers
  | .conditional t => if t.isTransform then .ok () else .error (.branchNotTransform t)
  | .conditionalElse t f =>
    if !t.isTransform then .error (.branchNotTransform t)
    else if !f.isTransform then .error (.branchNotTransform f)
    else .ok ()
  | _ => .ok ()

/-- Takes the first argument. -/
def next : List Value → Except SpecError (Value × List Value)
  | v :: rest => .ok (v, rest)
  | [] => .error .missingArgument

/-- Makes the transform that the description is one of, and gives the arguments left over. -/
def toTransform (args : List Value) : RuleSpec → Except SpecError (Transform × List Value)
  | .noneToZero => .ok (.noneToZero, args)
  | .coalesce l => .ok (.coalesce l.toValue, args)
  | .clamp min max => .ok (.clamp min.toValue max.toValue, args)
  | .round digits => .ok (.round digits, args)
  | .lowercase => .ok (.lowercase, args)
  | .uppercase => .ok (.uppercase, args)
  | .trim => .ok (.trim, args)
  | .lookup l => (next args).map fun (table, rest) => (.lookup table l.toValue, rest)
  | .custom name => (next args).map fun (callee, rest) => (.custom name callee, rest)
  | other => .error (.notTransform other)

/-- Makes the rule with the given arguments. -/
def instantiate (spec : RuleSpec) (args : List Value) : Except SpecError Rule := do
  if args.length != spec.argCount then throw (.argumentCount spec.argCount args.length)
  match spec with
  | .maxSize n => return .validate (.maxSize n)
  | .acyclic => return .validate .acyclic
  | .singleRoot => return .validate .singleRoot
  | .homogeneous => return .validate .homogeneous
  | .predicate name =>
    let (callee, _) ← next args
    return .validate (.predicate name callee)
  | .conditional t =>
    let (test, rest) ← next args
    let (whenTrue, _) ← t.toTransform rest
    return .conditional test whenTrue none
  | .conditionalElse t f =>
    let (test, rest) ← next args
    let (whenTrue, rest) ← t.toTransform rest
    let (whenFalse, _) ← f.toTransform rest
    return .conditional test whenTrue (some whenFalse)
  | .rejectMixedFreeze => return .freeze .rejectMixed
  | .copyElements => return .freeze .copyElements
  | spec =>
    let (r, _) ← spec.toTransform args
    return .transform r

/-- Makes the rules of a ruleset; each takes its own arguments from the front. -/
def instantiateAll : List RuleSpec → List Value → Except SpecError (List Rule)
  | [], _ => .ok []
  | spec :: rest, args => do
    let rule ← spec.instantiate (args.take spec.argCount)
    let rules ← instantiateAll rest (args.drop spec.argCount)
    return rule :: rules

end RuleSpec

/-- The text of the error. -/
def SpecError.message : SpecError → String
  | .emptyRange min max => "empty range " ++ min.display ++ ".." ++ max.display
  | .boundsNotNumbers => "range bounds must be numbers"
  | .branchNotTransform branch =>
    "conditional branch " ++ branch.diagnostic ++ " is not a transformation"
  | .argumentCount expected found => s!"rule takes {expected} arguments, got {found}"
  | .notTransform found => found.diagnostic ++ " is not a transformation"
  | .missingArgument => "missing rule argument"

end GraphLang
