/-!
# Roles

The place that a child node has under its parent. Evaluation reads children by
role and never by position.
-/

namespace GraphLang

/-- The place of a child under its parent. -/
inductive Role where
  | left | right | operand | callee
  /-- An argument, by position. -/
  | argument (i : Nat)
  | condition | whenTrue | whenFalse | body | target | index | value
  /-- An element, by position. -/
  | element (i : Nat)
  /-- A statement, by position. -/
  | statement (i : Nat)
  | handler | finalizer
deriving Repr, DecidableEq, Inhabited

namespace Role

/-- The kinds of roles in their order. -/
def rank : Role → Nat
  | .left => 0
  | .right => 1
  | .operand => 2
  | .callee => 3
  | .argument _ => 4
  | .condition => 5
  | .whenTrue => 6
  | .whenFalse => 7
  | .body => 8
  | .target => 9
  | .index => 10
  | .value => 11
  | .element _ => 12
  | .statement _ => 13
  | .handler => 14
  | .finalizer => 15

/-- The position that an indexed role names. -/
def position? : Role → Option Nat
  | .argument i | .element i | .statement i => some i
  | _ => none

/-- Whether two roles are of one kind, whatever their positions. -/
def sameFamily (a b : Role) : Bool := a.rank == b.rank

/-- The order of roles: by kind, then by position. -/
def le (a b : Role) : Bool :=
  a.rank < b.rank || (a.rank == b.rank && a.position?.getD 0 ≤ b.position?.getD 0)

/-- The role of the same kind at another position. -/
def atPosition (family : Role) (i : Nat) : Role :=
  match family with
  | .argument _ => .argument i
  | .element _ => .element i
  | .statement _ => .statement i
  | other => other

/-- The name of a role. -/
def display : Role → String
  | .left => "left"
  | .right => "right"
  | .operand => "operand"
  | .callee => "callee"
  | .argument i => s!"argument[{i}]"
  | .condition => "condition"
  | .whenTrue => "then"
  | .whenFalse => "else"
  | .body => "body"
  | .target => "target"
  | .index => "index"
  | .value => "value"
  | .element i => s!"element[{i}]"
  | .statement i => s!"statement[{i}]"
  | .handler => "handler"
  | .finalizer => "finally"

end Role

end GraphLang
