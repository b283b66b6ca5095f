import GraphLang.Eval.Fault

/-!
# Operators

What the operators compute, as functions of values and the store. The evaluator
and the constant folder share them.
-/

namespace GraphLang

/-- An operator with two operands. -/
inductive BinaryOp where
  | add | sub | mul | div | mod | eq | ne | lt | le | gt | ge
deriving Repr, DecidableEq, Inhabited

/-- An operator with one operand. -/
inductive UnaryOp where
  | neg | not
deriving Repr, DecidableEq, Inhabited

/-- A connective that may leave its right operand unevaluated. -/
inductive LogicalOp where
  | and | or
deriving Repr, DecidableEq, Inhabited

namespace BinaryOp

/-- The symbol of an operator. -/
def symbol : BinaryOp → String
  | .add => "+"
  | .sub => "-"
  | .mul => "*"
  | .div => "/"
  | .mod => "%"
  | .eq => "=="
  | .ne => "!="
  | .lt => "<"
  | .le => "<="
  | .gt => ">"
  | .ge => ">="

/-- Whether the operator compares its operands. -/
def isComparison : BinaryOp → Bool
  | .eq | .ne | .lt | .le | .gt | .ge => true
  | _ => false

end BinaryOp

namespace Operators

/-- The whole number as 64 bits, if it fits. -/
def fit (n : Int) : Option Int64 :=
  if Int64.minValue.toInt ≤ n && n ≤ Int64.maxValue.toInt then some (Int64.ofInt n) else none

/-- Arithmetic on whole numbers. Division truncates. -/
def intArith (op : BinaryOp) (a b : Int64) : Except Fault Value :=
  let checked (n : Int) : Except Fault Value :=
    match fit n with
    | some i => .ok (.int i)
    | none => .error (.overflow op.symbol)
  match op with
  | .add => checked (a.toInt + b.toInt)
  | .sub => checked (a.toInt - b.toInt)
  | .mul => checked (a.toInt * b.toInt)
  | .div => if b == 0 then .error .intDivision else checked (a.toInt.tdiv b.toInt)
  | .mod =>
    if b == 0 then .error .intDivision
    else if (fit (a.toInt.tdiv b.toInt)).isNone then .error (.overflow op.symbol)
    else checked (a.toInt.tmod b.toInt)
  | _ => .error (.overflow op.symbol)

/-- Arithmetic on doubles. -/
def floatArith (op : BinaryOp) (a b : Float) : Except Fault Value :=
  match op with
  | .add => .ok (.float (a + b))
  | .sub => .ok (.float (a - b))
  | .mul => .ok (.float (a * b))
  | .div => if b == 0.0 then .error .floatDivision else .ok (.float (a / b))
  | .mod => if b == 0.0 then .error .floatDivision else .ok (.float (Decimal.remainder a b))
  | _ => .error (.operandTypes op.symbol .float .float)

/-- The order of two values: nothing where one of them is not a number. -/
def order (s : Store) (left right : Value) : Except Fault (Option Ordering) :=
  match left, right with
  | .int a, .int b => .ok (some (compare a.toInt b.toInt))
  | .str a, .str b => .ok (some (compare a b))
  | left, right =>
    match left.number?, right.number? with
    | some a, some b =>
      .ok (if a < b then some .lt else if b < a then some .gt
        else if a == b then some .eq else none)
    | _, _ => .error (.unordered (s.typeOf left) (s.typeOf right))

/-- Whether an order is one that the operator asks for. -/
def ordered (op : BinaryOp) (o : Ordering) : Bool :=
  match op with
  | .lt => o.isLT
  | .le => o.isLE
  | .gt => o.isGT
  | _ => o.isGE

/-- The elements of two lists, one after the other. -/
def concatenated (s : Store) (a b : GraphId) : Except Fault (List Value) :=
  match (s.get a).kind, (s.get b).kind with
  | .list, .list => .ok ((s.get a).elements ++ (s.get b).elements)
  | _, _ => .error .concatenation

/-- The result of an operator with two operands. Only concatenation makes a container. -/
def binary (s : Store) (op : BinaryOp) (left right : Value) : Except Fault Value × Store :=
  match op with
  | .eq => (.ok (.bool (left.same right)), s)
  | .ne => (.ok (.bool !(left.same right)), s)
  | .lt | .le | .gt | .ge =>
    let result := (order s left right).map fun o =>
      match o with
      | some o => Value.bool (ordered op o)
      | none => Value.bool false
    (result, s)
  | op =>
    match op, left, right with
    | op, .int a, .int b => (intArith op a b, s)
    | .add, .str a, .str b => (.ok (.str (a ++ b)), s)
    | .add, .graph a, .graph b =>
      match concatenated s a b with
      | .ok values =>
        let (v, s) := s.allocList values
        (.ok v, s)
      | .error fault => (.error fault, s)
    | op, left, right =>
      match left.number?, right.number? with
      | some a, some b => (floatArith op a b, s)
      | _, _ => (.error (.operandTypes op.symbol (s.typeOf left) (s.typeOf right)), s)

/-- The result of an operator with one operand. -/
def unary (s : Store) (op : UnaryOp) (operand : Value) : Except Fault Value :=
  match op, operand with
  | .not, v => .ok (.bool !(s.isTruthy v))
  | .neg, .int i =>
    match fit (-i.toInt) with
    | some i => .ok (.int i)
    | none => .error .negationOverflow
  | .neg, .float x => .ok (.float (-x))
  | .neg, other => .error (.negation (s.typeOf other))

/-- The result of a connective on two values. -/
def logical (s : Store) (op : LogicalOp) (left right : Value) : Value :=
  match op with
  | .and => .bool (s.isTruthy left && s.isTruthy right)
  | .or => .bool (s.isTruthy left || s.isTruthy right)

/-- The position in a list that a value stands for. -/
def listIndex (s : Store) (c : Container) (index : Value) : Except Fault Nat :=
  match index with
  | .int i =>
    if i.toInt < 0 then .error (.outOfRange (s.display index) c.size) else .ok i.toInt.toNat
  | other => .error (.listIndex (s.typeOf other))

/-- The key that a value stands for. -/
def mapKey (s : Store) (value : Value) : Except Fault Key :=
  match Key.ofValue? value with
  | some key => .ok key
  | none => .error (.notKey (s.typeOf value))

/-- The member that a value stands for. -/
def memberHandle (s : Store) (value : Value) : Except Fault Nat :=
  match value with
  | .int i =>
    if 0 ≤ i.toInt && i.toInt.toNat < UInt32.size then .ok i.toInt.toNat
    else .error (.notHandle (s.display value))
  | other => .error (.notHandle (s.display other))

/-- Reads a list position, a map key, a member of a user graph or a character of a text. -/
def index (s : Store) (target index : Value) : Except Fault Value := do
  match target with
  | .graph g =>
    let c := s.get g
    match c.kind with
    | .list =>
      let i ← listIndex s c index
      match c.element? i with
      | some v => return v
      | none => throw (.outOfRange (s.display index) c.size)
    | .map =>
      let key ← mapKey s index
      match c.entry? key with
      | some v => return v
      | none => throw (.noKey key)
    | .user _ =>
      let node ← memberHandle s index
      match (if c.members.contains node then c.value? node else none) with
      | some v => return v
      | none => throw (.noMember node)
  | .str t =>
    match index with
    | .int i =>
      match (if i.toInt < 0 then none else t.toList[i.toInt.toNat]?) with
      | some c => return .str (String.singleton c)
      | none => throw (.outOfRange (s.display index) t.length)
    | other => throw (.textIndex (s.typeOf other))
  | other => throw (.notIndexable (s.typeOf other))

end Operators

end GraphLang
