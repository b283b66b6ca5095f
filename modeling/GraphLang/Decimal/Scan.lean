import GraphLang.Decimal.Binary

/-!
# Reading decimal texts

Two readers: the exact one rounds the written number once; the document reader
keeps the digits that fit into a 64-bit word and scales them by a power of ten.
-/

namespace GraphLang.Decimal

/-- The value of a decimal digit. -/
def digitValue (c : Char) : Nat := c.toNat - 48

/-- Whether a character is one of the ten digits. -/
def isDigit (c : Char) : Bool := '0' ≤ c && c ≤ '9'

/-- The number that a list of digits stands for. -/
def digitsValue (digits : List Char) : Nat :=
  digits.foldl (fun n c => 10 * n + digitValue c) 0

/-- A decimal number as it is written. -/
structure Written where
  /-- Whether a minus sign stands in front. -/
  negative : Bool
  /-- The digits before the point. -/
  whole : List Char
  /-- The digits after the point, if there is a point. -/
  fraction : Option (List Char)
  /-- The exponent, if there is one. -/
  exponent : Option Int
deriving Repr, DecidableEq

/-- Whether the number is written without a point and without an exponent. -/
def Written.isInteger (w : Written) : Bool := w.fraction.isNone && w.exponent.isNone

/-- Reads an exponent: a mark, perhaps a sign, and at least one digit. -/
def scanExponent : List Char → Option (Option Int × List Char)
  | [] => some (none, [])
  | c :: rest =>
    if c == 'e' || c == 'E' then
      let (negative, rest) := match rest with
        | '+' :: r => (false, r)
        | '-' :: r => (true, r)
        | r => (false, r)
      let digits := rest.takeWhile isDigit
      if digits.isEmpty then none
      else
        let n : Int := digitsValue digits
        some (some (if negative then -n else n), rest.dropWhile isDigit)
    else some (none, c :: rest)

/-- Reads a number: perhaps a minus sign, digits without a needless leading zero, perhaps a point
with digits, perhaps an exponent. Also gives back what follows it. -/
def scan (text : List Char) : Option (Written × List Char) :=
  let (negative, text) := match text with
    | '-' :: r => (true, r)
    | r => (false, r)
  let whole := text.takeWhile isDigit
  let rest := text.dropWhile isDigit
  let leadingZero := match whole with
    | '0' :: _ :: _ => true
    | _ => false
  if whole.isEmpty || leadingZero then none
  else
    match rest with
    | '.' :: rest =>
      let fraction := rest.takeWhile isDigit
      if fraction.isEmpty then none
      else (scanExponent (rest.dropWhile isDigit)).map fun (e, rest) =>
        (⟨negative, whole, some fraction, e⟩, rest)
    | rest => (scanExponent rest).map fun (e, rest) => (⟨negative, whole, none, e⟩, rest)

/-- The double nearest to the written number. -/
def Written.toFloat (w : Written) : Float :=
  let fraction := w.fraction.getD []
  let digits := digitsValue (w.whole ++ fraction)
  let exponent := w.exponent.getD 0 - fraction.length
  let magnitude :=
    if 0 ≤ exponent then Float.ofScientific digits false exponent.toNat
    else Float.ofScientific digits true (-exponent).toNat
  if w.negative then -magnitude else magnitude

/-- The double that a text names: a decimal number, `nan`, `inf` or `-inf`. -/
def read (s : String) : Option Float :=
  match s with
  | "nan" => some (0.0 / 0.0)
  | "inf" => some (1.0 / 0.0)
  | "-inf" => some (-1.0 / 0.0)
  | _ =>
    match scan s.toList with
    | some (w, []) => some w.toFloat
    | _ => none

/-- The largest 64-bit word. -/
def maxWord : Nat := UInt64.size - 1

/-- The whole part as a word, and how many of its last digits did not fit. -/
def keepWhole : Nat → List Char → Nat × Nat
  | word, [] => (word, 0)
  | word, c :: rest =>
    if 10 * word + digitValue c ≤ maxWord then keepWhole (10 * word + digitValue c) rest
    else (word, rest.length + 1)

/-- Extends a word by the digits after the point that fit, and counts them. -/
def keepFraction : Nat → List Char → Nat × Nat
  | word, [] => (word, 0)
  | word, c :: rest =>
    if 10 * word + digitValue c ≤ maxWord then
      let (word, count) := keepFraction (10 * word + digitValue c) rest
      (word, count + 1)
    else (word, 0)

/-- Divides by `10 ^ 308` until the remaining power of ten is a double. -/
def scaleDown : Nat → Float → Nat → Float
  | 0, x, _ => x
  | fuel + 1, x, down =>
    if down ≤ 308 then x / Float.ofScientific 1 false down
    else if x == 0.0 then x
    else scaleDown fuel (x / 1e308) (down - 308)

/-- The double that a document's number stands for, if it is in range. The word of kept digits is
rounded to a double and then scaled by one power of ten. -/
def Written.documentValue (w : Written) : Option Float :=
  let (word, dropped) := keepWhole 0 w.whole
  let (word, kept) := keepFraction word (w.fraction.getD [])
  let exponent : Int := w.exponent.getD 0 + dropped - kept
  let start := Float.ofScientific word false 0
  let magnitude : Option Float :=
    if exponent < 0 then some (scaleDown ((-exponent).toNat / 308 + 2) start (-exponent).toNat)
    else if exponent ≤ 308 then
      let x := start * Float.ofScientific 1 false exponent.toNat
      if x.isInf then none else some x
    else if start == 0.0 then some start
    else none
  magnitude.map fun x => if w.negative then -x else x

end GraphLang.Decimal
