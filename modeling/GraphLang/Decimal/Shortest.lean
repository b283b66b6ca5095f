import GraphLang.Decimal.Binary

/-!
# Shortest decimals

The fewest digits that read back as the same double: among the decimals with
that many digits the nearest one, and of two that are equally near the one that
a tie rule picks.
-/

namespace GraphLang.Decimal

/-- The number `digits * 10 ^ exponent`. -/
structure Scaled where
  /-- The digits as a whole number. -/
  digits : Nat
  /-- The power of ten that they are scaled by. -/
  exponent : Int
deriving Repr, DecidableEq

/-- Which of two decimals is taken when both are equally near. -/
inductive Tie where
  /-- The larger one. -/
  | up
  /-- The one whose last digit is even. -/
  | even
deriving Repr, DecidableEq

/-- Whether a tie between `floor` and `floor + 1` goes to `floor`. -/
def Tie.picksFloor (tie : Tie) (floor : Nat) : Bool :=
  match tie with
  | .up => false
  | .even => floor % 2 == 0

/-- The number of decimal digits of a whole number. -/
def digitCount (n : Nat) : Nat := (Nat.toDigits 10 n).length

/-- `base ^ e`, or one where the exponent is negative. -/
def natPower (base : Nat) (e : Int) : Nat := Nat.pow base e.toNat

/-- The largest `e` with `10 ^ e ≤ mantissa * 2 ^ exponent`, for a positive mantissa. -/
def decimalOrder (mantissa : Nat) (exponent : Int) : Int :=
  let num := mantissa * natPower 2 exponent
  let den := natPower 2 (-exponent)
  let guess : Int := (digitCount num : Int) - digitCount den
  if den * natPower 10 guess ≤ num * natPower 10 (-guess) then guess else guess - 1

/-- The multiple of `10 ^ k` nearest to the magnitude, if one reads back as it. The numbers that
read back lie between the midpoints to the two neighbouring doubles; the midpoints count when the
mantissa is even. -/
def nearestOnGrid (tie : Tie) (mantissa : Nat) (exponent k : Int) : Option Nat :=
  let below := if mantissa == twoTo 52 && minExponent < exponent then 1 else 2
  let up := natPower 2 (exponent - 2) * natPower 10 (-k)
  let down := natPower 2 (2 - exponent) * natPower 10 k
  let value := 4 * mantissa * up
  let low := (4 * mantissa - below) * up
  let high := (4 * mantissa + 2) * up
  let reads (c : Nat) : Bool :=
    if mantissa % 2 == 0 then low ≤ c * down && c * down ≤ high
    else low < c * down && c * down < high
  let floor := value / down
  match reads floor, reads (floor + 1) with
  | true, true =>
    let before := value - floor * down
    let after := (floor + 1) * down - value
    if before < after || (before == after && tie.picksFloor floor) then some floor
    else some (floor + 1)
  | true, false => some floor
  | false, true => some (floor + 1)
  | false, false => none

/-- Tries grids of more and more digits, starting at `10 ^ k`. -/
def searchGrids (tie : Tie) (mantissa : Nat) (exponent : Int) : Nat → Int → Scaled
  | 0, _ => ⟨mantissa, 0⟩
  | fuel + 1, k =>
    match nearestOnGrid tie mantissa exponent k with
    | some digits => ⟨digits, k⟩
    | none => searchGrids tie mantissa exponent fuel (k - 1)

/-- Moves trailing zeros from the digits into the power of ten. -/
def dropZeros : Nat → Scaled → Scaled
  | 0, s => s
  | fuel + 1, s =>
    if s.digits % 10 == 0 && s.digits != 0 then dropZeros fuel ⟨s.digits / 10, s.exponent + 1⟩
    else s

/-- The shortest decimal of a magnitude. -/
def shortest (tie : Tie) (mantissa : Nat) (exponent : Int) : Scaled :=
  if mantissa == 0 then ⟨0, 0⟩
  else dropZeros 20 (searchGrids tie mantissa exponent 20 (decimalOrder mantissa exponent))

end GraphLang.Decimal
