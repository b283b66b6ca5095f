/-!
# Binary fractions

A finite double is a sign, a whole number and a power of two. Everything that
needs a double exactly, and not up to rounding, works on these parts.
-/

namespace GraphLang.Decimal

/-- The magnitude `mantissa * 2 ^ exponent` of a finite double, with its sign. -/
structure Binary where
  /-- Whether the sign bit is set. -/
  negative : Bool
  /-- The significant bits as a whole number. -/
  mantissa : Nat
  /-- The power of two that the significant bits are scaled by. -/
  exponent : Int
deriving Repr, DecidableEq

/-- What the bits of a double stand for. -/
inductive Class where
  /-- Not a number. -/
  | nan
  /-- An infinity, with its sign. -/
  | infinite (negative : Bool)
  /-- A finite number. -/
  | finite (parts : Binary)
deriving Repr, DecidableEq

/-- The exponent of the smallest positive double, `2 ^ (-1074)`. -/
def minExponent : Int := -1074

/-- A power of two. -/
def twoTo (n : Nat) : Nat := Nat.pow 2 n

/-- Reads the three fields of a double. -/
def classify (x : Float) : Class :=
  let bits := x.toBits.toNat
  let negative := bits / twoTo 63 == 1
  let field : Nat := bits / twoTo 52 % 2048
  let fraction : Nat := bits % twoTo 52
  if field == 2047 then
    if fraction == 0 then .infinite negative else .nan
  else if field == 0 then .finite ⟨negative, fraction, minExponent⟩
  else .finite ⟨negative, fraction + twoTo 52, (field : Int) - 1075⟩

/-- The whole-number part of a magnitude. -/
def Binary.floor (b : Binary) : Nat :=
  if 0 ≤ b.exponent then b.mantissa * twoTo b.exponent.toNat
  else b.mantissa / twoTo (-b.exponent).toNat

/-- Whether the number has no fractional part. -/
def Binary.isWhole (b : Binary) : Bool :=
  0 ≤ b.exponent || b.mantissa % twoTo (-b.exponent).toNat == 0

/-- The double with the given sign that is nearest to `mantissa * 2 ^ exponent`. It is used where
the product is a double itself. -/
def ofParts (negative : Bool) (mantissa : Nat) (exponent : Int) : Float :=
  let magnitude :=
    if 0 ≤ exponent then Float.ofScientific (mantissa * twoTo exponent.toNat) false 0
    else
      let down := (-exponent).toNat
      Float.ofScientific (mantissa * Nat.pow 5 down) true down
  if negative then -magnitude else magnitude

/-- The double nearest to a whole number. -/
def ofInt (n : Int) : Float :=
  if n < 0 then -(Float.ofScientific n.natAbs false 0) else Float.ofScientific n.natAbs false 0

/-- Rounds to the nearest whole number, a half going away from zero. -/
def roundHalfAway (x : Float) : Float :=
  match classify x with
  | .finite b =>
    if 0 ≤ b.exponent then x
    else
      let unit := twoTo (-b.exponent).toNat
      ofParts b.negative ((2 * b.mantissa + unit) / (2 * unit)) 0
  | _ => x

/-- The remainder of the division that truncates, with the sign of the dividend. -/
def remainder (x y : Float) : Float :=
  match classify x, classify y with
  | .finite a, .finite b =>
    if b.mantissa == 0 then 0.0 / 0.0
    else
      let low := min a.exponent b.exponent
      let left := a.mantissa * twoTo (a.exponent - low).toNat
      let right := b.mantissa * twoTo (b.exponent - low).toNat
      ofParts a.negative (left % right) low
  | .finite _, .infinite _ => x
  | _, _ => 0.0 / 0.0

/-- `base ^ n` by squaring: the product grows by the current square at each odd step. -/
def powerLoop (fuel : Nat) (result square : Float) (n : Nat) : Float :=
  match fuel with
  | 0 => result
  | fuel + 1 =>
    let result := if n % 2 == 1 then result * square else result
    if n / 2 == 0 then result else powerLoop fuel result (square * square) (n / 2)

/-- The power of a double with a whole exponent, by squaring. -/
def power (base : Float) (n : Nat) : Float :=
  powerLoop (n + 1) 1.0 base n

end GraphLang.Decimal
