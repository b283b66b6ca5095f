import GraphLang.Decimal.Shortest

/-!
# Decimal texts of doubles

How a shortest decimal is laid out: where the point may stand, whether whole
numbers keep a fraction, how an exponent is signed, and the names of the values
that are not numbers.
-/

namespace GraphLang.Decimal

/-- The layout of a decimal text. The point of the number `0.d₁d₂… * 10 ^ p` stands at `p`; a number
is written without an exponent when its point lies in the given window. -/
structure Style where
  /-- The points below this one take an exponent, if there is one. -/
  lowest : Option Int
  /-- The points above this one take an exponent, if there is one. -/
  highest : Option Int
  /-- Whether a whole number is written with the fraction `.0`. -/
  keepsFraction : Bool
  /-- Whether an exponent that is not negative is written with a plus sign. -/
  signsExponent : Bool
  /-- Which of two equally near decimals is written. -/
  tie : Tie
deriving Repr, DecidableEq

/-- Positional at every size, and whole numbers without a fraction. -/
def Style.plain : Style := ⟨none, none, false, false, .up⟩

/-- Positional from `0.0001` and below `10 ^ 16`, with at least one digit after the point. -/
def Style.diagnostic : Style := ⟨some (-3), some 16, true, false, .up⟩

/-- Positional from `0.00001` and below `10 ^ 16`, with at least one digit after the point. An
exponent is always signed, and a tie goes to the even digit. -/
def Style.document : Style := ⟨some (-4), some 16, true, true, .even⟩

/-- The decimal digits of a whole number. -/
def digitText (n : Nat) : String := String.ofList (Nat.toDigits 10 n)

/-- A text of `n` zeros. -/
def zeros (n : Nat) : String := String.ofList (List.replicate n '0')

/-- Digits with the point after the first `p` of them, filled with zeros where needed. -/
def positional (digits : String) (p : Int) (keepsFraction : Bool) : String :=
  if p ≤ 0 then "0." ++ zeros (-p).toNat ++ digits
  else
    let count := digits.length
    if count ≤ p.toNat then
      digits ++ zeros (p.toNat - count) ++ (if keepsFraction then ".0" else "")
    else
      String.ofList (digits.toList.take p.toNat) ++ "." ++
        String.ofList (digits.toList.drop p.toNat)

/-- Digits with the point after the first one and a power of ten. -/
def scientific (digits : String) (p : Int) (signsExponent : Bool) : String :=
  let mantissa :=
    match digits.toList with
    | [] => ""
    | [d] => String.singleton d
    | d :: rest => String.singleton d ++ "." ++ String.ofList rest
  let power := p - 1
  let sign := if power < 0 then "-" else if signsExponent then "+" else ""
  mantissa ++ "e" ++ sign ++ digitText power.natAbs

/-- The text of a magnitude. -/
def Style.magnitude (style : Style) (b : Binary) : String :=
  if b.mantissa == 0 then (if style.keepsFraction then "0.0" else "0")
  else
    let s := shortest style.tie b.mantissa b.exponent
    let digits := digitText s.digits
    let p := (digits.length : Int) + s.exponent
    let small := match style.lowest with
      | some low => p < low
      | none => false
    let large := match style.highest with
      | some high => high < p
      | none => false
    if small || large then scientific digits p style.signsExponent
    else positional digits p style.keepsFraction

/-- The text of a double. -/
def Style.write (style : Style) (x : Float) : String :=
  match classify x with
  | .nan => "NaN"
  | .infinite negative => if negative then "-inf" else "inf"
  | .finite b => (if b.negative then "-" else "") ++ style.magnitude b

/-- The text of a double as a value: a whole number has one zero after the point and is written
in full, any other number is written positionally with the fewest digits. -/
def display (x : Float) : String :=
  match classify x with
  | .finite b =>
    if b.isWhole then (if b.negative then "-" else "") ++ digitText b.floor ++ ".0"
    else Style.plain.write x
  | _ => Style.plain.write x

end GraphLang.Decimal
