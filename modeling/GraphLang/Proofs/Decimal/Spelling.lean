import GraphLang.Decimal.Scan
import GraphLang.Decimal.Style
import Mathlib.Data.List.Basic
import Mathlib.Tactic.IntervalCases

/-!
# Numbers as they are written

A number that is written with digits at both sides of its point, and without a needless zero in
front, is scanned as it was written, whatever of a document comes after it.
-/

namespace GraphLang.Decimal

/-! ### Digits -/

theorem isDigit_of_mem_toDigits {n : Nat} {c : Char} (h : c ∈ Nat.toDigits 10 n) :
    isDigit c = true := by
  have hdigit := Nat.isDigit_of_mem_toDigits (by decide) (by decide) h
  simpa [isDigit, Char.isDigit, Char.le_def] using hdigit

/-- The digits of a number stand for it. -/
theorem digitsValue_toDigits (n : Nat) : digitsValue (Nat.toDigits 10 n) = n := by
  have hvalue : digitsValue (Nat.toDigits 10 n) = Nat.ofDigitChars 10 (Nat.toDigits 10 n) 0 := by
    rw [Nat.ofDigitChars_eq_foldl]
    rfl
  rw [hvalue, Nat.ofDigitChars_ten_toDigits]

theorem head?_toDigits {n : Nat} (hn : 0 < n) : (Nat.toDigits 10 n).head? ≠ some '0' := by
  induction n using Nat.strongRecOn with
  | ind n ih =>
    by_cases hlt : n < 10
    · rw [Nat.toDigits_of_lt_base hlt]
      interval_cases n <;> decide
    · rw [Nat.toDigits_of_base_le (by decide) (Nat.le_of_not_lt hlt),
        List.head?_append_of_ne_nil _ Nat.toDigits_ne_nil]
      exact ih (n / 10) (by omega) (by omega)

/-- No digits but those of zero start with a zero. -/
theorem toDigits_ne_zero_cons (n : Nat) (c : Char) (rest : List Char) :
    Nat.toDigits 10 n ≠ '0' :: c :: rest := by
  intro h
  rcases Nat.eq_zero_or_pos n with rfl | hn
  · simp at h
  · exact head?_toDigits hn (by rw [h]; rfl)

/-- What follows does not go on with digits. -/
def Stops (rest : List Char) : Prop := ∀ c ∈ rest.head?, isDigit c = false

theorem takeWhile_digits {digits rest : List Char} (hdigits : ∀ c ∈ digits, isDigit c = true)
    (hrest : Stops rest) :
    (digits ++ rest).takeWhile isDigit = digits ∧ (digits ++ rest).dropWhile isDigit = rest := by
  have hstop : rest.takeWhile isDigit = [] ∧ rest.dropWhile isDigit = rest := by
    cases rest with
    | nil => exact ⟨rfl, rfl⟩
    | cons c rest =>
      have hc := hrest c rfl
      simp [hc]
  rw [List.takeWhile_append_of_pos hdigits, List.dropWhile_append_of_pos hdigits, hstop.1, hstop.2]
  exact ⟨List.append_nil _, rfl⟩

/-! ### What comes after a number -/

/-- What follows is no part of a number: the end of a part of a document, or a blank. -/
def Ends (rest : List Char) : Prop :=
  ∀ c ∈ rest.head?, c ∈ [',', ']', '\x7d', ' ', '\n', '\t', '\r']

theorem ends_nil : Ends [] := by simp [Ends]

theorem Ends.cons {c : Char} (h : c ∈ [',', ']', '\x7d', ' ', '\n', '\t', '\r'])
    (rest : List Char) : Ends (c :: rest) := by
  rintro d ⟨⟩
  exact h

theorem Ends.stops {rest : List Char} (h : Ends rest) : Stops rest := by
  intro c hc
  have hmem := h c hc
  simp only [List.mem_cons, List.not_mem_nil, or_false] at hmem
  rcases hmem with rfl | rfl | rfl | rfl | rfl | rfl | rfl <;> rfl

/-! ### Written numbers -/

/-- There are digits where there must be, and no needless zero in front of them. -/
structure Written.Proper (w : Written) : Prop where
  /-- There are digits before the point. -/
  whole : w.whole ≠ []
  /-- They are digits. -/
  digits : ∀ c ∈ w.whole, isDigit c = true
  /-- They do not start with a needless zero. -/
  zero : ∀ c rest, w.whole ≠ '0' :: c :: rest
  /-- If there is a point, then there are digits after it. -/
  fraction : ∀ ds, w.fraction = some ds → ds ≠ [] ∧ ∀ c ∈ ds, isDigit c = true

/-- The text of an exponent, which is always signed. -/
def exponentText : Option Int → List Char
  | some e => 'e' :: (if e < 0 then '-' else '+') :: Nat.toDigits 10 e.natAbs
  | none => []

/-- The text of a fraction. -/
def fractionText : Option (List Char) → List Char
  | some digits => '.' :: digits
  | none => []

/-- The text of a number. -/
def Written.spell (w : Written) : List Char :=
  (if w.negative then ['-'] else []) ++
    (w.whole ++ (fractionText w.fraction ++ exponentText w.exponent))

theorem scanExponent_text (e : Option Int) {rest : List Char} (hrest : Ends rest) :
    scanExponent (exponentText e ++ rest) = some (e, rest) := by
  cases e with
  | none =>
    cases rest with
    | nil => rfl
    | cons c rest =>
      have hmem := hrest c rfl
      simp only [List.mem_cons, List.not_mem_nil, or_false] at hmem
      rcases hmem with rfl | rfl | rfl | rfl | rfl | rfl | rfl <;> rfl
  | some e =>
    obtain ⟨htake, hdrop⟩ := takeWhile_digits
      (fun _ => isDigit_of_mem_toDigits (n := e.natAbs)) hrest.stops
    have hsome : (Nat.toDigits 10 e.natAbs).isEmpty = false := by simp [Nat.toDigits_ne_nil]
    by_cases he : e < 0
    · have hstep (text : List Char) : scanExponent ('e' :: '-' :: text) =
          if (text.takeWhile isDigit).isEmpty then none
          else some (some (-(digitsValue (text.takeWhile isDigit) : Int)), text.dropWhile isDigit) :=
        rfl
      rw [exponentText, if_pos he, List.cons_append, List.cons_append, hstep, htake, hdrop, hsome,
        digitsValue_toDigits]
      simp only [Bool.false_eq_true, if_false]
      congr 3
      omega
    · have hstep (text : List Char) : scanExponent ('e' :: '+' :: text) =
          if (text.takeWhile isDigit).isEmpty then none
          else some (some (digitsValue (text.takeWhile isDigit) : Int), text.dropWhile isDigit) :=
        rfl
      rw [exponentText, if_neg he, List.cons_append, List.cons_append, hstep, htake, hdrop, hsome,
        digitsValue_toDigits]
      simp only [Bool.false_eq_true, if_false]
      congr 3
      omega

/-- Whether the digits start with a needless zero. -/
def needlessZero : List Char → Bool
  | '0' :: _ :: _ => true
  | _ => false

/-- What is scanned after the sign. -/
def scanUnsigned (negative : Bool) (text : List Char) : Option (Written × List Char) :=
  let whole := text.takeWhile isDigit
  let rest := text.dropWhile isDigit
  if whole.isEmpty || needlessZero whole then none
  else
    match rest with
    | '.' :: rest =>
      let fraction := rest.takeWhile isDigit
      if fraction.isEmpty then none
      else (scanExponent (rest.dropWhile isDigit)).map fun (e, rest) =>
        (⟨negative, whole, some fraction, e⟩, rest)
    | rest => (scanExponent rest).map fun (e, rest) => (⟨negative, whole, none, e⟩, rest)

theorem scan_minus (text : List Char) : scan ('-' :: text) = scanUnsigned true text := rfl

theorem scan_digit {c : Char} (hc : isDigit c = true) (text : List Char) :
    scan (c :: text) = scanUnsigned false (c :: text) := by
  unfold scan
  split
  rename_i negative rest heq
  split at heq
  · rename_i heq'
    cases heq'
    cases hc
  · cases heq
    rfl

theorem stops_exponentText (e : Option Int) {rest : List Char} (hrest : Ends rest) :
    Stops (exponentText e ++ rest) := by
  cases e with
  | none => exact hrest.stops
  | some e =>
    rintro c ⟨⟩
    rfl

theorem exponentText_ne_point (e : Option Int) {rest : List Char} (hrest : Ends rest)
    (others : List Char) : exponentText e ++ rest ≠ '.' :: others := by
  intro heq
  cases e with
  | none =>
    obtain rfl : rest = '.' :: others := heq
    simpa using hrest '.' rfl
  | some e => cases heq

theorem scanUnsigned_text (negative : Bool) {whole : List Char} {fraction : Option (List Char)}
    (e : Option Int) (h : Written.Proper ⟨negative, whole, fraction, e⟩) {rest : List Char}
    (hrest : Ends rest) :
    scanUnsigned negative (whole ++ (fractionText fraction ++ (exponentText e ++ rest))) =
      some (⟨negative, whole, fraction, e⟩, rest) := by
  have hexponent := stops_exponentText e hrest
  have hstops : Stops (fractionText fraction ++ (exponentText e ++ rest)) := by
    cases fraction with
    | none => exact hexponent
    | some digits =>
      rintro c ⟨⟩
      rfl
  obtain ⟨htake, hdrop⟩ := takeWhile_digits h.digits hstops
  have hzero : needlessZero whole = false := by
    unfold needlessZero
    split
    · exact absurd rfl (h.zero _ _)
    · rfl
  have hwhole : whole.isEmpty = false := by simpa using h.whole
  dsimp only at htake hdrop
  unfold scanUnsigned
  simp only [htake, hdrop, hzero, hwhole, Bool.or_false, Bool.false_eq_true, if_false]
  cases fraction with
  | some digits =>
    obtain ⟨hdigits, hall⟩ := h.fraction digits rfl
    obtain ⟨htake', hdrop'⟩ := takeWhile_digits hall hexponent
    have hsome : digits.isEmpty = false := by simpa using hdigits
    simp only [fractionText, List.cons_append, htake', hdrop', hsome, Bool.false_eq_true, if_false,
      scanExponent_text e hrest, Option.map_some]
  | none =>
    have hscan := scanExponent_text e hrest
    simp only [fractionText, List.nil_append]
    split
    · rename_i others heq
      exact absurd heq (exponentText_ne_point e hrest others)
    · rw [hscan, Option.map_some]

/-- A number is scanned as it was written. -/
theorem scan_spell {w : Written} (h : w.Proper) {rest : List Char} (hrest : Ends rest) :
    scan (w.spell ++ rest) = some (w, rest) := by
  obtain ⟨negative, whole, fraction, e⟩ := w
  have htext := scanUnsigned_text negative e h hrest
  unfold Written.spell
  simp only [List.append_assoc]
  cases negative with
  | true => exact (scan_minus _).trans htext
  | false =>
    obtain ⟨c, others, rfl⟩ := List.exists_cons_of_ne_nil h.whole
    exact (scan_digit (h.digits c List.mem_cons_self) _).trans htext

end GraphLang.Decimal
