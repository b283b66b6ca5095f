import GraphLang.Proofs.Decimal.Rounding
import GraphLang.Proofs.Decimal.Written
import Mathlib.Tactic.Linarith

/-!
# Doubles that are read back

A reader of documents makes a double of the digits that fit into a word and multiplies it with a
power of ten, which is a double too. Each of the three is rounded, so a number may become greater
than it was written. But for the three largest doubles there is room for that below the infinity,
and these three can be read as well. So the text of every finite double is read as a double.
-/

namespace GraphLang.Decimal

open Float.Model Float.Model.UnpackedFloat

variable {w : Written} {b : Binary} {s : Scaled} {m : Nat} {e : Int}

/-! ### What is written -/

/-- The magnitude that is written. -/
def Written.value (w : Written) : ℚ :=
  digitsValue (w.whole ++ w.fraction.getD []) *
    10 ^ (w.exponent.getD 0 - (w.fraction.getD []).length)

theorem foldl_digits (word : Nat) (digits : List Char) :
    digits.foldl (fun n c => 10 * n + digitValue c) word =
      word * 10 ^ digits.length + digitsValue digits := by
  unfold digitsValue
  induction digits generalizing word with
  | nil => simp
  | cons c digits ih =>
    rw [List.foldl_cons, List.foldl_cons, ih, ih (10 * 0 + digitValue c), List.length_cons]
    ring

theorem digitsValue_cons (c : Char) (digits : List Char) :
    digitsValue (c :: digits) = digitValue c * 10 ^ digits.length + digitsValue digits := by
  rw [digitsValue, List.foldl_cons, foldl_digits, mul_zero, zero_add]

theorem digitsValue_append (digits others : List Char) :
    digitsValue (digits ++ others) = digitsValue digits * 10 ^ others.length + digitsValue others := by
  rw [digitsValue, List.foldl_append, foldl_digits, ← digitsValue]

theorem digitsValue_zeros (n : Nat) : digitsValue (List.replicate n '0') = 0 := by
  induction n with
  | zero => rfl
  | succ n ih => rw [List.replicate_succ, digitsValue_cons, ih, show digitValue '0' = 0 from rfl]; simp

theorem digitsValue_lt {digits : List Char} (h : ∀ c ∈ digits, isDigit c = true) :
    digitsValue digits < 10 ^ digits.length := by
  induction digits with
  | nil => decide
  | cons c digits ih =>
    have hc : digitValue c ≤ 9 := by
      have hdigit := h c List.mem_cons_self
      simp only [isDigit, Bool.and_eq_true, decide_eq_true_eq, Char.le_def] at hdigit
      have hle : c.toNat ≤ 57 := hdigit.2
      unfold digitValue
      omega
    have hrest := ih fun c hc => h c (List.mem_cons_of_mem _ hc)
    rw [digitsValue_cons, List.length_cons, pow_succ]
    have := Nat.mul_le_mul_right (10 ^ digits.length) hc
    omega

/-- A decimal is written as it is, wherever its point stands. -/
theorem Scaled.value_written (negative : Bool) (s : Scaled) :
    (s.written negative).value = s.value := by
  have hvalue := digitsValue_toDigits s.digits
  have hne : (Nat.toDigits 10 s.digits).length ≠ 0 := by
    simp [Nat.toDigits_ne_nil]
  unfold Scaled.written Scaled.value Written.value
  dsimp only
  generalize Nat.toDigits 10 s.digits = digits at *
  split_ifs with hwindow hone hfront hback
  · simp only [Option.getD_none, List.append_nil, Option.getD_some, List.length_nil,
      List.take_of_length_le hone.le, hvalue, hone]
    congr 2
    omega
  · simp only [Option.getD_some, List.take_append_drop, hvalue, List.length_drop]
    congr 2
    omega
  · rw [Option.getD_some, Option.getD_none, digitsValue_append, digitsValue_append,
      digitsValue_zeros, hvalue, show digitsValue ['0'] = 0 from rfl, List.length_append,
      List.length_replicate, zero_mul, zero_add, zero_mul, zero_add]
    congr 2
    push_cast
    omega
  · obtain ⟨n, hn⟩ : ∃ n : Nat, s.exponent = n := ⟨s.exponent.toNat, by omega⟩
    have hzeros : ((digits.length : Int) + s.exponent).toNat - digits.length = n := by omega
    rw [Option.getD_some, Option.getD_none, digitsValue_append, digitsValue_append,
      digitsValue_zeros, hvalue, show digitsValue ['0'] = 0 from rfl, List.length_replicate,
      hzeros, hn]
    push_cast
    simp only [List.length_singleton, add_zero, pow_one, zpow_natCast, Nat.cast_one, zero_sub]
    ring
  · simp only [Option.getD_some, Option.getD_none, List.take_append_drop, hvalue, List.length_drop]
    congr 2
    omega

/-- No more than sixteen digits stand in front of the point. -/
theorem Scaled.length_whole_written (negative : Bool) (s : Scaled) :
    (s.written negative).whole.length ≤ 16 := by
  unfold Scaled.written
  dsimp only
  split_ifs
  · simp only [List.length_take]
    omega
  · simp only [List.length_take]
    omega
  · exact Nat.le_of_ble_eq_true rfl
  · simp only [List.length_append, List.length_replicate]
    omega
  · simp only [List.length_take]
    omega

/-! ### What is kept of the digits -/

/-- Digits that fit into a word are all kept. -/
theorem keepWhole_of_le {word : Nat} {digits : List Char}
    (h : word * 10 ^ digits.length + digitsValue digits ≤ maxWord) :
    keepWhole word digits = (word * 10 ^ digits.length + digitsValue digits, 0) := by
  induction digits generalizing word with
  | nil => simp [keepWhole, digitsValue]
  | cons c digits ih =>
    have hsame : word * 10 ^ (c :: digits).length + digitsValue (c :: digits) =
        (10 * word + digitValue c) * 10 ^ digits.length + digitsValue digits := by
      rw [digitsValue_cons, List.length_cons]
      ring
    rw [hsame] at h ⊢
    have hpow := Nat.le_mul_of_pos_right (10 * word + digitValue c)
      (Nat.pow_pos (n := digits.length) (show 0 < 10 by decide))
    rw [keepWhole, if_pos (by omega), ih h]

/-- The digits after the point that are kept make no more than all of them, and fit into a word. -/
theorem keepFraction_le {word : Nat} (hword : word ≤ maxWord) (digits : List Char) :
    (keepFraction word digits).1 ≤ maxWord ∧ (keepFraction word digits).2 ≤ digits.length ∧
      (keepFraction word digits).1 * 10 ^ (digits.length - (keepFraction word digits).2) ≤
        word * 10 ^ digits.length + digitsValue digits := by
  induction digits generalizing word with
  | nil => simp [keepFraction, hword]
  | cons c digits ih =>
    rw [keepFraction]
    split_ifs with hfits
    · obtain ⟨hkept, hcount, hle⟩ := ih hfits
      refine ⟨hkept, by simpa using hcount, ?_⟩
      rw [List.length_cons, Nat.add_sub_add_right, digitsValue_cons]
      refine hle.trans (le_of_eq ?_)
      ring
    · exact ⟨hword, Nat.zero_le _, Nat.le_add_right _ _⟩

/-- The word of kept digits with its power of ten is not greater than what is written. -/
theorem Written.kept_le (h : w.Proper) (hlength : w.whole.length ≤ 16) :
    ∃ word kept, keepWhole 0 w.whole = (digitsValue w.whole, 0) ∧
      keepFraction (digitsValue w.whole) (w.fraction.getD []) = (word, kept) ∧ word ≤ maxWord ∧
      (word : ℚ) * 10 ^ (w.exponent.getD 0 - kept) ≤ w.value := by
  have hwhole : digitsValue w.whole ≤ maxWord := by
    have hlt := digitsValue_lt h.digits
    have hpow := Nat.pow_le_pow_right (show 0 < 10 by decide) hlength
    exact (hlt.le.trans hpow).trans (by decide)
  obtain ⟨hword, hcount, hle⟩ := keepFraction_le hwhole (w.fraction.getD [])
  have hkeep : keepWhole 0 w.whole = (digitsValue w.whole, 0) := by
    rw [keepWhole_of_le (by simpa using hwhole), zero_mul, zero_add]
  refine ⟨_, _, hkeep, rfl, hword, ?_⟩
  rw [← digitsValue_append] at hle
  unfold Written.value
  generalize keepFraction (digitsValue w.whole) (w.fraction.getD []) = r at hcount hle ⊢
  generalize w.fraction.getD [] = fraction at hcount hle ⊢
  have hcast : ((r.1 * 10 ^ (fraction.length - r.2) : Nat) : ℚ) ≤
      digitsValue (w.whole ++ fraction) := by exact_mod_cast hle
  have hsplit : (w.exponent.getD 0 - r.2 : Int) =
      ((fraction.length - r.2 : Nat) : Int) + (w.exponent.getD 0 - fraction.length) := by omega
  rw [hsplit, zpow_add₀ (by norm_num), zpow_natCast, ← mul_assoc]
  push_cast at hcast
  exact mul_le_mul_of_nonneg_right hcast (zpow_pos (by norm_num) _).le

/-! ### Room for three roundings -/

/-- Rounding makes a number greater by no more than half of its last bit. -/
theorem nearestWhole_le (n : Nat) : nearestWhole n * 2 ^ 53 ≤ n * (2 ^ 53 + 1) := by
  rcases Nat.lt_or_ge n (2 ^ 53) with hn | hn
  · rw [nearestWhole_of_lt hn]
    omega
  · have hlog : 53 ≤ n.log2 := (Nat.le_log2 (by omega)).2 hn
    have hround := halfEven_mul_le n (n.log2 - 52)
    have hlow := (log2_bounds (show 0 < n by omega)).1
    have hsplit : 2 ^ n.log2 = 2 ^ 52 * 2 ^ (n.log2 - 52) := by
      rw [← pow_add]
      congr 1
      omega
    rw [hsplit] at hlow
    rw [nearestWhole]
    omega

/-- Twice the midpoint between the fourth largest double and the third largest. -/
def roomy : Nat := (2 ^ 54 - 7) * 2 ^ 971

theorem roomy_rounded : roomy * (2 ^ 53 + 1) ^ 3 < 2 * (limit * 2 ^ 159) := by decide +kernel

/-- Two factors that are rounded, and their product with them, stay below the infinity. -/
theorem product_lt {a b : Nat} (h : 2 * (a * b) ≤ roomy) :
    nearestWhole a * nearestWhole b * (2 ^ 53 + 1) < limit * 2 ^ 53 := by
  have ha := nearestWhole_le a
  have hb := nearestWhole_le b
  refine lt_of_mul_lt_mul_right ?_ (Nat.zero_le (2 * 2 ^ 106))
  calc
    nearestWhole a * nearestWhole b * (2 ^ 53 + 1) * (2 * 2 ^ 106)
    _ = 2 * (nearestWhole a * 2 ^ 53 * (nearestWhole b * 2 ^ 53)) * (2 ^ 53 + 1) := by ring
    _ ≤ 2 * (a * (2 ^ 53 + 1) * (b * (2 ^ 53 + 1))) * (2 ^ 53 + 1) := by gcongr
    _ = 2 * (a * b) * (2 ^ 53 + 1) ^ 3 := by ring
    _ ≤ roomy * (2 ^ 53 + 1) ^ 3 := by gcongr
    _ < 2 * (limit * 2 ^ 159) := roomy_rounded
    _ = limit * 2 ^ 53 * (2 * 2 ^ 106) := by ring

/-- The parts of a double that denotes a positive whole number. -/
theorem parts_of_denotes {x : Float} {a : Nat} (ha : 0 < a) (h : Denotes x.toModel.unpack a) :
    ∃ m e hm, x.toModel.unpack = .finite .positive m e hm ∧ (a : ℚ) = m * 2 ^ e ∧ 2 ^ 52 ≤ m ∧
      -52 ≤ e := by
  have hone : (1 : ℚ) ≤ a := by exact_mod_cast ha
  generalize x.toModel.unpack = u at h
  generalize (a : ℚ) = q at h hone
  cases h with
  | zero s => norm_num at hone
  | negative hm hc =>
    rename_i m e
    have hpositive : (0 : ℚ) < m * 2 ^ e := by positivity
    linarith
  | positive hm hc =>
    rename_i m e
    have hhigh : (m : ℚ) < 2 ^ 53 := by exact_mod_cast hc.high
    have hpower : (1 : ℚ) < 2 ^ (53 + e) := calc
      (1 : ℚ)
      _ ≤ m * 2 ^ e := hone
      _ < 2 ^ 53 * 2 ^ e := mul_lt_mul_of_pos_right hhigh (zpow_pos (by norm_num) e)
      _ = 2 ^ (53 + e) := by
        rw [zpow_add₀ (by norm_num)]
        norm_cast
    have hexponent : 0 < 53 + e := by
      rw [← zpow_zero (2 : ℚ)] at hpower
      exact (zpow_lt_zpow_iff_right₀ (by norm_num)).1 hpower
    exact ⟨m, e, hm, rfl, rfl, hc.low.resolve_right (by omega), by omega⟩

theorem isInf_of_denotes {x : Float} {q : ℚ} (h : Denotes x.toModel.unpack q) : x.isInf = false := by
  change x.toModel.unpack.isInf = false
  generalize x.toModel.unpack = u at h
  cases h <;> rfl

/-- The product of two whole numbers that is not too large is no infinity. -/
theorem isInf_mul {x y : Float} {a b : Nat} (ha : 0 < a) (hb : 0 < b)
    (hx : Denotes x.toModel.unpack a) (hy : Denotes y.toModel.unpack b)
    (h : a * b * (2 ^ 53 + 1) < limit * 2 ^ 53) : (x * y).isInf = false := by
  obtain ⟨m, e, hm, hxparts, haparts, hmlow, helow⟩ := parts_of_denotes ha hx
  obtain ⟨m', e', hm', hyparts, hbparts, hmlow', helow'⟩ := parts_of_denotes hb hy
  have hbits : 104 ≤ (m * m').log2 := by
    refine (Nat.le_log2 (Nat.mul_pos hm hm').ne').2 ?_
    rw [show 104 = 52 + 52 from rfl, pow_add]
    exact Nat.mul_le_mul hmlow hmlow'
  have hhigh : (nearestWhole (m * m') * 2 ^ (e + e') : ℚ) < limit := by
    have hround : (nearestWhole (m * m') * 2 ^ 53 : ℚ) ≤ m * m' * (2 ^ 53 + 1) := by
      exact_mod_cast nearestWhole_le (m * m')
    have hlimit : (a * b * (2 ^ 53 + 1) : ℚ) < limit * 2 ^ 53 := by exact_mod_cast h
    rw [haparts, hbparts] at hlimit
    refine lt_of_mul_lt_mul_right (lt_of_le_of_lt ?_ hlimit) (show (0 : ℚ) ≤ 2 ^ 53 by norm_num)
    calc
      (nearestWhole (m * m') * 2 ^ (e + e') * 2 ^ 53 : ℚ)
      _ = nearestWhole (m * m') * 2 ^ 53 * 2 ^ (e + e') := by ring
      _ ≤ m * m' * (2 ^ 53 + 1) * 2 ^ (e + e') :=
        mul_le_mul_of_nonneg_right hround (zpow_pos (by norm_num) _).le
      _ = m * 2 ^ e * (m' * 2 ^ e') * (2 ^ 53 + 1) := by
        rw [zpow_add₀ (by norm_num)]
        ring
  have hround := denotes_round (by omega) (by omega) hhigh
  refine isInf_of_denotes (q := nearestWhole (m * m') * 2 ^ (e + e')) ?_
  change Denotes (Float.Model.pack (UnpackedFloat.mul Format.binary64 x.toModel.unpack
    y.toModel.unpack)).unpack _
  rw [hxparts, hyparts, mul_positive]
  exact hround

/-- Nothing times a whole number is no infinity. -/
theorem isInf_zero_mul {y : Float} {q : ℚ} (hy : Denotes y.toModel.unpack q) :
    (Float.ofScientific 0 false 0 * y).isInf = false := by
  have hzero : (Float.ofScientific 0 false 0).toModel.unpack = .zero .positive := rfl
  change (Float.Model.pack (UnpackedFloat.mul Format.binary64
    (Float.ofScientific 0 false 0).toModel.unpack y.toModel.unpack)).unpack.isInf = false
  rw [hzero]
  generalize y.toModel.unpack = u at hy
  obtain ⟨s, hs⟩ : ∃ s, UnpackedFloat.mul Format.binary64 (.zero .positive) u = .zero s := by
    cases hy <;> exact ⟨_, rfl⟩
  rw [hs]
  cases s <;> rfl

/-! ### Powers of ten -/

/-- The powers in the table are those that a reader makes of all their digits. -/
theorem power_of_table : ∀ k ≤ 22, (Float.ofScientific 1 false k).toModel.toBits =
    (Float.ofScientific (10 ^ k) false 0).toModel.toBits := by decide +kernel

theorem power_lt {k : Nat} (hk : k ≤ 308) : nearestWhole (10 ^ k) < limit := by
  have hgreatest : 10 ^ 308 * (2 ^ 53 + 1) < limit * 2 ^ 53 := by decide +kernel
  refine lt_of_mul_lt_mul_right ?_ (Nat.zero_le (2 ^ 53))
  calc
    nearestWhole (10 ^ k) * 2 ^ 53
    _ ≤ 10 ^ k * (2 ^ 53 + 1) := nearestWhole_le (10 ^ k)
    _ ≤ 10 ^ 308 * (2 ^ 53 + 1) := by gcongr; decide
    _ < limit * 2 ^ 53 := hgreatest

theorem denotes_power {k : Nat} (hk : k ≤ 308) :
    Denotes (Float.ofScientific 1 false k).toModel.unpack (nearestWhole (10 ^ k)) := by
  by_cases hsmall : k ≤ 22
  · have hunpack : (Float.ofScientific 1 false k).toModel.unpack =
        (Float.ofScientific (10 ^ k) false 0).toModel.unpack := by
      rw [Float.Model.unpack, power_of_table k hsmall, Float.Model.unpack]
    rw [hunpack]
    exact denotes_ofScientific (power_lt hk)
  · have hscientific := denotes_scientific (n := 1) (k := k) one_pos (fun hboth => hsmall hboth.2)
      (by omega) (by rw [one_mul]; exact power_lt hk)
    rwa [one_mul] at hscientific

/-! ### What documents hold -/

/-- Such a power of ten is a double. -/
theorem power_le_of_word {word k : Nat} (hword : 0 < word) (h : 2 * (word * 10 ^ k) ≤ roomy) :
    k ≤ 308 := by
  have hgreatest : roomy < 10 ^ 309 := by decide +kernel
  have hpow : 10 ^ k < 10 ^ 309 := by
    refine lt_of_le_of_lt ?_ hgreatest
    calc
      10 ^ k
      _ ≤ word * 10 ^ k := Nat.le_mul_of_pos_left _ hword
      _ ≤ 2 * (word * 10 ^ k) := Nat.le_mul_of_pos_left _ two_pos
      _ ≤ roomy := h
  have := (Nat.pow_lt_pow_iff_right (by decide)).1 hpow
  omega

/-- A number with few digits in front of the point, which is not too large, is read. -/
theorem Written.isSome_documentValue (h : w.Proper) (hlength : w.whole.length ≤ 16)
    (hvalue : 2 * w.value ≤ roomy) : w.documentValue.isSome = true := by
  obtain ⟨word, kept, hwhole, hfraction, hword, hle⟩ := Written.kept_le h hlength
  unfold Written.documentValue
  rw [hwhole]
  dsimp only
  rw [hfraction]
  dsimp only
  rw [Option.isSome_map, Nat.cast_zero, add_zero]
  by_cases hnegative : w.exponent.getD 0 - kept < 0
  · rw [if_pos hnegative]
    rfl
  obtain ⟨k, hk⟩ := Int.eq_ofNat_of_zero_le (not_lt.1 hnegative)
  rw [hk] at hle ⊢
  rw [zpow_natCast] at hle
  have hroomy : 2 * (word * 10 ^ k) ≤ roomy := by
    have hcast : (2 * (word * 10 ^ k) : ℚ) ≤ roomy := by linarith
    exact_mod_cast hcast
  rw [if_neg (by omega), Int.toNat_natCast]
  rcases word.eq_zero_or_pos with rfl | hpositive
  · split_ifs with hsmall hinf hzero
    · rw [isInf_zero_mul (denotes_power (by omega))] at hinf
      cases hinf
    · rfl
    · rfl
    · exact absurd rfl hzero
  · have hsmall := power_le_of_word hpositive hroomy
    have hbits : word.log2 < 64 :=
      (Nat.log2_lt hpositive.ne').2 (hword.trans_lt (show maxWord < 2 ^ 64 by decide))
    have hstart := denotes_ofScientific (nearestWhole_lt_of_log2 (show word.log2 ≤ 1022 by omega))
    have hrounded {n : Nat} (hn : 0 < n) : 0 < nearestWhole n :=
      (Nat.two_pow_pos _).trans_le (nearestWhole_bounds hn).1
    have hinf := isInf_mul (hrounded hpositive) (hrounded (Nat.pow_pos (by decide))) hstart
      (denotes_power hsmall) (product_lt hroomy)
    rw [if_pos (by omega), hinf]
    rfl

/-- The three largest doubles, for which there is no room. -/
theorem isSome_largest : ∀ negative, ∀ n < 3,
    (Binary.written ⟨negative, 2 ^ 53 - 3 + n, 971⟩).documentValue.isSome = true := by
  decide +kernel

/-- The midpoints to the next double are low enough, but for the three largest doubles. -/
theorem ceiling_le (hm : m < 2 ^ 53) (he : e ≤ 971) (h : ¬(e = 971 ∧ 2 ^ 53 - 3 ≤ m)) :
    2 * ceiling m e ≤ roomy := by
  have hroomy : (roomy : ℚ) = (2 ^ 54 - 7 : Nat) * 2 ^ (971 : Int) := by
    rw [roomy, Nat.cast_mul, Nat.cast_pow, Nat.cast_ofNat]
    exact congrArg _ (zpow_natCast 2 971).symm
  have hmidpoint : (2 * m + 1 : ℚ) * 2 ^ e ≤ roomy := by
    rw [hroomy]
    rcases he.eq_or_lt with rfl | hlt
    · have hbits : 2 * m + 1 ≤ 2 ^ 54 - 7 := by omega
      have hcast : (2 * m + 1 : ℚ) ≤ (2 ^ 54 - 7 : Nat) := by exact_mod_cast hbits
      exact mul_le_mul_of_nonneg_right hcast (zpow_pos (by norm_num) _).le
    · have hbits : 2 * m + 1 ≤ (2 ^ 54 - 7) * 2 := by omega
      have hcast : (2 * m + 1 : ℚ) ≤ (2 ^ 54 - 7 : Nat) * 2 := by exact_mod_cast hbits
      calc
        (2 * m + 1 : ℚ) * 2 ^ e
        _ ≤ (2 ^ 54 - 7 : Nat) * 2 * 2 ^ (970 : Int) :=
          mul_le_mul hcast (zpow_le_zpow_right₀ (by norm_num) (by omega))
            (zpow_pos (by norm_num) _).le (by positivity)
        _ = (2 ^ 54 - 7 : Nat) * 2 ^ (971 : Int) := by
          rw [show (971 : Int) = 1 + 970 from rfl, zpow_add₀ (by norm_num), zpow_one, mul_assoc]
  have hbits : (2 * m : ℚ) ≤ roomy := by
    have hle : 2 * m ≤ 2 * 2 ^ 53 := by omega
    exact_mod_cast hle.trans (show 2 * 2 ^ 53 ≤ roomy by decide +kernel)
  unfold ceiling
  rcases max_cases ((m + 1 / 2 : ℚ) * 2 ^ e) m with ⟨hmax, -⟩ | ⟨hmax, -⟩ <;> rw [hmax]
  · linarith
  · exact hbits

/-- The text of a finite double is read as a double. -/
theorem Binary.isSome_documentValue (hm : b.mantissa < 2 ^ 53) (he : b.exponent ≤ 971) :
    b.written.documentValue.isSome = true := by
  obtain ⟨negative, m, e⟩ := b
  dsimp only at hm he
  by_cases hlarge : e = 971 ∧ 2 ^ 53 - 3 ≤ m
  · obtain ⟨rfl, hlow⟩ := hlarge
    have hlargest := isSome_largest negative (m - (2 ^ 53 - 3)) (by omega)
    rwa [Nat.add_sub_cancel' hlow] at hlargest
  · unfold Binary.written
    dsimp only
    split_ifs with hzero
    · cases negative <;> rfl
    · have hpositive := Nat.pos_of_ne_zero hzero
      obtain ⟨hdigits, hceiling⟩ := shortest_bounds .even hpositive e
      refine Written.isSome_documentValue (Scaled.proper_written _ hdigits)
        (Scaled.length_whole_written _ _) ?_
      rw [Scaled.value_written]
      have := ceiling_le hm he hlarge
      linarith

end GraphLang.Decimal
