import GraphLang.Proofs.Decimal.Spelling
import Mathlib.Algebra.Order.Field.Power
import Mathlib.Tactic.NormNum
import Mathlib.Tactic.Ring

/-!
# Doubles as documents write them

A double is finite exactly if its bits make a binary fraction. The shortest decimal of such a
fraction has at least one digit that counts, and is not above the midpoint to the next double. It is
written with digits at both sides of its point or with an exponent, so a reader scans it back.
-/

namespace GraphLang.Decimal

open Float.Model Float.Model.UnpackedFloat

variable {x : Float} {b : Binary} {s : Scaled} {m : Nat} {e : Int}

/-! ### Finite doubles -/

/-- The field of the exponent, as the bits of a double hold it. -/
theorem toNat_unpackExponent (x : Float) :
    (@unpackExponent Format.binary64 x.toModel.toBits.toBitVec).toNat =
      x.toBits.toNat / twoTo 52 % 2048 := by
  have hbits : x.toBits.toNat = x.toModel.toBits.toBitVec.toNat := rfl
  rw [hbits, unpackExponent]
  simp only [BitVec.toNat_cast, BitVec.extractLsb_toNat, twoTo]
  rw [Nat.shiftRight_eq_div_pow]

theorem isFinite_iff : x.isFinite = true ↔ x.toBits.toNat / twoTo 52 % 2048 ≠ 2047 := by
  have hfield := toNat_unpackExponent x
  change (UnpackedFloat.unpack Format.binary64 x.toModel.toBits.toBitVec).isFinite = true ↔ _
  rw [← hfield]
  have hones : @unpackExponent Format.binary64 x.toModel.toBits.toBitVec = -1#11 ↔
      (@unpackExponent Format.binary64 x.toModel.toBits.toBitVec).toNat = 2047 :=
    BitVec.toNat_inj.symm
  rw [Ne, ← hones]
  unfold UnpackedFloat.unpack
  dsimp only
  by_cases h : @unpackExponent Format.binary64 x.toModel.toBits.toBitVec = -1#11
  · refine iff_of_false ?_ (not_not.2 h)
    rw [if_pos h, apply_ite UnpackedFloat.isFinite]
    change ¬(if _ then false else false) = true
    rw [ite_self]
    exact Bool.false_ne_true
  · refine iff_of_true ?_ h
    rw [if_neg h, apply_ite UnpackedFloat.isFinite, apply_dite UnpackedFloat.isFinite]
    change (if _ then if _ then true else true else true) = true
    rw [ite_self, ite_self]

/-- The parts of a finite double. -/
theorem exists_classify (h : x.isFinite = true) :
    ∃ b, classify x = .finite b ∧ b.mantissa < 2 ^ 53 ∧ b.exponent ≤ 971 := by
  rw [isFinite_iff] at h
  have hfraction : x.toBits.toNat % twoTo 52 < 2 ^ 52 := Nat.mod_lt _ (by decide)
  have hfield : x.toBits.toNat / twoTo 52 % 2048 < 2048 := Nat.mod_lt _ (by decide)
  have htwo : twoTo 52 = 2 ^ 52 := rfl
  unfold classify
  dsimp only
  rw [if_neg (by simpa using h)]
  split_ifs
  · have hleast : minExponent ≤ 971 := by decide
    exact ⟨_, rfl, by dsimp only; omega, hleast⟩
  · exact ⟨_, rfl, by dsimp only; omega, by dsimp only; omega⟩

/-! ### Shortest decimals -/

theorem natPower_eq {base : Nat} (hbase : base ≠ 0) (e : Int) :
    (natPower base e : ℚ) = base ^ e * natPower base (-e) := by
  have hne : (base : ℚ) ≠ 0 := by exact_mod_cast hbase
  rcases le_total 0 e with he | he
  · obtain ⟨n, rfl⟩ := Int.eq_ofNat_of_zero_le he
    simp [natPower]
  · obtain ⟨n, hn⟩ := Int.exists_eq_neg_ofNat he
    rw [hn, neg_neg, zpow_neg, zpow_natCast]
    have hpow : (base : ℚ) ^ n ≠ 0 := pow_ne_zero n hne
    simp [natPower, hpow]

theorem natPower_pos {base : Nat} (hbase : 0 < base) (e : Int) : 0 < natPower base e :=
  Nat.pow_pos hbase

/-- A multiple that reads back is above zero and not above the midpoint to the next double. -/
theorem nearestOnGrid_bounds {tie : Tie} {k : Int} {c : Nat} (hm : 0 < m)
    (h : nearestOnGrid tie m e k = some c) :
    0 < c ∧ c * (natPower 2 (2 - e) * natPower 10 k) ≤
      (4 * m + 2) * (natPower 2 (e - 2) * natPower 10 (-k)) := by
  unfold nearestOnGrid at h
  dsimp only at h
  generalize hbelow : (if m == twoTo 52 && minExponent < e then 1 else 2) = below at h
  have hlow : 0 < (4 * m - below) * (natPower 2 (e - 2) * natPower 10 (-k)) := by
    have hsmall : below ≤ 2 := by
      rw [← hbelow]
      split_ifs <;> omega
    exact Nat.mul_pos (by omega)
      (Nat.mul_pos (natPower_pos (by decide) _) (natPower_pos (by decide) _))
  generalize natPower 2 (2 - e) * natPower 10 k = down at h ⊢
  generalize natPower 2 (e - 2) * natPower 10 (-k) = up at h hlow ⊢
  have hbounds {c : Nat} (hc : (if (m % 2 == 0) = true then
      decide ((4 * m - below) * up ≤ c * down) && decide (c * down ≤ (4 * m + 2) * up)
      else decide ((4 * m - below) * up < c * down) && decide (c * down < (4 * m + 2) * up)) =
        true) : 0 < c ∧ c * down ≤ (4 * m + 2) * up := by
    have hboth : (4 * m - below) * up ≤ c * down ∧ c * down ≤ (4 * m + 2) * up := by
      split_ifs at hc <;> simp only [Bool.and_eq_true, decide_eq_true_eq] at hc <;> omega
    refine ⟨Nat.pos_of_ne_zero ?_, hboth.2⟩
    rintro rfl
    omega
  generalize 4 * m * up / down = floor at h
  split at h
  case h_1 hfloor hnext =>
    split_ifs at h <;> cases h
    · exact hbounds hfloor
    · exact hbounds hnext
  case h_2 hfloor _ =>
    cases h
    exact hbounds hfloor
  case h_3 _ hnext =>
    cases h
    exact hbounds hnext
  case h_4 => cases h

/-- The number that a scaled one stands for. -/
def Scaled.value (s : Scaled) : ℚ := s.digits * 10 ^ s.exponent

/-- The midpoint to the next double, or the significant bits by themselves where these are more. -/
def ceiling (m : Nat) (e : Int) : ℚ := max ((m + 1 / 2) * 2 ^ e) m

theorem value_of_nearestOnGrid {tie : Tie} {k : Int} {c : Nat} (hm : 0 < m)
    (h : nearestOnGrid tie m e k = some c) : (⟨c, k⟩ : Scaled).value ≤ ceiling m e := by
  obtain ⟨-, hbound⟩ := nearestOnGrid_bounds hm h
  have hbound : (c : ℚ) * (natPower 2 (2 - e) * natPower 10 k) ≤
      (4 * m + 2) * (natPower 2 (e - 2) * natPower 10 (-k)) := by exact_mod_cast hbound
  have htwo : (0 : ℚ) < natPower 2 (2 - e) := by exact_mod_cast natPower_pos (by decide) _
  have hten : (0 : ℚ) < natPower 10 (-k) := by exact_mod_cast natPower_pos (by decide) _
  rw [natPower_eq (by decide) k, natPower_eq (by decide) (e - 2), neg_sub] at hbound
  push_cast at hbound
  refine le_max_of_le_left (le_of_mul_le_mul_right ?_ (mul_pos htwo hten))
  calc
    (c * 10 ^ k : ℚ) * (natPower 2 (2 - e) * natPower 10 (-k))
    _ = c * (natPower 2 (2 - e) * (10 ^ k * natPower 10 (-k))) := by ring
    _ ≤ (4 * m + 2) * (2 ^ (e - 2) * natPower 2 (2 - e) * natPower 10 (-k)) := hbound
    _ = (m + 1 / 2) * 2 ^ e * (natPower 2 (2 - e) * natPower 10 (-k)) := by
      rw [zpow_sub₀ (by norm_num)]
      ring

theorem searchGrids_bounds (tie : Tie) (hm : 0 < m) (e : Int) (fuel : Nat) (k : Int) :
    0 < (searchGrids tie m e fuel k).digits ∧ (searchGrids tie m e fuel k).value ≤ ceiling m e := by
  induction fuel generalizing k with
  | zero => exact ⟨hm, by simp [searchGrids, Scaled.value, ceiling]⟩
  | succ fuel ih =>
    rw [searchGrids]
    cases hnearest : nearestOnGrid tie m e k with
    | some c => exact ⟨(nearestOnGrid_bounds hm hnearest).1, value_of_nearestOnGrid hm hnearest⟩
    | none => exact ih (k - 1)

theorem dropZeros_value (fuel : Nat) (s : Scaled) :
    (dropZeros fuel s).value = s.value ∧ (0 < s.digits → 0 < (dropZeros fuel s).digits) := by
  induction fuel generalizing s with
  | zero => exact ⟨rfl, id⟩
  | succ fuel ih =>
    rw [dropZeros]
    split_ifs with hzero
    · obtain ⟨hvalue, hdigits⟩ := ih ⟨s.digits / 10, s.exponent + 1⟩
      simp only [Bool.and_eq_true, beq_iff_eq, bne_iff_ne] at hzero
      obtain ⟨n, hn⟩ := Nat.dvd_of_mod_eq_zero hzero.1
      refine ⟨hvalue.trans ?_, fun _ => hdigits (by dsimp only; omega)⟩
      simp only [Scaled.value, hn, Nat.mul_div_cancel_left n (show 0 < 10 by decide)]
      rw [zpow_add₀ (by norm_num)]
      push_cast
      ring
    · exact ⟨rfl, id⟩

/-- The shortest decimal has a digit that counts, and is not above the midpoint to the next
double. -/
theorem shortest_bounds (tie : Tie) (hm : 0 < m) (e : Int) :
    0 < (shortest tie m e).digits ∧ (shortest tie m e).value ≤ ceiling m e := by
  obtain ⟨hdigits, hvalue⟩ := searchGrids_bounds tie hm e 20 (decimalOrder m e)
  obtain ⟨hsame, hkept⟩ := dropZeros_value 20 (searchGrids tie m e 20 (decimalOrder m e))
  rw [shortest, if_neg (by simpa using hm.ne')]
  exact ⟨hkept hdigits, hsame ▸ hvalue⟩

/-! ### The layout of documents -/

/-- A decimal as documents write it: with an exponent, or with the point in front of its digits,
behind them or among them. -/
def Scaled.written (negative : Bool) (s : Scaled) : Written :=
  let digits := Nat.toDigits 10 s.digits
  let p : Int := digits.length + s.exponent
  if p < -4 ∨ 16 < p then
    ⟨negative, digits.take 1, if digits.length = 1 then none else some (digits.drop 1), some (p - 1)⟩
  else if p ≤ 0 then ⟨negative, ['0'], some (List.replicate (-p).toNat '0' ++ digits), none⟩
  else if digits.length ≤ p.toNat then
    ⟨negative, digits ++ List.replicate (p.toNat - digits.length) '0', some ['0'], none⟩
  else ⟨negative, digits.take p.toNat, some (digits.drop p.toNat), none⟩

/-- A finite double as documents write it. -/
def Binary.written (b : Binary) : Written :=
  if b.mantissa = 0 then ⟨b.negative, ['0'], some ['0'], none⟩
  else (shortest .even b.mantissa b.exponent).written b.negative

/-- A number that is written with a point or an exponent is not taken for a whole one. -/
theorem Scaled.isInteger_written (negative : Bool) (s : Scaled) :
    (s.written negative).isInteger = false := by
  unfold Scaled.written
  dsimp only
  split_ifs <;> rfl

theorem Binary.isInteger_written (b : Binary) : b.written.isInteger = false := by
  unfold Binary.written
  split_ifs
  · rfl
  · exact Scaled.isInteger_written _ _

theorem isDigit_of_mem_zeros {n : Nat} {c : Char} (h : c ∈ List.replicate n '0') :
    isDigit c = true := by
  rw [List.eq_of_mem_replicate h]
  rfl

theorem Scaled.proper_written (negative : Bool) (hs : 0 < s.digits) :
    (s.written negative).Proper := by
  have hdigit {c : Char} : c ∈ Nat.toDigits 10 s.digits → isDigit c = true := isDigit_of_mem_toDigits
  have hhead := head?_toDigits hs
  have hne : Nat.toDigits 10 s.digits ≠ [] := Nat.toDigits_ne_nil
  unfold Scaled.written
  dsimp only
  generalize Nat.toDigits 10 s.digits = digits at *
  have hzero {l : List Char} (hl : l.head? = digits.head?) (c : Char) (rest : List Char) :
      l ≠ '0' :: c :: rest := by
    rintro rfl
    exact hhead hl.symm
  obtain ⟨first, others, rfl⟩ := List.exists_cons_of_ne_nil hne
  split_ifs with _ hone
  · refine ⟨by simp, fun c hc => hdigit (List.mem_of_mem_take hc), hzero rfl, nofun⟩
  · refine ⟨by simp, fun c hc => hdigit (List.mem_of_mem_take hc), hzero rfl, ?_⟩
    rintro ds ⟨⟩
    refine ⟨?_, fun c hc => hdigit (List.mem_of_mem_drop hc)⟩
    rintro hnil
    simp_all
  · refine ⟨by simp, by simp [isDigit], by simp, ?_⟩
    rintro ds ⟨⟩
    exact ⟨by simp, fun c hc => (List.mem_append.1 hc).elim isDigit_of_mem_zeros hdigit⟩
  · refine ⟨by simp, fun c hc => (List.mem_append.1 hc).elim hdigit isDigit_of_mem_zeros,
      hzero rfl, ?_⟩
    rintro ds ⟨⟩
    exact ⟨by simp, by simp [isDigit]⟩
  · rename_i hpositive hlong
    obtain ⟨k, hk⟩ := Nat.exists_eq_succ_of_ne_zero
      (show (((first :: others).length : Int) + s.exponent).toNat ≠ 0 by omega)
    rw [hk] at hlong ⊢
    refine ⟨by simp, fun c hc => hdigit (List.mem_of_mem_take hc), hzero rfl, ?_⟩
    rintro ds ⟨⟩
    exact ⟨by simpa using hlong, fun c hc => hdigit (List.mem_of_mem_drop hc)⟩

theorem Binary.proper_written (b : Binary) : b.written.Proper := by
  unfold Binary.written
  split_ifs with hzero
  · exact ⟨by simp, by simp [isDigit], by simp, by simp [isDigit]⟩
  · exact Scaled.proper_written _ (shortest_bounds .even (Nat.pos_of_ne_zero hzero) _).1

theorem toList_scientific (negative : Bool) {digits : List Char} (hdigits : digits ≠ []) (p : Int) :
    (if negative then ['-'] else []) ++ (scientific (String.ofList digits) p true).toList =
      Written.spell ⟨negative, digits.take 1,
        if digits.length = 1 then none else some (digits.drop 1), some (p - 1)⟩ := by
  obtain ⟨first, others, rfl⟩ := List.exists_cons_of_ne_nil hdigits
  unfold scientific
  by_cases hp : p - 1 < 0 <;> cases others <;>
    simp [Written.spell, exponentText, fractionText, digitText, hp]

theorem toList_positional (negative : Bool) (digits : List Char) (p : Int) :
    (if negative then ['-'] else []) ++ (positional (String.ofList digits) p true).toList =
      Written.spell (if p ≤ 0 then
        ⟨negative, ['0'], some (List.replicate (-p).toNat '0' ++ digits), none⟩
      else if digits.length ≤ p.toNat then
        ⟨negative, digits ++ List.replicate (p.toNat - digits.length) '0', some ['0'], none⟩
      else ⟨negative, digits.take p.toNat, some (digits.drop p.toNat), none⟩) := by
  unfold positional
  rw [String.length_ofList]
  by_cases hp : p ≤ 0
  · simp [hp, zeros, Written.spell, fractionText, exponentText]
  · by_cases hcount : digits.length ≤ p.toNat <;>
      simp [hp, hcount, zeros, Written.spell, fractionText, exponentText]

/-- The text of a finite double in documents. -/
theorem toList_write (h : classify x = .finite b) :
    (Style.document.write x).toList = b.written.spell := by
  have hsign : (if b.negative then "-" else "").toList = if b.negative then ['-'] else [] := by
    split_ifs <;> rfl
  have hwrite : Style.document.write x =
      (if b.negative then "-" else "") ++ Style.document.magnitude b := by
    simp only [Style.write, h]
  rw [hwrite, String.toList_append, hsign, Binary.written, Style.magnitude]
  by_cases hzero : b.mantissa = 0
  · simp [hzero, Style.document, Written.spell, fractionText, exponentText]
  · have hmantissa : ¬(b.mantissa == 0) = true := by simpa using hzero
    rw [if_neg hmantissa, if_neg hzero]
    simp only [Style.document, digitText, String.length_ofList, Scaled.written]
    generalize shortest .even b.mantissa b.exponent = s
    have hne : Nat.toDigits 10 s.digits ≠ [] := Nat.toDigits_ne_nil
    generalize Nat.toDigits 10 s.digits = digits at *
    by_cases hwindow : (digits.length : Int) + s.exponent < -4 ∨ 16 < (digits.length : Int) + s.exponent
    · have hlaid : (decide ((digits.length : Int) + s.exponent < -4) ||
          decide (16 < (digits.length : Int) + s.exponent)) = true := by simpa using hwindow
      rw [if_pos hlaid, if_pos hwindow]
      exact toList_scientific b.negative hne _
    · have hlaid : ¬(decide ((digits.length : Int) + s.exponent < -4) ||
          decide (16 < (digits.length : Int) + s.exponent)) = true := by simpa using hwindow
      rw [if_neg hlaid, if_neg hwindow]
      exact toList_positional b.negative digits _

end GraphLang.Decimal
