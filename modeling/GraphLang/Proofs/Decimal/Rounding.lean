import GraphLang.Decimal.Binary
import GraphLang.Proofs.Decimal.Order

/-!
# How doubles round

A product or a quotient of doubles is the exact number rounded to 53 significant bits, a half going
to the even neighbour. Here this is followed through the bits for numbers that are neither too
large nor too small for a double with all its bits. Whole numbers become doubles in the same way.
-/

namespace GraphLang.Decimal

open Float.Model Float.Model.UnpackedFloat

/-! ### Halves to even -/

/-- The quotient by a power of two, rounded to the nearest whole number, and a half to the even
one. -/
def halfEven (n k : Nat) : Nat :=
  if 2 * (n % 2 ^ k) < 2 ^ k then n / 2 ^ k
  else if 2 * (n % 2 ^ k) = 2 ^ k then n / 2 ^ k + n / 2 ^ k % 2
  else n / 2 ^ k + 1

theorem div_le_halfEven (n k : Nat) : n / 2 ^ k ≤ halfEven n k := by
  unfold halfEven
  split_ifs <;> omega

theorem halfEven_le (n k : Nat) : halfEven n k ≤ n / 2 ^ k + 1 := by
  unfold halfEven
  split_ifs <;> omega

theorem halfEven_mul (n k : Nat) : halfEven (n * 2 ^ k) k = n := by
  have hk := Nat.two_pow_pos k
  rw [halfEven, Nat.mul_mod_left, Nat.mul_div_cancel n hk, if_pos (by omega)]

/-- The larger number does not round to less. -/
theorem halfEven_mono {a b : Nat} (h : a ≤ b) (k : Nat) : halfEven a k ≤ halfEven b k := by
  rcases (Nat.div_le_div_right (c := 2 ^ k) h).lt_or_eq with hlt | heq
  · exact (halfEven_le a k).trans (hlt.trans_le (div_le_halfEven b k))
  · have hrest : a % 2 ^ k ≤ b % 2 ^ k := by
      have ha := Nat.div_add_mod a (2 ^ k)
      have hb := Nat.div_add_mod b (2 ^ k)
      rw [heq] at ha
      omega
    unfold halfEven
    rw [heq]
    split_ifs <;> omega

/-- Twice as much over twice as much is the same. -/
theorem halfEven_shift (n k j : Nat) : halfEven (n * 2 ^ j) (k + j) = halfEven n k := by
  have hj := Nat.two_pow_pos j
  have hmod : n * 2 ^ j % 2 ^ (k + j) = n % 2 ^ k * 2 ^ j := by
    rw [pow_add, Nat.mul_mod_mul_right]
  have hdiv : n * 2 ^ j / 2 ^ (k + j) = n / 2 ^ k := by
    rw [pow_add, Nat.mul_div_mul_right _ _ hj]
  have hlt : 2 * (n % 2 ^ k * 2 ^ j) < 2 ^ (k + j) ↔ 2 * (n % 2 ^ k) < 2 ^ k := by
    rw [pow_add, ← mul_assoc]
    exact Nat.mul_lt_mul_right hj
  have heq : 2 * (n % 2 ^ k * 2 ^ j) = 2 ^ (k + j) ↔ 2 * (n % 2 ^ k) = 2 ^ k := by
    rw [pow_add, ← mul_assoc]
    exact Nat.mul_left_inj hj.ne'
  simp only [halfEven, hmod, hdiv, hlt, heq]

/-- Rounding moves a number by at most half a unit. -/
theorem halfEven_mul_le (n k : Nat) : 2 * (halfEven n k * 2 ^ k) ≤ 2 * n + 2 ^ k := by
  have hn := Nat.div_add_mod n (2 ^ k)
  have hcomm : n / 2 ^ k * 2 ^ k = 2 ^ k * (n / 2 ^ k) := Nat.mul_comm _ _
  have heven : n / 2 ^ k % 2 ≤ 1 := by omega
  unfold halfEven
  split_ifs with hlow hhalf
  · omega
  · have := Nat.mul_le_mul_right (2 ^ k) heven
    rw [Nat.add_mul]
    omega
  · rw [Nat.add_mul]
    omega

/-! ### Rounding to 53 bits -/

/-- The bits that a shift to the right keeps and drops: the quotient, whether the rest is at least a
half, and whether it is neither nothing nor a half. -/
theorem shiftRight_exact (n k : Nat) :
    (ExtendedMantissa.ofMantissaAndAccuracy n .exact >>> k).mantissa = n / 2 ^ k ∧
      ((ExtendedMantissa.ofMantissaAndAccuracy n .exact >>> k).roundBit = true ↔
        2 ^ k ≤ 2 * (n % 2 ^ k)) ∧
      ((ExtendedMantissa.ofMantissaAndAccuracy n .exact >>> k).stickyBit = true ↔
        n % 2 ^ k ≠ 0 ∧ 2 * (n % 2 ^ k) ≠ 2 ^ k) := by
  induction k with
  | zero =>
    change n = _ ∧ (false = true ↔ _) ∧ (false = true ↔ _)
    simp [Nat.mod_one]
  | succ k ih =>
    have hstep : ExtendedMantissa.ofMantissaAndAccuracy n .exact >>> (k + 1) =
        (ExtendedMantissa.ofMantissaAndAccuracy n .exact >>> k).shiftRightOne := rfl
    have hrest : n % 2 ^ k < 2 ^ k := Nat.mod_lt n (Nat.two_pow_pos k)
    have hmod : n % 2 ^ (k + 1) = n % 2 ^ k + 2 ^ k * (n / 2 ^ k % 2) := Nat.mod_pow_succ
    have hbit : n / 2 ^ k % 2 = 0 ∨ n / 2 ^ k % 2 = 1 := by omega
    obtain ⟨hmantissa, hround, hsticky⟩ := ih
    rw [hstep, hmod, pow_succ]
    simp only [ExtendedMantissa.shiftRightOne, Bool.or_eq_true, hround, hsticky, hmantissa,
      bne_iff_ne, Nat.div_div_eq_div_mul, true_and]
    rcases hbit with hbit | hbit <;> rw [hbit] <;> omega

theorem roundedMantissa_shiftRight (n k : Nat) :
    (ExtendedMantissa.ofMantissaAndAccuracy n .exact >>> k).roundedMantissa = halfEven n k := by
  obtain ⟨hmantissa, hround, hsticky⟩ := shiftRight_exact n k
  have hk := Nat.two_pow_pos k
  generalize ExtendedMantissa.ofMantissaAndAccuracy n .exact >>> k = em at *
  obtain ⟨m, round, sticky⟩ := em
  dsimp only at hmantissa hround hsticky
  subst hmantissa
  unfold halfEven
  cases round <;> cases sticky <;>
    simp only [ExtendedMantissa.roundedMantissa, ExtendedMantissa.accuracy,
      Accuracy.roundToNearestEven] <;> simp at hround hsticky <;> split_ifs <;> omega

theorem log2_bounds {n : Nat} (hn : 0 < n) : 2 ^ n.log2 ≤ n ∧ n < 2 ^ (n.log2 + 1) :=
  ⟨Nat.log2_self_le hn.ne', Nat.lt_log2_self⟩

/-- Rounded to 53 bits, a number keeps its size, or becomes the next power of two. -/
theorem halfEven_bounds {n : Nat} (h : 52 ≤ n.log2) :
    2 ^ 52 ≤ halfEven n (n.log2 - 52) ∧ halfEven n (n.log2 - 52) ≤ 2 ^ 53 := by
  have hn : 0 < n := by
    by_contra hzero
    obtain rfl : n = 0 := by omega
    simp at h
  obtain ⟨hlow, hhigh⟩ := log2_bounds hn
  have hsplit : 2 ^ n.log2 = 2 ^ 52 * 2 ^ (n.log2 - 52) := by
    rw [← pow_add]
    congr 1
    omega
  have hsplit' : 2 ^ (n.log2 + 1) = 2 ^ 53 * 2 ^ (n.log2 - 52) := by
    rw [← pow_add]
    congr 1
    omega
  rw [← halfEven_mul (2 ^ 52) (n.log2 - 52), ← hsplit]
  refine ⟨halfEven_mono hlow _, ?_⟩
  rw [← halfEven_mul (2 ^ 53) (n.log2 - 52), ← hsplit']
  exact halfEven_mono hhigh.le _

theorem targetExponent_binary64 (x : Int) :
    Format.binary64.targetExponent x = max (x - 53) (-1074) := rfl

/-- A shift to 53 bits, where the number has as many. -/
theorem shiftToTargetExponent_of_log2 {n : Nat} {e : Int} (hn : 52 ≤ n.log2)
    (he : -1022 ≤ n.log2 + e) :
    shiftToTargetExponent Format.binary64 n e .exact =
      (ExtendedMantissa.ofMantissaAndAccuracy n .exact >>> (n.log2 - 52),
        e + (n.log2 - 52 : Nat)) := by
  have htarget : Format.binary64.targetExponent (totalExponent n e) = e + (n.log2 - 52 : Nat) := by
    rw [targetExponent_binary64, totalExponent]
    omega
  have hshift : (e + (n.log2 - 52 : Nat) - e).toNat = n.log2 - 52 := by omega
  unfold shiftToTargetExponent shiftToExponent
  rw [htarget]
  dsimp only
  rw [hshift]

theorem finite_of_mantissa {s : Sign} {m n : Nat} {e : Int} (hm : 0 < m) (h : n = m) :
    (if hn : n = 0 then .zero s else .finite s n e (Nat.pos_of_ne_zero hn)) =
      UnpackedFloat.finite s m e hm := by
  subst h
  exact dif_neg hm.ne'

/-- A number with 53 significant bits or more is rounded to 53. -/
theorem roundWithAccuracy_exact (s : Sign) {n : Nat} {e : Int} (hn : 52 ≤ n.log2)
    (he : -1022 ≤ n.log2 + e) :
    ∃ m x h, roundWithAccuracy Format.binary64 s n e .exact = .finite s m x h ∧
      2 ^ 52 ≤ m ∧ m < 2 ^ 53 ∧ -1074 ≤ x ∧
      (m : ℚ) * 2 ^ x = halfEven n (n.log2 - 52) * 2 ^ (e + (n.log2 - 52 : Nat)) := by
  obtain ⟨hlow, hhigh⟩ := halfEven_bounds hn
  have hshift := shiftToTargetExponent_of_log2 hn he
  unfold roundWithAccuracy
  rw [hshift]
  dsimp only
  rw [roundedMantissa_shiftRight]
  generalize halfEven n (n.log2 - 52) = r at hlow hhigh ⊢
  set t : Int := e + (n.log2 - 52 : Nat) with ht
  have hagain : 52 ≤ r.log2 := (Nat.le_log2 (by omega)).2 hlow
  rw [shiftToTargetExponent_of_log2 hagain (by omega)]
  dsimp only
  have hkept := (shiftRight_exact r (r.log2 - 52)).1
  rcases hhigh.lt_or_eq with hlt | rfl
  · have hlog : r.log2 - 52 = 0 := by
      rw [(Nat.log2_eq_iff (by omega)).2 ⟨hlow, hlt⟩]
    rw [hlog, pow_zero, Nat.div_one] at hkept
    refine ⟨r, t, by omega, ?_, hlow, hlt, by omega, rfl⟩
    rw [hlog, Nat.cast_zero, add_zero]
    exact finite_of_mantissa _ hkept
  · have hlog : (2 ^ 53).log2 - 52 = 1 := rfl
    rw [hlog] at hkept
    refine ⟨2 ^ 52, t + 1, by decide, ?_, le_refl _, by decide, by omega, ?_⟩
    · rw [hlog]
      exact finite_of_mantissa _ hkept
    · rw [zpow_add₀ (by norm_num)]
      norm_num
      ring

/-! ### Packing bits -/

theorem unpackSign_packComponents {format : Format} (s : Sign) (e : BitVec format.exponentBits)
    (m : BitVec format.mantissaBitsWithoutImplicit) :
    unpackSign (packComponents format s e m) = s.toBitVec := by
  apply BitVec.eq_of_getLsbD_eq
  intro i hi
  obtain rfl : i = 0 := by omega
  unfold unpackSign packComponents
  simp [BitVec.getLsbD_append, BitVec.getElem_append]

theorem sign_ofBitVec_toBitVec (s : Sign) : Sign.ofBitVec s.toBitVec = s := by
  cases s <;> rfl

/-- The parts that are read where the exponent is not the least one. -/
theorem unpack_normal {b : BitVec Format.binary64.numBits} {s : Sign} {m : Nat} {e : Int}
    (hm : 0 < m) (hsign : unpackSign b = s.toBitVec) (hones : unpackExponent b ≠ -1#11)
    (hzero : unpackExponent b ≠ 0#11) (hmantissa : (1#1 ++ unpackMantissa b).toNat = m)
    (he : ((unpackExponent b).toNat : Int) - ((1023 : Nat) + (52 : Nat)) = e) :
    UnpackedFloat.unpack Format.binary64 b = .finite s m e hm := by
  subst hmantissa he
  unfold UnpackedFloat.unpack
  refine (if_neg hones).trans ((if_neg hzero).trans ?_)
  rw [hsign, sign_ofBitVec_toBitVec]
  rfl

/-- The parts that are read where the exponent is the least one. -/
theorem unpack_subnormal {b : BitVec Format.binary64.numBits} {s : Sign} {m : Nat} (hm : 0 < m)
    (hsign : unpackSign b = s.toBitVec) (hzero : unpackExponent b = 0#11)
    (hmantissa : (unpackMantissa b).toNat = m) :
    UnpackedFloat.unpack Format.binary64 b = .finite s m (-1074) hm := by
  have hnonzero : unpackMantissa b ≠ 0#52 := by
    intro heq
    rw [heq] at hmantissa
    exact hm.ne hmantissa
  subst hmantissa
  unfold UnpackedFloat.unpack
  refine (if_neg (by rw [hzero]; decide)).trans ((if_pos hzero).trans ((dif_neg hnonzero).trans ?_))
  rw [hsign, sign_ofBitVec_toBitVec, hzero]
  rfl

/-- The bits of a finite double: the field of the exponent is nothing where the first bit is not
set. -/
theorem pack_finite {s : Sign} {m field : Nat} {e : Int} (hm : 0 < m) (h : Canonical m e)
    (hfield : (field : Int) = e + 1075) :
    UnpackedFloat.pack Format.binary64 (.finite s m e hm) =
      if m.log2 + 1 = 53 then
        packComponents Format.binary64 s (BitVec.ofNat 11 field) (BitVec.ofNat 52 m)
      else packComponents Format.binary64 s (0#11) (BitVec.ofNat 52 m) := by
  have hgreatest := h.greatest
  have hbiased : (e + ((1023 : Nat) : Int) + ((52 : Nat) : Int)).toNat = field := by omega
  change (if 2 ^ 11 ≤ (e + ((1023 : Nat) : Int) + ((52 : Nat) : Int)).toNat + 1 then _
    else if m.log2 + 1 = 53 then packComponents Format.binary64 s
      (BitVec.ofNat 11 (e + ((1023 : Nat) : Int) + ((52 : Nat) : Int)).toNat) (BitVec.ofNat 52 m)
    else packComponents Format.binary64 s (0#11) (BitVec.ofNat 52 m)) = _
  rw [hbiased, if_neg (by omega)]

/-- The bits of a finite double give its parts back. -/
theorem unpack_pack {s : Sign} {m : Nat} {e : Int} (hm : 0 < m) (h : Canonical m e) :
    (Float.Model.pack (.finite s m e hm)).unpack = .finite s m e hm := by
  have hhigh := h.high
  have hleast := h.least
  have hgreatest := h.greatest
  obtain ⟨field, hfield⟩ : ∃ field : Nat, (field : Int) = e + 1075 :=
    ⟨(e + 1075).toNat, Int.toNat_of_nonneg (by omega)⟩
  change UnpackedFloat.unpack Format.binary64 (UnpackedFloat.pack Format.binary64 _) = _
  rw [pack_finite hm h hfield]
  by_cases hall : 2 ^ 52 ≤ m
  · have hlog : m.log2 + 1 = 53 := by
      rw [(Nat.log2_eq_iff (by omega)).2 ⟨hall, hhigh⟩]
    have hfields : (BitVec.ofNat 11 field).toNat = field := by
      rw [BitVec.toNat_ofNat, Nat.mod_eq_of_lt (by omega)]
    have hmantissa : (1#1 ++ BitVec.ofNat 52 m).toNat = m := by
      rw [BitVec.toNat_append, ← Nat.shiftLeft_add_eq_or_of_lt (BitVec.isLt _),
        BitVec.toNat_ofNat, Nat.shiftLeft_eq]
      change 1 * 2 ^ 52 + m % 2 ^ 52 = m
      omega
    rw [if_pos hlog]
    refine unpack_normal hm (unpackSign_packComponents _ _ _) (fun heq => ?_) (fun heq => ?_) ?_ ?_
    · rw [unpackExponent_packComponents] at heq
      have hones : field = 2047 := hfields.symm.trans (congrArg BitVec.toNat heq)
      omega
    · rw [unpackExponent_packComponents] at heq
      have hzero : field = 0 := hfields.symm.trans (congrArg BitVec.toNat heq)
      omega
    · rwa [unpackMantissa_packComponents]
    · rw [unpackExponent_packComponents]
      change ((BitVec.ofNat 11 field).toNat : Int) - ((1023 : Nat) + (52 : Nat)) = e
      omega
  · have hlog : m.log2 + 1 ≠ 53 := by
      have := (Nat.log2_lt (by omega)).2 (show m < 2 ^ 52 by omega)
      omega
    have hmantissa : (BitVec.ofNat 52 m).toNat = m := by
      rw [BitVec.toNat_ofNat, Nat.mod_eq_of_lt (by omega)]
    obtain rfl := h.low.resolve_left hall
    rw [if_neg hlog]
    refine unpack_subnormal hm (unpackSign_packComponents _ _ _) ?_ ?_
    · exact unpackExponent_packComponents
    · rwa [unpackMantissa_packComponents]

theorem unpack_pack_of_denotes {u : UnpackedFloat} {q : ℚ} (h : Denotes u q) :
    (Float.Model.pack u).unpack = u := by
  cases h with
  | zero s => cases s <;> rfl
  | positive hm hc => exact unpack_pack hm hc
  | negative hm hc => exact unpack_pack hm hc

/-! ### Whole numbers -/

/-- What becomes of a whole number that is rounded to 53 significant bits. -/
def nearestWhole (n : Nat) : Nat := halfEven n (n.log2 - 52) * 2 ^ (n.log2 - 52)

/-- A number of no more than 53 bits stays as it is. -/
theorem nearestWhole_of_lt {n : Nat} (h : n < 2 ^ 53) : nearestWhole n = n := by
  have hlog : n.log2 - 52 = 0 := by
    rcases n.eq_zero_or_pos with rfl | hn
    · simp
    · have := (Nat.log2_lt hn.ne').2 h
      omega
  rw [nearestWhole, hlog]
  exact (Nat.mul_one _).trans (by simpa using halfEven_mul n 0)

theorem nearestWhole_bounds {n : Nat} (hn : 0 < n) :
    2 ^ n.log2 ≤ nearestWhole n ∧ nearestWhole n ≤ 2 ^ (n.log2 + 1) := by
  rcases Nat.lt_or_ge n.log2 52 with hlog | hlog
  · have hlt : n < 2 ^ 53 := (Nat.log2_lt hn.ne').1 (by omega)
    rw [nearestWhole_of_lt hlt]
    exact ⟨(log2_bounds hn).1, (log2_bounds hn).2.le⟩
  · obtain ⟨hlow, hhigh⟩ := halfEven_bounds hlog
    have hsplit : 2 ^ n.log2 = 2 ^ 52 * 2 ^ (n.log2 - 52) := by
      rw [← pow_add]
      congr 1
      omega
    have hsplit' : 2 ^ (n.log2 + 1) = 2 ^ 53 * 2 ^ (n.log2 - 52) := by
      rw [← pow_add]
      congr 1
      omega
    rw [nearestWhole, hsplit, hsplit']
    exact ⟨Nat.mul_le_mul_right _ hlow, Nat.mul_le_mul_right _ hhigh⟩

/-- The larger number does not become less. -/
theorem nearestWhole_mono {a b : Nat} (h : a ≤ b) : nearestWhole a ≤ nearestWhole b := by
  rcases a.eq_zero_or_pos with rfl | ha
  · rw [nearestWhole_of_lt (by decide)]
    exact Nat.zero_le _
  · have hb : 0 < b := by omega
    have hlog : a.log2 ≤ b.log2 := (Nat.le_log2 hb.ne').2 ((log2_bounds ha).1.trans h)
    rcases hlog.lt_or_eq with hlt | heq
    · exact ((nearestWhole_bounds ha).2.trans (Nat.pow_le_pow_right (by decide) hlt)).trans
        (nearestWhole_bounds hb).1
    · rw [nearestWhole, nearestWhole, heq]
      exact Nat.mul_le_mul_right _ (halfEven_mono h _)

theorem log2_mul_two_pow {n : Nat} (hn : 0 < n) (k : Nat) : (n * 2 ^ k).log2 = n.log2 + k := by
  obtain ⟨hlow, hhigh⟩ := log2_bounds hn
  have hk := Nat.two_pow_pos k
  refine (Nat.log2_eq_iff (Nat.mul_pos hn hk).ne').2 ⟨?_, ?_⟩
  · rw [pow_add]
    exact Nat.mul_le_mul_right _ hlow
  · rw [show n.log2 + k + 1 = n.log2 + 1 + k by omega, pow_add]
    exact Nat.mul_lt_mul_of_pos_right hhigh hk

/-- Twice as much becomes twice as much. -/
theorem nearestWhole_shift {n : Nat} (hn : 0 < n) (k : Nat) :
    nearestWhole (n * 2 ^ k) = nearestWhole n * 2 ^ k := by
  have hlog2 := log2_mul_two_pow hn k
  rcases Nat.lt_or_ge n.log2 52 with hlog | hlog
  · rw [nearestWhole_of_lt ((Nat.log2_lt hn.ne').1 (by omega)), nearestWhole, hlog2]
    obtain ⟨j, hj⟩ : ∃ j, k = j + (n.log2 + k - 52) := ⟨k - (n.log2 + k - 52), by omega⟩
    generalize n.log2 + k - 52 = i at hj
    rw [hj, pow_add, ← mul_assoc, halfEven_mul]
  · rw [nearestWhole, nearestWhole, hlog2, show n.log2 + k - 52 = n.log2 - 52 + k by omega,
      halfEven_shift, pow_add, mul_assoc]

/-- The number from which on doubles are infinite. -/
def limit : Nat := 2 ^ 1024

/-- A positive number that a double has bits enough for is rounded to 53 significant bits. -/
theorem denotes_round {n : Nat} {e : Int} (hn : 52 ≤ n.log2) (hlow : -1022 ≤ n.log2 + e)
    (hhigh : (nearestWhole n * 2 ^ e : ℚ) < limit) :
    Denotes (Float.Model.pack (roundWithAccuracy Format.binary64 .positive n e .exact)).unpack
      (nearestWhole n * 2 ^ e) := by
  obtain ⟨m, x, hm, hround, hmlow, hmhigh, hxlow, hvalue⟩ :=
    roundWithAccuracy_exact .positive hn hlow
  have hq : (nearestWhole n * 2 ^ e : ℚ) = m * 2 ^ x := by
    rw [hvalue, nearestWhole, zpow_add₀ (by norm_num)]
    push_cast
    rw [zpow_natCast]
    ring
  have hbits : (2 ^ 52 : ℚ) ≤ m := by exact_mod_cast hmlow
  have hpower : (2 : ℚ) ^ (52 + x) < 2 ^ (1024 : Int) := calc
    (2 : ℚ) ^ (52 + x)
    _ = 2 ^ 52 * 2 ^ x := by
      rw [zpow_add₀ (by norm_num)]
      norm_cast
    _ ≤ m * 2 ^ x := mul_le_mul_of_nonneg_right hbits (zpow_pos (by norm_num) x).le
    _ < 2 ^ (1024 : Int) := by
      rw [← hq]
      refine hhigh.trans_eq ?_
      rw [limit, Nat.cast_pow, Nat.cast_ofNat]
      exact (zpow_natCast 2 1024).symm
  have hxhigh := (zpow_lt_zpow_iff_right₀ (by norm_num)).1 hpower
  have hdenotes : Denotes (.finite .positive m x hm) (nearestWhole n * 2 ^ e) :=
    hq ▸ .positive hm ⟨hmhigh, hxlow, by omega, .inl hmlow⟩
  rw [hround, unpack_pack_of_denotes hdenotes]
  exact hdenotes

/-- A finite double with more zeros at its end is rounded to itself. -/
theorem roundWithAccuracy_canonical (s : Sign) {m : Nat} {e : Int} (hm : 0 < m)
    (h : Canonical m e) (k : Nat) :
    roundWithAccuracy Format.binary64 s (m * 2 ^ k) (e - k) .exact = .finite s m e hm := by
  have hleast := h.least
  have hlog : m.log2 < 53 := (Nat.log2_lt hm.ne').2 h.high
  have htarget : Format.binary64.targetExponent (m.log2 + 1 + e) = e := by
    have hcase : m.log2 = 52 ∨ e = -1074 := h.low.imp_left fun hlow => by
      have := (Nat.le_log2 hm.ne').2 hlow
      omega
    rw [targetExponent_binary64]
    omega
  have hshift (n j : Nat) (hn : n.log2 = m.log2 + j) :
      shiftToTargetExponent Format.binary64 n (e - j) .exact =
        (ExtendedMantissa.ofMantissaAndAccuracy n .exact >>> j, e) := by
    unfold shiftToTargetExponent shiftToExponent
    rw [totalExponent, hn, show ((m.log2 + j : Nat) : Int) + 1 + (e - j) = m.log2 + 1 + e by omega,
      htarget]
    dsimp only
    rw [show (e - (e - (j : Int))).toNat = j by omega]
    congr 1
    omega
  unfold roundWithAccuracy
  rw [hshift _ k (log2_mul_two_pow hm k)]
  dsimp only
  rw [roundedMantissa_shiftRight, halfEven_mul]
  have hagain := hshift m 0 rfl
  rw [Nat.cast_zero, sub_zero] at hagain
  rw [hagain]
  exact finite_of_mantissa hm ((shiftRight_exact m 0).1.trans (Nat.div_one m))

/-- A whole number of no more than 53 bits becomes a double with the first bit set. -/
theorem unpack_toFloat {n : Nat} (hn : 0 < n) (h : n < 2 ^ 53) :
    ∃ hm, n.toUInt64.toFloat.toModel.unpack =
      .finite .positive (n * 2 ^ (52 - n.log2)) (-(52 - n.log2 : Nat)) hm ∧
        Canonical (n * 2 ^ (52 - n.log2)) (-(52 - n.log2 : Nat)) := by
  have hlog : n.log2 < 53 := (Nat.log2_lt hn.ne').2 h
  have hm : 0 < n * 2 ^ (52 - n.log2) := Nat.mul_pos hn (Nat.two_pow_pos _)
  have hlog2 : (n * 2 ^ (52 - n.log2)).log2 = 52 := by
    rw [log2_mul_two_pow hn]
    omega
  have hcanonical : Canonical (n * 2 ^ (52 - n.log2)) (-(52 - n.log2 : Nat)) := by
    obtain ⟨hlow, hhigh⟩ := (Nat.log2_eq_iff hm.ne').1 hlog2
    exact ⟨hhigh, by omega, by omega, .inl hlow⟩
  refine ⟨hm, ?_, hcanonical⟩
  change (Float.Model.pack (UnpackedFloat.ofUInt64 Format.binary64 n.toUInt64)).unpack = _
  have htoNat : n.toUInt64.toNat = n := UInt64.toNat_ofNat_of_lt' (h.trans (by decide))
  have htarget : Format.binary64.targetExponent (totalExponent n 0) = -(52 - n.log2 : Nat) := by
    rw [targetExponent_binary64, totalExponent]
    omega
  rw [UnpackedFloat.ofUInt64, htoNat, UnpackedFloat.ofNat, UnpackedFloat.ofInt,
    UnpackedFloat.normalize, Int.compare_eq_gt.2 (by omega)]
  dsimp only
  rw [UnpackedFloat.round, Int.toNat_natCast, htarget, decreaseExponent]
  dsimp only
  rw [show (0 - -((52 - n.log2 : Nat) : Int)).toNat = 52 - n.log2 by omega, Nat.shiftLeft_eq,
    zero_sub]
  have hround := roundWithAccuracy_canonical .positive hm hcanonical 0
  rw [pow_zero, mul_one, Nat.cast_zero, sub_zero] at hround
  rw [hround, unpack_pack hm hcanonical]

theorem mul_positive {m m' : Nat} {e e' : Int} (hm : 0 < m) (hm' : 0 < m') :
    UnpackedFloat.mul Format.binary64 (.finite .positive m e hm) (.finite .positive m' e' hm') =
      roundWithAccuracy Format.binary64 .positive (m * m') (e + e') .exact := rfl

/-- A whole number with zeros at its end that is read as a double is rounded to 53 significant bits.
Here no table has the power of ten. -/
theorem denotes_scientific {n k : Nat} (hn : 0 < n) (hlarge : ¬(n < 2 ^ 53 ∧ k ≤ 22))
    (hk : k ≤ 2 ^ 11) (h : nearestWhole (n * 10 ^ k) < limit) :
    Denotes (Float.ofScientific n false k).toModel.unpack (nearestWhole (n * 10 ^ k)) := by
  have hpositive : 0 < n * 10 ^ k := Nat.mul_pos hn (Nat.pow_pos (by decide))
  have hgreat : ¬Int.ofNat k > 2 ^ Format.binary64.exponentBits := by
    change ¬((k : Int) > 2 ^ 11)
    omega
  have hsize : ¬Int.ofNat k < -(2 ^ Format.binary64.exponentBits + (n.log2 : Int)) := by
    change ¬((k : Int) < -(2 ^ 11 + n.log2))
    omega
  rw [Float.ofScientific, dif_neg hlarge]
  change Denotes (Float.Model.pack (UnpackedFloat.ofScientific Format.binary64 n
    (Int.ofNat k))).unpack _
  rw [UnpackedFloat.ofScientific, dif_neg hn.ne', if_neg hgreat, if_neg hsize,
    if_pos (show 0 ≤ Int.ofNat k from Int.natCast_nonneg k), mul_positive]
  have hvalue : (nearestWhole (n * 10 ^ k * 2 ^ 53) * 2 ^ (-53 : Int) : ℚ) =
      nearestWhole (n * 10 ^ k) := by
    rw [nearestWhole_shift hpositive]
    push_cast
    rw [mul_assoc]
    norm_num
  have hlog := log2_mul_two_pow hpositive 53
  have hround := denotes_round (n := n * 10 ^ k * 2 ^ 53) (e := -53) (by omega) (by omega)
    (by rw [hvalue]; exact_mod_cast h)
  rw [hvalue] at hround
  rw [Nat.shiftLeft_eq, add_zero, Nat.mul_right_comm]
  exact hround

/-- A whole number of no more than 53 bits is read as it is. -/
theorem denotes_small {n : Nat} (hn : 0 < n) (h : n < 2 ^ 53) :
    Denotes (Float.ofScientific n false 0).toModel.unpack n := by
  obtain ⟨hm, hunpack, hcanonical⟩ := unpack_toFloat hn h
  have hvalue : (n : ℚ) = ((n * 2 ^ (52 - n.log2) : Nat) : ℚ) * 2 ^ (-(52 - n.log2 : Nat) : Int) := by
    push_cast
    rw [mul_assoc, ← zpow_natCast, ← zpow_add₀ (by norm_num), add_neg_cancel, zpow_zero, mul_one]
  have hdenotes := Denotes.positive hm hcanonical
  rw [← hvalue] at hdenotes
  have hone : (Float.exactlyRepresentablePowersOfTen[0]).toModel.unpack =
      .finite .positive (2 ^ 52) (-52) (by decide) := rfl
  rw [Float.ofScientific, dif_pos ⟨h, Nat.zero_le _⟩]
  change Denotes (Float.Model.pack (UnpackedFloat.mul Format.binary64
    n.toUInt64.toFloat.toModel.unpack
    (Float.exactlyRepresentablePowersOfTen[0]).toModel.unpack)).unpack _
  rw [hunpack, hone]
  change Denotes (Float.Model.pack (roundWithAccuracy Format.binary64 .positive _
    (-(52 - n.log2 : Nat) - (52 : Nat)) .exact)).unpack _
  rw [roundWithAccuracy_canonical .positive hm hcanonical 52, unpack_pack_of_denotes hdenotes]
  exact hdenotes

/-- A whole number that is read as a double is rounded to 53 significant bits. -/
theorem denotes_ofScientific {n : Nat} (h : nearestWhole n < limit) :
    Denotes (Float.ofScientific n false 0).toModel.unpack (nearestWhole n) := by
  rcases n.eq_zero_or_pos with rfl | hn
  · rw [nearestWhole_of_lt (by decide), Nat.cast_zero]
    exact .zero .positive
  · by_cases hsmall : n < 2 ^ 53
    · rw [nearestWhole_of_lt hsmall]
      exact denotes_small hn hsmall
    · have hscientific := denotes_scientific (k := 0) hn (fun hboth => hsmall hboth.1)
        (Nat.zero_le _) (by rwa [pow_zero, mul_one])
      rwa [pow_zero, mul_one] at hscientific

/-- A number of no more than 1023 bits is not rounded to one that makes an infinity. -/
theorem nearestWhole_lt_of_log2 {n : Nat} (h : n.log2 ≤ 1022) : nearestWhole n < limit := by
  unfold limit
  rcases n.eq_zero_or_pos with rfl | hn
  · rw [nearestWhole_of_lt (by decide)]
    positivity
  · refine (nearestWhole_bounds hn).2.trans_lt ?_
    gcongr <;> omega

theorem denotes_neg {x : Float} {q : ℚ} (h : Denotes x.toModel.unpack q) :
    Denotes (-x).toModel.unpack (-q) := by
  change Denotes (Float.Model.pack x.toModel.unpack.neg).unpack (-q)
  have hneg : Denotes x.toModel.unpack.neg (-q) := by
    generalize x.toModel.unpack = u at h
    cases h with
    | zero s =>
      rw [neg_zero]
      exact .zero _
    | positive hm hc => exact .negative hm hc
    | negative hm hc =>
      rw [neg_neg]
      exact .positive hm hc
  rw [unpack_pack_of_denotes hneg]
  exact hneg

/-- What becomes of an integer that is rounded to 53 significant bits. -/
def nearestInt (n : Int) : Int :=
  if n < 0 then -(nearestWhole n.natAbs : Int) else nearestWhole n.natAbs

/-- The double nearest to an integer is the integer rounded to 53 significant bits. -/
theorem denotes_ofInt {n : Int} (h : n.natAbs.log2 ≤ 1022) :
    Denotes (ofInt n).toModel.unpack (nearestInt n) := by
  rw [ofInt, nearestInt]
  split_ifs
  · push_cast
    exact denotes_neg (denotes_ofScientific (nearestWhole_lt_of_log2 h))
  · push_cast
    exact denotes_ofScientific (nearestWhole_lt_of_log2 h)

theorem nearestInt_mono {a b : Int} (h : a ≤ b) : nearestInt a ≤ nearestInt b := by
  have hmono {m n : Nat} (hle : m ≤ n) : (nearestWhole m : Int) ≤ nearestWhole n :=
    Int.ofNat_le.2 (nearestWhole_mono hle)
  unfold nearestInt
  split_ifs
  · exact neg_le_neg (hmono (by omega))
  · omega
  · omega
  · exact hmono (by omega)

/-- Integers of no more than 53 bits stay as they are, and so does the next one on both sides. -/
theorem nearestInt_of_natAbs_le {n : Int} (h : n.natAbs ≤ 2 ^ 53) : nearestInt n = n := by
  have hwhole : nearestWhole n.natAbs = n.natAbs := by
    rcases h.lt_or_eq with hlt | heq
    · exact nearestWhole_of_lt hlt
    · rw [heq]
      decide
  unfold nearestInt
  rw [hwhole]
  split_ifs <;> omega

end GraphLang.Decimal
