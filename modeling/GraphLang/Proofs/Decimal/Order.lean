import Mathlib.Algebra.Order.Field.Power
import Mathlib.Algebra.Order.Field.Rat
import Mathlib.Tactic.Positivity
import Mathlib.Tactic.Ring

/-!
# The order of doubles

Doubles are compared by the exponent first, and by the significant bits where the exponents agree.
That is the order of the numbers that they stand for, as the first bit of a larger exponent is set.
-/

namespace GraphLang.Decimal

open Float.Model Float.Model.UnpackedFloat

/-! ### Both ways round -/

theorem compare_swap (u v : UnpackedFloat) : v.compare u = (u.compare v).map Ordering.swap := by
  have hmagnitude (m m' : Nat) (e e' : Int) :
      (compare e' e).then (compare m' m) = ((compare e e').then (compare m m')).swap := by
    rw [Ordering.swap_then, ← Std.OrientedOrd.eq_swap, ← Std.OrientedOrd.eq_swap]
  cases u with
  | notANumber => cases v <;> rfl
  | infinity s =>
    cases v with
    | infinity t => cases s <;> cases t <;> rfl
    | _ => cases s <;> rfl
  | zero s =>
    cases v with
    | notANumber => rfl
    | zero t => rfl
    | infinity t | finite t _ _ _ => cases t <;> rfl
  | finite s m e _ =>
    cases v with
    | notANumber => cases s <;> rfl
    | infinity t => cases s <;> cases t <;> rfl
    | zero t => cases s <;> rfl
    | finite t m' e' _ =>
      cases s <;> cases t
      · exact congrArg (fun o => some o.swap) (hmagnitude m m' e e')
      · rfl
      · rfl
      · exact congrArg some (hmagnitude m m' e e')

variable {x y : Float}

/-- Of two doubles that are in order, the second is not below the first. -/
theorem not_lt_of_le (h : x ≤ y) : ¬y < x := by
  intro hlt
  have hle : x.toModel.unpack.le y.toModel.unpack = true := of_decide_eq_true h
  have hlt : y.toModel.unpack.lt x.toModel.unpack = true := of_decide_eq_true hlt
  rw [UnpackedFloat.lt, compare_swap, beq_iff_eq] at hlt
  rw [UnpackedFloat.le] at hle
  revert hle hlt
  cases x.toModel.unpack.compare y.toModel.unpack with
  | none => simp
  | some o => cases o <;> simp

theorem not_lt_self (x : Float) : ¬x < x := by
  intro h
  have hlt : x.toModel.unpack.lt x.toModel.unpack = true := of_decide_eq_true h
  rw [UnpackedFloat.lt, beq_iff_eq] at hlt
  have hswap := compare_swap x.toModel.unpack x.toModel.unpack
  rw [hlt] at hswap
  cases hswap

/-! ### Doubles as numbers -/

/-- The parts of a finite double: no more than 53 bits, and where the exponent is not the least one,
no fewer. -/
structure Canonical (m : Nat) (e : Int) : Prop where
  /-- There are no more than 53 bits. -/
  high : m < 2 ^ 53
  /-- The exponent is not below the least one. -/
  least : -1074 ≤ e
  /-- The exponent is not above the largest one. -/
  greatest : e ≤ 971
  /-- The first bit is set, or the exponent is the least. -/
  low : 2 ^ 52 ≤ m ∨ e = -1074

/-- The number that the parts of a finite double make. -/
inductive Denotes : UnpackedFloat → ℚ → Prop
  | zero (s : Sign) : Denotes (.zero s) 0
  | positive {m : Nat} {e : Int} (hm : 0 < m) : Canonical m e →
    Denotes (.finite .positive m e hm) (m * 2 ^ e)
  | negative {m : Nat} {e : Int} (hm : 0 < m) : Canonical m e →
    Denotes (.finite .negative m e hm) (-(m * 2 ^ e))

/-- The larger exponent makes the larger number. -/
theorem Canonical.lt_of_exponent_lt {m m' : Nat} {e e' : Int} (h : Canonical m e)
    (h' : Canonical m' e') (hlt : e < e') : (m * 2 ^ e : ℚ) < m' * 2 ^ e' := by
  have hlow : (2 ^ 52 : ℚ) ≤ m' := by
    have := h'.low.resolve_right (by have := h.least; omega)
    exact_mod_cast this
  have hhigh : (m : ℚ) < 2 ^ 53 := by exact_mod_cast h.high
  have hpos : (0 : ℚ) < 2 ^ e := by positivity
  calc
    (m * 2 ^ e : ℚ) < 2 ^ 53 * 2 ^ e := by gcongr
    _ = 2 ^ 52 * 2 ^ (e + 1) := by rw [zpow_add₀ (by norm_num)]; ring
    _ ≤ m' * 2 ^ e' := by
      gcongr
      · norm_num
      · omega

theorem Canonical.compare_eq {m m' : Nat} {e e' : Int} (h : Canonical m e) (h' : Canonical m' e') :
    (compare e e').then (compare m m') = compare (m * 2 ^ e : ℚ) (m' * 2 ^ e') := by
  rcases lt_trichotomy e e' with hlt | rfl | hlt
  · rw [compare_lt_iff_lt.2 hlt, compare_lt_iff_lt.2 (h.lt_of_exponent_lt h' hlt)]
    rfl
  · have hpos : (0 : ℚ) < 2 ^ e := by positivity
    rw [compare_eq_iff_eq.2 rfl]
    rcases lt_trichotomy m m' with hm | rfl | hm
    · rw [Ordering.then, compare_lt_iff_lt.2 hm, eq_comm, compare_lt_iff_lt]
      gcongr
    · simp
    · rw [Ordering.then, compare_gt_iff_gt.2 hm, eq_comm, compare_gt_iff_gt]
      change (m' * 2 ^ e : ℚ) < m * 2 ^ e
      gcongr
  · rw [compare_gt_iff_gt.2 hlt, compare_gt_iff_gt.2 (h'.lt_of_exponent_lt h hlt)]
    rfl

theorem compare_neg (p q : ℚ) : compare (-p) (-q) = compare q p := by
  rcases lt_trichotomy q p with hlt | rfl | hlt
  · rw [compare_lt_iff_lt.2 hlt, compare_lt_iff_lt.2 (neg_lt_neg hlt)]
  · rw [compare_eq_iff_eq.2 rfl, compare_eq_iff_eq.2 rfl]
  · rw [compare_gt_iff_gt.2 hlt, compare_gt_iff_gt.2 (neg_lt_neg hlt)]

/-- Doubles are compared as the numbers that they stand for. -/
theorem compare_of_denotes {u v : UnpackedFloat} {p q : ℚ} (hu : Denotes u p) (hv : Denotes v q) :
    u.compare v = some (compare p q) := by
  have hpos {m : Nat} {e : Int} (hm : 0 < m) : (0 : ℚ) < m * 2 ^ e := by positivity
  cases hu with
  | zero s =>
    cases hv with
    | zero t => rw [compare_eq_iff_eq.2 rfl]; rfl
    | positive hm _ => rw [compare_lt_iff_lt.2 (hpos hm)]; rfl
    | negative hm _ => rw [compare_gt_iff_gt.2 (neg_lt_zero.2 (hpos hm))]; rfl
  | positive hm h =>
    cases hv with
    | zero t => rw [compare_gt_iff_gt.2 (hpos hm)]; rfl
    | positive hm' h' => exact congrArg some (h.compare_eq h')
    | negative hm' h' =>
      rw [compare_gt_iff_gt.2 ((neg_lt_zero.2 (hpos hm')).trans (hpos hm))]
      rfl
  | negative hm h =>
    cases hv with
    | zero t => rw [compare_lt_iff_lt.2 (neg_lt_zero.2 (hpos hm))]; rfl
    | positive hm' h' =>
      rw [compare_lt_iff_lt.2 ((neg_lt_zero.2 (hpos hm)).trans (hpos hm'))]
      rfl
    | negative hm' h' =>
      change some ((compare _ _).then (compare _ _)).swap = _
      rw [h.compare_eq h', ← Std.OrientedOrd.eq_swap, compare_neg]

theorem lt_iff_of_denotes {p q : ℚ} (hx : Denotes x.toModel.unpack p)
    (hy : Denotes y.toModel.unpack q) : x < y ↔ p < q := by
  change decide (x.toModel.unpack.lt y.toModel.unpack = true) = true ↔ _
  rw [decide_eq_true_iff, UnpackedFloat.lt, compare_of_denotes hx hy, beq_iff_eq, Option.some_inj,
    compare_lt_iff_lt]

theorem le_iff_of_denotes {p q : ℚ} (hx : Denotes x.toModel.unpack p)
    (hy : Denotes y.toModel.unpack q) : x ≤ y ↔ p ≤ q := by
  change decide (x.toModel.unpack.le y.toModel.unpack = true) = true ↔ _
  rw [decide_eq_true_iff, UnpackedFloat.le, compare_of_denotes hx hy, Option.any_some,
    ← compare_le_iff_le]
  cases compare p q <;> simp

end GraphLang.Decimal
