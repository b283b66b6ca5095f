import GraphLang.Proofs.Decimal.Order
import GraphLang.Proofs.Decimal.Rounding
import GraphLang.Proofs.Rule.Arguments

/-!
# Ranges of numbers

A range with numbers in it moves every value to one that it leaves alone, and never fails. The check
of a description makes sure of that for a range that is a rule of its own. It says nothing of a
range in a branch of a conditional: it asks only whether the branch is a transform, so such a range
has numbers in it exactly if the branch would pass the check by itself.
-/

namespace GraphLang

theorem Literal.number?_toValue (l : Literal) : l.toValue.number? = l.number? := by
  cases l <;> rfl

namespace Transform

variable {r : Transform} {min max : Value}

/-- If the transform is a range, its bounds are numbers, and the first is not above the second. -/
def ProperRange : Transform → Prop
  | .clamp min max =>
    ∃ low high, min.number? = some low ∧ max.number? = some high ∧ low ≤ high
  | _ => True

/-- A proper range moves every value to one that it leaves alone. -/
theorem ProperRange.apply_twice (h : (clamp min max).ProperRange) (s : Store) (value : Value) :
    ∃ moved, (clamp min max).apply s value = .ok moved ∧
      (clamp min max).apply s moved = .ok moved := by
  obtain ⟨low, high, hlow, hhigh, hle⟩ := h
  have happly {v : Value} {x : Float} (hv : v.number? = some x) : (clamp min max).apply s v =
      .ok (if x < low then min else if high < x then max else v) := by
    simp [apply, hlow, hhigh, hv]
  have hfirst : (clamp min max).apply s min = .ok min := by
    rw [happly hlow, if_neg (Decimal.not_lt_self low),
      if_neg (Decimal.not_lt_of_le hle)]
  have hlast : (clamp min max).apply s max = .ok max := by
    rw [happly hhigh, if_neg (Decimal.not_lt_of_le hle),
      if_neg (Decimal.not_lt_self high)]
  cases hnumber : value.number? with
  | none =>
    have hsame : (clamp min max).apply s value = .ok value := by simp [apply, hlow, hhigh, hnumber]
    exact ⟨value, hsame, hsame⟩
  | some x =>
    have hmoved := happly hnumber
    split_ifs at hmoved
    · exact ⟨_, hmoved, hfirst⟩
    · exact ⟨_, hmoved, hlast⟩
    · exact ⟨_, hmoved, hmoved⟩

/-- A proper range never finds that its bounds are no numbers. -/
theorem ProperRange.apply_ne_boundsNotNumbers (h : r.ProperRange) (s : Store) (value : Value) :
    r.apply s value ≠ .error .boundsNotNumbers := by
  intro hfails
  cases r with
  | clamp min max =>
    obtain ⟨moved, hmoved, -⟩ := h.apply_twice s value
    rw [hmoved] at hfails
    cases hfails
  | lookup table default =>
    unfold apply at hfails
    cases table <;> dsimp only at hfails <;> try cases hfails
    split at hfails <;> cases hfails
  | custom name callee => cases hfails
  | _ => cases value <;> cases hfails

end Transform

namespace Rule

/-- The transforms that a rule may run. -/
def transforms : Rule → List Transform
  | .transform r => [r]
  | .conditional _ whenTrue whenFalse => whenTrue :: whenFalse.toList
  | _ => []

/-- The ranges that the rule may move values into have numbers in them. -/
def ProperRanges (rule : Rule) : Prop := ∀ r ∈ rule.transforms, r.ProperRange

end Rule

namespace RuleSpec

/-- The descriptions of the branches of a conditional. -/
def branches : RuleSpec → List RuleSpec
  | .conditional whenTrue => [whenTrue]
  | .conditionalElse whenTrue whenFalse => [whenTrue, whenFalse]
  | _ => []

variable {spec : RuleSpec} {args : List Value} {r : Transform} {rule : Rule}

/-- The check of a transform by itself asks just whether its range is proper. -/
theorem MakesTransform.properRange_iff (h : MakesTransform spec args r) :
    r.ProperRange ↔ spec.check = .ok () := by
  cases h with
  | clamp min max =>
    constructor
    · rintro ⟨low, high, hlow, hhigh, hle⟩
      rw [Literal.number?_toValue] at hlow hhigh
      simp [check, hlow, hhigh, hle]
    · intro hcheck
      cases hlow : min.number? with
      | none => simp [check, hlow] at hcheck
      | some low =>
        cases hhigh : max.number? with
        | none => simp [check, hlow, hhigh] at hcheck
        | some high =>
          by_cases hle : low ≤ high
          · exact ⟨low, high, min.number?_toValue.trans hlow, max.number?_toValue.trans hhigh, hle⟩
          · simp [check, hlow, hhigh, hle] at hcheck
  | _ => exact ⟨fun _ => rfl, fun _ => trivial⟩

/-- Where a description passes its check, the ranges in its rule are proper exactly if the branches
pass theirs. -/
theorem Makes.properRanges_iff (h : spec.Makes args rule) (hcheck : spec.check = .ok ()) :
    rule.ProperRanges ↔ ∀ branch ∈ spec.branches, branch.check = .ok () := by
  unfold Rule.ProperRanges
  cases h with
  | transform hr =>
    have hproper := hr.properRange_iff.2 hcheck
    cases hr <;> simpa [Rule.transforms, branches] using hproper
  | conditional test hr => simp [Rule.transforms, branches, hr.properRange_iff]
  | conditionalElse test hr hr' =>
    simp [Rule.transforms, branches, hr.properRange_iff, hr'.properRange_iff]
  | _ => simp [Rule.transforms, branches]

end RuleSpec

/-! ### Running a rule -/

namespace Engine

variable {σ ε : Type} {invoke : Invoke σ ε} {r : Transform} {rule : Rule} {value : Value}
  {w v : World σ} {name : String}

theorem runTransform_ne_boundsNotNumbers (hr : r.ProperRange) :
    runTransform invoke r value w ≠ some (.error (.transformFailed name .boundsNotNumbers), v) := by
  intro hrun
  cases r with
  | custom callback callee =>
    change ((invoke callee [value]).attempt >>= _) w = _ at hrun
    rw [Act.run_bind, Act.run_attempt] at hrun
    cases hinvoke : invoke callee [value] w with
    | none =>
      rw [hinvoke] at hrun
      cases hrun
    | some outcome =>
      obtain ⟨result, u⟩ := outcome
      rw [hinvoke] at hrun
      rcases result with failure | x
      · cases failure <;> cases hrun
      · cases hrun
  | _ =>
    change (Act.store >>= _) w = _ at hrun
    rw [Act.run_bind, Act.run_store] at hrun
    dsimp only at hrun
    generalize happly : Transform.apply _ w.store value = result at hrun
    cases result with
    | ok moved => cases hrun
    | error cause =>
      cases hrun
      exact hr.apply_ne_boundsNotNumbers _ _ happly

/-- A rule with proper ranges never finds that the bounds of one are no numbers. -/
theorem transform_ne_boundsNotNumbers (hrule : rule.ProperRanges) :
    transform invoke rule value w ≠ some (.error (.transformFailed name .boundsNotNumbers), v) := by
  intro hrun
  cases rule with
  | transform r =>
    exact runTransform_ne_boundsNotNumbers (hrule r List.mem_cons_self) hrun
  | conditional predicate whenTrue whenFalse =>
    change ((invoke predicate [value]).attempt >>= _) w = _ at hrun
    rw [Act.run_bind, Act.run_attempt] at hrun
    cases hinvoke : invoke predicate [value] w with
    | none =>
      rw [hinvoke] at hrun
      cases hrun
    | some outcome =>
      obtain ⟨result, u⟩ := outcome
      rw [hinvoke] at hrun
      rcases result with failure | x
      · cases failure <;> cases hrun
      · change (Act.store >>= _) u = _ at hrun
        rw [Act.run_bind, Act.run_store] at hrun
        dsimp only at hrun
        split_ifs at hrun
        · exact runTransform_ne_boundsNotNumbers (hrule whenTrue List.mem_cons_self) hrun
        · cases whenFalse with
          | none => cases hrun
          | some r =>
            exact runTransform_ne_boundsNotNumbers
              (hrule r (List.mem_cons_of_mem _ (by simp))) hrun
  | validate validation => cases hrun
  | freeze f =>
    cases f with
    | rejectMixed => cases hrun
    | copyElements =>
      cases value <;> cases hrun

end Engine

/-- A description that passes its check makes a rule of as many arguments as it counts. The ranges
in the rule have numbers in them if the description is no conditional, and otherwise exactly if its
branches would pass the check as well. Then running the rule never finds that the bounds of a range
are no numbers. A range with numbers in it can be applied to every value, and to its own result
without a change. -/
theorem ranges_of_check {spec : RuleSpec} {args : List Value} (hcheck : spec.check = .ok ())
    (hargs : args.length = spec.argCount) :
    ∃ rule, spec.instantiate args = .ok rule ∧
      (rule.ProperRanges ↔ ∀ branch ∈ spec.branches, branch.check = .ok ()) ∧
      (rule.ProperRanges → ∀ (σ ε : Type) (invoke : Invoke σ ε) (value : Value) (w v : World σ)
        (name : String), Engine.transform invoke rule value w ≠
          some (.error (.transformFailed name .boundsNotNumbers), v)) ∧
      ∀ min max, .clamp min max ∈ rule.transforms → (Transform.clamp min max).ProperRange →
        ∀ s value, ∃ moved, (Transform.clamp min max).apply s value = .ok moved ∧
          (Transform.clamp min max).apply s moved = .ok moved := by
  obtain ⟨rule, hrule, hmakes⟩ := RuleSpec.instantiate_of_check hcheck hargs
  refine ⟨rule, hrule, hmakes.properRanges_iff hcheck, ?_, ?_⟩
  · intro hproper σ ε invoke value w v name
    exact Engine.transform_ne_boundsNotNumbers hproper
  · intro min max _ hproper s value
    exact hproper.apply_twice s value

/-- A conditional between two transforms, one of them a range with numbers in it. -/
theorem conditionalRange_proper :
    RuleSpec.check (.conditionalElse (.clamp (.int 1) (.int 5)) .trim) = .ok () ∧
      ∃ rule, RuleSpec.instantiate (.conditionalElse (.clamp (.int 1) (.int 5)) .trim) [.nil] =
        .ok rule ∧ rule.ProperRanges := by
  have hcheck : RuleSpec.check (.conditionalElse (.clamp (.int 1) (.int 5)) .trim) = .ok () := rfl
  have hargs : [Value.nil].length =
      RuleSpec.argCount (.conditionalElse (.clamp (.int 1) (.int 5)) .trim) := rfl
  obtain ⟨rule, hrule, hproper, -⟩ := ranges_of_check hcheck hargs
  refine ⟨hcheck, rule, hrule, hproper.2 fun branch hbranch => ?_⟩
  rcases List.mem_pair.1 hbranch with rfl | rfl
  · have hle : Decimal.ofInt 1 ≤ Decimal.ofInt 5 := by decide +kernel
    exact (RuleSpec.MakesTransform.clamp _ _).properRange_iff.1 ⟨_, _, rfl, rfl, hle⟩
  · rfl

/-- Two conditionals that pass the check. The branch of the first is the range from 5 to 1, which
moves 3 to 5, and 5 to 1. A bound of the range in the second is no number. -/
theorem branch_range_unchecked :
    RuleSpec.check (.conditional (.clamp (.int 5) (.int 1))) = .ok () ∧
      RuleSpec.instantiate (.conditional (.clamp (.int 5) (.int 1))) [.nil] =
        .ok (.conditional .nil (.clamp (.int 5) (.int 1)) none) ∧
      (Transform.clamp (.int 5) (.int 1)).apply .empty (.int 3) = .ok (.int 5) ∧
      (Transform.clamp (.int 5) (.int 1)).apply .empty (.int 5) = .ok (.int 1) ∧
      RuleSpec.check (.conditionalElse .trim (.clamp .nil (.int 1))) = .ok () ∧
      RuleSpec.instantiate (.conditionalElse .trim (.clamp .nil (.int 1))) [.nil] =
        .ok (.conditional .nil .trim (some (.clamp .nil (.int 1)))) ∧
      (Transform.clamp .nil (.int 1)).apply .empty (.int 3) = .error .boundsNotNumbers := by
  have hbelow : Decimal.ofInt 3 < Decimal.ofInt 5 := by decide +kernel
  have habove : ¬Decimal.ofInt 5 < Decimal.ofInt 5 ∧ Decimal.ofInt 1 < Decimal.ofInt 5 := by
    decide +kernel
  refine ⟨rfl, rfl, ?_, ?_, rfl, rfl, rfl⟩
  · exact congrArg Except.ok (if_pos hbelow)
  · exact congrArg Except.ok ((if_neg habove.1).trans (if_pos habove.2))

/-! ### Ranges between integers

A range compares numbers as doubles, and a double keeps 53 significant bits of an integer. So an
integer out of the range is only moved into it where it is not rounded to the same double as the
bound, and the check of a range lets bounds in the wrong order pass that are rounded to the same
double. With bounds of no more than 53 bits all of this is exact. -/

namespace Decimal

variable {a b : Int}

theorem log2_natAbs_le (a : Int64) : a.toInt.natAbs.log2 ≤ 1022 := by
  have hlow := a.le_toInt
  have hhigh := a.toInt_lt
  rcases a.toInt.natAbs.eq_zero_or_pos with hzero | hpos
  · rw [hzero]
    decide
  · have hlog := (Nat.log2_lt hpos.ne').2 (show a.toInt.natAbs < 2 ^ 64 by omega)
    omega

/-- Integers are compared as doubles up to rounding. -/
theorem ofInt_lt_iff (a b : Int64) :
    ofInt a.toInt < ofInt b.toInt ↔ nearestInt a.toInt < nearestInt b.toInt := by
  rw [lt_iff_of_denotes (denotes_ofInt (log2_natAbs_le a)) (denotes_ofInt (log2_natAbs_le b)),
    Int.cast_lt]

theorem ofInt_le_iff (a b : Int64) :
    ofInt a.toInt ≤ ofInt b.toInt ↔ nearestInt a.toInt ≤ nearestInt b.toInt := by
  rw [le_iff_of_denotes (denotes_ofInt (log2_natAbs_le a)) (denotes_ofInt (log2_natAbs_le b)),
    Int.cast_le]

/-- An integer that is rounded to less is less. -/
theorem lt_of_nearestInt_lt (h : nearestInt a < nearestInt b) : a < b := by
  by_contra hle
  have := nearestInt_mono (not_lt.1 hle)
  omega

/-- Below an integer of no more than 53 bits nothing is rounded up to it. -/
theorem nearestInt_lt_iff_of_right (hlow : -2 ^ 53 < b) (hhigh : b ≤ 2 ^ 53) :
    nearestInt a < nearestInt b ↔ a < b := by
  refine ⟨lt_of_nearestInt_lt, fun h => ?_⟩
  have hmono : nearestInt a ≤ nearestInt (b - 1) := nearestInt_mono (by omega)
  rw [nearestInt_of_natAbs_le (n := b - 1) (by omega)] at hmono
  rw [nearestInt_of_natAbs_le (n := b) (by omega)]
  omega

/-- Above an integer of no more than 53 bits nothing is rounded down to it. -/
theorem nearestInt_lt_iff_of_left (hlow : -2 ^ 53 ≤ a) (hhigh : a < 2 ^ 53) :
    nearestInt a < nearestInt b ↔ a < b := by
  refine ⟨lt_of_nearestInt_lt, fun h => ?_⟩
  have hmono : nearestInt (a + 1) ≤ nearestInt b := nearestInt_mono (by omega)
  rw [nearestInt_of_natAbs_le (n := a + 1) (by omega)] at hmono
  rw [nearestInt_of_natAbs_le (n := a) (by omega)]
  omega

end Decimal

open Decimal (nearestInt nearestInt_mono lt_of_nearestInt_lt)

variable {min max x : Int64}

/-- The integer itself if it is in the range, and otherwise the bound that it is beyond. -/
def exactClamp (min max x : Int64) : Int64 :=
  if x < min then min else if max < x then max else x

/-- The integer is out of the range, but is rounded to the same double as the bound that it is
beyond. -/
def RoundedToBound (min max x : Int64) : Prop :=
  (x < min ∧ nearestInt x.toInt = nearestInt min.toInt) ∨
    (max < x ∧ nearestInt x.toInt = nearestInt max.toInt)

theorem RuleSpec.check_clamp_int : RuleSpec.check (.clamp (.int min) (.int max)) = .ok () ↔
    nearestInt min.toInt ≤ nearestInt max.toInt := by
  rw [← Decimal.ofInt_le_iff]
  change (if Decimal.ofInt min.toInt ≤ Decimal.ofInt max.toInt then _ else _) = _ ↔ _
  split_ifs with hle
  · exact ⟨fun _ => hle, fun _ => rfl⟩
  · exact ⟨fun h => (by cases h), fun h => absurd h hle⟩

/-- An integer is moved to the bound that it is rounded to something beyond. -/
theorem Transform.apply_clamp_int (s : Store) :
    (Transform.clamp (.int min) (.int max)).apply s (.int x) =
      .ok (.int (if nearestInt x.toInt < nearestInt min.toInt then min
        else if nearestInt max.toInt < nearestInt x.toInt then max else x)) := by
  simp only [← Decimal.ofInt_lt_iff]
  change Except.ok (if Decimal.ofInt x.toInt < Decimal.ofInt min.toInt then Value.int min
    else if Decimal.ofInt max.toInt < Decimal.ofInt x.toInt then Value.int max
    else Value.int x) = _
  split_ifs <;> rfl

/-- Where the bounds are in order, an integer stays out of the range only if rounding hides that it
is, and otherwise it is moved as comparing integers says. -/
theorem clamp_of_nearestInt (h : min ≤ max) :
    (RoundedToBound min max x →
      (if nearestInt x.toInt < nearestInt min.toInt then min
        else if nearestInt max.toInt < nearestInt x.toInt then max else x) = x) ∧
    (¬RoundedToBound min max x →
      (if nearestInt x.toInt < nearestInt min.toInt then min
        else if nearestInt max.toInt < nearestInt x.toInt then max else x) =
          exactClamp min max x) := by
  have hordered : nearestInt min.toInt ≤ nearestInt max.toInt :=
    nearestInt_mono (Int64.le_iff_toInt_le.1 h)
  have hbelow := @lt_of_nearestInt_lt x.toInt min.toInt
  have habove := @lt_of_nearestInt_lt max.toInt x.toInt
  have hbelow' : x < min → nearestInt x.toInt ≤ nearestInt min.toInt := fun hlt =>
    nearestInt_mono (Int64.lt_iff_toInt_lt.1 hlt).le
  have habove' : max < x → nearestInt max.toInt ≤ nearestInt x.toInt := fun hlt =>
    nearestInt_mono (Int64.lt_iff_toInt_lt.1 hlt).le
  rw [← Int64.lt_iff_toInt_lt] at hbelow habove
  unfold RoundedToBound exactClamp
  constructor
  · rintro (⟨hlt, heq⟩ | ⟨hlt, heq⟩)
    · rw [if_neg (by omega), if_neg (by omega)]
    · rw [if_neg (by omega), if_neg (by omega)]
  · intro hnot
    by_cases hmin : x < min
    · have : nearestInt x.toInt < nearestInt min.toInt := by
        by_contra hle
        exact hnot (.inl ⟨hmin, by have := hbelow' hmin; omega⟩)
      rw [if_pos this, if_pos hmin]
    · rw [if_neg fun hlt => hmin (hbelow hlt), if_neg hmin]
      by_cases hmax : max < x
      · have : nearestInt max.toInt < nearestInt x.toInt := by
          by_contra hle
          exact hnot (.inr ⟨hmax, by have := habove' hmax; omega⟩)
        rw [if_pos this, if_pos hmax]
      · rw [if_neg fun hlt => hmax (habove hlt), if_neg hmax]

/-- The bounds have no more than 53 bits, and none that is next to an integer of more. -/
structure ExactBounds (min max : Int64) : Prop where
  /-- The first bound. -/
  min : -2 ^ 53 < min.toInt ∧ min.toInt ≤ 2 ^ 53
  /-- The second bound. -/
  max : -2 ^ 53 ≤ max.toInt ∧ max.toInt < 2 ^ 53

theorem ExactBounds.not_roundedToBound (h : ExactBounds min max) :
    ¬RoundedToBound min max x := by
  rintro (⟨hlt, heq⟩ | ⟨hlt, heq⟩)
  · have := (Decimal.nearestInt_lt_iff_of_right h.min.1 h.min.2).2 (Int64.lt_iff_toInt_lt.1 hlt)
    omega
  · have := (Decimal.nearestInt_lt_iff_of_left h.max.1 h.max.2).2 (Int64.lt_iff_toInt_lt.1 hlt)
    omega

/-- What a range between integers does. Its check passes exactly if the bounds are in order or are
rounded to the same double. Where they are in order, an integer that is out of the range but is
rounded to the same double as the bound stays as it is, and every other integer is moved as
comparing integers says. With bounds of no more than 53 bits, the check and the range are exact. -/
theorem range_of_integers (min max x : Int64) (s : Store) :
    (RuleSpec.check (.clamp (.int min) (.int max)) = .ok () ↔
      min ≤ max ∨ nearestInt min.toInt = nearestInt max.toInt) ∧
    (min ≤ max →
      (RoundedToBound min max x →
        (Transform.clamp (.int min) (.int max)).apply s (.int x) = .ok (.int x)) ∧
      (¬RoundedToBound min max x →
        (Transform.clamp (.int min) (.int max)).apply s (.int x) =
          .ok (.int (exactClamp min max x)))) ∧
    (ExactBounds min max →
      (RuleSpec.check (.clamp (.int min) (.int max)) = .ok () ↔ min ≤ max) ∧
      (min ≤ max → (Transform.clamp (.int min) (.int max)).apply s (.int x) =
        .ok (.int (exactClamp min max x)))) := by
  have hcheck : RuleSpec.check (.clamp (.int min) (.int max)) = .ok () ↔
      min ≤ max ∨ nearestInt min.toInt = nearestInt max.toInt := by
    rw [RuleSpec.check_clamp_int, Int64.le_iff_toInt_le]
    constructor
    · intro hle
      rcases hle.lt_or_eq with hlt | heq
      · exact .inl (lt_of_nearestInt_lt hlt).le
      · exact .inr heq
    · rintro (hle | heq)
      · exact nearestInt_mono hle
      · exact heq.le
  refine ⟨hcheck, fun hle => ?_, fun hexact => ⟨?_, fun hle => ?_⟩⟩
  · obtain ⟨hstays, hmoves⟩ := clamp_of_nearestInt (x := x) hle
    rw [Transform.apply_clamp_int]
    exact ⟨fun h => by rw [hstays h], fun h => by rw [hmoves h]⟩
  · rw [RuleSpec.check_clamp_int, Int64.le_iff_toInt_le, ← not_lt, ← not_lt,
      Decimal.nearestInt_lt_iff_of_right hexact.min.1 hexact.min.2]
  · rw [Transform.apply_clamp_int, (clamp_of_nearestInt hle).2 hexact.not_roundedToBound]

/-- One below a bound that is rounded down to it, an integer stays where it is, and the check takes
such bounds in the wrong order. -/
theorem rounded_range_not_exact :
    let low : Int64 := 9007199254740993
    let high : Int64 := 9007199254740994
    let x : Int64 := 9007199254740992
    x < low ∧ low ≤ high ∧
      (Transform.clamp (.int low) (.int high)).apply .empty (.int x) = .ok (.int x) ∧
      RuleSpec.check (.clamp (.int low) (.int x)) = .ok () := by
  have hx : ¬Decimal.ofInt 9007199254740992 < Decimal.ofInt 9007199254740993 ∧
      ¬Decimal.ofInt 9007199254740994 < Decimal.ofInt 9007199254740992 ∧
      Decimal.ofInt 9007199254740993 ≤ Decimal.ofInt 9007199254740992 := by
    decide +kernel
  refine ⟨by decide, by decide, ?_, ?_⟩
  · exact congrArg Except.ok ((if_neg hx.1).trans (if_neg hx.2.1))
  · exact (RuleSpec.MakesTransform.clamp _ _).properRange_iff.1 ⟨_, _, rfl, rfl, hx.2.2⟩

end GraphLang
