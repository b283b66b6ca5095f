import GraphLang.Proofs.Course.Node

/-!
# The order of moments

One moment of an evaluation comes before another one if what is answered at the first one decides
whether the evaluation comes to the second one. Whatever holds from before to after each step of an
action holds between the moments of an evaluation, in their order.
-/

namespace GraphLang

open Eval

variable {R : Regime} {ρ α : Type} {w : Machine}

namespace Eval

/-- What evaluating the place comes to, with an evaluator for what it asks for. -/
def Place.evalBy (ev : Evaluator) (fuel : Nat) : Place → Eval Signal
  | .node code n scope => Eval.node ev fuel code n scope
  | .body code root scope => Eval.body ev code root scope
  | .call f args callNode => callFunction ev f args callNode

/-- An answer that ends a question, with a signal or an error. -/
abbrev Answer := Except EvalError Signal × Machine

/-- Evaluates as usual, but gives the first answer at the moment of `p` and `v`, and the second one
at the moment of `p'` and `v'`. -/
noncomputable def evalTwo (p : Place) (v : Machine) (a : Option Answer) (p' : Place) (v' : Machine)
    (b : Option Answer) : Nat → Evaluator :=
  open Classical in
  evalUntil (fun q x => moment p v q x ∨ moment p' v' q x)
    (fun q x => if moment p' v' q x then b else a)

/-- The action comes to both moments, first to that of `p` and `v`: with some answer there it ends
and does not come to the other one. -/
def Precedes (action : Evaluator → Eval α) (fuel : Nat) (w : Machine) (p : Place) (v : Machine)
    (p' : Place) (v' : Machine) : Prop :=
  Reaches action fuel w p' v' ∧ ∃ a, action (evalTwo p v (some a) p' v' none fuel) w ≠ none

/-- With the answer `a` at the moment of `p` and `v` the action comes to the moment of `p'` and
`v'`, and with another answer there it does not. -/
def Succeeds (action : Evaluator → Eval α) (fuel : Nat) (w : Machine) (p : Place) (v : Machine)
    (a : Answer) (p' : Place) (v' : Machine) : Prop :=
  (∃ b, action (evalTwo p v (some a) p' v' (some b) fuel) w ≠ none) ∧
    action (evalTwo p v (some a) p' v' none fuel) w = none ∧
    ∃ a', action (evalTwo p v (some a') p' v' none fuel) w ≠ none

theorem evalUntil_at_zero (stop : Place → Machine → Prop) (answer : Place → Eval Signal)
    (p : Place) (w : Machine) : (evalUntil stop answer 0).at p w = none := by
  cases p <;> rfl

open Classical in
theorem evalUntil_at (stop : Place → Machine → Prop) (answer : Place → Eval Signal) (fuel : Nat)
    (p : Place) (w : Machine) :
    (evalUntil stop answer (fuel + 1)).at p w =
      if stop p w then answer p w else p.evalBy (evalUntil stop answer fuel) fuel w := by
  cases p <;> rfl

end Eval

/-- Evaluating a place asks for other ones. -/
theorem Steps.evalBy (fuel : Nat) {p : Place} (h : R.Allows p) :
    Steps R fun ev => p.evalBy ev fuel := by
  cases p with
  | node code n scope => exact .node fuel h
  | body code root scope => exact .body code root h
  | call f args callNode => exact .callFunction f args callNode

/-! ### Evaluators of which one knows more -/

/-- Whatever the first evaluator comes to, so does the second one. -/
def Evaluator.Below (ev ev' : Evaluator) : Prop :=
  ∀ p w, ev.at p w = none ∨ ev.at p w = ev'.at p w

/-- Whatever the evaluator comes to keeps to the regime. -/
def Evaluator.Honors (R : Regime) (ev : Evaluator) : Prop :=
  ∀ p w r v, R.Allows p → R.inv w → ev.at p w = some (r, v) → R.rel w v

namespace Course

variable {action : Evaluator → Option (ρ × Machine)} {ev ev' : Evaluator}

theorem ends_of_below (h : Course R w action) (hfree : R.Free) (hev : ev.Below ev') :
    action ev = none ∨ action ev = action ev' := by
  induction h with
  | done => exact Or.inr rfl
  | stuck => exact Or.inl rfl
  | @ask w v p k _ _ _ ih =>
    dsimp only
    cases hp : ev.at p v with
    | none => exact Or.inl rfl
    | some x =>
      rcases hev p v with hnone | hsame
      · rw [hp] at hnone
        cases hnone
      · rw [← hsame, hp]
        exact ih x.1 x.2 (hfree.inv x.2)

/-- What holds of every step and of every answer holds of the whole course. -/
theorem rel {r : ρ} {v : Machine} (h : Course R w action) (hev : ev.Honors R)
    (hrun : action ev = some (r, v)) : R.rel w v := by
  induction h with
  | done hstep =>
    cases hrun
    exact hstep
  | stuck => cases hrun
  | @ask w x p k hstep hallows _ ih =>
    dsimp only at hrun
    cases hp : ev.at p x with
    | none =>
      rw [hp] at hrun
      cases hrun
    | some y =>
      rw [hp] at hrun
      have hanswer := hev p x y.1 y.2 hallows (R.holds hstep) hp
      exact R.trans (R.trans hstep hanswer) (ih y.1 y.2 (R.holds hanswer) hrun)

/-- Where two evaluators differ only from a world `v'` on, so do their results. -/
theorem meets {v' : Machine} (h : Course R w action) (hfree : R.Free) (hhonors : ev'.Honors R)
    (hev : ∀ p x, ev.at p x = ev'.at p x ∨ R.rel x v') :
    action ev = action ev' ∨ R.rel w v' := by
  induction h with
  | done => exact Or.inl rfl
  | stuck => exact Or.inl rfl
  | @ask w x p k hstep hallows _ ih =>
    dsimp only
    rcases hev p x with hsame | hon
    · rw [hsame]
      cases hp : ev'.at p x with
      | none => exact Or.inl rfl
      | some y =>
        refine (ih y.1 y.2 (hfree.inv _)).imp_right fun hon => ?_
        exact R.trans (R.trans hstep (hhonors p x y.1 y.2 hallows (hfree.inv _) hp)) hon
    · exact Or.inr (R.trans hstep hon)

/-- Where two evaluators differ only after a world `z`, their results do. -/
theorem leaves {z : Machine} (h : Course R w action) (hfree : R.Free) (hhonors : ev.Honors R)
    (hev : ∀ p x, ev.at p x = ev'.at p x ∨ ∀ r u, ev.at p x = some (r, u) → R.rel z u) :
    action ev = action ev' ∨ ∀ r u, action ev = some (r, u) → R.rel z u := by
  induction h with
  | done => exact Or.inl rfl
  | stuck => exact Or.inl rfl
  | @ask w x p k hstep _ hk ih =>
    dsimp only
    cases hp : ev.at p x with
    | none =>
      refine Or.inr ?_
      rintro r u ⟨⟩
    | some y =>
      rcases hev p x with hsame | hon
      · rw [← hsame, hp]
        exact ih y.1 y.2 (hfree.inv _)
      · refine Or.inr fun r u hrun => R.trans (hon y.1 y.2 hp) ?_
        exact (hk y.1 y.2 (hfree.inv _)).rel hhonors hrun

end Course

/-- What three evaluators come to: the first one gives an answer at a moment with the world `v'`,
the other ones none, and the last one gives an answer of its own at a moment before the world
`z`. -/
def Apart (R : Regime) (z v' : Machine) (a b c : Option (ρ × Machine)) : Prop :=
  b = c ∨ a = none ∨ (a = b ∧ ∀ r u, b = some (r, u) → R.rel z u) ∨ R.rel z v'

theorem Apart.rel {z v' : Machine} {a b c : Option (ρ × Machine)} (h : Apart R z v' a b c)
    (ha : a ≠ none) (hb : b = none) (hc : c ≠ none) : R.rel z v' := by
  rcases h with hsame | hnone | ⟨hsame, -⟩ | hon
  · exact absurd (hsame.symm.trans hb) hc
  · exact absurd hnone ha
  · exact absurd (hsame.trans hb) ha
  · exact hon

theorem Course.apart {action : Evaluator → Option (ρ × Machine)} {A B C : Evaluator}
    {z v' : Machine} (h : Course R w action) (hfree : R.Free) (hbelow : B.Below A)
    (hhonors : B.Honors R)
    (hmeets : ∀ p x, A.at p x = B.at p x ∨ R.rel x v')
    (hev : ∀ p x, Apart R z v' (A.at p x) (B.at p x) (C.at p x)) :
    Apart R z v' (action A) (action B) (action C) := by
  induction h with
  | done => exact Or.inl rfl
  | stuck => exact Or.inl rfl
  | @ask w x p k hstep _ hk ih =>
    unfold Apart
    dsimp only
    cases hB : B.at p x with
    | none =>
      rcases hev p x with hC | hA | ⟨hA, -⟩ | hon
      · rw [← hC, hB]
        exact Or.inl rfl
      · rw [hA]
        exact Or.inr (Or.inl rfl)
      · rw [hA, hB]
        exact Or.inr (Or.inl rfl)
      · exact Or.inr (Or.inr (Or.inr hon))
    | some y =>
      have hA : A.at p x = some y := by
        rcases hbelow p x with hnone | hsame
        · rw [hB] at hnone
          cases hnone
        · rw [← hsame, hB]
      rw [hA]
      rcases hev p x with hC | hnone | ⟨-, hon⟩ | hon
      · rw [← hC, hB]
        exact ih y.1 y.2 (hfree.inv _)
      · rw [hA] at hnone
        cases hnone
      · have hrest := hk y.1 y.2 (hfree.inv _)
        rcases hrest.meets hfree hhonors hmeets with hsame | hmet
        · refine Or.inr (Or.inr (Or.inl ⟨hsame, fun r u hrun => ?_⟩))
          exact R.trans (hon y.1 y.2 hB) (hrest.rel hhonors hrun)
        · exact Or.inr (Or.inr (Or.inr (R.trans (hon y.1 y.2 hB) hmet)))
      · exact Or.inr (Or.inr (Or.inr hon))

/-! ### Evaluators with answers of their own -/

section

variable {p p' q : Place} {v v' z x : Machine}

theorem honors_evalUntil {stop : Place → Machine → Prop} {answer : Place → Eval Signal}
    (h : ∀ p w r v, R.inv w → stop p w → answer p w = some (r, v) → R.rel w v) (fuel : Nat) :
    (evalUntil stop answer fuel).Honors R := by
  induction fuel with
  | zero =>
    intro p w r v _ _ hrun
    rw [evalUntil_at_zero] at hrun
    cases hrun
  | succ fuel ih =>
    intro p w r v hallows hw hrun
    rw [evalUntil_at] at hrun
    split at hrun
    · next hstop => exact h p w r v hw hstop hrun
    · exact (Steps.evalBy fuel hallows w hw).rel ih hrun

theorem honors_eval (fuel : Nat) : (eval fuel).Honors R := by
  rw [← evalUntil_never (fun _ => Act.outOfFuel) fuel]
  exact honors_evalUntil (fun p w r v _ hstop => hstop.elim) fuel

/-- The course of an action of its own with the usual evaluator. -/
theorem Steps.rel {ε : Type} {action : Evaluator → Act Session ε α} (h : Steps R action)
    (fuel : Nat) {v : Machine} {r : Except ε α} (hw : R.inv w)
    (hrun : action (eval fuel) w = some (r, v)) : R.rel w v :=
  (h w hw).rel (honors_eval fuel) hrun

/-- Without an answer at a moment, an evaluation comes to less. -/
theorem below_evalUntil {stop : Place → Machine → Prop} {answer answer' : Place → Eval Signal}
    (h : ∀ p w, stop p w → answer p w = none ∨ answer p w = answer' p w) (fuel : Nat) :
    (evalUntil stop answer fuel).Below (evalUntil stop answer' fuel) := by
  induction fuel with
  | zero => exact fun p w => Or.inl (evalUntil_at_zero _ _ p w)
  | succ fuel ih =>
    intro p w
    rw [evalUntil_at, evalUntil_at]
    split
    · next hstop => exact h p w hstop
    · have hsteps := Steps.evalBy fuel (Regime.free_onward.allows p)
      exact (hsteps w trivial).ends_of_below Regime.free_onward ih

variable (hfree : R.Free)

include hfree

/-- Evaluations with different answers at one moment differ from there on only. -/
theorem meets_evalUntil {stop : Place → Machine → Prop} {answer answer' : Place → Eval Signal}
    (hstop : ∀ p w, stop p w → answer p w = answer' p w ∨ w = v')
    (hhonors : ∀ fuel, (evalUntil stop answer' fuel).Honors R) (fuel : Nat) (q : Place)
    (x : Machine) :
    (evalUntil stop answer fuel).at q x = (evalUntil stop answer' fuel).at q x ∨ R.rel x v' := by
  induction fuel generalizing q x with
  | zero =>
    rw [evalUntil_at_zero, evalUntil_at_zero]
    exact Or.inl rfl
  | succ fuel ih =>
    rw [evalUntil_at, evalUntil_at]
    split
    · next hat =>
      refine (hstop q x hat).imp_right ?_
      rintro rfl
      exact R.refl (hfree.inv x)
    · exact (Steps.evalBy fuel (hfree.allows q) x (hfree.inv x)).meets hfree (hhonors fuel) ih

/-- Evaluations that stop at one moment, and one that is given an answer before. -/
theorem apart_evalUntil {stop : Place → Machine → Prop} {answer answer' : Place → Eval Signal}
    {a : Option Answer} (hstop : ∀ q x, ¬moment p v q x → (stop q x ↔ moment p' v' q x))
    (hnone : answer' p' v' = none)
    (hbelow : ∀ fuel, (evalUntil stop answer' fuel).Below (evalUntil stop answer fuel))
    (hhonors : ∀ fuel, (evalUntil stop answer' fuel).Honors R)
    (hmeets : ∀ fuel q x,
      (evalUntil stop answer fuel).at q x = (evalUntil stop answer' fuel).at q x ∨ R.rel x v')
    (hfirst : ∀ fuel, Apart R z v' ((evalUntil stop answer fuel).at p v)
      ((evalUntil stop answer' fuel).at p v) ((evalTwo p v a p' v' none fuel).at p v))
    (fuel : Nat) (q : Place) (x : Machine) :
    Apart R z v' ((evalUntil stop answer fuel).at q x) ((evalUntil stop answer' fuel).at q x)
      ((evalTwo p v a p' v' none fuel).at q x) := by
  induction fuel generalizing q x with
  | zero => exact Or.inr (Or.inl (evalUntil_at_zero _ _ q x))
  | succ fuel ih =>
    by_cases hat : moment p v q x
    · obtain ⟨rfl, rfl⟩ := hat
      exact hfirst (fuel + 1)
    · unfold evalTwo
      rw [evalUntil_at, evalUntil_at, evalUntil_at]
      by_cases hat' : moment p' v' q x
      · rw [if_pos ((hstop q x hat).2 hat'), if_pos ((hstop q x hat).2 hat'),
          if_pos (Or.inr hat'), if_pos hat']
        obtain ⟨rfl, rfl⟩ := hat'
        exact Or.inl hnone
      · have hno : ¬stop q x := fun h => hat' ((hstop q x hat).1 h)
        have hno' : ¬(moment p v q x ∨ moment p' v' q x) := fun h => h.elim hat hat'
        rw [if_neg hno, if_neg hno, if_neg hno']
        have hcourse := Steps.evalBy fuel (hfree.allows q) x (hfree.inv x)
        exact hcourse.apart hfree (hbelow fuel) (hhonors fuel) (hmeets fuel) ih

end

namespace Eval

variable {action : Evaluator → Eval α} {fuel : Nat} {p p' : Place} {v v' : Machine}
  (hfree : R.Free)

include hfree

/-- From the start of an evaluation to every moment of it. -/
theorem Reaches.rel (h : Steps R action) (hreach : Reaches action fuel w p v) : R.rel w v := by
  obtain ⟨⟨a, hends⟩, hstuck⟩ := hreach
  have hhonors (fuel : Nat) : (evalUntil (moment p v) (fun _ => Act.outOfFuel) fuel).Honors R :=
    honors_evalUntil (by rintro _ _ _ _ _ _ ⟨⟩) fuel
  have hmeets : ∀ q x, (evalUntil (moment p v) (fun _ _ => some a) fuel).at q x =
      (evalUntil (moment p v) (fun _ => Act.outOfFuel) fuel).at q x ∨ R.rel x v :=
    meets_evalUntil hfree (fun _ _ hat => Or.inr hat.2) hhonors fuel
  refine ((h w (hfree.inv w)).meets hfree (hhonors fuel) hmeets).resolve_left fun hsame => hends ?_
  rw [hsame, hstuck]

/-- From a moment to every later one. -/
theorem Precedes.rel (h : Steps R action) (hprecedes : Precedes action fuel w p v p' v') :
    R.rel v v' := by
  obtain ⟨⟨⟨b, hends⟩, hstuck⟩, a, hends'⟩ := hprecedes
  have hhonors (fuel : Nat) : (evalUntil (moment p' v') (fun _ => Act.outOfFuel) fuel).Honors R :=
    honors_evalUntil (by rintro _ _ _ _ _ _ ⟨⟩) fuel
  have hbelow (fuel : Nat) : (evalUntil (moment p' v') (fun _ => Act.outOfFuel) fuel).Below
      (evalUntil (moment p' v') (fun _ _ => some b) fuel) :=
    below_evalUntil (fun _ _ _ => Or.inl rfl) fuel
  have hmeets : ∀ fuel q x, (evalUntil (moment p' v') (fun _ _ => some b) fuel).at q x =
      (evalUntil (moment p' v') (fun _ => Act.outOfFuel) fuel).at q x ∨ R.rel x v' :=
    meets_evalUntil hfree (fun _ _ hat => Or.inr hat.2) hhonors
  have hfirst (fuel : Nat) : Apart R v v' ((evalUntil (moment p' v') (fun _ _ => some b) fuel).at p v)
      ((evalUntil (moment p' v') (fun _ => Act.outOfFuel) fuel).at p v)
      ((evalTwo p v (some a) p' v' none fuel).at p v) :=
    (hmeets fuel p v).elim (fun hsame => Or.inr (Or.inr (Or.inl ⟨hsame, fun r u =>
      hhonors fuel p v r u (hfree.allows p) (hfree.inv v)⟩)))
      fun hon => Or.inr (Or.inr (Or.inr hon))
  have hapart := (h w (hfree.inv w)).apart hfree (hbelow fuel) (hhonors fuel) (hmeets fuel)
    (apart_evalUntil hfree (fun _ _ _ => Iff.rfl) rfl hbelow hhonors hmeets hfirst fuel)
  exact hapart.rel hends hstuck hends'

/-- From what a moment comes to, to every later moment. -/
theorem Succeeds.rel (h : Steps R action) {a : Answer} (ha : R.rel v a.2)
    (hsucceeds : Succeeds action fuel w p v a p' v') : R.rel a.2 v' := by
  obtain ⟨⟨b, hends⟩, hstuck, a', hends'⟩ := hsucceeds
  have hhonors (fuel : Nat) : (evalTwo p v (some a) p' v' none fuel).Honors R := by
    refine honors_evalUntil (fun q x r u _ hat hanswer => ?_) fuel
    split at hanswer
    · cases hanswer
    · next hno =>
      cases hanswer
      obtain ⟨-, rfl⟩ := hat.resolve_right hno
      exact ha
  have hbelow (fuel : Nat) : (evalTwo p v (some a) p' v' none fuel).Below
      (evalTwo p v (some a) p' v' (some b) fuel) := by
    refine below_evalUntil (fun q x _ => ?_) fuel
    split
    · exact Or.inl rfl
    · exact Or.inr rfl
  have hmeets (fuel : Nat) (q : Place) (x : Machine) :
      (evalTwo p v (some a) p' v' (some b) fuel).at q x =
        (evalTwo p v (some a) p' v' none fuel).at q x ∨ R.rel x v' := by
    refine meets_evalUntil hfree (fun q x _ => ?_) hhonors fuel q x
    split
    · next hat => exact Or.inr hat.2
    · exact Or.inl rfl
  have hfirst (fuel : Nat) : Apart R a.2 v' ((evalTwo p v (some a) p' v' (some b) fuel).at p v)
      ((evalTwo p v (some a) p' v' none fuel).at p v)
      ((evalTwo p v (some a') p' v' none fuel).at p v) := by
    cases fuel with
    | zero => exact Or.inr (Or.inl (evalUntil_at_zero _ _ p v))
    | succ fuel =>
      unfold evalTwo
      rw [evalUntil_at, evalUntil_at, evalUntil_at, if_pos (Or.inl ⟨rfl, rfl⟩),
        if_pos (Or.inl ⟨rfl, rfl⟩), if_pos (Or.inl ⟨rfl, rfl⟩)]
      by_cases hat : moment p' v' p v
      · rw [if_pos hat, if_pos hat, if_pos hat]
        exact Or.inl rfl
      · rw [if_neg hat, if_neg hat]
        refine Or.inr (Or.inr (Or.inl ⟨rfl, ?_⟩))
        rintro r u ⟨⟩
        exact R.refl (hfree.inv _)
  have hstop : ∀ q x, ¬moment p v q x → (moment p v q x ∨ moment p' v' q x ↔ moment p' v' q x) :=
    fun q x hno => ⟨fun hat => hat.resolve_left hno, Or.inr⟩
  have hapart := (h w (hfree.inv w)).apart hfree (hbelow fuel) (hhonors fuel) (hmeets fuel)
    (apart_evalUntil hfree hstop (if_pos ⟨rfl, rfl⟩) hbelow hhonors hmeets hfirst fuel)
  exact hapart.rel hends hstuck hends'

/-- From what a moment comes to, to the end of the evaluation. -/
theorem Reaches.rel_end (h : Steps R action) (hreach : Reaches action fuel w p v) {a : Answer}
    (ha : R.rel v a.2) {r : Except EvalError α} {u : Machine}
    (hrun : action (evalUntil (moment p v) (fun _ _ => some a) fuel) w = some (r, u)) :
    R.rel a.2 u := by
  have hhonors (fuel : Nat) : (evalUntil (moment p v) (fun _ _ => some a) fuel).Honors R := by
    refine honors_evalUntil ?_ fuel
    rintro q x r u - ⟨-, rfl⟩ ⟨⟩
    exact ha
  have hleaves (fuel : Nat) (q : Place) (x : Machine) :
      (evalUntil (moment p v) (fun _ _ => some a) fuel).at q x =
        (evalUntil (moment p v) (fun _ => Act.outOfFuel) fuel).at q x ∨
      ∀ r u, (evalUntil (moment p v) (fun _ _ => some a) fuel).at q x = some (r, u) →
        R.rel a.2 u := by
    induction fuel generalizing q x with
    | zero =>
      rw [evalUntil_at_zero, evalUntil_at_zero]
      exact Or.inl rfl
    | succ fuel ih =>
      rw [evalUntil_at, evalUntil_at]
      by_cases hat : moment p v q x
      · rw [if_pos hat]
        refine Or.inr ?_
        rintro r u ⟨⟩
        exact R.refl (hfree.inv _)
      · rw [if_neg hat, if_neg hat]
        have hcourse := Steps.evalBy fuel (hfree.allows q) x (hfree.inv x)
        exact hcourse.leaves hfree (hhonors fuel) ih
  rcases (h w (hfree.inv w)).leaves hfree (hhonors fuel) (hleaves fuel) with hsame | hon
  · rw [hsame, hreach.2] at hrun
    cases hrun
  · exact hon r u hrun

end Eval

end GraphLang
