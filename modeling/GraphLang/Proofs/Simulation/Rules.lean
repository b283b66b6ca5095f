import GraphLang.Proofs.Simulation.Basic

/-!
# Rules for runs side by side

What the results of two actions have to do with each other where the second evaluator follows the
first, and how this carries over to sequences, attempts and steps.
-/

namespace GraphLang

variable {σ ε ε' α β : Type}

namespace Step

theorem run_bind (a : Step α) (f : α → Step β) (w : Machine) :
    (a >>= f) w =
      match a w with
      | some (.ok (.ok x), v) => f x v
      | some (.ok (.error s), v) => some (.ok (.error s), v)
      | some (.error e, v) => some (.error e, v)
      | none => none := by
  refine (Act.run_bind (α := Except Signal α) a (ExceptT.bindCont f) w).trans ?_
  cases a w with
  | none => rfl
  | some p =>
    obtain ⟨r, v⟩ := p
    cases r with
    | error e => rfl
    | ok x => cases x <;> rfl

theorem run_lift (a : Eval α) (w : Machine) :
    lift a w =
      match a w with
      | some (.ok x, v) => some (.ok (.ok x), v)
      | some (.error e, v) => some (.error e, v)
      | none => none := by
  have hmap : lift a = (a >>= fun x => pure (Except.ok x) : Eval (Except Signal α)) :=
    map_eq_pure_bind Except.ok a
  rw [hmap, Act.run_bind]
  cases a w with
  | none => rfl
  | some p =>
    obtain ⟨r, v⟩ := p
    cases r <;> rfl

theorem run_toSignal (s : Step Value) (w : Machine) :
    s.toSignal w =
      match s w with
      | some (.ok (.ok v), u) => some (.ok (.normal v), u)
      | some (.ok (.error signal), u) => some (.ok signal, u)
      | some (.error e, u) => some (.error e, u)
      | none => none := by
  refine (Act.run_bind (α := Except Signal Value) s _ w).trans ?_
  cases s w with
  | none => rfl
  | some x =>
    obtain ⟨r, u⟩ := x
    cases r with
    | error e => rfl
    | ok r => cases r <;> rfl

@[simp] theorem run_pure (x : α) (w : Machine) :
    (pure x : Step α) w = some (.ok (.ok x), w) := rfl

@[simp] theorem run_throw (s : Signal) (w : Machine) :
    (throw s : Step α) w = some (.ok (.error s), w) := rfl

@[simp] theorem run_fatal (e : EvalError) (w : Machine) :
    (fatal e : Step α) w = some (.error e, w) := rfl

@[simp] theorem run_store (w : Machine) : store w = some (.ok (.ok w.store), w) := rfl

@[simp] theorem run_session (w : Machine) : session w = some (.ok (.ok w.control), w) := rfl

end Step

/-- How failures of one kind correspond. -/
structure Failure (ε : Type) where
  /-- Both evaluators fail. -/
  both : ε → Machine → Machine → Prop
  /-- The first evaluator fails, whatever the second one comes to. -/
  lost : ε → Machine → Prop

namespace Simulation

variable (S : Simulation)

/-- A result of the first evaluator, and what the second one comes to. -/
inductive Outcome (F : Failure ε) (good : α → Machine → Prop) :
    Except ε α → Machine → Option (Except ε α × Machine) → Prop
  | ok {a v v'} : S.rel v v' → good a v → Outcome F good (.ok a) v (some (.ok a, v'))
  | error {e v v'} : F.both e v v' → Outcome F good (.error e) v (some (.error e, v'))
  | lost {e v y} : F.lost e v → Outcome F good (.error e) v y

/-- Whatever the first run comes to, so does the second one. The first run starts at `w`. -/
structure Matches (F : Failure ε) (w : Machine) (good : α → Machine → Prop)
    (x y : Option (Except ε α × Machine)) : Prop where
  ends : ∀ r v, x = some (r, v) → S.step w v ∧ S.Outcome F good r v y
  stuck : S.lockstep → x = none → y = none

/-- An error that ends an evaluation. -/
def fatal : Failure EvalError := ⟨fun e v v' => S.Allows e ∧ S.rel v v', S.escape⟩

/-- Both worlds keep the same error while the rules are left. -/
def Kept (v v' : Machine) : Prop :=
  ∃ e, S.Allows e ∧ v.control.pendingFatal = some e ∧ v'.control.pendingFatal = some e ∧
    S.rel (v.withFatal none) (v'.withFatal none)

/-- The first world keeps an error with which the first evaluator escapes. -/
def Stray (v : Machine) : Prop :=
  ∃ e, v.control.pendingFatal = some e ∧ S.escape e (v.withFatal none)

/-- A callback of a rule gave no value. -/
def interrupted : Failure (InvokeError String) where
  both e v v' := match e with
    | .raised r => S.rel v v' ∧ S.Fine v r.exception
    | .fatal _ => S.Kept v v'
  lost e v := ∃ text, e = .fatal text ∧ S.Stray v

/-- A governed change failed. -/
def refused : Failure (MutationError String) where
  both e v v' := match e with
    | .aborted _ => S.Kept v v'
    | .transformRaised _ r => S.rel v v' ∧ S.Fine v r.exception
    | _ => S.rel v v'
  lost e v := ∃ text, e = .aborted text ∧ S.Stray v

/-- A step comes to a good value, or to a signal that leaves the normal course. -/
def Comes (loop : Prop) (good : α → Machine → Prop) : Except Signal α → Machine → Prop
  | .ok a, v => good a v
  | .error s, v => s.isNormal = false ∧ s.Fits (S.callee v) loop

variable {S}
variable {F : Failure ε} {G : Failure ε'} {w w' : Machine}

theorem Matches.of_none {good : α → Machine → Prop} {y : Option (Except ε α × Machine)}
    (h : S.lockstep → y = none) : S.Matches F w good none y :=
  ⟨fun _ _ hx => (by cases hx), fun hlock _ => h hlock⟩

theorem Matches.of_some {good : α → Machine → Prop} {r : Except ε α} {v : Machine}
    {y : Option (Except ε α × Machine)} (hstep : S.step w v) (h : S.Outcome F good r v y) :
    S.Matches F w good (some (r, v)) y := by
  refine ⟨?_, fun _ hx => by cases hx⟩
  rintro _ _ ⟨⟩
  exact ⟨hstep, h⟩

theorem Matches.ok (hS : S.Lawful) {good : α → Machine → Prop} {a : α} (hrel : S.rel w w')
    (hgood : good a w) : S.Matches F w good (some (.ok a, w)) (some (.ok a, w')) :=
  .of_some (hS.step_refl w) (.ok hrel hgood)

theorem Matches.error (hS : S.Lawful) {good : α → Machine → Prop} {e : ε}
    (hboth : F.both e w w') :
    S.Matches F w good (some (.error e, w)) (some (.error e, w')) :=
  .of_some (hS.step_refl w) (.error hboth)

/-- A run may be seen as starting at an earlier world. -/
theorem Matches.after (hS : S.Lawful) {u : Machine} (hstep : S.step u w)
    {good : α → Machine → Prop} {x y : Option (Except ε α × Machine)}
    (h : S.Matches F w good x y) : S.Matches F u good x y := by
  refine ⟨fun r v hx => ?_, h.stuck⟩
  obtain ⟨hv, hout⟩ := h.ends r v hx
  exact ⟨hS.step_trans hstep hv, hout⟩

theorem Matches.weaken {good good' : α → Machine → Prop} {x y : Option (Except ε α × Machine)}
    (h : S.Matches F w good x y) (hgood : ∀ a v, S.step w v → good a v → good' a v) :
    S.Matches F w good' x y := by
  refine ⟨fun r v hx => ?_, h.stuck⟩
  obtain ⟨hv, hout⟩ := h.ends r v hx
  refine ⟨hv, ?_⟩
  cases hout with
  | ok hrel ha => exact .ok hrel (hgood _ v hv ha)
  | error hboth => exact .error hboth
  | lost hlost => exact .lost hlost

/-- A sequence goes on in corresponding worlds. -/
theorem Matches.bind (hS : S.Lawful) {a a' : Act Session ε α} {f f' : α → Act Session ε β}
    {m : α → Machine → Prop} {good : β → Machine → Prop}
    (ha : S.Matches F w m (a w) (a' w'))
    (hf : ∀ x v v', S.step w v → S.rel v v' → m x v → S.Matches F v good (f x v) (f' x v')) :
    S.Matches F w good ((a >>= f) w) ((a' >>= f') w') := by
  rw [Act.run_bind, Act.run_bind]
  cases hx : a w with
  | none => exact .of_none fun hlock => by rw [ha.stuck hlock hx]
  | some p =>
    obtain ⟨r, v⟩ := p
    obtain ⟨hv, hout⟩ := ha.ends r v hx
    generalize a' w' = y at hout
    cases hout with
    | ok hrel hmid => exact (hf _ v _ hv hrel hmid).after hS hv
    | error hboth =>
      exact .of_some hv (.error hboth)
    | lost hlost =>
      exact .of_some hv (.lost hlost)

/-- A sequence goes on after an attempt, however that ended. -/
theorem Matches.attempt_bind (hS : S.Lawful) {a a' : Act Session ε α}
    {f f' : Except ε α → Act Session ε' β} {m : α → Machine → Prop} {good : β → Machine → Prop}
    (ha : S.Matches F w m (a w) (a' w'))
    (hok : ∀ x v v', S.step w v → S.rel v v' → m x v →
      S.Matches G v good (f (.ok x) v) (f' (.ok x) v'))
    (herror : ∀ e v v', S.step w v → F.both e v v' →
      S.Matches G v good (f (.error e) v) (f' (.error e) v'))
    (hlost : ∀ e v y, S.step w v → F.lost e v → S.Matches G v good (f (.error e) v) y) :
    S.Matches G w good ((Act.attempt a >>= f) w) ((Act.attempt a' >>= f') w') := by
  rw [Act.run_bind, Act.run_bind, Act.run_attempt, Act.run_attempt]
  cases hx : a w with
  | none => exact .of_none fun hlock => by rw [ha.stuck hlock hx]; rfl
  | some p =>
    obtain ⟨r, v⟩ := p
    obtain ⟨hv, hout⟩ := ha.ends r v hx
    generalize a' w' = y at hout
    cases hout with
    | ok hrel hmid => exact (hok _ v _ hv hrel hmid).after hS hv
    | error hboth => exact (herror _ v _ hv hboth).after hS hv
    | lost h => exact (hlost _ v _ hv h).after hS hv

/-- The first action of a sequence is a primitive step. -/
theorem Matches.seq (hS : S.Lawful) {γ γ' : Type} {a : Act Session ε γ} {a' : Act Session ε γ'}
    {f : γ → Act Session ε β} {f' : γ' → Act Session ε β} {x : γ} {x' : γ'} {v v' : Machine}
    {good : β → Machine → Prop} (ha : a w = some (.ok x, v)) (ha' : a' w' = some (.ok x', v'))
    (hstep : S.step w v) (h : S.Matches F v good (f x v) (f' x' v')) :
    S.Matches F w good ((a >>= f) w) ((a' >>= f') w') := by
  rw [Act.run_bind, Act.run_bind, ha, ha']
  exact h.after hS hstep

theorem Matches.map (hS : S.Lawful) {a a' : Act Session ε α} (f : α → β)
    {m : α → Machine → Prop} {good : β → Machine → Prop} (ha : S.Matches F w m (a w) (a' w'))
    (hf : ∀ x v, m x v → good (f x) v) :
    S.Matches F w good ((f <$> a) w) ((f <$> a') w') := by
  rw [map_eq_pure_bind, map_eq_pure_bind]
  exact .bind hS ha fun x v v' _ hrel hx => .ok hS hrel (hf x v hx)

/-- Both evaluators see the same store. -/
theorem Matches.store_bind (hS : S.Lawful) {f f' : Store → Act Session ε β}
    {good : β → Machine → Prop} (hrel : S.rel w w')
    (h : S.Matches F w good (f w.store w) (f' w.store w')) :
    S.Matches F w good ((Act.store >>= f) w) ((Act.store >>= f') w') := by
  refine .seq hS rfl rfl (hS.step_refl w) ?_
  rwa [(hS.agree hrel).store]

/-- Both evaluators report the same event. -/
theorem Matches.report_bind (hS : S.Lawful) {level : Level} {target message : String}
    {fields : Store → List (String × String)} {f f' : Unit → Act Session ε β}
    {good : β → Machine → Prop} (hrel : S.rel w w')
    (h : ∀ v v', S.step w v → S.rel v v' → S.Matches F v good (f () v) (f' () v')) :
    S.Matches F w good ((Act.report level target message fields >>= f) w)
      ((Act.report level target message fields >>= f') w') := by
  obtain ⟨hrel', hstep⟩ := hS.noted level target message fields hrel
  exact .seq hS rfl rfl hstep (h _ _ hstep hrel')

/-! ### Steps -/

section Steps

variable {loop : Prop}

theorem Matches.step_bind (hS : S.Lawful) {a a' : Step α} {f f' : α → Step β}
    {m : α → Machine → Prop} {good : β → Machine → Prop}
    (ha : S.Matches S.fatal w (S.Comes loop m) (a w) (a' w'))
    (hf : ∀ x v v', S.step w v → S.rel v v' → m x v →
      S.Matches S.fatal v (S.Comes loop good) (f x v) (f' x v')) :
    S.Matches S.fatal w (S.Comes loop good) ((a >>= f) w) ((a' >>= f') w') := by
  rw [Step.run_bind, Step.run_bind]
  cases hx : a w with
  | none => exact .of_none fun hlock => by rw [ha.stuck hlock hx]
  | some p =>
    obtain ⟨r, v⟩ := p
    obtain ⟨hv, hout⟩ := ha.ends r v hx
    generalize a' w' = y at hout
    cases hout with
    | ok hrel hmid =>
      rename_i x v'
      cases x with
      | ok x => exact (hf x v v' hv hrel hmid).after hS hv
      | error s =>
        exact .of_some hv (.ok hrel hmid)
    | error hboth =>
      exact .of_some hv (.error hboth)
    | lost hlost =>
      exact .of_some hv (.lost hlost)

theorem Matches.lift {a a' : Eval α} {good : α → Machine → Prop}
    (ha : S.Matches S.fatal w good (a w) (a' w')) :
    S.Matches S.fatal w (S.Comes loop good) (Step.lift a w) (Step.lift a' w') := by
  rw [Step.run_lift, Step.run_lift]
  cases hx : a w with
  | none => exact .of_none fun hlock => by rw [ha.stuck hlock hx]
  | some p =>
    obtain ⟨r, v⟩ := p
    obtain ⟨hv, hout⟩ := ha.ends r v hx
    generalize a' w' = y at hout
    cases hout with
    | ok hrel hgood =>
      exact .of_some hv (.ok hrel hgood)
    | error hboth =>
      exact .of_some hv (.error hboth)
    | lost hlost =>
      exact .of_some hv (.lost hlost)

/-- A step whose first result is not looked at. -/
theorem Matches.step_discard (hS : S.Lawful) {a a' : Step α} {f f' : PUnit → Step β}
    {m : α → Machine → Prop} {good : β → Machine → Prop}
    (ha : S.Matches S.fatal w (S.Comes loop m) (a w) (a' w'))
    (hf : ∀ v v', S.step w v → S.rel v v' →
      S.Matches S.fatal v (S.Comes loop good) (f ⟨⟩ v) (f' ⟨⟩ v')) :
    S.Matches S.fatal w (S.Comes loop good) ((discard a >>= f) w) ((discard a' >>= f') w') := by
  have hdiscard : ∀ (b : Step α) (k : PUnit → Step β),
      (discard b >>= k) = b >>= fun _ => k ⟨⟩ := by
    intro b k
    simp only [discard, Functor.discard, map_const, Function.comp_apply, map_eq_pure_bind,
      bind_assoc, pure_bind, Function.const_apply]
  rw [hdiscard, hdiscard]
  exact .step_bind hS ha fun _ v v' hv hrel _ => hf v v' hv hrel

/-- A step that starts with an action of the evaluator. -/
theorem Matches.lift_bind (hS : S.Lawful) {a a' : Eval α} {f f' : α → Step β}
    {m : α → Machine → Prop} {good : β → Machine → Prop}
    (ha : S.Matches S.fatal w m (a w) (a' w'))
    (hf : ∀ x v v', S.step w v → S.rel v v' → m x v →
      S.Matches S.fatal v (S.Comes loop good) (f x v) (f' x v')) :
    S.Matches S.fatal w (S.Comes loop good) ((Step.lift a >>= f) w) ((Step.lift a' >>= f') w') :=
  .step_bind hS (.lift ha) hf

theorem Matches.step_store (hS : S.Lawful) {f f' : Store → Step β} {good : β → Machine → Prop}
    (hrel : S.rel w w')
    (h : S.Matches S.fatal w (S.Comes loop good) (f w.store w) (f' w.store w')) :
    S.Matches S.fatal w (S.Comes loop good) ((Step.store >>= f) w) ((Step.store >>= f') w') := by
  rw [Step.run_bind, Step.run_bind, Step.run_store, Step.run_store]
  simpa only [(hS.agree hrel).store] using h

theorem Matches.step_report (hS : S.Lawful) {level : Level} {message : String}
    {fields : Store → List (String × String)} {f f' : Unit → Step β}
    {good : β → Machine → Prop} (hrel : S.rel w w')
    (h : ∀ v v', S.step w v → S.rel v v' →
      S.Matches S.fatal v (S.Comes loop good) (f () v) (f' () v')) :
    S.Matches S.fatal w (S.Comes loop good) ((Step.report level message fields >>= f) w)
      ((Step.report level message fields >>= f') w') := by
  obtain ⟨hrel', hstep⟩ := hS.noted level Eval.target message fields hrel
  refine .lift_bind hS (m := fun _ _ => True) ?_ fun _ v v' hv hrel' _ => h v v' hv hrel'
  exact .of_some hstep (.ok hrel' trivial)

end Steps

end Simulation

end GraphLang
