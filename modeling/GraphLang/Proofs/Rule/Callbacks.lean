import GraphLang.Proofs.Action
import GraphLang.Proofs.Store.Copying

/-!
# The callbacks of a governed change

While the rules of a container are asked, containers change in callbacks only. To say which
callbacks were made, each one is written down with the store it found and the store it left; a
change goes the same way whether its callbacks are written down or not.
-/

namespace GraphLang

/-- No container of the first store is different in the second one. -/
def Store.Spares (s t : Store) : Prop := ∃ new, t.graphs = s.graphs ++ new

/-- A callback that was made. -/
structure Callback where
  /-- The store that it found. -/
  before : Store
  /-- The store that it left. -/
  after : Store

namespace Store

variable {s t u : Store}

theorem Spares.refl (s : Store) : s.Spares s := ⟨#[], by simp⟩

theorem Spares.trans (h : s.Spares t) (h' : t.Spares u) : s.Spares u := by
  obtain ⟨new, hnew⟩ := h
  obtain ⟨new', hnew'⟩ := h'
  exact ⟨new ++ new', by rw [hnew', hnew, Array.append_assoc]⟩

theorem Spares.getElem? (h : s.Spares t) {g : GraphId} (hg : g < s.graphs.size) :
    t.graphs[g]? = s.graphs[g]? := by
  obtain ⟨new, hnew⟩ := h
  rw [hnew, Array.getElem?_append_left hg]

/-- Between the callbacks, the last one first, and after all of them, no container was changed. -/
def Untouched (start : Store) : List Callback → Store → Prop
  | [], s => start.Spares s
  | call :: earlier, s => call.after.Spares s ∧ start.Untouched earlier call.before

theorem Untouched.spares {made : List Callback} (h : s.Untouched made t) (h' : t.Spares u) :
    s.Untouched made u := by
  cases made with
  | nil => exact Spares.trans h h'
  | cons call earlier => exact ⟨h.1.trans h', h.2⟩

theorem Untouched.trans {made made' : List Callback} (h : s.Untouched made t)
    (h' : t.Untouched made' u) : s.Untouched (made' ++ made) u := by
  induction made' generalizing u with
  | nil => exact h.spares h'
  | cons call earlier ih => exact ⟨h'.1, ih h'.2⟩

/-- What no callback that was made has changed is as before. -/
theorem Untouched.getElem? {made : List Callback} (h : s.Untouched made t) {g : GraphId}
    {c : Container} (hs : s.graphs[g]? = some c)
    (hkept : ∀ call ∈ made, call.before.graphs[g]? = some c → call.after.graphs[g]? = some c) :
    t.graphs[g]? = some c := by
  have hspared {a b : Store} (hab : a.Spares b) (ha : a.graphs[g]? = some c) :
      b.graphs[g]? = some c := by
    rw [hab.getElem? (Array.getElem?_eq_some_iff.1 ha).1, ha]
  induction made generalizing t with
  | nil => exact hspared h hs
  | cons call earlier ih =>
    have hbefore := ih h.2 fun call' hcall' => hkept call' (List.mem_cons_of_mem call hcall')
    exact hspared h.1 (hkept call List.mem_cons_self hbefore)

end Store

/-! ### Writing callbacks down -/

variable {σ ε ε₁ ε₂ α β : Type}

namespace World

/-- The world with a list of callbacks beside the state of its driver. -/
def logging (w : World σ) (log : List Callback) : World (σ × List Callback) :=
  { w with control := (w.control, log) }

/-- The world without its list of callbacks. -/
def unlogged (w : World (σ × List Callback)) : World σ := { w with control := w.control.1 }

theorem noted_logging (w : World σ) (log : List Callback) (level : Level)
    (target message : String) (fields : Store → List (String × String)) :
    (w.logging log).noted level target message fields =
      (w.noted level target message fields).logging log := by
  by_cases hkeeps : w.verbosity.keeps level = true
  · unfold noted
    rw [if_pos hkeeps, if_pos (show (w.logging log).verbosity.keeps level = true from hkeeps)]
    rfl
  · unfold noted
    rw [if_neg hkeeps, if_neg (show ¬(w.logging log).verbosity.keeps level = true from hkeeps)]

end World

/-- Calls back in the same way, and writes the callback down. -/
def Invoke.logged (invoke : Invoke σ ε) : Invoke (σ × List Callback) ε := fun callee args w =>
  (invoke callee args w.unlogged).map fun p =>
    (p.1, p.2.logging (⟨w.store, p.2.store⟩ :: w.control.2))

/-- Callbacks leave the procedures of the host as they are. -/
def Invoke.Fixes (invoke : Invoke σ ε) : Prop :=
  ∀ callee args w r v, invoke callee args w = some (r, v) → v.natives = w.natives

/-- The callback was made in this way, with the given procedures of the host if these are fixed. -/
def Callback.By (call : Callback) (invoke : Invoke σ ε) (natives : String → HostNative) : Prop :=
  ∃ callee args w r v, invoke callee args w = some (r, v) ∧ call = ⟨w.store, v.store⟩ ∧
    (invoke.Fixes → w.natives = natives)

theorem Callback.By.of_natives {call : Callback} {invoke : Invoke σ ε}
    {natives natives' : String → HostNative} (h : call.By invoke natives')
    (heq : invoke.Fixes → natives' = natives) : call.By invoke natives := by
  obtain ⟨callee, args, w, r, v, hrun, hcall, hnatives⟩ := h
  exact ⟨callee, args, w, r, v, hrun, hcall, fun h => (hnatives h).trans (heq h)⟩

/-- The second action does what the first one does, and writes callbacks down. The first one changes
containers in callbacks only. -/
def Traces (invoke : Invoke σ ε) (a : Act σ ε₁ α) (a' : Act (σ × List Callback) ε₁ α) : Prop :=
  ∀ w log, match a w with
    | none => a' (w.logging log) = none
    | some (r, v) => ∃ made, a' (w.logging log) = some (r, v.logging (made ++ log)) ∧
      w.store.Untouched made v.store ∧ (∀ call ∈ made, call.By invoke w.natives) ∧
      (invoke.Fixes → v.natives = w.natives)

namespace Traces

variable {invoke : Invoke σ ε} {a : Act σ ε₁ α} {a' : Act (σ × List Callback) ε₁ α}

/-- A step without callbacks. -/
theorem of_step (h : ∀ w, ∃ r v, a w = some (r, v) ∧
      (∀ log, a' (w.logging log) = some (r, v.logging log)) ∧ w.store.Spares v.store ∧
      v.natives = w.natives) :
    Traces invoke a a' := by
  intro w log
  obtain ⟨r, v, ha, ha', hspares, hnatives⟩ := h w
  rw [ha]
  exact ⟨[], ha' log, hspares, by simp, fun _ => hnatives⟩

theorem pure (x : α) : Traces invoke (Pure.pure x : Act σ ε₁ α) (Pure.pure x) :=
  .of_step fun w => ⟨.ok x, w, rfl, fun _ => rfl, .refl _, rfl⟩

theorem throw (e : ε₁) :
    Traces invoke (MonadExcept.throw e : Act σ ε₁ α) (MonadExcept.throw e) :=
  .of_step fun w => ⟨.error e, w, rfl, fun _ => rfl, .refl _, rfl⟩

theorem store : Traces invoke (Act.store : Act σ ε₁ Store) Act.store :=
  .of_step fun w => ⟨.ok w.store, w, rfl, fun _ => rfl, .refl _, rfl⟩

theorem container (g : GraphId) :
    Traces invoke (Act.container g : Act σ ε₁ Container) (Act.container g) :=
  .of_step fun w => ⟨.ok (w.store.get g), w, rfl, fun _ => rfl, .refl _, rfl⟩

theorem report (level : Level) (target message : String)
    (fields : Store → List (String × String)) :
    Traces invoke (Act.report level target message fields : Act σ ε₁ Unit)
      (Act.report level target message fields) := by
  refine .of_step fun w => ⟨_, w.noted level target message fields, rfl, fun log => ?_, ?_,
    w.noted_natives level target message fields⟩
  · rw [Act.run_report, w.noted_logging]
  · rw [w.noted_store]
    exact .refl _

theorem bind {f : α → Act σ ε₁ β} {f' : α → Act (σ × List Callback) ε₁ β}
    (ha : Traces invoke a a') (hf : ∀ x, Traces invoke (f x) (f' x)) :
    Traces invoke (a >>= f) (a' >>= f') := by
  intro w log
  have hfirst := ha w log
  rw [Act.run_bind, Act.run_bind]
  cases hrun : a w with
  | none =>
    rw [hrun] at hfirst
    dsimp only at hfirst ⊢
    rw [hfirst]
  | some p =>
    obtain ⟨r, v⟩ := p
    rw [hrun] at hfirst
    obtain ⟨made, hmade, huntouched, hby, hfixes⟩ := hfirst
    rw [hmade]
    cases r with
    | error e => exact ⟨made, rfl, huntouched, hby, hfixes⟩
    | ok x =>
      have hrest := hf x v (made ++ log)
      dsimp only at hrest ⊢
      cases hnext : f x v with
      | none =>
        rw [hnext] at hrest
        exact hrest
      | some q =>
        obtain ⟨r, u⟩ := q
        rw [hnext] at hrest
        obtain ⟨made', hmade', huntouched', hby', hfixes'⟩ := hrest
        rw [← List.append_assoc] at hmade'
        refine ⟨made' ++ made, hmade', huntouched.trans huntouched', fun call hcall => ?_,
          fun h => (hfixes' h).trans (hfixes h)⟩
        exact (List.mem_append.1 hcall).elim (fun hcall => (hby' call hcall).of_natives hfixes)
          (hby call)

theorem attempt (ha : Traces invoke a a') :
    Traces invoke (Act.attempt a : Act σ ε₂ (Except ε₁ α)) (Act.attempt a') := by
  intro w log
  have hrun := ha w log
  rw [Act.run_attempt, Act.run_attempt]
  cases h : a w with
  | none =>
    rw [h] at hrun
    dsimp only at hrun ⊢
    rw [hrun]
    rfl
  | some p =>
    rw [h] at hrun
    obtain ⟨made, hmade, huntouched⟩ := hrun
    exact ⟨made, by rw [hmade]; rfl, huntouched⟩

theorem forM {f : α → Act σ ε₁ PUnit} {f' : α → Act (σ × List Callback) ε₁ PUnit} (xs : List α)
    (h : ∀ x, Traces invoke (f x) (f' x)) : Traces invoke (xs.forM f) (xs.forM f') := by
  induction xs with
  | nil => exact .pure _
  | cons x xs ih => exact (h x).bind fun _ => ih

theorem callback (invoke : Invoke σ ε) (callee : Value) (args : List Value) :
    Traces invoke (invoke callee args) (invoke.logged callee args) := by
  intro w log
  have hlogged : invoke.logged callee args (w.logging log) =
      (invoke callee args w).map fun p => (p.1, p.2.logging (⟨w.store, p.2.store⟩ :: log)) := rfl
  rw [hlogged]
  cases hrun : invoke callee args w with
  | none => rfl
  | some p =>
    refine ⟨[⟨w.store, p.2.store⟩], rfl, ⟨.refl _, .refl _⟩, fun call hcall => ?_,
      fun h => h callee args w p.1 p.2 hrun⟩
    exact ⟨callee, args, w, p.1, p.2, hrun, List.mem_singleton.1 hcall, fun _ => rfl⟩

end Traces

/-! ### The steps of the engine -/

/-- A relation between actions that do the same but for their callbacks. It holds of steps without
callbacks, and sequences and attempts keep it. -/
structure Act.Congruence (σ σ' : Type) where
  /-- The relation. -/
  rel : ∀ {ε α : Type}, Act σ ε α → Act σ' ε α → Prop
  /-- Nothing is done. -/
  pure : ∀ {ε α : Type} (x : α), rel (Pure.pure x : Act σ ε α) (Pure.pure x)
  /-- It fails. -/
  throw : ∀ {ε α : Type} (e : ε), rel (MonadExcept.throw e : Act σ ε α) (MonadExcept.throw e)
  /-- The store is read. -/
  store : ∀ {ε : Type}, rel (Act.store : Act σ ε Store) Act.store
  /-- An event is reported. -/
  report : ∀ {ε : Type} (level : Level) (target message : String)
    (fields : Store → List (String × String)),
    rel (Act.report level target message fields : Act σ ε Unit)
      (Act.report level target message fields)
  /-- A copy is made. -/
  copy : ∀ {ε : Type} (value : Value),
    rel (Engine.unfrozenCopy value : Act σ (MutationError ε) Value) (Engine.unfrozenCopy value)
  /-- One action follows another. -/
  bind : ∀ {ε α β : Type} {a : Act σ ε α} {a' : Act σ' ε α} {f : α → Act σ ε β}
    {f' : α → Act σ' ε β}, rel a a' → (∀ x, rel (f x) (f' x)) → rel (a >>= f) (a' >>= f')
  /-- An action is attempted. -/
  attempt : ∀ {ε ε' α : Type} {a : Act σ ε α} {a' : Act σ' ε α}, rel a a' →
    rel (Act.attempt a : Act σ ε' (Except ε α)) (Act.attempt a')

namespace Act.Congruence

variable {σ' : Type} (R : Act.Congruence σ σ')

theorem map (f : α → β) {a : Act σ ε α} {a' : Act σ' ε α} (ha : R.rel a a') :
    R.rel (f <$> a) (f <$> a') := by
  rw [map_eq_pure_bind, map_eq_pure_bind]
  exact R.bind ha fun x => R.pure (f x)

theorem forM {f : α → Act σ ε PUnit} {f' : α → Act σ' ε PUnit} (xs : List α)
    (h : ∀ x, R.rel (f x) (f' x)) : R.rel (xs.forM f) (xs.forM f') := by
  induction xs with
  | nil => exact R.pure _
  | cons x xs ih => exact R.bind (h x) fun _ => ih

theorem ofCheck (x : Except (MutationError ε) α) :
    R.rel (Engine.ofCheck x : Act σ (MutationError ε) α) (Engine.ofCheck x) := by
  cases x with
  | ok a => exact R.pure a
  | error e => exact R.throw e

theorem refuse (v : Validation) (reason : Option Rejection) :
    R.rel (Engine.refuse v reason : Act σ (MutationError ε) α) (Engine.refuse v reason) :=
  R.bind (R.report _ _ _ _) fun _ => R.throw _

theorem rejectMixed (g : GraphId) (rule : Rule) (value : Value) :
    R.rel (Engine.rejectMixed g rule value : Act σ (MutationError ε) Unit)
      (Engine.rejectMixed g rule value) := by
  cases value with
  | graph inner =>
    refine R.bind R.store fun s => ?_
    dsimp only
    split
    · exact R.pure _
    · exact R.bind (R.report _ _ _ _) fun _ => R.throw _
  | _ => exact R.pure _

variable {invoke : Invoke σ ε} {invoke' : Invoke σ' ε}
  (h : ∀ callee args, R.rel (invoke callee args) (invoke' callee args))

include h

theorem ask (callee value : Value) :
    R.rel (Engine.ask invoke callee value) (Engine.ask invoke' callee value) := by
  refine R.bind (R.attempt (h callee [value])) fun r => ?_
  cases r with
  | ok result => exact R.bind R.store fun s => R.pure _
  | error e =>
    cases e with
    | raised r => exact R.bind R.store fun s => R.pure _
    | fatal cause => exact R.pure _

theorem validate (g : GraphId) (v : Validation) (m : Mutation) :
    R.rel (Engine.validate invoke g v m) (Engine.validate invoke' g v m) := by
  cases v with
  | predicate name callee =>
    unfold Engine.validate
    cases m.incoming? with
    | none => exact R.pure _
    | some value =>
      refine R.bind (R.ask h callee value) fun verdict => ?_
      cases verdict with
      | holds => exact R.pure _
      | refused reason => exact R.refuse _ reason
      | aborted cause => exact R.throw _
  | _ =>
    refine R.bind R.store fun s => ?_
    generalize Validation.check _ s (s.get g) m = verdict
    cases verdict with
    | ok _ => exact R.pure _
    | error reason => exact R.refuse _ _

theorem consult (g : GraphId) (m : Mutation) (rule : Rule) :
    R.rel (Engine.consult invoke g m rule) (Engine.consult invoke' g m rule) := by
  cases rule with
  | validate v => exact R.validate h g v m
  | freeze f =>
    cases f with
    | rejectMixed =>
      unfold Engine.consult
      cases m.incoming? with
      | none => exact R.pure _
      | some value => exact R.rejectMixed g _ value
    | copyElements => exact R.pure _
  | _ => exact R.pure _

theorem runTransform (r : Transform) (value : Value) :
    R.rel (Engine.runTransform invoke r value) (Engine.runTransform invoke' r value) := by
  cases r with
  | custom name callee =>
    refine R.bind (R.attempt (h callee [value])) fun r => ?_
    cases r with
    | ok result => exact R.pure _
    | error e =>
      cases e with
      | raised raised => exact R.bind (R.report _ _ _ _) fun _ => R.throw _
      | fatal cause => exact R.throw _
  | _ =>
    refine R.bind R.store fun s => ?_
    generalize Transform.apply _ s value = result
    cases result with
    | ok result => exact R.pure _
    | error cause => exact R.throw _

theorem transform (rule : Rule) (value : Value) :
    R.rel (Engine.transform invoke rule value) (Engine.transform invoke' rule value) := by
  cases rule with
  | transform r => exact R.runTransform h r value
  | conditional predicate whenTrue whenFalse =>
    refine R.bind (R.attempt (h predicate [value])) fun r => ?_
    cases r with
    | ok result =>
      refine R.bind R.store fun s => ?_
      split
      · exact R.runTransform h whenTrue value
      · cases whenFalse with
        | none => exact R.pure _
        | some r => exact R.runTransform h r value
    | error e =>
      cases e with
      | raised raised => exact R.bind R.store fun s => R.throw _
      | fatal cause => exact R.throw _
  | freeze f =>
    cases f with
    | rejectMixed => exact R.pure _
    | copyElements => exact R.copy value
  | validate v => exact R.pure _

theorem transformAll (rules : List Rule) (value : Value) :
    R.rel (Engine.transformAll invoke rules value) (Engine.transformAll invoke' rules value) := by
  induction rules generalizing value with
  | nil => exact R.pure _
  | cons rule rules ih => exact R.bind (R.transform h rule value) fun x => ih x

theorem govern (g : GraphId) (rules : List Rule) (m : Mutation) :
    R.rel (Engine.govern invoke g rules m) (Engine.govern invoke' g rules m) := by
  refine R.bind (R.forM rules (R.consult h g m)) fun _ => ?_
  cases m.incoming? with
  | none => exact R.pure _
  | some value => exact R.map _ (R.transformAll h _ value)

theorem updates (rule : Rule) (members : List (Nat × Value)) :
    R.rel (Engine.updates invoke rule members) (Engine.updates invoke' rule members) := by
  induction members with
  | nil => exact R.pure _
  | cons member members ih =>
    exact R.bind (R.transform h rule member.2) fun x => R.bind ih fun others => R.pure _

theorem askMembers (x : Validation) (callee : Value) (values : List Value) :
    R.rel (Engine.askMembers invoke x callee values)
      (Engine.askMembers invoke' x callee values) := by
  induction values with
  | nil => exact R.pure _
  | cons value values ih =>
    refine R.bind (R.ask h callee value) fun verdict => ?_
    cases verdict with
    | holds => exact ih
    | refused reason =>
      cases reason with
      | some reason => exact R.throw _
      | none => exact R.bind R.store fun s => R.throw _
    | aborted cause => exact R.throw _

theorem prepareRule (g : GraphId) (rule : Rule) :
    R.rel (Engine.prepareRule invoke g rule) (Engine.prepareRule invoke' g rule) := by
  refine R.bind R.store fun s => ?_
  cases rule with
  | validate v =>
    cases v with
    | predicate name callee => exact R.bind (R.askMembers h _ callee _) fun _ => R.pure _
    | _ =>
      dsimp only
      generalize Validation.checkNow _ s (s.get g) = verdict
      cases verdict with
      | ok _ => exact R.pure _
      | error reason => exact R.throw _
  | freeze f =>
    cases f with
    | rejectMixed => exact R.bind (R.forM _ (R.rejectMixed g _)) fun _ => R.pure _
    | copyElements => exact R.updates h _ _
  | _ => exact R.updates h _ _

end Act.Congruence

namespace Engine

variable (invoke : Invoke σ ε)

/-- A copy takes new containers only. -/
theorem traces_unfrozenCopy (value : Value) :
    Traces invoke (unfrozenCopy value : Act σ (MutationError ε₁) Value) (unfrozenCopy value) := by
  cases value with
  | graph g =>
    refine .of_step fun w => ⟨_, _, rfl, fun _ => rfl, ?_, rfl⟩
    have hcopies : w.store.Spares (w.store.deepCopy (w.store.get g)).2 := by
      rw [Store.deepCopy_eq]
      exact ⟨_, rfl⟩
    exact hcopies.trans ⟨#[(w.store.deepCopy (w.store.get g)).1], Array.push_eq_append⟩
  | _ => exact .pure _

/-- Callbacks can be written down. -/
def tracing : Act.Congruence σ (σ × List Callback) where
  rel := Traces invoke
  pure := .pure
  throw := .throw
  store := .store
  report := .report
  copy := traces_unfrozenCopy invoke
  bind := .bind
  attempt := .attempt

theorem traces_ofCheck (x : Except (MutationError ε) α) :
    Traces invoke (ofCheck x : Act σ (MutationError ε) α) (ofCheck x) :=
  (tracing invoke).ofCheck x

theorem traces_consult (g : GraphId) (m : Mutation) (rule : Rule) :
    Traces invoke (consult invoke g m rule) (consult invoke.logged g m rule) :=
  (tracing invoke).consult (.callback invoke) g m rule

theorem traces_transform (rule : Rule) (value : Value) :
    Traces invoke (transform invoke rule value) (transform invoke.logged rule value) :=
  (tracing invoke).transform (.callback invoke) rule value

theorem traces_transformAll (rules : List Rule) (value : Value) :
    Traces invoke (transformAll invoke rules value) (transformAll invoke.logged rules value) :=
  (tracing invoke).transformAll (.callback invoke) rules value

theorem traces_govern (g : GraphId) (rules : List Rule) (m : Mutation) :
    Traces invoke (govern invoke g rules m) (govern invoke.logged g rules m) :=
  (tracing invoke).govern (.callback invoke) g rules m

theorem traces_updates (rule : Rule) (members : List (Nat × Value)) :
    Traces invoke (updates invoke rule members) (updates invoke.logged rule members) :=
  (tracing invoke).updates (.callback invoke) rule members

theorem traces_prepareRule (g : GraphId) (rule : Rule) :
    Traces invoke (prepareRule invoke g rule) (prepareRule invoke.logged g rule) :=
  (tracing invoke).prepareRule (.callback invoke) g rule

end Engine

/-! ### Callbacks that answer more often -/

/-- Where the first action ends, the second one ends in the same way. -/
def Act.Below (a a' : Act σ ε α) : Prop := ∀ w p, a w = some p → a' w = some p

/-- The first callbacks answer as the second ones do, where they answer. -/
def Invoke.Below (invoke invoke' : Invoke σ ε) : Prop :=
  ∀ callee args, (invoke callee args).Below (invoke' callee args)

namespace Act.Below

variable {a a' : Act σ ε α}

theorem refl (a : Act σ ε α) : a.Below a := fun _ _ hrun => hrun

theorem bind {f f' : α → Act σ ε β} (ha : a.Below a') (hf : ∀ x, (f x).Below (f' x)) :
    (a >>= f).Below (a' >>= f') := by
  intro w p hrun
  rw [Act.run_bind] at hrun ⊢
  cases hfirst : a w with
  | none =>
    rw [hfirst] at hrun
    cases hrun
  | some q =>
    obtain ⟨r, v⟩ := q
    rw [hfirst] at hrun
    rw [ha w _ hfirst]
    cases r with
    | error e => exact hrun
    | ok x => exact hf x v p hrun

theorem attempt {ε' : Type} (ha : a.Below a') :
    (Act.attempt a : Act σ ε' (Except ε α)).Below (Act.attempt a') := by
  intro w p hrun
  rw [Act.run_attempt] at hrun ⊢
  obtain ⟨q, hq, rfl⟩ := Option.map_eq_some_iff.1 hrun
  rw [ha w q hq, Option.map_some]

end Act.Below

/-- Actions may end more often. -/
def Act.endings (σ : Type) : Act.Congruence σ σ where
  rel := Act.Below
  pure _ := .refl _
  throw _ := .refl _
  store := .refl _
  report _ _ _ _ := .refl _
  copy _ := .refl _
  bind := .bind
  attempt := .attempt

namespace Engine

variable {invoke invoke' : Invoke σ ε}

theorem below_apply (h : invoke.Below invoke') (g : GraphId) (m : Mutation) :
    (apply invoke g m).Below (apply invoke' g m) := by
  have hrest (c : Container) : (do
        ofCheck (c.preflight m)
        let m ← govern invoke g c.rules m
        let applied ← commit g m
        Act.report .trace target "mutation committed" fun _ => [("rules", toString c.rules.length)]
        return applied : Act σ (MutationError ε) Container.Applied).Below (do
        ofCheck (c.preflight m)
        let m ← govern invoke' g c.rules m
        let applied ← commit g m
        Act.report .trace target "mutation committed" fun _ => [("rules", toString c.rules.length)]
        return applied) :=
    .bind (.refl _) fun _ => .bind ((Act.endings σ).govern h g c.rules m) fun _ => .refl _
  refine .bind (.refl (Act.container g)) fun c => ?_
  dsimp only
  by_cases hfrozen : c.frozen = true
  · simp only [if_pos hfrozen]
    exact .bind (.refl _) fun _ => .bind (.refl _) fun _ => hrest c
  · simp only [if_neg hfrozen]
    exact hrest c

theorem below_addRule (h : invoke.Below invoke') (g : GraphId) (rule : Rule) :
    (addRule invoke g rule).Below (addRule invoke' g rule) := by
  have hrest : (prepareRule invoke g rule >>= attachRule g rule).Below
      (prepareRule invoke' g rule >>= attachRule g rule) :=
    .bind ((Act.endings σ).prepareRule h g rule) fun _ => .refl _
  refine .bind (.refl (Act.container g)) fun c => ?_
  dsimp only
  by_cases hfrozen : c.frozen = true
  · simp only [if_pos hfrozen]
    exact .bind (.refl _) fun _ => hrest
  · simp only [if_neg hfrozen]
    exact hrest

theorem below_applyRuleset (h : invoke.Below invoke') (g : GraphId) (set : Ruleset) :
    (applyRuleset invoke g set).Below (applyRuleset invoke' g set) := by
  refine .bind (.refl _) fun _ => ?_
  generalize set.rules = rules
  induction rules with
  | nil => exact .refl _
  | cons rule rest ih => exact .bind (below_addRule h g rule) fun _ => ih

end Engine

end GraphLang
