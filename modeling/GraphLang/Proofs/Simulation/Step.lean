import GraphLang.Proofs.Simulation.Engine

/-!
# Steps side by side

The parts that operations are made of: failures that become exceptions, children, containers,
scopes and frames.
-/

namespace GraphLang

namespace Simulation

variable (S : Simulation)

/-- A signal of a node inside a loop, if `loop` holds. It is normal only where `falls` holds. -/
def Gives (loop falls : Prop) (s : Signal) (v : Machine) : Prop :=
  s.Fits (S.callee v) loop ∧ (s.isNormal = true → falls)

/-- A signal of a call: a value or an exception. -/
def Answers : Signal → Machine → Prop
  | .normal x, v => S.Fine v x
  | .raised r, v => S.Fine v r.exception
  | _, _ => False

/-- The second evaluator follows the first one at corresponding nodes, bodies and calls. -/
structure Follows (ev ev' : Evaluator) : Prop where
  node : ∀ {code code' loop falls n n' scope w w'}, S.nodes code code' loop falls n n' →
    S.rel w w' → S.live w scope →
    S.Matches S.fatal w (S.Gives loop falls) (ev.node code n scope w)
      (ev'.node code' n' scope w')
  body : ∀ {code code' root root' scope w w'}, S.bodies code code' root root' →
    S.rel w w' → S.live w scope →
    S.Matches S.fatal w (S.Gives S.loose True) (ev.body code root scope w)
      (ev'.body code' root' scope w')
  call : ∀ {f args w w'} callNode, S.rel w w' → S.callee w (.function f) →
    (∀ x ∈ args, S.Fine w x) →
    S.Matches S.fatal w S.Answers (ev.call f args callNode w) (ev'.call f args callNode w')

variable {S} {w w' : Machine} {α β : Type} {loop : Prop}

/-- A step comes to a value that may be used. -/
abbrev Yields (S : Simulation) (x : Value) (v : Machine) : Prop := S.Fine v x

/-! ### Failures that become exceptions -/

theorem Matches.faultException {ε : Type} {F : Failure ε} (hS : S.Lawful) (hrel : S.rel w w')
    (f : Fault) :
    S.Matches F w S.Yields (Act.faultException f w) (Act.faultException f w') :=
  .newException hS hrel f.kind f.message [] trivial

theorem Matches.raise (hS : S.Lawful) (hrel : S.rel w w') {x : Value} (hx : S.Fine w x)
    {good : α → Machine → Prop} :
    S.Matches S.fatal w (S.Comes loop good) (Step.raise x w) (Step.raise x w') :=
  .ok hS hrel ⟨rfl, hx⟩

theorem Matches.fault (hS : S.Lawful) (hrel : S.rel w w') (f : Fault)
    {P : α → Machine → Prop} :
    S.Matches S.fatal w (S.Comes loop P) (Step.fault f w) (Step.fault f w') := by
  refine .lift_bind hS (.faultException hS hrel f) fun x v v' _ hrel hx => ?_
  exact .raise hS hrel hx

theorem Matches.ofFault (hS : S.Lawful) (hrel : S.rel w w') {r : Except Fault α}
    {P : α → Machine → Prop} (hr : ∀ a, r = .ok a → P a w) :
    S.Matches S.fatal w (S.Comes loop P) (Step.ofFault r w) (Step.ofFault r w') := by
  cases r with
  | ok a => exact .ok hS hrel (hr a rfl)
  | error f => exact .fault hS hrel f

theorem Matches.ofSpec (hS : S.Lawful) (hrel : S.rel w w') {r : Except SpecError α}
    {P : α → Machine → Prop} (hr : ∀ a, r = .ok a → P a w) :
    S.Matches S.fatal w (S.Comes loop P) (Step.ofSpec r w) (Step.ofSpec r w') := by
  cases r with
  | ok a => exact .ok hS hrel (hr a rfl)
  | error cause => exact .fault hS hrel _

theorem Matches.fatal (hS : S.Lawful) (hrel : S.rel w w') {e : EvalError} (he : S.Allows e)
    {good : α → Machine → Prop} :
    S.Matches S.fatal w (S.Comes loop good) (Step.fatal e w) (Step.fatal e w') :=
  .error hS ⟨he, hrel⟩

theorem Matches.ofBinding (hS : S.Lawful) (hrel : S.rel w w') {r : Except BindingError α}
    {P : α → Machine → Prop} (hok : ∀ a, r = .ok a → P a w)
    (herror : ∀ e, r = .error e → S.Tolerates e) :
    S.Matches S.fatal w (S.Comes loop P) (Step.ofBinding r w) (Step.ofBinding r w') := by
  cases r with
  | ok a => exact .ok hS hrel (hok a rfl)
  | error e =>
    rcases herror e rfl with hloose | ⟨name, rfl⟩ | ⟨name, rfl⟩
    · cases e with
      | unbound name => exact .fault hS hrel _
      | immutable name => exact .fault hS hrel _
      | _ => exact .fatal hS hrel (Or.inl hloose)
    · exact .fault hS hrel _
    · exact .fault hS hrel _

/-- A step on the scopes, which fails only as it may. -/
theorem Matches.onScopes {f f' : Scopes → Except BindingError α × Scopes}
    {good : α → Machine → Prop} {bad : BindingError → Prop}
    (h : S.ScopeStep w w' f f' good bad) :
    S.Matches S.fatal w
      (fun r v => (∀ a, r = .ok a → good a v) ∧ ∀ e, r = .error e → bad e)
      (Eval.onScopes f w) (Eval.onScopes f' w') := by
  rw [Eval.run_onScopes, Eval.run_onScopes, h.same]
  exact .of_some h.step (.ok h.rel ⟨h.ok, h.error⟩)

theorem Matches.define (hS : S.Lawful) (hrel : S.rel w w') {scope : ScopeId}
    (hlive : S.live w scope) (name : String) {value : Value} (hvalue : S.Fine w value)
    (mutable : Bool) :
    S.Matches S.fatal w (S.Comes loop S.Yields) (Step.define scope name value mutable w)
      (Step.define scope name value mutable w') := by
  refine .lift_bind hS (.onScopes (hS.define name mutable hrel hlive hvalue)) ?_
  rintro r v v' _ hrel ⟨-, herror⟩
  refine .step_discard hS (.ofBinding hS hrel (fun _ _ => trivial) herror (P := Any)) ?_
  intro u u' _ hrel
  exact .ok hS hrel trivial

theorem Matches.assign (hS : S.Lawful) (hrel : S.rel w w') {scope : ScopeId}
    (hlive : S.live w scope) (name : String) {value : Value} (hvalue : S.Fine w value) :
    S.Matches S.fatal w (S.Comes loop S.Yields) (Step.assign scope name value w)
      (Step.assign scope name value w') := by
  refine .lift_bind hS (.onScopes (hS.assign name hrel hlive hvalue)) ?_
  rintro r v v' hv hrel ⟨-, herror⟩
  refine .step_discard hS (.ofBinding hS hrel (fun _ _ => trivial) herror (P := Any)) ?_
  intro u u' hu hrel
  exact .ok hS hrel (hS.fine_step hu (hS.fine_step hv hvalue))

/-! ### Children -/

/-- Children of corresponding nodes: there is none, or the two correspond. -/
def Child (S : Simulation) (code code' : Code) (loop : Prop) : Option Nat → Option Nat → Prop
  | none, none => True
  | some c, some c' => S.nodes code code' loop True c c'
  | _, _ => False

variable {ev ev' : Evaluator} {code code' : Code} {scope : ScopeId} {n : Nat}

theorem Matches.ofSignal (hS : S.Lawful) (hrel : S.rel w w') {s : Signal} {falls : Prop}
    (hs : S.Gives loop falls s w) :
    S.Matches S.fatal w (S.Comes loop fun x v => falls ∧ S.Fine v x) (Step.ofSignal s w)
      (Step.ofSignal s w') := by
  cases s with
  | normal x => exact .ok hS hrel ⟨hs.2 rfl, hs.1⟩
  | _ => exact .ok hS hrel ⟨rfl, hs.1⟩

theorem Follows.step_node (hS : S.Lawful) (hev : S.Follows ev ev') {n' : Nat}
    (hn : S.nodes code code' loop True n n') (hrel : S.rel w w') (hlive : S.live w scope) :
    S.Matches S.fatal w (S.Comes loop S.Yields) (Step.node ev code n scope w)
      (Step.node ev' code' n' scope w') := by
  refine .lift_bind hS (hev.node hn hrel hlive) fun s v v' _ hrel hs => ?_
  refine (Matches.ofSignal hS hrel hs).weaken ?_
  rintro (s | x) u - hx
  · exact hx
  · exact hx.2

theorem Matches.child (hS : S.Lawful) (hrel : S.rel w w') {role : Role} {inner : Prop}
    (hchild : S.Child code code' inner (code.program.child? n role) (code'.program.child? n role))
    (hmissing : code.program.child? n role = none → S.loose) {good : β → Machine → Prop}
    {f f' : Nat → Step β}
    (hf : ∀ c c', S.nodes code code' inner True c c' →
      S.Matches S.fatal w (S.Comes loop good) (f c w) (f' c' w')) :
    S.Matches S.fatal w (S.Comes loop good) ((Step.child code n role >>= f) w)
      ((Step.child code' n role >>= f') w') := by
  unfold Step.child
  revert hchild hmissing
  cases code.program.child? n role with
  | none =>
    cases code'.program.child? n role with
    | none =>
      intro _ hmissing
      exact .error hS ⟨Or.inl (hmissing rfl), hrel⟩
    | some c' => exact fun hchild => hchild.elim
  | some c =>
    cases code'.program.child? n role with
    | none => exact fun hchild => hchild.elim
    | some c' => exact fun hchild _ => hf c c' hchild

theorem Follows.role (hS : S.Lawful) (hev : S.Follows ev ev') {role : Role}
    (hchild : S.Child code code' loop (code.program.child? n role) (code'.program.child? n role))
    (hmissing : code.program.child? n role = none → S.loose) (hrel : S.rel w w')
    (hlive : S.live w scope) :
    S.Matches S.fatal w (S.Comes loop S.Yields) (Step.role ev code n role scope w)
      (Step.role ev' code' n role scope w') :=
  .child hS hrel hchild hmissing fun _ _ hc => hev.step_node hS hc hrel hlive

theorem Follows.role? (hS : S.Lawful) (hev : S.Follows ev ev') {role : Role}
    (hchild : S.Child code code' loop (code.program.child? n role) (code'.program.child? n role))
    (hrel : S.rel w w') (hlive : S.live w scope) :
    S.Matches S.fatal w (S.Comes loop fun x v => ∀ y, x = some y → S.Fine v y)
      (Step.role? ev code n role scope w) (Step.role? ev' code' n role scope w') := by
  unfold Step.role?
  revert hchild
  cases code.program.child? n role with
  | none =>
    cases code'.program.child? n role with
    | none =>
      intro _
      exact .ok hS hrel fun y hy => by cases hy
    | some c' => exact fun hchild => hchild.elim
  | some c =>
    cases code'.program.child? n role with
    | none => exact fun hchild => hchild.elim
    | some c' =>
      intro hchild
      refine .step_bind hS (hev.step_node hS hchild hrel hlive) fun x v v' _ hrel hx => ?_
      refine .ok hS hrel ?_
      rintro y ⟨⟩
      exact hx

theorem Follows.nodes (hS : S.Lawful) (hev : S.Follows ev ev') {cs cs' : List (Role × Nat)}
    (hcs : List.Forall₂ (fun c c' => S.nodes code code' loop True c.2 c'.2) cs cs')
    (hrel : S.rel w w') (hlive : S.live w scope) :
    S.Matches S.fatal w (S.Comes loop fun xs v => ∀ x ∈ xs, S.Fine v x)
      (Step.nodes ev code scope cs w) (Step.nodes ev' code' scope cs' w') := by
  induction hcs generalizing w w' with
  | nil => exact .ok hS hrel fun x hx => by cases hx
  | cons hc _ ih =>
    refine .step_bind hS (hev.step_node hS hc hrel hlive) fun x v v' hv hrel hx => ?_
    refine .step_bind hS (ih hrel (hS.live_step hv hlive)) fun xs u u' hu hrel hxs => ?_
    refine .ok hS hrel fun y hy => ?_
    rcases List.mem_cons.1 hy with rfl | hy
    · exact hS.fine_step hu hx
    · exact hxs y hy

theorem Matches.container (hS : S.Lawful) (hrel : S.rel w w') (x : Value) :
    S.Matches S.fatal w (S.Comes loop Any) (Step.container x w) (Step.container x w') := by
  cases x with
  | graph g => exact .ok hS hrel trivial
  | _ => exact .step_store hS hrel (.fault hS hrel _)

/-! ### Governed changes -/

theorem noted_withFatal (w : Machine) (level : Level) (target message : String)
    (fields : Store → List (String × String)) (kept : Option EvalError) :
    (w.noted level target message fields).withFatal kept =
      (w.withFatal kept).noted level target message fields := by
  unfold World.noted
  split <;> rename_i h
  · rw [if_pos (show (w.withFatal kept).verbosity.keeps level = true from h)]
    rfl
  · rw [if_neg (show ¬(w.withFatal kept).verbosity.keeps level = true from h)]

theorem run_mutationFailed_aborted (text : String) (w : Machine) :
    (Step.mutationFailed (.aborted text) : Step α) w =
      some (.error (w.control.pendingFatal.getD (.internal (.aborted text))),
        (w.withFatal none).noted .debug Eval.target "mutation rejected" fun _ =>
          [("error", (MutationError.aborted text).message w.store id)]) := by
  have hcontrol : (w.noted .debug Eval.target "mutation rejected" fun _ =>
      [("error", (MutationError.aborted text).message w.store id)]).control = w.control :=
    World.noted_control ..
  rw [← noted_withFatal, ← hcontrol]
  rfl

/-- The error that ended a callback comes out of the change as it is; every other failure becomes
an exception. -/
theorem Matches.mutationFailed (hS : S.Lawful) {e : MutationError String}
    (h : S.refused.both e w w') {good : α → Machine → Prop} :
    S.Matches S.fatal w (S.Comes loop good) (Step.mutationFailed e w)
      (Step.mutationFailed e w') := by
  have hplain : ∀ f : Store → Fault, S.rel w w' → ∀ fields : Store → Store → List (String × String),
      S.Matches S.fatal w (S.Comes loop good)
        ((Step.store >>= fun s => Step.report .debug "mutation rejected" (fields s) >>= fun _ =>
          (Step.fault (f s) : Step α)) w)
        ((Step.store >>= fun s => Step.report .debug "mutation rejected" (fields s) >>= fun _ =>
          (Step.fault (f s) : Step α)) w') := by
    intro f hrel fields
    refine .step_store hS hrel ?_
    refine .step_report hS hrel fun v v' _ hrel => ?_
    exact .fault hS hrel _
  cases e with
  | transformRaised rule r =>
    obtain ⟨hrel, hr⟩ := h
    refine .step_store hS hrel ?_
    refine .step_report hS hrel fun v v' hv hrel => ?_
    exact .ok hS hrel ⟨rfl, hS.fine_step hv hr⟩
  | aborted text =>
    obtain ⟨e, he, hkept, hkept', hrel⟩ := h
    obtain ⟨hrel', hstep⟩ := hS.noted .debug Eval.target "mutation rejected"
      (fun _ => [("error", (MutationError.aborted text).message w.store id)]) hrel
    have hstore : w'.store = w.store := (hS.agree hrel).store
    rw [run_mutationFailed_aborted, run_mutationFailed_aborted, hkept, hkept', hstore]
    exact .of_some (hS.step_trans (hS.step_withFatal none (hS.step_refl w)) hstep)
      (.error ⟨he, hrel'⟩)
  | _ => exact hplain (fun s => .mutation _ _) h _

theorem Matches.mutationFailed_stray (hS : S.Lawful) {e : MutationError String}
    (h : S.refused.lost e w) {good : α → Machine → Prop}
    (y : Option (Except EvalError (Except Signal α) × Machine)) :
    S.Matches S.fatal w (S.Comes loop good) (Step.mutationFailed e w) y := by
  obtain ⟨text, rfl, e, hkept, hescape⟩ := h
  obtain ⟨hescape', hstep⟩ := hS.escape_rejected
    (fun _ => [("error", (MutationError.aborted text).message w.store id)]) hescape
  rw [run_mutationFailed_aborted, hkept]
  exact .of_some (hS.step_trans (hS.step_withFatal none (hS.step_refl w)) hstep)
    (.lost hescape')

theorem run_governed (change : Act Session (MutationError String) α) (w : Machine) :
    Step.governed change w =
      (Act.attempt change >>= fun r =>
        match r with
        | .ok a => (pure a : Step α)
        | .error e => Step.mutationFailed e : Eval (Except Signal α)) w := by
  unfold Step.governed
  rw [Step.run_bind, Step.run_lift, Act.run_bind]
  cases (Act.attempt change : Eval _) w with
  | none => rfl
  | some p =>
    obtain ⟨r, v⟩ := p
    cases r with
    | error e => rfl
    | ok r => cases r <;> rfl

theorem Matches.governed (hS : S.Lawful) {change change' : Act Session (MutationError String) α}
    {good : α → Machine → Prop}
    (h : S.Matches S.refused w good (change w) (change' w')) :
    S.Matches S.fatal w (S.Comes loop good) (Step.governed change w)
      (Step.governed change' w') := by
  rw [run_governed, run_governed]
  refine .attempt_bind hS h ?_ ?_ ?_
  · intro a v v' _ hrel ha
    exact .ok hS hrel ha
  · intro e v v' _ hboth
    exact .mutationFailed hS hboth
  · intro e v y _ hlost
    exact .mutationFailed_stray hS hlost y

/-! ### Scopes and frames -/

variable {falls : Prop}

/-- What is known about a result stays so while no less may be called. -/
def Stable (S : Simulation) (good : α → Machine → Prop) : Prop :=
  ∀ {u v}, (∀ x, S.callee u x → S.callee v x) → ∀ a, good a u → good a v

theorem stable_gives (S : Simulation) (loop falls : Prop) : S.Stable (S.Gives loop falls) :=
  fun h _ hs => ⟨hs.1.mono h, hs.2⟩

theorem stable_answers (S : Simulation) : S.Stable S.Answers := by
  intro u v h s hs
  cases s with
  | normal x => exact Value.Holds.mono h hs
  | raised r => exact Value.Holds.mono h hs
  | _ => exact hs

/-- What was opened before an action is closed after it however the action ends. While it is open,
the worlds are no steps from `w`. -/
theorem Matches.bracket {v v' : Machine} {body body' : Eval α} {close : Eval Unit}
    {s : Machine → Machine} {good : α → Machine → Prop} (hgood : S.Stable good)
    (hbody : S.Matches S.fatal v good (body v) (body' v'))
    (hclose : ∀ u, S.step v u →
      close u = some (.ok (), s u) ∧ S.step w (s u) ∧
        (∀ u', S.rel u u' → close u' = some (.ok (), s u') ∧ S.rel (s u) (s u')) ∧
        (∀ x, S.callee u x → S.callee (s u) x) ∧
        ∀ e, S.escape e u → S.escape e (s u)) :
    S.Matches S.fatal w good
      ((Act.attempt body >>= fun r => close >>= fun _ => Eval.ofAttempt r) v)
      ((Act.attempt body' >>= fun r => close >>= fun _ => Eval.ofAttempt r) v') := by
  have hrun : ∀ {q : Except EvalError α} {u : Machine},
      close u = some (.ok (), s u) →
      (close >>= fun _ => Eval.ofAttempt q) u = some (q, s u) := by
    intro q u hu
    rw [Act.run_bind, hu]
    cases q <;> rfl
  rw [Act.run_bind, Act.run_bind, Act.run_attempt, Act.run_attempt]
  cases hx : body v with
  | none => exact .of_none fun hlock => by rw [hbody.stuck hlock hx]; rfl
  | some p =>
    obtain ⟨q, u⟩ := p
    obtain ⟨hu, hout⟩ := hbody.ends q u hx
    obtain ⟨hshut, hstep, hrel, hcallee, hescape⟩ := hclose u hu
    simp only [Option.map_some]
    rw [hrun hshut]
    refine .of_some hstep ?_
    generalize body' v' = y at hout
    cases hout with
    | ok huu' hs =>
      obtain ⟨hshut', hrel'⟩ := hrel _ huu'
      simp only [Option.map_some]
      rw [hrun hshut']
      exact .ok hrel' (hgood hcallee _ hs)
    | error hboth =>
      obtain ⟨hshut', hrel'⟩ := hrel _ hboth.2
      simp only [Option.map_some]
      rw [hrun hshut']
      exact .error ⟨hboth.1, hrel'⟩
    | lost hlost => exact .lost (hescape _ hlost)

/-- A scope that was opened is left again. -/
theorem Matches.inScope (hS : S.Lawful) (hrel : S.rel w w') {parent : ScopeId}
    (hlive : S.live w parent) (kind : ScopeKind) {locals : List (String × Value)}
    (hlocals : ∀ x ∈ locals, S.Fine w x.2) {body body' : ScopeId → Eval α}
    {good : α → Machine → Prop} (hgood : S.Stable good)
    (hbody : ∀ scope v v', S.rel v v' → S.live v scope →
      v.control.frames = w.control.frames → v.control.config = w.control.config →
      S.Matches S.fatal v good (body scope v) (body' scope v')) :
    S.Matches S.fatal w good (Eval.inScope parent kind locals body w)
      (Eval.inScope parent kind locals body' w') := by
  obtain ⟨scope, v, v', hv, hv', hrel', hlive', hleave⟩ := hS.enter kind hrel hlive hlocals
  obtain ⟨s, rfl⟩ := Eval.exists_enterScope hv
  unfold Eval.inScope
  rw [Act.run_bind, Act.run_bind, hv, hv']
  exact .bracket hgood (hbody scope _ v' hrel' hlive' rfl rfl) hleave

/-- A frame that was opened is left again. -/
theorem Matches.inFrame {site : CallSite} (hframing : S.Framing w w' site) {body body' : Eval α}
    {good : α → Machine → Prop} (hgood : S.Stable good)
    (hbody : S.Matches S.fatal (w.framed site) good (body (w.framed site))
      (body' (w'.framed site))) :
    S.Matches S.fatal w good (Eval.inFrame site body w) (Eval.inFrame site body' w') := by
  unfold Eval.inFrame
  rw [Act.run_bind, Act.run_bind, Eval.run_modifySession, Eval.run_modifySession]
  refine .bracket hgood hbody (s := World.unframed) fun u hu => ?_
  exact ⟨rfl, hframing.step hu, fun u' huu' => ⟨rfl, hframing.unframed hu huu'⟩,
    hframing.callee hu, fun _ => hframing.escape hu⟩

end Simulation

end GraphLang
