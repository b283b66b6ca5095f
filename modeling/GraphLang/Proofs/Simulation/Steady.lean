import GraphLang.Eval.Host
import GraphLang.Proofs.Scopes.Opening
import GraphLang.Proofs.Simulation.Node

/-!
# An evaluator beside itself

An evaluator follows itself in worlds whose scopes are tidy. Whatever an evaluation comes to, it
leaves the call frames and the open scopes as it found them; malformed programs are no exception.
-/

namespace GraphLang

/-- The condition that always holds, holds of every value. -/
theorem Value.holds_true (v : Value) : v.Holds fun _ => True := by
  induction v with
  | exception _ _ _ payload _ ih => exact ih
  | _ => trivial

theorem Container.holds_true (c : Container) : c.Holds fun _ => True :=
  ⟨fun _ m _ => m.value.holds_true, fun _ _ v _ => v.holds_true⟩

theorem Store.holds_true (s : Store) : s.Holds fun _ => True := fun c _ => c.holds_true

/-- The evaluator is between two steps: its scopes are tidy, the prelude and the units have theirs,
and no error is kept aside. -/
structure Sane (w : Machine) : Prop where
  /-- The scopes are tidy. -/
  tidy : w.control.scopes.Tidy
  /-- No error is kept aside. -/
  settled : w.control.pendingFatal = none
  /-- The prelude has its scope. -/
  prelude : w.control.scopes.isScope w.control.prelude = true
  /-- The units have their scopes. -/
  units : ∀ loaded ∈ w.control.units, w.control.scopes.isScope loaded.scope = true

/-- The second world has the call frames and the open scopes of the first one. -/
structure Balance (w v : Machine) : Prop where
  /-- The same calls are open. -/
  frames : v.control.frames = w.control.frames
  /-- The same scopes are open. -/
  isActive : ∀ n, v.control.scopes.isActive n = w.control.scopes.isActive n
  /-- No scope is lost. -/
  isScope : ∀ {n}, w.control.scopes.isScope n = true → v.control.scopes.isScope n = true
  /-- The evaluator works in the same way. -/
  config : v.control.config = w.control.config
  /-- The prelude is the same. -/
  prelude : v.control.prelude = w.control.prelude
  /-- The units are the same. -/
  units : v.control.units = w.control.units

namespace Balance

variable {u v w : Machine}

theorem refl (w : Machine) : Balance w w := ⟨rfl, fun _ => rfl, id, rfl, rfl, rfl⟩

theorem trans (h : Balance u v) (h' : Balance v w) : Balance u w :=
  ⟨h'.frames.trans h.frames, fun n => (h'.isActive n).trans (h.isActive n),
    h'.isScope ∘ h.isScope, h'.config.trans h.config, h'.prelude.trans h.prelude,
    h'.units.trans h.units⟩

/-- A change that keeps the open scopes. -/
theorem withScopes {s : Scopes} (h : Scopes.Keeps w.control.scopes s) :
    Balance w (w.withScopes s) :=
  ⟨rfl, h.isActive, h.isScope, rfl, rfl, rfl⟩

end Balance

namespace Sane

variable {v w : Machine}

/-- A finished evaluation with tidy scopes is between two steps again. -/
theorem of_balance (h : Sane w) (hb : Balance w v) (htidy : v.control.scopes.Tidy)
    (hsettled : v.control.pendingFatal = none) : Sane v where
  tidy := htidy
  settled := hsettled
  prelude := by
    rw [hb.prelude]
    exact hb.isScope h.prelude
  units := by
    rw [hb.units]
    exact fun loaded hloaded => hb.isScope (h.units loaded hloaded)

theorem withScopes (h : Sane w) {s : Scopes} (hs : Scopes.Keeps w.control.scopes s) :
    Sane (w.withScopes s) :=
  h.of_balance (.withScopes hs) hs.tidy h.settled

end Sane

/-! ### Opening scopes -/

namespace Eval

variable {w : Machine}

theorem exists_defineLocals {scope : ScopeId} (locals : List (String × Value))
    (htidy : w.control.scopes.Tidy) (hscope : w.control.scopes.isScope scope = true)
    (hopen : w.control.scopes.Open scope) :
    ∃ s, defineLocals scope locals w = some (.ok (), w.withScopes s) ∧
      Scopes.Keeps w.control.scopes s := by
  induction locals generalizing w with
  | nil => exact ⟨_, rfl, .refl htidy⟩
  | cons x locals ih =>
    obtain ⟨var, s₁, hdefine, hopen₁⟩ :=
      Scopes.define_of_open htidy hscope hopen x.1 x.2
    have hkeeps : Scopes.Keeps w.control.scopes s₁ := by
      have h := Scopes.Keeps.define htidy scope x.1 x.2 true
      rwa [hdefine] at h
    obtain ⟨s, hrun, hkeeps'⟩ := ih (w := w.withScopes s₁) hkeeps.tidy (hkeeps.isScope hscope) hopen₁
    refine ⟨s, ?_, hkeeps.trans hkeeps'⟩
    unfold defineLocals
    rw [Act.run_bind, run_defineLocal, hdefine]
    exact hrun

/-- A scope with locals can be opened in any scope. -/
theorem exists_enterScope_ok {parent : ScopeId} (htidy : w.control.scopes.Tidy)
    (hparent : w.control.scopes.isScope parent = true) (kind : ScopeKind)
    (locals : List (String × Value)) :
    ∃ s, enterScope parent kind locals w =
        some (.ok (w.control.scopes.graph.addNode (.scope kind true)).1, w.withScopes s) ∧
      w.control.scopes.Opens (w.control.scopes.graph.addNode (.scope kind true)).1 s := by
  have hopens := Scopes.Opens.withScope htidy hparent kind
  have hempty : Scopes.Open ⟨Scopes.withScope w.control.scopes.graph parent kind,
      w.control.scopes.declared⟩ (w.control.scopes.graph.addNode (.scope kind true)).1 := by
    intro name var hvar
    rw [hopens.declared_eq_none htidy] at hvar
    cases hvar
  obtain ⟨s, hrun, hkeeps⟩ := exists_defineLocals (w := w.withScopes
    ⟨Scopes.withScope w.control.scopes.graph parent kind, w.control.scopes.declared⟩) locals
    hopens.tidy hopens.opened hempty
  refine ⟨s, ?_, hopens.trans hkeeps⟩
  unfold enterScope
  rw [Act.run_bind, run_pushScope, Scopes.push_of_isScope hparent]
  change (defineLocals _ locals >>= _) _ = _
  rw [Act.run_bind, hrun]
  rfl

end Eval

/-! ### The simulation -/

/-- An evaluator beside itself, while `inv` holds of its configuration and its call frames. -/
def steady (inv : Config → List CallSite → Prop) (escape : EvalError → Machine → Prop)
    (lockstep : Prop) : Simulation where
  rel w w' := w = w' ∧ Sane w ∧ inv w.control.config w.control.frames
  step := Balance
  callee _ _ := True
  live w scope := w.control.scopes.isScope scope = true
  loose := True
  escape := escape
  lockstep := lockstep
  nodes code code' loop falls n n' := code = code' ∧ n = n' ∧ loop ∧ falls
  bodies code code' root root' := code = code' ∧ root = root'
  makes code code' _ := code = code'

namespace steady

variable {inv : Config → List CallSite → Prop} {escape : EvalError → Machine → Prop}
  {lockstep : Prop} {v w w' : Machine}

/-- A change of anything but scopes, frames and units. -/
theorem update (hrel : (steady inv escape lockstep).rel w w')
    (hscopes : v.control.scopes = w.control.scopes)
    (hframes : v.control.frames = w.control.frames) (hconfig : v.control.config = w.control.config)
    (hprelude : v.control.prelude = w.control.prelude) (hunits : v.control.units = w.control.units)
    (hsettled : v.control.pendingFatal = none) :
    (steady inv escape lockstep).rel v v ∧ (steady inv escape lockstep).step w v := by
  obtain ⟨rfl, hsane, hinv⟩ := hrel
  have hbalance : Balance w v :=
    ⟨hframes, fun n => by rw [hscopes], fun hn => by rwa [hscopes], hconfig, hprelude, hunits⟩
  refine ⟨⟨rfl, hsane.of_balance hbalance ?_ hsettled, ?_⟩, hbalance⟩
  · rw [hscopes]
    exact hsane.tidy
  · rwa [hconfig, hframes]

/-- A step on the scopes that keeps the open ones. -/
theorem scopeStep {α : Type} (hrel : (steady inv escape lockstep).rel w w')
    {f : Scopes → Except BindingError α × Scopes} {good : α → Machine → Prop}
    {bad : BindingError → Prop} (hf : Scopes.Keeps w.control.scopes (f w.control.scopes).2)
    (hgood : ∀ a v, good a v) (hbad : ∀ e, bad e) :
    (steady inv escape lockstep).ScopeStep w w' f f good bad := by
  obtain ⟨rfl, hsane, hinv⟩ := hrel
  exact ⟨rfl, ⟨rfl, hsane.withScopes hf, hinv⟩, .withScopes hf, fun a _ => hgood a _,
    fun e _ => hbad e⟩

theorem same (code : Code) (f : FunctionId) : (steady inv escape lockstep).Same code code f := by
  unfold Simulation.Same
  cases code.program.function? f with
  | none => trivial
  | some d =>
    refine ⟨rfl, rfl, ?_⟩
    cases d.body with
    | none => trivial
    | some root => exact ⟨rfl, rfl⟩

/-- Leaving a scope that was opened. -/
theorem left {scope : ScopeId} {s : Scopes} (hrel : (steady inv escape lockstep).rel w w')
    (hopens : w.control.scopes.Opens scope s) {u : Machine} (hu : Balance (w.withScopes s) u) :
    Eval.popScope scope u = some (.ok (), u.left scope) ∧ Balance w (u.left scope) ∧
      ∀ u', (steady inv escape lockstep).rel u u' →
        Eval.popScope scope u' = some (.ok (), u'.left scope) ∧
          (steady inv escape lockstep).rel (u.left scope) (u'.left scope) := by
  have hscope : u.control.scopes.isScope scope = true := hu.isScope hopens.opened
  have hpop := Scopes.pop_of_isScope hscope
  have hrun : Eval.popScope scope u = some (.ok (), u.left scope) := by
    rw [Eval.run_popScope, hpop]
    rfl
  have hbalance : Balance w (u.left scope) := by
    refine ⟨hu.frames, fun n => ?_, fun {n} hn => ?_, hu.config, hu.prelude, hu.units⟩
    · show (u.control.scopes.pop scope).2.isActive n = _
      rw [hpop, Scopes.isActive_leave]
      by_cases hn : n = scope
      · rw [hn, Scopes.isActive_eq_false hopens.fresh]
        simp
      · rw [bne_iff_ne.2 hn, Bool.true_and]
        exact (hu.isActive n).trans (hopens.isActive hn)
    · show (u.control.scopes.pop scope).2.isScope n = _
      rw [hpop, Scopes.isScope_leave]
      exact hu.isScope (hopens.isScope hn)
  refine ⟨hrun, hbalance, ?_⟩
  rintro u' ⟨rfl, hsane, hinv⟩
  refine ⟨hrun, rfl, hrel.2.1.of_balance hbalance ?_ hsane.settled, hinv⟩
  show (u.control.scopes.pop scope).2.Tidy
  rw [hpop]
  exact hsane.tidy.leave scope

/-- An invariant of call frames lets calls be opened below the limit, and an escape is the same
after scopes and frames were left. -/
structure Admits (inv : Config → List CallSite → Prop) (escape : EvalError → Machine → Prop) :
    Prop where
  frame : ∀ {config frames} (site : CallSite), inv config frames →
    frames.length < config.maxCallDepth → inv config (site :: frames)
  settled : ∀ {e w}, escape e w → w.control.pendingFatal = none
  left : ∀ {e w} scope, escape e w → escape e (w.left scope)
  unframed : ∀ {e w}, escape e w → escape e w.unframed
  rejected : ∀ {e w} fields, escape e w →
    escape e (w.noted .debug Eval.target "mutation rejected" fields)

/-- A call frame is left again. -/
theorem framing (h : Admits inv escape) (heq : w = w') (hsane : Sane w) {site : CallSite}
    (hframed : inv w.control.config (site :: w.control.frames))
    (hinv : inv w.control.config w.control.frames) :
    (steady inv escape lockstep).Framing w w' site := by
  subst heq
  refine ⟨⟨rfl, ⟨hsane.tidy, hsane.settled, hsane.prelude, hsane.units⟩, hframed⟩, id, ?_, ?_,
    fun _ _ _ => trivial, fun _ => h.unframed⟩
  · intro u hu
    refine ⟨?_, hu.isActive, hu.isScope, hu.config, hu.prelude, hu.units⟩
    show u.control.frames.tail = _
    rw [hu.frames]
    rfl
  · rintro u u' hu ⟨rfl, hsane', -⟩
    refine ⟨rfl, ⟨hsane'.tidy, hsane'.settled, hsane'.prelude, hsane'.units⟩, ?_⟩
    show inv u.control.config u.control.frames.tail
    rw [hu.frames, hu.config]
    exact hinv

theorem lawful (h : Admits inv escape) : (steady inv escape lockstep).Lawful where
  step_refl := .refl
  step_trans := .trans
  step_withFatal kept h := ⟨h.frames, h.isActive, h.isScope, h.config, h.prelude, h.units⟩
  callee_step _ _ _ := trivial
  live_step h := h.isScope
  agree := by
    rintro w w' ⟨rfl, hsane, -⟩
    exact ⟨rfl, rfl, rfl, rfl, rfl, rfl, rfl, hsane.settled, hsane.settled⟩
  store _ := Store.holds_true _
  rulesets _ _ _ _ _ v _ := v.holds_true
  noted := by
    rintro w w' level target message fields ⟨rfl, hsane, hinv⟩
    obtain ⟨events, hquiet⟩ := w.noted_eq_quiet level target message fields
    rw [hquiet]
    exact update ⟨rfl, hsane, hinv⟩ rfl rfl rfl rfl rfl hsane.settled
  recorded := by
    rintro w w' code code' n o s hunit ⟨rfl, hsane, hinv⟩
    have hsame : w.recorded code' n o s = w.recorded code n o s := by
      unfold World.recorded
      rw [hunit]
    obtain ⟨trace, hquiet⟩ := w.recorded_eq_quiet code n o s
    rw [hsame, hquiet]
    exact update ⟨rfl, hsane, hinv⟩ rfl rfl rfl rfl rfl hsane.settled
  withStore := by
    rintro w w' s hrel -
    obtain ⟨rfl, hsane, hinv⟩ := hrel
    exact update ⟨rfl, hsane, hinv⟩ rfl rfl rfl rfl rfl hsane.settled
  printed := by
    rintro w w' line ⟨rfl, hsane, hinv⟩
    exact update ⟨rfl, hsane, hinv⟩ rfl rfl rfl rfl rfl hsane.settled
  withRulesets := by
    rintro w w' sets ⟨rfl, hsane, hinv⟩ -
    exact update ⟨rfl, hsane, hinv⟩ rfl rfl rfl rfl rfl hsane.settled
  host _ _ _ := ⟨Store.holds_true _, fun v _ => v.holds_true, fun v _ => v.holds_true⟩
  get := by
    rintro w w' scope name ⟨rfl, -, -⟩ -
    exact ⟨rfl, fun v _ => v.holds_true, fun _ _ => Or.inl trivial⟩
  define name mutable hrel _ _ := scopeStep hrel (.define hrel.2.1.tidy _ _ _ _)
    (fun _ _ => trivial) fun _ => Or.inl trivial
  assign name hrel _ _ := scopeStep hrel (.assign hrel.2.1.tidy _ _ _)
    (fun _ _ => trivial) fun _ => Or.inl trivial
  makes_same := by
    rintro code code' f rfl
    exact ⟨rfl, same code f⟩
  closure := by
    rintro w w' scope code code' f d rfl - hrel -
    exact scopeStep hrel (.createClosure hrel.2.1.tidy _ _ _) (fun _ _ => trivial)
      fun _ => trivial
  finds := by
    rintro w w' f ⟨rfl, -, -⟩ -
    unfold Simulation.Finds
    cases w.control.units[f.unit]? with
    | none => trivial
    | some loaded => exact same _ _
  closureScope := by
    rintro w w' f ⟨rfl, -, -⟩ -
    exact ⟨rfl, fun _ hscope => Scopes.isScope_of_closureScope hscope, fun _ _ => trivial⟩
  enter := by
    rintro w w' parent locals kind hrel hlive -
    obtain ⟨rfl, hsane, hinv⟩ := hrel
    obtain ⟨s, hrun, hopens⟩ := Eval.exists_enterScope_ok hsane.tidy hlive kind locals
    refine ⟨_, _, _, hrun, hrun, ⟨rfl, ?_, hinv⟩, hopens.opened, fun u hu => ?_⟩
    · exact ⟨hopens.tidy, hsane.settled, hopens.isScope hsane.prelude,
        fun loaded hloaded => hopens.isScope (hsane.units loaded hloaded)⟩
    · obtain ⟨hpop, hbalance, hleft⟩ := left ⟨rfl, hsane, hinv⟩ hopens hu
      exact ⟨hpop, hbalance, hleft, fun _ _ => trivial, fun e he => h.left _ he⟩
  frame := by
    rintro w w' site hrel hroom
    exact framing h hrel.1 hrel.2.1 (h.frame site hrel.2.2 hroom) hrel.2.2
  escape_rejected := by
    intro e w fields he
    refine ⟨h.rejected fields he, ?_⟩
    obtain ⟨events, hquiet⟩ := w.noted_eq_quiet .debug Eval.target "mutation rejected" fields
    rw [hquiet]
    exact ⟨rfl, fun _ => rfl, id, rfl, rfl, rfl⟩
  escape_settled := h.settled

end steady

end GraphLang
