import GraphLang.Proofs.Loading
import GraphLang.Proofs.Program.Checks
import GraphLang.Proofs.Scopes.Marking
import GraphLang.Proofs.Simulation.Cuts
import Mathlib

/-!
# Evaluation is balanced

Whatever an evaluation comes to, a signal or an error, it leaves the call frames and the open
scopes as it found them, and keeps no error aside. This holds from every state that an evaluator
can be in, also in the middle of a run.
-/

namespace GraphLang

open Eval

/-- The states that an evaluator can be in: those between the operations of its host, and those at
the moments that runs and calls come to. The host may change containers on its own. -/
inductive Reachable : Machine → Prop
  /-- A new evaluator. -/
  | new (config : Config) (verbosity : Verbosity) (natives : String → HostNative) :
    Reachable (.evaluator config verbosity natives)
  /-- A unit was loaded, or rejected. -/
  | load {w v p r} : Reachable w → Eval.load p w = some (r, v) → Reachable v
  /-- A unit was run. -/
  | run {w v fuel id r} : Reachable w → Eval.run fuel id w = some (r, v) → Reachable v
  /-- A value was called. -/
  | callValue {w v fuel callee args r} : Reachable w →
    Eval.callValue fuel callee args w = some (r, v) → Reachable v
  /-- A name was imported. -/
  | importName {w v into source name r} : Reachable w →
    Eval.importName into source name w = some (r, v) → Reachable v
  /-- A procedure of the host was registered. -/
  | registerNative {w v n r} : Reachable w → Eval.registerNative n w = some (r, v) → Reachable v
  /-- Scopes were collected. -/
  | collect {w} : Reachable w →
    Reachable { w with control := (w.control.collect w.store).2 }
  /-- The host changed containers. -/
  | withStore {w} (s : Store) : Reachable w → Reachable (w.withStore s)
  /-- The run of a unit came to a moment. -/
  | running {w v fuel id p} : Reachable w → Reaches (runBy · id) fuel w p v → Reachable v
  /-- A call of the host came to a moment. -/
  | calling {w v fuel callee args p} : Reachable w → Reaches (callBy · callee args) fuel w p v →
    Reachable v

/-- The second world has the call frames and the open scopes of the first one, and no error is kept
aside in it. -/
structure Restored (w v : Machine) : Prop where
  /-- The same calls are open. -/
  frames : v.control.frames = w.control.frames
  /-- The same scopes are open. -/
  isActive : ∀ n, v.control.scopes.isActive n = w.control.scopes.isActive n
  /-- No error is kept aside. -/
  settled : v.control.pendingFatal = none

variable {v w : Machine}

theorem grows_any : steady.Grows fun _ _ => True := fun _ _ _ _ _ => trivial

theorem balance_run {fuel : Nat} {id : UnitId} {r : Except EvalError Value} (h : Sane w)
    (hrun : run fuel id w = some (r, v)) : Balance w v ∧ Sane v := by
  have hends : steady.Ends (fun _ _ => False) False w (run fuel id w) (run fuel id w) :=
    steady.runBy_ends (steady.admits_never grows_any)
      (steady.follows_eval grows_any (Nat.le_refl fuel)) h trivial
  obtain ⟨hbalance, hsane, -⟩ := hends.sane hrun
  exact ⟨hbalance, hsane⟩

theorem balance_callValue {fuel : Nat} {callee : Value} {args : List Value}
    {r : Except EvalError Value} (h : Sane w)
    (hcall : callValue fuel callee args w = some (r, v)) : Balance w v ∧ Sane v := by
  have hends : steady.Ends (fun _ _ => False) False w (callValue fuel callee args w)
      (callValue fuel callee args w) :=
    steady.callBy_ends (steady.admits_never grows_any)
      (steady.follows_eval grows_any (Nat.le_refl fuel)) h
  obtain ⟨hbalance, hsane, -⟩ := hends.sane hcall
  exact ⟨hbalance, hsane⟩

theorem balance_node {fuel : Nat} {code : Code} {n : Nat} {scope : ScopeId}
    {r : Except EvalError Signal} (h : Sane w) (hscope : w.control.scopes.isScope scope = true)
    (hnode : (eval fuel).node code n scope w = some (r, v)) : Balance w v ∧ Sane v := by
  have hev := steady.follows_eval grows_any (Nat.le_refl fuel)
  have hsame : (steady (fun _ _ => True) (fun _ _ => False) False).nodes code code True True n n :=
    ⟨rfl, rfl, trivial, trivial⟩
  have hmatches := hev.node hsame ⟨rfl, h, trivial⟩ hscope
  obtain ⟨hbalance, hsane, -⟩ := (steady.ends_of_matches (Or.inl rfl) hmatches).sane hnode
  exact ⟨hbalance, hsane⟩

/-! ### The other operations of the host -/

theorem Sane.bindingStep {α : Type} {f : Scopes → Except BindingError α × Scopes}
    {r : Except EvalError α} (h : Sane w)
    (hf : Scopes.Keeps w.control.scopes (f w.control.scopes).2)
    (hrun : (onScopes f >>= Eval.ofBinding) w = some (r, v)) : Sane v := by
  rw [run_bindingStep] at hrun
  cases hrun
  exact h.withScopes hf

theorem Sane.importName {into source : UnitId} {name : String} {r : Except EvalError Unit}
    (h : Sane w) (hrun : Eval.importName into source name w = some (r, v)) : Sane v := by
  unfold Eval.importName at hrun
  rw [Act.run_bind, run_unit] at hrun
  cases hinto : w.control.units[into]? with
  | none =>
    rw [hinto] at hrun
    cases hrun
    exact h
  | some intoUnit =>
    rw [hinto] at hrun
    dsimp only at hrun
    rw [Act.run_bind, run_unit] at hrun
    cases hsource : w.control.units[source]? with
    | none =>
      rw [hsource] at hrun
      cases hrun
      exact h
    | some sourceUnit =>
      rw [hsource] at hrun
      dsimp only at hrun
      rw [Act.run_bind, run_session] at hrun
      dsimp only at hrun
      cases hfind : (w.control.scopes.contents sourceUnit.scope).find? (·.1 == name) with
      | none =>
        rw [hfind] at hrun
        cases hrun
        exact h
      | some found =>
        rw [hfind] at hrun
        exact h.bindingStep (.importVar h.tidy _ _) hrun

theorem Sane.registerNative {n : Native} {r : Except EvalError Unit} (h : Sane w)
    (hrun : Eval.registerNative n w = some (r, v)) : Sane v := by
  unfold Eval.registerNative at hrun
  rw [Act.run_bind, run_session] at hrun
  dsimp only at hrun
  rw [Act.run_bind, run_onScopes] at hrun
  dsimp only at hrun
  have hkeeps := Scopes.Keeps.define h.tidy w.control.prelude n.name (.native n) false
  cases hdefine : (w.control.scopes.define w.control.prelude n.name (.native n) false).1 <;>
    rw [hdefine] at hrun <;> cases hrun <;> exact h.withScopes hkeeps

theorem Sane.collect (h : Sane w) :
    Sane { w with control := (w.control.collect w.store).2 } := by
  have hroot {scope : ScopeId} (hmem : scope ∈ w.control.roots)
      (hscope : w.control.scopes.isScope scope = true) :
      (w.control.scopes.collect w.store w.control.roots).2.isScope scope = true := by
    rwa [Scopes.isScope_collect h.tidy.sound w.store hmem]
  refine ⟨h.tidy.collect w.store w.control.roots, h.settled, hroot ?_ h.prelude, ?_⟩
  · exact List.mem_append_left _ List.mem_cons_self
  · intro loaded hloaded
    have hold : loaded ∈ w.control.units := hloaded
    refine hroot (List.mem_append_left _ (List.mem_cons_of_mem _ ?_)) (h.units loaded hold)
    exact List.mem_map.2 ⟨loaded, by simpa using hold, rfl⟩

/-- In every state of an evaluator its scopes are tidy and no error is kept aside. -/
theorem Reachable.sane (h : Reachable w) : Sane w := by
  induction h with
  | new config verbosity natives => exact sane_evaluator config verbosity natives
  | load _ hload ih => exact ih.load hload
  | run _ hrun ih => exact (balance_run ih hrun).2
  | callValue _ hcall ih => exact (balance_callValue ih hcall).2
  | importName _ himport ih => exact ih.importName himport
  | registerNative _ hregister ih => exact ih.registerNative hregister
  | collect _ ih => exact ih.collect
  | withStore s _ ih => exact ⟨ih.tidy, ih.settled, ih.prelude, ih.units⟩
  | running _ hreach ih =>
    obtain ⟨e, u, -, -, hcut⟩ := steady.cut_of_reaches grows_any
      (fun hadmits hev => steady.runBy_ends hadmits hev ih trivial) hreach
    exact hcut.sane
  | calling _ hreach ih =>
    obtain ⟨e, u, -, -, hcut⟩ := steady.cut_of_reaches grows_any
      (fun hadmits hev => steady.callBy_ends hadmits hev ih) hreach
    exact hcut.sane

theorem Balance.restored (h : Balance w v) (hsane : Sane v) : Restored w v :=
  ⟨h.frames, h.isActive, hsane.settled⟩

/-- From every state of an evaluator, the evaluation of any node of any code in any scope, the run
of any unit and the call of any value restore the call frames and the open scopes, whether they come
to a signal, to a value or to an error, and keep no error aside. So after a failed run of an idle
evaluator no call is open. -/
theorem evaluation_restores (hw : Reachable w) :
    (∀ fuel code n scope r v, w.control.scopes.isScope scope = true →
      (eval fuel).node code n scope w = some (r, v) → Restored w v) ∧
    (∀ fuel id r v, run fuel id w = some (r, v) → Restored w v) ∧
    (∀ fuel callee args r v, callValue fuel callee args w = some (r, v) → Restored w v) ∧
    ∀ fuel id e v, w.control.frames = [] → run fuel id w = some (.error e, v) →
      Reachable v ∧ v.control.frames = [] := by
  have hsane := hw.sane
  refine ⟨?_, ?_, ?_, ?_⟩
  · intro fuel code n scope r v hscope hnode
    obtain ⟨hbalance, hsane'⟩ := balance_node hsane hscope hnode
    exact hbalance.restored hsane'
  · intro fuel id r v hrun
    obtain ⟨hbalance, hsane'⟩ := balance_run hsane hrun
    exact hbalance.restored hsane'
  · intro fuel callee args r v hcall
    obtain ⟨hbalance, hsane'⟩ := balance_callValue hsane hcall
    exact hbalance.restored hsane'
  · intro fuel id e v hidle hrun
    obtain ⟨hbalance, -⟩ := balance_run hsane hrun
    exact ⟨hw.run hrun, by rw [hbalance.frames, hidle]⟩

/-- After an exception was raised in a call and caught, no call is open. -/
theorem guardedCall_restores : ∃ w r v, Reachable w ∧ w.control.frames = [] ∧
    run 10 0 w = some (r, v) ∧ Restored w v := by
  have hends : ((load Program.guardedCall (.evaluator .default .silent noNatives)).bind
      fun p => run 10 0 p.2).isSome = true := by cbv
  obtain ⟨⟨r, v⟩, hv⟩ := Option.isSome_iff_exists.1 hends
  obtain ⟨⟨q, w⟩, hload, hrun⟩ := Option.bind_eq_some_iff.1 hv
  have hw : Reachable w := .load (.new .default .silent noNatives) hload
  obtain ⟨events, hloaded⟩ := exists_load Program.validate_guardedCall
    (sane_evaluator .default .silent noNatives).prelude
  rw [hloaded] at hload
  cases hload
  exact ⟨_, r, v, hw, rfl, hrun, (evaluation_restores hw).2.1 10 0 r v hrun⟩

end GraphLang
