import GraphLang.Proofs.Course.Later
import GraphLang.Proofs.Rule.Atomic

/-!
# Frozen for ever

A container that is frozen is the same in every later state: through the runs of a program with all
their moments, through the callbacks of rules, and through whatever the host asks of the evaluator.
A change of a frozen container is refused before any rule is asked, and a change in whose callbacks
the container was frozen fails without writing to it.
-/

namespace GraphLang

open Eval

variable {σ ε ε₁ α β : Type} {g : GraphId} {c : Container}

/-! ### Containers that are frozen meanwhile -/

/-- A container that a callback left frozen is still the same at the end, if all callbacks retain
what is frozen. -/
theorem Store.Untouched.retains {s t : Store} {made : List Callback} (h : s.Untouched made t)
    (hretain : ∀ call ∈ made, call.before.Retains call.after) (hfrozen : c.frozen = true)
    (hcall : ∃ call ∈ made, call.after.graphs[g]? = some c) : t.graphs[g]? = some c := by
  have hspares {a b : Store} (h : a.Spares b) : a.Retains b := by
    obtain ⟨new, hnew⟩ := h
    exact .append hnew
  induction made generalizing t with
  | nil => simp at hcall
  | cons last earlier ih =>
    obtain ⟨hafter, hbefore⟩ := h
    refine hspares hafter g c ?_ hfrozen
    obtain ⟨call, hmem, hleft⟩ := hcall
    rcases List.mem_cons.1 hmem with rfl | hmem
    · exact hleft
    · refine hretain last List.mem_cons_self g c ?_ hfrozen
      exact ih hbefore (fun call hcall => hretain call (List.mem_cons_of_mem last hcall))
        ⟨call, hmem, hleft⟩

/-- What a change comes to, with the callbacks made in it written down: if one of them left the
container frozen as `c`, the change fails and the container is still the same. -/
def Yields (g : GraphId) (c : Container) (a : Act σ ε₁ α) (a' : Act (σ × List Callback) ε₁ α)
    (w : World σ) : Prop :=
  ∀ r v, a w = some (r, v) → ∃ made, a' (w.logging []) = some (r, v.logging made) ∧
    ((∃ call ∈ made, call.after.graphs[g]? = some c) →
      (∃ e, r = .error e) ∧ v.store.graphs[g]? = some c)

namespace Yields

variable {invoke : Invoke σ ε} {w : World σ} {a : Act σ ε₁ α} {a' : Act (σ × List Callback) ε₁ α}

theorem of_silent (h : Silent a a') : Yields g c a a' w := by
  intro r v hrun
  refine ⟨[], ?_, by simp⟩
  rw [h, hrun]
  rfl

/-- No callbacks are made in the first part. -/
theorem bind (ha : Silent a a') {f : α → Act σ ε₁ β} {f' : α → Act (σ × List Callback) ε₁ β}
    (hf : ∀ x u, a w = some (.ok x, u) → Yields g c (f x) (f' x) u) :
    Yields g c (a >>= f) (a' >>= f') w := by
  intro r v hrun
  rw [Act.run_bind] at hrun ⊢
  rw [ha]
  cases hrun₁ : a w with
  | none =>
    rw [hrun₁] at hrun
    cases hrun
  | some p =>
    obtain ⟨r₁, u⟩ := p
    rw [hrun₁] at hrun
    cases r₁ with
    | error e =>
      cases hrun
      exact ⟨[], rfl, by simp⟩
    | ok x => exact hf x u hrun₁ r v hrun

/-- Callbacks are made in the first part, and a frozen container is not changed in the second
one. -/
theorem of_traces (hfrozen : c.frozen = true) (ha : Traces invoke a a')
    {f : α → Act σ ε₁ β} {f' : α → Act (σ × List Callback) ε₁ β} (hf : ∀ x, Silent (f x) (f' x))
    (hrefuse : ∀ x u, u.store.graphs[g]? = some c → ∃ e, f x u = some (.error e, u))
    (hretain : ∀ call : Callback, call.By invoke w.natives → call.before.Retains call.after) :
    Yields g c (a >>= f) (a' >>= f') w := by
  intro r v hrun
  have hfirst := ha w []
  rw [Act.run_bind] at hrun ⊢
  cases hrun₁ : a w with
  | none =>
    rw [hrun₁] at hrun
    cases hrun
  | some p =>
    obtain ⟨r₁, u⟩ := p
    rw [hrun₁] at hrun hfirst
    obtain ⟨made, hmade, huntouched, hby, -⟩ := hfirst
    rw [List.append_nil] at hmade
    have hkept := huntouched.retains (g := g) (fun call hcall => hretain call (hby call hcall))
      hfrozen
    rw [hmade]
    cases r₁ with
    | error e =>
      cases hrun
      exact ⟨made, rfl, fun hcall => ⟨⟨e, rfl⟩, hkept hcall⟩⟩
    | ok x =>
      refine ⟨made, ?_, fun hcall => ?_⟩
      · dsimp only at hrun ⊢
        rw [hf, hrun]
        rfl
      · obtain ⟨e, hfail⟩ := hrefuse x u (hkept hcall)
        cases hfail.symm.trans hrun
        exact ⟨⟨e, rfl⟩, hkept hcall⟩

end Yields

namespace Engine

variable {invoke : Invoke σ ε} {w : World σ}

theorem yields_apply (hfrozen : c.frozen = true)
    (hretain : ∀ call : Callback, call.By invoke w.natives → call.before.Retains call.after)
    (m : Mutation) : Yields g c (apply invoke g m) (apply invoke.logged g m) w := by
  refine .bind (.container g) fun c₀ u hu => ?_
  cases hu
  dsimp only
  by_cases hnow : (w.store.get g).frozen = true
  · rw [if_pos hnow, if_pos hnow]
    exact .of_silent (.bind (.report _ _ _ _) fun _ => .throw _)
  rw [if_neg hnow, if_neg hnow]
  refine .bind (silent_ofCheck _) fun _ u hu => ?_
  obtain rfl : u = w := by
    cases hcheck : ((w.store.get g).preflight m : Except (MutationError ε) Unit) with
    | error e =>
      rw [hcheck] at hu
      cases hu
    | ok _ =>
      rw [hcheck] at hu
      cases hu
      rfl
  refine .of_traces hfrozen (traces_govern invoke g _ m) (fun m' => ?_) (fun m' v hv => ?_) hretain
  · exact .bind (silent_commit g m') fun _ => .bind (.report _ _ _ _) fun _ => .pure _
  · refine ⟨.frozen, ?_⟩
    rw [Act.run_bind, run_commit_frozen hv hfrozen]

theorem yields_addRule (hfrozen : c.frozen = true)
    (hretain : ∀ call : Callback, call.By invoke w.natives → call.before.Retains call.after)
    (rule : Rule) : Yields g c (addRule invoke g rule) (addRule invoke.logged g rule) w := by
  refine .bind (.container g) fun c₀ u hu => ?_
  cases hu
  dsimp only
  by_cases hnow : (w.store.get g).frozen = true
  · rw [if_pos hnow, if_pos hnow]
    exact .of_silent (.throw _)
  rw [if_neg hnow, if_neg hnow]
  exact .of_traces hfrozen (traces_prepareRule invoke g rule) (silent_attachRule g rule)
    (fun news v hv => ⟨.frozen, run_attachRule_frozen hv hfrozen rule news⟩) hretain

end Engine

/-- The callbacks of an evaluator retain what is frozen. -/
theorem retains_callback {fuel : Nat} {natives : String → HostNative} (hhonest : Honest natives)
    {call : Callback} (h : call.By (callback (eval fuel)) natives) :
    call.before.Retains call.after := by
  have hcallback (callee : Value) (args : List Value) :
      Steps Regime.onward fun ev => callback ev callee args := .callback callee args
  obtain ⟨callee, args, w, r, v, hrun, rfl, hnatives⟩ := h
  refine ((hcallback callee args).rel fuel trivial hrun).retains ?_
  rw [hnatives fun callee args w r v hrun => ((hcallback callee args).rel fuel trivial hrun).natives]
  exact hhonest

/-- A container that is frozen stays as it is in every later state of an evaluator: its kind, its
nodes, its edges, its rules and the freezing itself. No change of it and no attachment of a rule is
made any more, and no rule is asked about it. A change or an attachment in one of whose callbacks
the container was frozen fails, and leaves the container as it was frozen. -/
theorem frozen_for_ever (hfrozen : c.frozen = true) :
    (∀ w v : Machine, Later w v → Honest w.natives → w.store.graphs[g]? = some c →
      v.store.graphs[g]? = some c) ∧
    (∀ (σ ε : Type) (w : World σ), w.store.graphs[g]? = some c →
      (∀ m, ∃ v, v.store = w.store ∧
        ∀ invoke : Invoke σ ε, Engine.apply invoke g m w = some (.error .frozen, v)) ∧
      ∀ (invoke : Invoke σ ε) rule, Engine.addRule invoke g rule w = some (.error .frozen, w)) ∧
    ∀ (fuel : Nat) (w : Machine), Honest w.natives →
      (∀ m, Yields g c (Engine.apply (callback (eval fuel)) g m)
        (Engine.apply (callback (eval fuel)).logged g m) w) ∧
      ∀ rule, Yields g c (Engine.addRule (callback (eval fuel)) g rule)
        (Engine.addRule (callback (eval fuel)).logged g rule) w := by
  refine ⟨fun w v hlater hhonest hc => ?_, fun σ ε w hc => ⟨fun m => ?_, ?_⟩,
    fun fuel w hhonest => ⟨?_, ?_⟩⟩
  · exact hlater.onward.retains hhonest g c hc hfrozen
  · exact ⟨_, w.noted_store .., fun invoke => Engine.run_apply_frozen hc hfrozen invoke m⟩
  · exact Engine.run_addRule_frozen hc hfrozen
  · exact Engine.yields_apply hfrozen fun call => retains_callback hhonest
  · exact Engine.yields_addRule hfrozen fun call => retains_callback hhonest

/-! ### A transform that freezes its own container -/

/-- Freezes the first container. -/
def sealFirst : String → HostNative := fun _ _ s => (.ok .nil, s.set 0 (s.get 0).freeze)

/-- A list whose incoming values are transformed by the procedure that freezes it. -/
def selfSealing : Container :=
  { Container.new .list with rules := [.transform (.custom "seal" (.native (.host "seal" none)))] }

/-- An evaluator with this list. -/
def sealing : Machine :=
  { World.evaluator ⟨false, 8, false⟩ .silent sealFirst with store := ⟨#[selfSealing], 0⟩ }

theorem honest_sealFirst : Honest sealFirst := by
  intro name args s g c hc hfrozen
  change (s.set 0 (s.get 0).freeze).graphs[g]? = some c
  by_cases hg : 0 = g
  · subst hg
    have hsame : c.freeze = c := by
      cases c
      cases hfrozen
      rfl
    rw [Store.get_of_getElem? hc, hsame, Store.set, Array.getElem?_setIfInBounds_self, if_pos]
    exact (Array.getElem?_eq_some_iff.1 hc).1
  · rw [Store.set, Array.getElem?_setIfInBounds_ne hg, hc]

/-- The insertion fails since its own transform freezes the list, which stays empty through a later
call of the procedure. From then on insertions are refused, whatever the callbacks would do. -/
theorem insert_sealing : ∃ v u,
    Engine.apply (callback (eval 0)) 0 (.insert .nil) sealing = some (.error .frozen, v) ∧
    v.store.graphs[0]? = some selfSealing.freeze ∧
    Later v u ∧ u.store.graphs[0]? = some selfSealing.freeze ∧
    ∃ t, ∀ invoke : Invoke Session String,
      Engine.apply invoke 0 (.insert .nil) u = some (.error .frozen, t) := by
  obtain ⟨hlater, hrefused, hyields⟩ := frozen_for_ever (g := 0) (c := selfSealing.freeze) rfl
  let v : Machine := { sealing with store := ⟨#[selfSealing.freeze], 0⟩ }
  have hinsert : Engine.apply (callback (eval 0)) 0 (.insert .nil) sealing =
      some (.error .frozen, v) := rfl
  obtain ⟨made, hmade, hfails⟩ := (hyields 0 sealing honest_sealFirst).1 (.insert .nil) _ _ hinsert
  have hv : v.store.graphs[0]? = some selfSealing.freeze := by
    refine (hfails ⟨⟨sealing.store, v.store⟩, ?_, rfl⟩).2
    have hlogged : Engine.apply (callback (eval 0)).logged 0 (.insert .nil) (sealing.logging []) =
        some (.error .frozen, v.logging [⟨sealing.store, v.store⟩]) := rfl
    have hmade' := congrArg (·.map (·.2.control.2)) (hlogged.symm.trans hmade)
    cases hmade'
    exact List.mem_singleton_self _
  have hcall : callBy (eval 0) (.native (.host "seal" none)) [] v = some (.ok .nil, v) := rfl
  have hvv : Later v v := .ends (.call _ _) hcall
  have hu := hlater v v hvv honest_sealFirst hv
  obtain ⟨t, -, ht⟩ := (hrefused Session String v hu).1 (.insert .nil)
  exact ⟨v, v, hinsert, hv, hvv, hu, t, ht⟩

end GraphLang
