import GraphLang.Proofs.Flight.Basic

/-!
# Exceptions in governed changes

An exception that leaves a callback ends the change under whose rules it was called. The callbacks
of transforms pass it on; what the predicate of a validation raises counts as a refusal, which
quotes it.
-/

namespace GraphLang

open Eval

open Container (Applied)

variable {ε α β : Type} {scope : ScopeId}

/-- The place is a call that a rule makes. -/
def Eval.Place.IsCallback (p : Place) : Prop := ∃ f args, p = .call f args none

namespace Flight

/-- A callback ends with the exception. -/
def Returns (q : Flight) (r : Except (InvokeError ε) Value) (v : Machine) : Prop :=
  q.place.IsCallback ∧ r = .error (.raised q.raised) ∧ v = q.landed

/-- Why a predicate that raised the exception refuses a change. -/
def reason (q : Flight) : Rejection :=
  .predicateRaised (q.landed.store.display q.raised.exception)

/-- A change fails with the exception of a callback, or is refused by a predicate that raised it. -/
def Fails (q : Flight) (r : Except (MutationError ε) α) (_ : Machine) : Prop :=
  q.place.IsCallback ∧ ∃ rule, r = .error (.transformRaised rule q.raised) ∨
    r = .error (.validationFailed rule (some q.reason))

end Flight

namespace Conveys

/-- What a change fails with is passed on. -/
theorem andThen {a : Evaluator → Act Session (MutationError ε) α}
    {f : Evaluator → α → Act Session (MutationError ε) β} (ha : Conveys scope Flight.Fails a)
    (hf : ∀ x, Conveys scope Flight.Fails fun ev => f ev x) :
    Conveys scope Flight.Fails fun ev => a ev >>= f ev := by
  refine ha.bind hf ?_ ?_
  · rintro q e v ⟨hq, rule, he | he⟩
    · cases he
      exact ⟨hq, rule, Or.inl rfl⟩
    · cases he
      exact ⟨hq, rule, Or.inr rfl⟩
  · rintro q x v ⟨-, rule, hx | hx⟩
    · cases hx
    · cases hx

theorem map (g : α → β) {a : Evaluator → Act Session (MutationError ε) α}
    (ha : Conveys scope Flight.Fails a) : Conveys scope Flight.Fails fun ev => g <$> a ev := by
  simp only [map_eq_pure_bind]
  exact ha.andThen fun x => .of_const (.pure (g x))

theorem forM {f : Evaluator → α → Act Session (MutationError ε) PUnit} (xs : List α)
    (h : ∀ x, Conveys scope Flight.Fails fun ev => f ev x) :
    Conveys scope Flight.Fails fun ev => xs.forM (f ev) := by
  induction xs with
  | nil => exact .of_const (.pure _)
  | cons x xs ih => exact (h x).andThen fun _ => ih

end Conveys

namespace Engine

/-! ### Writes -/

theorem settles_ofCheck (x : Except (MutationError ε) α) :
    Settles scope fun _ => (ofCheck x : Act Session (MutationError ε) α) := by
  cases x with
  | ok a => exact .pure a
  | error e => exact .throw e

theorem settles_write (g : GraphId) {step : Container → Except ContainerError (α × Container)}
    (h : ∀ {c p}, step c = .ok p → c.frozen = false ∧ p.2.frozen = false) :
    Settles scope fun _ => (write g step : Act Session (MutationError ε) α) := by
  refine .of_const (steps_write g h) fun {w r v} hw hrun => ?_
  unfold write at hrun
  rw [Act.run_bind, Act.run_container] at hrun
  dsimp only at hrun
  cases hstep : step (w.store.get g) with
  | error cause =>
    rw [hstep] at hrun
    cases hrun
    exact hw.refl
  | ok p =>
    rw [hstep] at hrun
    cases hrun
    exact .of_eq hw.tidy rfl rfl

theorem settles_commit (g : GraphId) (m : Mutation) :
    Settles scope fun _ => (commit g m : Act Session (MutationError ε) Applied) := by
  refine .bind (.container g) fun c => ?_
  dsimp only
  by_cases hfrozen : c.frozen = true
  · simp only [if_pos hfrozen]
    exact .throw _
  simp only [if_neg hfrozen]
  refine .bind (settles_ofCheck _) fun _ => ?_
  cases m with
  | insert value => exact .map _ (settles_write g Container.mutable_of_addMember)
  | set index value =>
    exact .bind (settles_ofCheck _) fun n =>
      .map _ (settles_write g Container.mutable_of_setValue)
  | put key value =>
    dsimp only
    cases c.entryNode? key with
    | some n => exact .map _ (settles_write g Container.mutable_of_setValue)
    | none => exact .map _ (settles_write g Container.mutable_of_addMember)
  | remove target =>
    cases target with
    | node n => exact .map _ (settles_write g Container.mutable_of_removeNode)
    | _ =>
      exact .bind (settles_ofCheck _) fun n =>
        .map _ (settles_write g Container.mutable_of_removeNode)
  | addMember value parent =>
    refine .bind (settles_write g Container.mutable_of_addMember) fun n => ?_
    cases parent with
    | none => exact .pure _
    | some link => exact .map _ (settles_write g Container.mutable_of_addEdge)
  | link source target name data => exact .map _ (settles_write g Container.mutable_of_addEdge)

theorem settles_refuse (v : Validation) (reason : Option Rejection) :
    Settles scope fun _ => (refuse v reason : Act Session (MutationError ε) α) :=
  .bind (.report _ _ _ _) fun _ => .throw _

theorem settles_rejectMixed (g : GraphId) (rule : Rule) (value : Value) :
    Settles scope fun _ => (rejectMixed g rule value : Act Session (MutationError ε) Unit) := by
  cases value with
  | graph inner =>
    refine .bind .store fun s => ?_
    dsimp only
    split
    · exact .pure _
    · exact .bind (.report _ _ _ _) fun _ => .throw _
  | _ => exact .pure _

theorem settles_unfrozenCopy (value : Value) :
    Settles scope fun _ => (unfrozenCopy value : Act Session (MutationError ε) Value) := by
  refine .of_const (steps_unfrozenCopy value) fun {w r v} hw hrun => ?_
  cases value with
  | graph g =>
    cases hrun
    exact .of_eq hw.tidy rfl rfl
  | _ =>
    cases hrun
    exact hw.refl

theorem settles_writeAll (g : GraphId) (news : List (Nat × Value)) :
    Settles scope fun _ => (writeAll g news : Act Session (MutationError ε) Unit) := by
  induction news with
  | nil => exact .pure _
  | cons x news ih =>
    refine .bind (.container g) fun c => ?_
    split
    · exact .bind (.map _ (settles_write g Container.mutable_of_setValue)) fun _ => ih
    · exact ih

theorem settles_attachRule (g : GraphId) (rule : Rule) (news : List (Nat × Value)) :
    Settles scope fun _ => (attachRule g rule news : Act Session (MutationError ε) Unit) := by
  refine .bind (.container g) fun c => ?_
  dsimp only
  by_cases hfrozen : c.frozen = true
  · simp only [if_pos hfrozen]
    exact .throw _
  simp only [if_neg hfrozen]
  refine .bind (settles_writeAll g news) fun _ => .bind (.container g) fun c' => ?_
  exact .bind (.report _ _ _ _) fun _ => settles_write g Container.mutable_of_pushRule

theorem settles_freeze (g : GraphId) :
    Settles scope fun _ => (freeze g : Act Session (MutationError ε) Unit) := by
  have hfreeze {w : Machine} (hw : LiveAt scope w) :
      Stays w (World.noted { w with store := w.store.set g (w.store.get g).freeze } .debug target
        "graph frozen" fun _ => []) :=
    .of_eq hw.tidy (by rw [World.noted_control]) (by rw [World.noted_control])
  refine .of_const (steps_freeze g) fun {w r v} hw hrun => ?_
  unfold freeze at hrun
  rw [Act.run_bind, Act.run_store] at hrun
  dsimp only at hrun
  split at hrun
  · cases hrun
    exact hw.refl
  cases hmixed : mixedRule? (w.store.get g) with
  | none =>
    rw [hmixed] at hrun
    cases hrun
    exact hfreeze hw
  | some rule =>
    rw [hmixed] at hrun
    dsimp only at hrun
    split at hrun
    · cases hrun
      exact hw.refl
    · cases hrun
      exact hfreeze hw

/-! ### Callbacks -/

section Callbacks

variable {invoke : Evaluator → Invoke Session ε}
  (h : ∀ callee args, Conveys scope Flight.Returns fun ev => invoke ev callee args)

include h

/-- What a predicate raises is quoted in its refusal. -/
theorem conveys_ask (callee value : Value) :
    Conveys scope
      (fun q r _ => q.place.IsCallback ∧ r = .ok (.refused (some q.reason)))
      fun ev => ask (invoke ev) callee value := by
  refine (h callee [value]).attempt.bind (fun r => .of_const ?_) ?_ ?_
  · cases r with
    | ok result => exact .bind .store fun s => .pure _
    | error e =>
      cases e with
      | raised r => exact .bind .store fun s => .pure _
      | fatal cause => exact .pure _
  · rintro q e v ⟨-, ⟨⟩, -⟩
  · rintro q x v ⟨-, ⟨⟩, hq, rfl, rfl⟩ ev
    exact ⟨_, _, rfl, hq, rfl⟩

theorem conveys_validate (g : GraphId) (v : Validation) (m : Mutation) :
    Conveys scope Flight.Fails fun ev => validate (invoke ev) g v m := by
  cases v with
  | predicate name callee =>
    unfold validate
    cases m.incoming? with
    | none => exact .of_const (.pure _)
    | some value =>
      refine (conveys_ask h callee value).bind (fun verdict => .of_const ?_) ?_ ?_
      · cases verdict with
        | holds => exact .pure _
        | refused reason => exact settles_refuse _ reason
        | aborted cause => exact .throw _
      · rintro q e v ⟨-, ⟨⟩⟩
      · rintro q x v ⟨hq, ⟨⟩⟩ ev
        exact ⟨_, _, rfl, hq, _, Or.inr rfl⟩
  | _ =>
    refine .const_bind .store fun s => ?_
    generalize Validation.check _ s (s.get g) m = verdict
    cases verdict with
    | ok _ => exact .of_const (.pure _)
    | error reason => exact .of_const (settles_refuse _ _)

theorem conveys_consult (g : GraphId) (m : Mutation) (rule : Rule) :
    Conveys scope Flight.Fails fun ev => consult (invoke ev) g m rule := by
  cases rule with
  | validate v => exact conveys_validate h g v m
  | freeze f =>
    cases f with
    | rejectMixed =>
      unfold consult
      cases m.incoming? with
      | none => exact .of_const (.pure _)
      | some value => exact .of_const (settles_rejectMixed g _ value)
    | copyElements => exact .of_const (.pure _)
  | _ => exact .of_const (.pure _)

/-- What a transform raises is passed on. -/
theorem conveys_runTransform (r : Transform) (value : Value) :
    Conveys scope Flight.Fails fun ev => runTransform (invoke ev) r value := by
  cases r with
  | custom name callee =>
    refine (h callee [value]).attempt.bind (fun r => .of_const ?_) ?_ ?_
    · cases r with
      | ok result => exact .pure _
      | error e =>
        cases e with
        | raised raised => exact .bind (.report _ _ _ _) fun _ => .throw _
        | fatal cause => exact .throw _
    · rintro q e v ⟨-, ⟨⟩, -⟩
    · rintro q x v ⟨-, ⟨⟩, hq, rfl, rfl⟩ ev
      exact ⟨_, _, rfl, hq, _, Or.inl rfl⟩
  | _ =>
    refine .const_bind .store fun s => ?_
    generalize Transform.apply _ s value = result
    cases result with
    | ok result => exact .of_const (.pure _)
    | error cause => exact .of_const (.throw _)

theorem conveys_transform (rule : Rule) (value : Value) :
    Conveys scope Flight.Fails fun ev => transform (invoke ev) rule value := by
  cases rule with
  | transform r => exact conveys_runTransform h r value
  | conditional predicate whenTrue whenFalse =>
    refine (h predicate [value]).attempt.bind (fun r => ?_) ?_ ?_
    · cases r with
      | ok result =>
        refine .const_bind .store fun s => ?_
        split
        · exact conveys_runTransform h whenTrue value
        · cases whenFalse with
          | none => exact .of_const (.pure _)
          | some r => exact conveys_runTransform h r value
      | error e =>
        cases e with
        | raised raised => exact .const_bind .store fun s => .of_const (.throw _)
        | fatal cause => exact .of_const (.throw _)
    · rintro q e v ⟨-, ⟨⟩, -⟩
    · rintro q x v ⟨-, ⟨⟩, hq, rfl, rfl⟩ ev
      exact ⟨_, _, rfl, hq, _, Or.inl rfl⟩
  | freeze f =>
    cases f with
    | rejectMixed => exact .of_const (.pure _)
    | copyElements => exact .of_const (settles_unfrozenCopy value)
  | validate v => exact .of_const (.pure _)

theorem conveys_transformAll (rules : List Rule) (value : Value) :
    Conveys scope Flight.Fails fun ev => transformAll (invoke ev) rules value := by
  induction rules generalizing value with
  | nil => exact .of_const (.pure _)
  | cons rule rules ih => exact (conveys_transform h rule value).andThen fun x => ih x

theorem conveys_govern (g : GraphId) (rules : List Rule) (m : Mutation) :
    Conveys scope Flight.Fails fun ev => govern (invoke ev) g rules m := by
  refine .andThen (.forM rules (conveys_consult h g m)) fun _ => ?_
  cases m.incoming? with
  | none => exact .of_const (.pure _)
  | some value => exact (conveys_transformAll h _ value).map _

/-- A governed change. -/
theorem conveys_apply (g : GraphId) (m : Mutation) :
    Conveys scope Flight.Fails fun ev => apply (invoke ev) g m := by
  refine .const_bind (.container g) fun c => ?_
  dsimp only
  by_cases hfrozen : c.frozen = true
  · simp only [if_pos hfrozen]
    exact .of_const (.bind (.report _ _ _ _) fun _ => .throw _)
  simp only [if_neg hfrozen]
  refine .const_bind (settles_ofCheck _) fun _ => (conveys_govern h g c.rules m).andThen fun m' => ?_
  exact .of_const (.bind (settles_commit g m') fun a => .bind (.report _ _ _ _) fun _ => .pure a)

theorem conveys_updates (rule : Rule) (members : List (Nat × Value)) :
    Conveys scope Flight.Fails fun ev => updates (invoke ev) rule members := by
  induction members with
  | nil => exact .of_const (.pure _)
  | cons member members ih =>
    exact (conveys_transform h rule member.2).andThen fun x => ih.andThen fun others =>
      .of_const (.pure _)

theorem conveys_askMembers (x : Validation) (callee : Value) (values : List Value) :
    Conveys scope Flight.Fails fun ev => askMembers (invoke ev) x callee values := by
  induction values with
  | nil => exact .of_const (.pure _)
  | cons value values ih =>
    refine (conveys_ask h callee value).bind (fun verdict => ?_) ?_ ?_
    · cases verdict with
      | holds => exact ih
      | refused reason =>
        cases reason with
        | some reason => exact .of_const (.throw _)
        | none => exact .const_bind .store fun s => .of_const (.throw _)
      | aborted cause => exact .of_const (.throw _)
    · rintro q e v ⟨-, ⟨⟩⟩
    · rintro q x v ⟨hq, ⟨⟩⟩ ev
      exact ⟨_, _, rfl, hq, _, Or.inr rfl⟩

theorem conveys_prepareRule (g : GraphId) (rule : Rule) :
    Conveys scope Flight.Fails fun ev => prepareRule (invoke ev) g rule := by
  refine .const_bind .store fun s => ?_
  cases rule with
  | validate v =>
    cases v with
    | predicate name callee =>
      exact (conveys_askMembers h _ callee _).andThen fun _ => .of_const (.pure _)
    | _ =>
      dsimp only
      generalize Validation.checkNow _ s (s.get g) = verdict
      cases verdict with
      | ok _ => exact .of_const (.pure _)
      | error reason => exact .of_const (.throw _)
  | freeze f =>
    cases f with
    | rejectMixed =>
      exact .of_const (.bind (.forM _ (settles_rejectMixed g _)) fun _ => .pure _)
    | copyElements => exact conveys_updates h _ _
  | _ => exact conveys_updates h _ _

/-- The attachment of a rule. -/
theorem conveys_addRule (g : GraphId) (rule : Rule) :
    Conveys scope Flight.Fails fun ev => addRule (invoke ev) g rule := by
  refine .const_bind (.container g) fun c => ?_
  dsimp only
  by_cases hfrozen : c.frozen = true
  · simp only [if_pos hfrozen]
    exact .of_const (.throw _)
  simp only [if_neg hfrozen]
  exact (conveys_prepareRule h g rule).andThen fun news =>
    .of_const (settles_attachRule g rule news)

theorem conveys_addRules (g : GraphId) (rules : List Rule) :
    Conveys scope Flight.Fails fun ev => addRules (invoke ev) g rules := by
  induction rules with
  | nil => exact .of_const (.pure _)
  | cons rule rules ih => exact (conveys_addRule h g rule).andThen fun _ => ih

theorem conveys_applyRuleset (g : GraphId) (set : Ruleset) :
    Conveys scope Flight.Fails fun ev => applyRuleset (invoke ev) g set :=
  .const_bind (.report _ _ _ _) fun _ => conveys_addRules h g set.rules

end Callbacks

end Engine

end GraphLang
