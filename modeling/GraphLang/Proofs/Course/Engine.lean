import GraphLang.Proofs.Container.Primitives
import GraphLang.Proofs.Course.Basic
import GraphLang.Proofs.Store.Copying

/-!
# The courses of governed changes

Rules are asked and changes are made in steps that leave frozen containers as they are: every write
looks first whether its container is frozen.
-/

namespace GraphLang

open Container (Applied)

variable {R : Regime} {ε α : Type}

namespace Container

variable {c : Container}

/-! ### Writes need a container that is not frozen, and leave it so -/

theorem mutable_of_addMember {label : Label} {value : Value} {p : Nat × Container}
    (h : c.addMember label value = .ok p) : c.frozen = false ∧ p.2.frozen = false := by
  obtain ⟨hmutable, h⟩ := ensureMutable_bind h
  cases h
  exact ⟨hmutable, hmutable⟩

theorem mutable_of_addEdge {source target : Nat} {label : Label} {data : Option Value}
    {p : Nat × Container} (h : c.addEdge source target label data = .ok p) :
    c.frozen = false ∧ p.2.frozen = false := by
  obtain ⟨hmutable, h⟩ := ensureMutable_bind h
  unfold ensureNode at h
  split at h
  · split at h
    · cases h
      exact ⟨hmutable, hmutable⟩
    · cases h
  · cases h

theorem mutable_of_setValue {n : Nat} {value : Value} {p : Value × Container}
    (h : c.setValue n value = .ok p) : c.frozen = false ∧ p.2.frozen = false := by
  obtain ⟨hmutable, h⟩ := ensureMutable_bind h
  split at h
  · cases h
  · cases h
    exact ⟨hmutable, hmutable⟩

theorem mutable_of_removeNode {n : Nat} {p : Value × Container} (h : c.removeNode n = .ok p) :
    c.frozen = false ∧ p.2.frozen = false := by
  obtain ⟨hmutable, h⟩ := ensureMutable_bind h
  split at h
  · cases h
  · split at h
    · cases h
    · cases h
      exact ⟨hmutable, hmutable⟩

theorem mutable_of_pushRule {rule : Rule} {p : Unit × Container}
    (h : (c.pushRule rule).map (fun c => ((), c)) = .ok p) :
    c.frozen = false ∧ p.2.frozen = false := by
  cases hpush : c.pushRule rule with
  | error e =>
    rw [hpush] at h
    cases h
  | ok c' =>
    rw [hpush] at h
    obtain ⟨hmutable, hpushed⟩ := ensureMutable_bind hpush
    cases h
    cases hpushed
    exact ⟨hmutable, hmutable⟩

end Container

/-- A deep copy comes with copies of other containers, and none of these nor itself is frozen. -/
theorem Store.exists_deepCopy (s : Store) (c : Container) :
    ∃ copies : Array Container, (s.deepCopy c).2.graphs = s.graphs ++ copies ∧
      (s.deepCopy c).1.frozen = false ∧ ∀ d ∈ copies, d.frozen = false := by
  rw [deepCopy_eq]
  refine ⟨_, rfl, rfl, fun d hd => ?_⟩
  obtain ⟨g, -, rfl⟩ := List.mem_map.1 (Array.mem_toList_iff.2 hd)
  rfl

namespace Engine

theorem steps_ofCheck (x : Except (MutationError ε) α) :
    Steps R fun _ => (ofCheck x : Act Session (MutationError ε) α) := by
  cases x with
  | ok a => exact .pure a
  | error e => exact .throw e

/-- A write that a frozen container refuses. -/
theorem steps_write (g : GraphId) {step : Container → Except ContainerError (α × Container)}
    (h : ∀ {c p}, step c = .ok p → c.frozen = false ∧ p.2.frozen = false) :
    Steps R fun _ => (write g step : Act Session (MutationError ε) α) := by
  refine .of_step fun w hw => ?_
  unfold write
  rw [Act.run_bind, Act.run_container]
  dsimp only
  cases hstep : step (w.store.get g) with
  | error cause => exact ⟨_, w, rfl, R.refl hw⟩
  | ok p => exact ⟨_, _, rfl, R.withStore hw (.set (h hstep).1 (h hstep).2)⟩

theorem steps_commit (g : GraphId) (m : Mutation) :
    Steps R fun _ => (commit g m : Act Session (MutationError ε) Applied) := by
  refine .bind (.container g) fun c => ?_
  dsimp only
  by_cases hfrozen : c.frozen = true
  · simp only [if_pos hfrozen]
    exact .throw _
  simp only [if_neg hfrozen]
  refine .bind (steps_ofCheck _) fun _ => ?_
  cases m with
  | insert value => exact .map _ (steps_write g Container.mutable_of_addMember)
  | set index value =>
    exact .bind (steps_ofCheck _) fun n => .map _ (steps_write g Container.mutable_of_setValue)
  | put key value =>
    dsimp only
    cases c.entryNode? key with
    | some n => exact .map _ (steps_write g Container.mutable_of_setValue)
    | none => exact .map _ (steps_write g Container.mutable_of_addMember)
  | remove target =>
    cases target with
    | node n => exact .map _ (steps_write g Container.mutable_of_removeNode)
    | _ =>
      exact .bind (steps_ofCheck _) fun n => .map _ (steps_write g Container.mutable_of_removeNode)
  | addMember value parent =>
    refine .bind (steps_write g Container.mutable_of_addMember) fun n => ?_
    cases parent with
    | none => exact .pure _
    | some link => exact .map _ (steps_write g Container.mutable_of_addEdge)
  | link source target name data => exact .map _ (steps_write g Container.mutable_of_addEdge)

theorem steps_refuse (v : Validation) (reason : Option Rejection) :
    Steps R fun _ => (refuse v reason : Act Session (MutationError ε) α) :=
  .bind (.report _ _ _ _) fun _ => .throw _

theorem steps_rejectMixed (g : GraphId) (rule : Rule) (value : Value) :
    Steps R fun _ => (rejectMixed g rule value : Act Session (MutationError ε) Unit) := by
  cases value with
  | graph inner =>
    refine .bind .store fun s => ?_
    dsimp only
    split
    · exact .pure _
    · exact .bind (.report _ _ _ _) fun _ => .throw _
  | _ => exact .pure _

/-- A copy takes new containers only, and none of them is frozen. -/
theorem steps_unfrozenCopy (value : Value) :
    Steps R fun _ => (unfrozenCopy value : Act Session (MutationError ε) Value) := by
  cases value with
  | graph g =>
    refine .of_step fun w hw => ⟨_, _, rfl, R.withStore hw ?_⟩
    obtain ⟨copies, hcopies, hcopy, hmutable⟩ := w.store.exists_deepCopy (w.store.get g)
    refine .append (copies.push (w.store.deepCopy (w.store.get g)).1) ?_ ?_
    · rw [Array.append_push, ← hcopies]
      rfl
    · intro c hc
      rcases Array.mem_push.1 hc with hc | rfl
      · exact hmutable c hc
      · exact hcopy
  | _ => exact .pure _

theorem steps_writeAll (g : GraphId) (news : List (Nat × Value)) :
    Steps R fun _ => (writeAll g news : Act Session (MutationError ε) Unit) := by
  induction news with
  | nil => exact .pure _
  | cons x news ih =>
    refine .bind (.container g) fun c => ?_
    split
    · exact .bind (.map _ (steps_write g Container.mutable_of_setValue)) fun _ => ih
    · exact ih

theorem steps_attachRule (g : GraphId) (rule : Rule) (news : List (Nat × Value)) :
    Steps R fun _ => (attachRule g rule news : Act Session (MutationError ε) Unit) := by
  refine .bind (.container g) fun c => ?_
  dsimp only
  by_cases hfrozen : c.frozen = true
  · simp only [if_pos hfrozen]
    exact .throw _
  simp only [if_neg hfrozen]
  refine .bind (steps_writeAll g news) fun _ => .bind (.container g) fun c' => ?_
  exact .bind (.report _ _ _ _) fun _ => steps_write g Container.mutable_of_pushRule

section Callbacks

variable {invoke : Evaluator → Invoke Session ε}
  (h : ∀ callee args, Steps R fun ev => invoke ev callee args)

include h

theorem steps_ask (callee value : Value) : Steps R fun ev => ask (invoke ev) callee value := by
  refine (h callee [value]).attempt.bind fun r => ?_
  cases r with
  | ok result => exact .bind .store fun s => .pure _
  | error e =>
    cases e with
    | raised r => exact .bind .store fun s => .pure _
    | fatal cause => exact .pure _

theorem steps_validate (g : GraphId) (v : Validation) (m : Mutation) :
    Steps R fun ev => validate (invoke ev) g v m := by
  cases v with
  | predicate name callee =>
    unfold validate
    cases m.incoming? with
    | none => exact .pure _
    | some value =>
      refine (steps_ask h callee value).bind fun verdict => ?_
      cases verdict with
      | holds => exact .pure _
      | refused reason => exact steps_refuse _ reason
      | aborted cause => exact .throw _
  | _ =>
    refine .bind .store fun s => ?_
    generalize Validation.check _ s (s.get g) m = verdict
    cases verdict with
    | ok _ => exact .pure _
    | error reason => exact steps_refuse _ _

theorem steps_consult (g : GraphId) (m : Mutation) (rule : Rule) :
    Steps R fun ev => consult (invoke ev) g m rule := by
  cases rule with
  | validate v => exact steps_validate h g v m
  | freeze f =>
    cases f with
    | rejectMixed =>
      unfold consult
      cases m.incoming? with
      | none => exact .pure _
      | some value => exact steps_rejectMixed g _ value
    | copyElements => exact .pure _
  | _ => exact .pure _

theorem steps_runTransform (r : Transform) (value : Value) :
    Steps R fun ev => runTransform (invoke ev) r value := by
  cases r with
  | custom name callee =>
    refine (h callee [value]).attempt.bind fun r => ?_
    cases r with
    | ok result => exact .pure _
    | error e =>
      cases e with
      | raised raised => exact .bind (.report _ _ _ _) fun _ => .throw _
      | fatal cause => exact .throw _
  | _ =>
    refine .bind .store fun s => ?_
    generalize Transform.apply _ s value = result
    cases result with
    | ok result => exact .pure _
    | error cause => exact .throw _

theorem steps_transform (rule : Rule) (value : Value) :
    Steps R fun ev => transform (invoke ev) rule value := by
  cases rule with
  | transform r => exact steps_runTransform h r value
  | conditional predicate whenTrue whenFalse =>
    refine (h predicate [value]).attempt.bind fun r => ?_
    cases r with
    | ok result =>
      refine .bind .store fun s => ?_
      split
      · exact steps_runTransform h whenTrue value
      · cases whenFalse with
        | none => exact .pure _
        | some r => exact steps_runTransform h r value
    | error e =>
      cases e with
      | raised raised => exact .bind .store fun s => .throw _
      | fatal cause => exact .throw _
  | freeze f =>
    cases f with
    | rejectMixed => exact .pure _
    | copyElements => exact steps_unfrozenCopy value
  | validate v => exact .pure _

theorem steps_transformAll (rules : List Rule) (value : Value) :
    Steps R fun ev => transformAll (invoke ev) rules value := by
  induction rules generalizing value with
  | nil => exact .pure _
  | cons rule rules ih => exact (steps_transform h rule value).bind fun x => ih x

theorem steps_govern (g : GraphId) (rules : List Rule) (m : Mutation) :
    Steps R fun ev => govern (invoke ev) g rules m := by
  refine .bind (.forM rules (steps_consult h g m)) fun _ => ?_
  cases m.incoming? with
  | none => exact .pure _
  | some value => exact (steps_transformAll h _ value).map _

/-- A governed change. -/
theorem steps_apply (g : GraphId) (m : Mutation) : Steps R fun ev => apply (invoke ev) g m := by
  refine .bind (.container g) fun c => ?_
  dsimp only
  by_cases hfrozen : c.frozen = true
  · simp only [if_pos hfrozen]
    exact .bind (.report _ _ _ _) fun _ => .throw _
  simp only [if_neg hfrozen]
  refine .bind (steps_ofCheck _) fun _ => (steps_govern h g c.rules m).bind fun m' => ?_
  exact .bind (steps_commit g m') fun a => .bind (.report _ _ _ _) fun _ => .pure a

theorem steps_updates (rule : Rule) (members : List (Nat × Value)) :
    Steps R fun ev => updates (invoke ev) rule members := by
  induction members with
  | nil => exact .pure _
  | cons member members ih =>
    exact (steps_transform h rule member.2).bind fun x => ih.bind fun others => .pure _

theorem steps_askMembers (x : Validation) (callee : Value) (values : List Value) :
    Steps R fun ev => askMembers (invoke ev) x callee values := by
  induction values with
  | nil => exact .pure _
  | cons value values ih =>
    refine (steps_ask h callee value).bind fun verdict => ?_
    cases verdict with
    | holds => exact ih
    | refused reason =>
      cases reason with
      | some reason => exact .throw _
      | none => exact .bind .store fun s => .throw _
    | aborted cause => exact .throw _

theorem steps_prepareRule (g : GraphId) (rule : Rule) :
    Steps R fun ev => prepareRule (invoke ev) g rule := by
  refine .bind .store fun s => ?_
  cases rule with
  | validate v =>
    cases v with
    | predicate name callee => exact (steps_askMembers h _ callee _).bind fun _ => .pure _
    | _ =>
      dsimp only
      generalize Validation.checkNow _ s (s.get g) = verdict
      cases verdict with
      | ok _ => exact .pure _
      | error reason => exact .throw _
  | freeze f =>
    cases f with
    | rejectMixed => exact .bind (.forM _ (steps_rejectMixed g _)) fun _ => .pure _
    | copyElements => exact steps_updates h _ _
  | _ => exact steps_updates h _ _

/-- The attachment of a rule. -/
theorem steps_addRule (g : GraphId) (rule : Rule) : Steps R fun ev => addRule (invoke ev) g rule := by
  refine .bind (.container g) fun c => ?_
  dsimp only
  by_cases hfrozen : c.frozen = true
  · simp only [if_pos hfrozen]
    exact .throw _
  simp only [if_neg hfrozen]
  exact (steps_prepareRule h g rule).bind fun news => steps_attachRule g rule news

theorem steps_addRules (g : GraphId) (rules : List Rule) :
    Steps R fun ev => addRules (invoke ev) g rules := by
  induction rules with
  | nil => exact .pure _
  | cons rule rules ih => exact (steps_addRule h g rule).bind fun _ => ih

theorem steps_applyRuleset (g : GraphId) (set : Ruleset) :
    Steps R fun ev => applyRuleset (invoke ev) g set :=
  .bind (.report _ _ _ _) fun _ => steps_addRules h g set.rules

end Callbacks

/-- A container is frozen once. -/
theorem steps_freeze (g : GraphId) :
    Steps R fun _ => (freeze g : Act Session (MutationError ε) Unit) := by
  have hfreeze {w : Machine} (hw : R.inv w) (hmutable : (w.store.get g).frozen = false)
      (hmixed : ∀ rule, mixedRule? (w.store.get g) = some rule →
        (w.store.get g).memberValues.any (isUnfrozenOther w.store g) = false) :
      ∃ r v, (do
        Act.setContainer g (w.store.get g).freeze
        Act.report .debug target "graph frozen" fun _ => [] : Act Session (MutationError ε) Unit) w =
          some (r, v) ∧ R.rel w v := by
    have hset : R.rel w (w.withStore (w.store.set g (w.store.get g).freeze)) :=
      R.withStore hw (.freeze hmutable hmixed)
    exact ⟨.ok (), _, rfl,
      R.trans hset (R.noted (R.holds hset) .debug target "graph frozen" fun _ => [])⟩

  refine .of_step fun w hw => ?_
  unfold freeze
  rw [Act.run_bind, Act.run_store]
  dsimp only
  by_cases hfrozen : (w.store.get g).frozen = true
  · rw [if_pos hfrozen]
    exact ⟨_, w, rfl, R.refl hw⟩
  rw [if_neg hfrozen]
  have hmutable : (w.store.get g).frozen = false := by simpa using hfrozen
  cases hrule : mixedRule? (w.store.get g) with
  | none => exact hfreeze hw hmutable fun rule h => by simp [hrule] at h
  | some rule =>
    dsimp only
    split
    · exact ⟨_, w, rfl, R.refl hw⟩
    · rename_i hmixed
      exact hfreeze hw hmutable fun _ _ => by simpa using hmixed

end Engine

end GraphLang
