import GraphLang.Proofs.Rule.Writes

/-!
# Failed changes write nothing

Where a change or the attachment of a rule fails, every container is as the callbacks left it.
-/

namespace GraphLang

variable {σ ε ε₁ α β : Type}

/-! ### Actions that make no callbacks -/

/-- The second action does what the first one does, and no callback is written down. -/
def Silent (a : Act σ ε₁ α) (a' : Act (σ × List Callback) ε₁ α) : Prop :=
  ∀ w log, a' (w.logging log) = (a w).map fun p => (p.1, p.2.logging log)

namespace Silent

variable {a : Act σ ε₁ α} {a' : Act (σ × List Callback) ε₁ α}

theorem pure (x : α) : Silent (Pure.pure x : Act σ ε₁ α) (Pure.pure x) := fun _ _ => rfl

theorem throw (e : ε₁) : Silent (MonadExcept.throw e : Act σ ε₁ α) (MonadExcept.throw e) :=
  fun _ _ => rfl

theorem container (g : GraphId) : Silent (Act.container g : Act σ ε₁ Container) (Act.container g) :=
  fun _ _ => rfl

theorem report (level : Level) (target message : String)
    (fields : Store → List (String × String)) :
    Silent (Act.report level target message fields : Act σ ε₁ Unit)
      (Act.report level target message fields) := by
  intro w log
  rw [Act.run_report, Act.run_report, w.noted_logging]
  rfl

theorem bind {f : α → Act σ ε₁ β} {f' : α → Act (σ × List Callback) ε₁ β} (ha : Silent a a')
    (hf : ∀ x, Silent (f x) (f' x)) : Silent (a >>= f) (a' >>= f') := by
  intro w log
  rw [Act.run_bind, Act.run_bind, ha w log]
  cases a w with
  | none => rfl
  | some p =>
    obtain ⟨r, v⟩ := p
    cases r with
    | error e => rfl
    | ok x => exact hf x v log

theorem map (f : α → β) (ha : Silent a a') : Silent (f <$> a) (f <$> a') := by
  rw [map_eq_pure_bind, map_eq_pure_bind]
  exact ha.bind fun x => .pure (f x)

end Silent

namespace Engine

theorem silent_ofCheck (x : Except (MutationError ε) α) :
    Silent (ofCheck x : Act σ (MutationError ε) α) (ofCheck x) := by
  cases x with
  | ok a => exact .pure a
  | error e => exact .throw e

theorem silent_write (g : GraphId) (step : Container → Except ContainerError (α × Container)) :
    Silent (write g step : Act σ (MutationError ε) α) (write g step) := by
  refine .bind (.container g) fun c => ?_
  cases step c with
  | ok p => exact .bind (fun _ _ => rfl) fun _ => .pure _
  | error cause => exact .throw _

theorem silent_commit (g : GraphId) (m : Mutation) :
    Silent (commit g m : Act σ (MutationError ε) Container.Applied) (commit g m) := by
  refine .bind (.container g) fun c => ?_
  dsimp only
  by_cases hfrozen : c.frozen = true
  · rw [if_pos hfrozen, if_pos hfrozen]
    exact fun _ _ => rfl
  rw [if_neg hfrozen, if_neg hfrozen]
  refine .bind (silent_ofCheck _) fun _ => ?_
  cases m with
  | insert value => exact .map _ (silent_write g _)
  | set index value => exact .bind (silent_ofCheck _) fun n => .map _ (silent_write g _)
  | put key value =>
    dsimp only
    split <;> exact .map _ (silent_write g _)
  | remove target =>
    cases target with
    | node n => exact .map _ (silent_write g _)
    | _ => exact .bind (silent_ofCheck _) fun n => .map _ (silent_write g _)
  | addMember value parent =>
    refine .bind (silent_write g _) fun n => ?_
    cases parent with
    | none => exact .pure _
    | some link => exact .map _ (silent_write g _)
  | link source target name data => exact .map _ (silent_write g _)

theorem silent_writeAll (g : GraphId) (news : List (Nat × Value)) :
    Silent (writeAll g news : Act σ (MutationError ε) Unit) (writeAll g news) := by
  induction news with
  | nil => exact .pure _
  | cons x news ih =>
    refine .bind (.container g) fun c => ?_
    split
    · exact .bind (.map _ (silent_write g _)) fun _ => ih
    · exact ih

theorem silent_attachRule (g : GraphId) (rule : Rule) (news : List (Nat × Value)) :
    Silent (attachRule g rule news : Act σ (MutationError ε) Unit) (attachRule g rule news) := by
  refine .bind (.container g) fun c => ?_
  dsimp only
  by_cases hfrozen : c.frozen = true
  · rw [if_pos hfrozen, if_pos hfrozen]
    exact fun _ _ => rfl
  rw [if_neg hfrozen, if_neg hfrozen]
  refine .bind (silent_writeAll g news) fun _ => .bind (.container g) fun c' => ?_
  exact .bind (.report _ _ _ _) fun _ => silent_write g _

end Engine

/-! ### Failures -/

/-- Where the first run fails, so does the second one, with the callbacks written down, and
containers were changed in these callbacks only. -/
def Reverts (invoke : Invoke σ ε) (w : World σ) (log : List Callback)
    (x : Option (Except ε₁ α × World σ))
    (x' : Option (Except ε₁ α × World (σ × List Callback))) : Prop :=
  ∀ e v, x = some (.error e, v) → ∃ made, x' = some (.error e, v.logging (made ++ log)) ∧
    w.store.Untouched made v.store ∧ ∀ call ∈ made, call.By invoke w.natives

namespace Reverts

variable {invoke : Invoke σ ε} {w : World σ} {log : List Callback}

/-- A step that cannot fail after it has written. -/
theorem of_silent {a : Act σ ε₁ α} {a' : Act (σ × List Callback) ε₁ α} (ha : Silent a a')
    (h : ∀ e v, a w = some (.error e, v) → v = w) :
    Reverts invoke w log (a w) (a' (w.logging log)) := by
  intro e v hrun
  obtain rfl := h e v hrun
  refine ⟨[], ?_, .refl _, by simp⟩
  rw [ha, hrun]
  rfl

/-- Nothing is written before the second step. -/
theorem bind {a : Act σ ε₁ α} {a' : Act (σ × List Callback) ε₁ α} {f : α → Act σ ε₁ β}
    {f' : α → Act (σ × List Callback) ε₁ β} (ha : Traces invoke a a')
    (hf : ∀ x u made, w.store.Untouched made u.store → (∀ call ∈ made, call.By invoke w.natives) →
      Reverts invoke u (made ++ log) (f x u) (f' x (u.logging (made ++ log)))) :
    Reverts invoke w log ((a >>= f) w) ((a' >>= f') (w.logging log)) := by
  intro e v hrun
  have hfirst := ha w log
  rw [Act.run_bind] at hrun ⊢
  cases hrun₁ : a w with
  | none =>
    rw [hrun₁] at hrun
    cases hrun
  | some p =>
    obtain ⟨r, u⟩ := p
    rw [hrun₁] at hrun hfirst
    obtain ⟨made, hmade, huntouched, hby, hfixes⟩ := hfirst
    rw [hmade]
    cases r with
    | error e' =>
      cases hrun
      exact ⟨made, rfl, huntouched, hby⟩
    | ok x =>
      obtain ⟨made', hmade', huntouched', hby'⟩ := hf x u made huntouched hby e v hrun
      rw [← List.append_assoc] at hmade'
      refine ⟨made' ++ made, hmade', huntouched.trans huntouched', fun call hcall => ?_⟩
      exact (List.mem_append.1 hcall).elim (fun hcall => (hby' call hcall).of_natives hfixes)
        (hby call)

/-- What follows a step that can fail, cannot fail. -/
theorem then_ok {a : Act σ ε₁ α} {a' : Act (σ × List Callback) ε₁ α} {f : α → Act σ ε₁ β}
    {f' : α → Act (σ × List Callback) ε₁ β}
    (ha : Reverts invoke w log (a w) (a' (w.logging log)))
    (hf : ∀ x u e v, f x u ≠ some (.error e, v)) :
    Reverts invoke w log ((a >>= f) w) ((a' >>= f') (w.logging log)) := by
  intro e v hrun
  rw [Act.run_bind] at hrun ⊢
  cases hrun₁ : a w with
  | none =>
    rw [hrun₁] at hrun
    cases hrun
  | some p =>
    obtain ⟨r, u⟩ := p
    rw [hrun₁] at hrun
    cases r with
    | ok x => exact absurd hrun (hf x u e v)
    | error e' =>
      cases hrun
      obtain ⟨made, hmade, hrest⟩ := ha e v hrun₁
      exact ⟨made, by rw [hmade], hrest⟩

end Reverts

namespace Engine

variable {invoke : Invoke σ ε} {w : World σ} {g : GraphId}

/-- A change that fails has changed containers in callbacks only. -/
theorem reverts_apply (m : Mutation) (log : List Callback) (hw : w.store.Has g)
    (hinvoke : ∀ (call : Callback) natives, call.By invoke natives → call.before.Has g →
      call.after.Has g) :
    Reverts invoke w log (apply invoke g m w) (apply invoke.logged g m (w.logging log)) := by
  unfold apply
  refine .bind (.container g) fun c u made hu hby => ?_
  by_cases hfrozen : c.frozen = true
  · rw [if_pos hfrozen, if_pos hfrozen]
    refine .bind (.report _ _ _ _) fun _ t made' ht hby' => ?_
    exact .of_silent (fun _ _ => rfl) (by rintro e v ⟨⟩; rfl)
  rw [if_neg hfrozen, if_neg hfrozen]
  refine .bind (traces_ofCheck invoke _) fun _ t made₁ ht hby₁ => ?_
  refine .bind (traces_govern invoke g c.rules m) fun m' s made₂ hs hby₂ => ?_
  have hhas : s.store.Has g := by
    have hu := hw.untouched hu fun call hcall => hinvoke call _ (hby call hcall)
    have ht := hu.untouched ht fun call hcall => hinvoke call _ (hby₁ call hcall)
    exact ht.untouched hs fun call hcall => hinvoke call _ (hby₂ call hcall)
  refine .then_ok (.of_silent (silent_commit g m') fun e v => commit_error hhas) ?_
  rintro a u e v ⟨⟩

/-- Attaching a rule that fails has changed containers in callbacks only. -/
theorem reverts_addRule (rule : Rule) (log : List Callback) :
    Reverts invoke w log (addRule invoke g rule w) (addRule invoke.logged g rule (w.logging log)) := by
  unfold addRule
  refine .bind (.container g) fun c u made _ _ => ?_
  by_cases hfrozen : c.frozen = true
  · rw [if_pos hfrozen, if_pos hfrozen]
    exact .of_silent (fun _ _ => rfl) (by rintro e v ⟨⟩; rfl)
  rw [if_neg hfrozen, if_neg hfrozen]
  refine .bind (traces_prepareRule invoke g rule) fun news t made' _ _ => ?_
  exact .of_silent (silent_attachRule g rule news) fun e v => attachRule_error

end Engine

/-- What a failed change leaves of a store: every container as the callbacks left it, the last one
of them first in the list. -/
structure Store.LeftBy (s : Store) (made : List Callback) (t : Store) : Prop where
  /-- Between the callbacks, and after all of them, no container was changed. -/
  untouched : s.Untouched made t
  /-- A container that no callback changed is as before. -/
  kept : ∀ (g : GraphId) (c : Container), s.graphs[g]? = some c →
    (∀ call ∈ made, call.before.graphs[g]? = some c → call.after.graphs[g]? = some c) →
    t.graphs[g]? = some c

/-- Whatever the rules are and however they call back, a change or an attachment of a rule that
fails leaves every container as the callbacks left it: the nodes, the edges, the vacant slots, the
number of edges made, the rules and the freezing. -/
theorem failed_change_writes_nothing {invoke : Invoke σ ε} {w v : World σ} {g : GraphId}
    {e : MutationError ε} (hw : w.store.Has g)
    (hinvoke : ∀ callee args u r u', invoke callee args u = some (r, u') →
      u.store.Has g → u'.store.Has g) :
    (∀ m, Engine.apply invoke g m w = some (.error e, v) →
      ∃ made, Engine.apply invoke.logged g m (w.logging []) = some (.error e, v.logging made) ∧
        w.store.LeftBy made v.store) ∧
    ∀ rule, Engine.addRule invoke g rule w = some (.error e, v) →
      ∃ made, Engine.addRule invoke.logged g rule (w.logging []) = some (.error e, v.logging made) ∧
        w.store.LeftBy made v.store := by
  have hcalls : ∀ (call : Callback) natives, call.By invoke natives → call.before.Has g →
      call.after.Has g := by
    rintro call natives ⟨callee, args, u, r, u', hrun, rfl, -⟩ hhas
    exact hinvoke callee args u r u' hrun hhas
  constructor
  · intro m happly
    obtain ⟨made, hmade, huntouched, -⟩ := Engine.reverts_apply m [] hw hcalls e v happly
    rw [List.append_nil] at hmade
    exact ⟨made, hmade, huntouched, fun g c => huntouched.getElem?⟩
  · intro rule hadd
    obtain ⟨made, hmade, huntouched, -⟩ := Engine.reverts_addRule rule [] e v hadd
    rw [List.append_nil] at hmade
    exact ⟨made, hmade, huntouched, fun g c => huntouched.getElem?⟩

/-! ### A callback that changes another container and raises -/

/-- A list whose incoming values are transformed by a callback, and another list. -/
def twoLists : World Unit where
  store := ⟨#[{ Container.new .list with rules := [.transform (.custom "t" .nil)] },
    Container.new .list], 0⟩
  output := #[]
  verbosity := .silent
  events := #[]
  natives _ _ s := (.ok .nil, s)
  control := ()

/-- Writes to the second container and raises. -/
def writeAndRaise : Invoke Unit String := fun _ _ w =>
  some (.error (.raised ⟨.nil, []⟩), { w with store := w.store.set 1 (.ofElements [.nil]) })

/-- The failed change leaves the first list empty, and the second one as the callback left it. -/
theorem insert_writeAndRaise : ∃ v made,
    Engine.apply writeAndRaise 0 (.insert .nil) twoLists =
      some (.error (.transformRaised "t" ⟨.nil, []⟩), v) ∧
    twoLists.store.LeftBy made v.store ∧ v.store.graphs[0]? = twoLists.store.graphs[0]? ∧
    v.store.graphs[1]? = some (.ofElements [.nil]) := by
  have hhas : twoLists.store.Has 0 := ⟨_, rfl, SlotGraph.sound_empty.addNode _⟩
  have hinvoke : ∀ callee args u r u', writeAndRaise callee args u = some (r, u') →
      u.store.Has 0 → u'.store.Has 0 := by
    rintro callee args u r u' ⟨⟩ ⟨c, hc, hsound⟩
    refine ⟨c, ?_, hsound⟩
    simpa [Store.set] using hc
  have hrun : Engine.apply writeAndRaise 0 (.insert .nil) twoLists =
      some (.error (.transformRaised "t" ⟨.nil, []⟩),
        { twoLists with store := twoLists.store.set 1 (.ofElements [.nil]) }) := rfl
  obtain ⟨made, -, hleft⟩ := (failed_change_writes_nothing hhas hinvoke).1 _ hrun
  exact ⟨_, made, hrun, hleft, rfl, rfl⟩

end GraphLang
