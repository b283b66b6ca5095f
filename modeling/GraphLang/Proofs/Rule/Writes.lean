import GraphLang.Proofs.Callables
import GraphLang.Proofs.Rule.Callbacks
import GraphLang.Proofs.SlotGraph.Sound

/-!
# Changes are made in full or not at all

A governed change writes to its container only after the rules were asked, and once it has written,
it cannot fail any more. So a change that fails leaves every container as the callbacks left it. A
frozen container is never written.
-/

namespace GraphLang

variable {σ ε α β : Type}

/-- The store has the container, and the slots of the container are a graph. -/
def Store.Has (s : Store) (g : GraphId) : Prop := ∃ c, s.graphs[g]? = some c ∧ c.graph.Sound

namespace Store

variable {s t : Store} {g : GraphId}

theorem get_of_getElem? {c : Container} (h : s.graphs[g]? = some c) : s.get g = c := by
  unfold get
  rw [h]
  rfl

theorem get_set (h : g < s.graphs.size) (c : Container) : (s.set g c).get g = c := by
  unfold get set
  simp [h]

theorem set_of_le (h : s.graphs.size ≤ g) (c : Container) : s.set g c = s := by
  unfold set
  rw [Array.setIfInBounds_eq_of_size_le h]

theorem Has.lt (h : s.Has g) : g < s.graphs.size := by
  obtain ⟨c, hc, -⟩ := h
  exact (Array.getElem?_eq_some_iff.1 hc).1

theorem Has.sound (h : s.Has g) : (s.get g).graph.Sound := by
  obtain ⟨c, hc, hsound⟩ := h
  rwa [get_of_getElem? hc]

theorem Has.spares (h : s.Has g) (hst : s.Spares t) : t.Has g := by
  have hlt := h.lt
  obtain ⟨c, hc, hsound⟩ := h
  exact ⟨c, by rw [hst.getElem? hlt, hc], hsound⟩

/-- A container stays, if it stays in the callbacks that are made. -/
theorem Has.untouched {made : List Callback} (h : s.Has g) (hst : s.Untouched made t)
    (hmade : ∀ call ∈ made, call.before.Has g → call.after.Has g) : t.Has g := by
  induction made generalizing t with
  | nil => exact h.spares hst
  | cons call earlier ih =>
    have hbefore := ih hst.2 fun call' hcall' => hmade call' (List.mem_cons_of_mem call hcall')
    exact (hmade call List.mem_cons_self hbefore).spares hst.1

end Store

/-! ### Primitive changes -/

namespace Container

variable {c : Container}

theorem addMember_of_mutable (h : c.frozen = false) (label : Label) (value : Value) :
    c.addMember label value = .ok ((c.attach label value).1, (c.attach label value).2) := by
  unfold addMember ensureMutable
  rw [h]
  rfl

theorem addEdge_of_mutable (h : c.frozen = false) {source target : Nat}
    (hsource : c.graph.hasNode source = true) (htarget : c.graph.hasNode target = true)
    (label : Label) (data : Option Value) :
    c.addEdge source target label data =
      .ok ((c.connect source target label data).1, (c.connect source target label data).2) := by
  unfold addEdge ensureMutable ensureNode
  rw [h, hsource, htarget]
  rfl

theorem setValue_of_mutable (h : c.frozen = false) {n : Nat} {m : Member}
    (hn : c.graph.node? n = some m) (value : Value) :
    c.setValue n value = .ok (m.value, c.putValue n value) := by
  unfold setValue ensureMutable
  rw [h, hn]
  rfl

theorem pushRule_of_mutable (h : c.frozen = false) (rule : Rule) :
    c.pushRule rule = .ok { c with rules := c.rules ++ [rule] } := by
  unfold pushRule ensureMutable
  rw [h]
  rfl

theorem hasNode_of_expectMember {n : Nat}
    (h : (c.expectMember n : Except (MutationError ε) Unit) = .ok ()) :
    n ≠ root ∧ c.graph.hasNode n = true := by
  unfold expectMember at h
  split at h
  · cases h
  · rename_i hno
    simpa using hno

/-- The nodes of a container, after a member was added. -/
theorem hasNode_attach (hc : c.graph.Sound) (label : Label) (value : Value) (n : Nat) :
    (c.attach label value).2.graph.hasNode n =
      (n == (c.attach label value).1 || c.graph.hasNode n) := by
  unfold SlotGraph.hasNode attach connect
  dsimp only
  rw [SlotGraph.node?_addEdge, hc.node?_addNode]
  by_cases hn : n = (c.graph.addNode ⟨value, none⟩).1
  · simp [hn]
  · simp [hn]

end Container

/-! ### Writes -/

namespace Engine

variable {w v : World σ} {g : GraphId} {e : MutationError ε}

theorem run_write_ok {step : Container → Except ContainerError (α × Container)} {a : α}
    {c : Container} (h : step (w.store.get g) = .ok (a, c)) :
    (write g step w : Option (Except (MutationError ε) α × World σ)) =
      some (.ok a, { w with store := w.store.set g c }) := by
  unfold write
  rw [Act.run_bind, Act.run_container]
  dsimp only
  rw [h]
  rfl

theorem run_write_error {step : Container → Except ContainerError (α × Container)}
    {cause : ContainerError} (h : step (w.store.get g) = .error cause) :
    write g step w = some (.error (.ofContainer cause : MutationError ε), w) := by
  unfold write
  rw [Act.run_bind, Act.run_container]
  dsimp only
  rw [h]
  rfl

/-- A write that fails is none. -/
theorem write_error {step : Container → Except ContainerError (α × Container)}
    (h : write g step w = some (.error e, v)) : v = w := by
  cases hstep : step (w.store.get g) with
  | ok p =>
    rw [run_write_ok hstep] at h
    cases h
  | error cause =>
    rw [run_write_error hstep] at h
    cases h
    rfl

theorem map_write_error {step : Container → Except ContainerError (α × Container)} {f : α → β}
    (h : (f <$> write g step : Act σ (MutationError ε) β) w = some (.error e, v)) : v = w := by
  rw [Act.run_map] at h
  obtain ⟨⟨r, u⟩, hwrite, hu⟩ := Option.map_eq_some_iff.1 h
  cases r with
  | ok a => cases hu
  | error e' =>
    cases hu
    exact write_error hwrite

theorem ofCheck_error {x : Except (MutationError ε) α} {f : α → Act σ (MutationError ε) β}
    (h : (ofCheck x >>= f) w = some (.error e, v)) :
    x = .error e ∧ v = w ∨ ∃ a, x = .ok a ∧ f a w = some (.error e, v) := by
  cases x with
  | error e' =>
    cases h
    exact Or.inl ⟨rfl, rfl⟩
  | ok a => exact Or.inr ⟨a, rfl, h⟩

/-- A member that was added can be linked. -/
theorem run_linkMember (hw : w.store.Has g) (hmutable : (w.store.get g).frozen = false)
    {source : Nat} (hsource : (w.store.get g).graph.hasNode source = true) (name : String)
    (value : Value) :
    let c := ((w.store.get g).attach .contains value).2
    let node := ((w.store.get g).attach .contains value).1
    (write g (·.addEdge source node (.link name) none) { w with store := w.store.set g c } :
        Option (Except (MutationError ε) Nat × World σ)) =
      some (.ok (c.connect source node (.link name) none).1,
        { w with store := w.store.set g (c.connect source node (.link name) none).2 }) := by
  intro c node
  have hget : (w.store.set g c).get g = c := Store.get_set hw.lt c
  have hold : c.graph.hasNode source = true := by
    rw [Container.hasNode_attach hw.sound, hsource, Bool.or_true]
  have hnew : c.graph.hasNode node = true := by
    rw [Container.hasNode_attach hw.sound, beq_self_eq_true, Bool.true_or]
  have hedge := Container.addEdge_of_mutable (c := c) hmutable hold hnew (.link name) none
  rw [← hget] at hedge
  rw [run_write_ok hedge, hget]
  simp [Store.set]

/-- A change that cannot be made changes nothing: its first write is its last one that can fail. -/
theorem commit_error {m : Mutation} (hw : w.store.Has g)
    (h : commit g m w = some (.error e, v)) : v = w := by
  unfold commit at h
  rw [Act.run_bind, Act.run_container] at h
  dsimp only at h
  by_cases hfrozen : (w.store.get g).frozen = true
  · rw [if_pos hfrozen] at h
    cases h
    rfl
  rw [if_neg hfrozen] at h
  obtain ⟨-, rfl⟩ | ⟨_, hpre, h⟩ := ofCheck_error h
  · rfl
  cases m with
  | insert value => exact map_write_error h
  | set index value =>
    obtain ⟨-, rfl⟩ | ⟨n, -, h⟩ := ofCheck_error h
    · rfl
    · exact map_write_error h
  | put key value =>
    dsimp only at h
    cases hentry : (w.store.get g).entryNode? key <;> rw [hentry] at h <;>
      exact map_write_error h
  | remove target =>
    cases target with
    | node n => exact map_write_error h
    | _ =>
      obtain ⟨-, rfl⟩ | ⟨n, -, h⟩ := ofCheck_error h
      · rfl
      · exact map_write_error h
  | addMember value parent =>
    have hmutable : (w.store.get g).frozen = false := by simpa using hfrozen
    have hadd := Container.addMember_of_mutable hmutable .contains value
    dsimp only at h
    rw [Act.run_bind, run_write_ok hadd] at h
    cases parent with
    | none => cases h
    | some link =>
      have hsource : (w.store.get g).graph.hasNode link.1 = true := by
        obtain ⟨-, -, hmember⟩ := Except.bind_eq_ok hpre
        exact (Container.hasNode_of_expectMember hmember).2
      dsimp only at h
      rw [Act.run_map, run_linkMember hw hmutable hsource] at h
      cases h
  | link source target name data => exact map_write_error h

/-- New values can always be written. -/
theorem run_writeAll (news : List (Nat × Value)) (hmutable : (w.store.get g).frozen = false) :
    ∃ v, writeAll g news w = some ((.ok () : Except (MutationError ε) Unit), v) ∧
      (v.store.get g).frozen = false := by
  induction news generalizing w with
  | nil => exact ⟨w, rfl, hmutable⟩
  | cons x news ih =>
    unfold writeAll
    rw [Act.run_bind, Act.run_container]
    dsimp only
    by_cases hnode : (w.store.get g).graph.hasNode x.1 = true
    · obtain ⟨m, hm⟩ := SlotGraph.hasNode_iff.1 hnode
      have hset := Container.setValue_of_mutable hmutable hm x.2
      have hdiscard : (discard (write g (·.setValue x.1 x.2)) : Act σ (MutationError ε) PUnit) w =
          some (.ok ⟨⟩, { w with store := w.store.set g ((w.store.get g).putValue x.1 x.2) }) := by
        change ((fun _ => PUnit.unit) <$> write g _ : Act σ (MutationError ε) PUnit) w = _
        rw [Act.run_map, run_write_ok hset]
        rfl
      rw [if_pos hnode, Act.run_bind, hdiscard]
      refine ih ?_
      by_cases hlt : g < w.store.graphs.size
      · change ((w.store.set g _).get g).frozen = false
        rw [Store.get_set hlt]
        exact hmutable
      · change ((w.store.set g _).get g).frozen = false
        rwa [Store.set_of_le (Nat.le_of_not_lt hlt)]
    · rw [if_neg hnode]
      exact ih hmutable

/-- A rule is attached to a container that is not frozen. -/
theorem run_pushRule (rule : Rule) (hmutable : (w.store.get g).frozen = false) :
    ∃ v, write g (fun c => (c.pushRule rule).map fun c => ((), c)) w =
      some ((.ok () : Except (MutationError ε) Unit), v) := by
  refine ⟨_, run_write_ok (c := { w.store.get g with rules := (w.store.get g).rules ++ [rule] }) ?_⟩
  rw [Container.pushRule_of_mutable hmutable]
  rfl

/-- Once the first new value is written, a rule is attached. -/
theorem attachRule_error {rule : Rule} {news : List (Nat × Value)}
    (h : attachRule g rule news w = some (.error e, v)) : v = w := by
  unfold attachRule at h
  rw [Act.run_bind, Act.run_container] at h
  dsimp only at h
  by_cases hfrozen : (w.store.get g).frozen = true
  · rw [if_pos hfrozen] at h
    cases h
    rfl
  rw [if_neg hfrozen] at h
  obtain ⟨u, hwrite, hmutable⟩ := run_writeAll (ε := ε) news (by simpa using hfrozen)
  rw [Act.run_bind, hwrite] at h
  dsimp only at h
  rw [Act.run_bind, Act.run_container] at h
  dsimp only at h
  rw [Act.run_bind, Act.run_report] at h
  dsimp only at h
  obtain ⟨t, hpush⟩ := run_pushRule (ε := ε) (g := g) (w := u.noted .debug target "rule attached"
    fun s => [("rule", rule.display s (some g)),
      ("total", toString ((u.store.get g).rules.length + 1))]) rule
    (by rwa [u.noted_store])
  rw [hpush] at h
  cases h

/-! ### Frozen containers and others -/

variable {c : Container}

theorem run_apply_frozen (hc : w.store.graphs[g]? = some c) (hfrozen : c.frozen = true)
    (invoke : Invoke σ ε) (m : Mutation) : apply invoke g m w =
      some (.error .frozen, w.noted .debug target "mutation rejected: graph is frozen" fun _ =>
        [("op", Text.quoted m.describe)]) := by
  unfold apply
  rw [Act.run_bind, Act.run_container]
  dsimp only
  rw [Store.get_of_getElem? hc, hfrozen, if_pos rfl]
  rfl

theorem run_addRule_frozen (hc : w.store.graphs[g]? = some c) (hfrozen : c.frozen = true)
    (invoke : Invoke σ ε) (rule : Rule) : addRule invoke g rule w = some (.error .frozen, w) := by
  unfold addRule
  rw [Act.run_bind, Act.run_container]
  dsimp only
  rw [Store.get_of_getElem? hc, hfrozen, if_pos rfl]
  rfl

theorem run_commit_frozen (hc : w.store.graphs[g]? = some c) (hfrozen : c.frozen = true)
    (m : Mutation) :
    (commit g m : Act σ (MutationError ε) Container.Applied) w = some (.error .frozen, w) := by
  unfold commit
  rw [Act.run_bind, Act.run_container]
  dsimp only
  rw [Store.get_of_getElem? hc, hfrozen, if_pos rfl]
  rfl

theorem run_attachRule_frozen (hc : w.store.graphs[g]? = some c) (hfrozen : c.frozen = true)
    (rule : Rule) (news : List (Nat × Value)) :
    (attachRule g rule news : Act σ (MutationError ε) Unit) w = some (.error .frozen, w) := by
  unfold attachRule
  rw [Act.run_bind, Act.run_container]
  dsimp only
  rw [Store.get_of_getElem? hc, hfrozen, if_pos rfl]
  rfl

/-- A rule is prepared before it is attached to a container that is not frozen. -/
theorem run_addRule (hc : w.store.graphs[g]? = some c) (hmutable : c.frozen = false)
    (invoke : Invoke σ ε) (rule : Rule) :
    addRule invoke g rule w = (prepareRule invoke g rule >>= attachRule g rule) w := by
  unfold addRule
  rw [Act.run_bind, Act.run_container]
  dsimp only
  rw [Store.get_of_getElem? hc, hmutable, if_neg Bool.false_ne_true]

end Engine

end GraphLang
