import GraphLang.Proofs.Rule.Operations

/-!
# Containers that callbacks may change

A callback may change the very container that is being changed, by operations of its own. Whatever
they do, the edges of the container go on holding its members and linking them, and it stays of its
kind: every write of the engine keeps that, so whole operations keep it if their callbacks do.
-/

namespace GraphLang

open Container (Applied)

variable {σ ε ε' α β : Type}

/-- The action leaves a container whose edges hold its members and link them as one, of the same
kind. -/
def Act.Forms (a : Act σ ε α) (g : GraphId) : Prop :=
  ∀ u r v, a u = some (r, v) → ∀ c, u.store.graphs[g]? = some c → c.Formed →
    ∃ d, v.store.graphs[g]? = some d ∧ d.Formed ∧ d.kind = c.kind

/-- Callbacks leave a container whose edges hold its members and link them as one, of the same
kind. -/
def Invoke.Forms (invoke : Invoke σ ε) (g : GraphId) : Prop :=
  ∀ callee args, (invoke callee args).Forms g

theorem Act.Forms.bind {g : GraphId} {a : Act σ ε α} {f : α → Act σ ε β} (ha : a.Forms g)
    (hf : ∀ x, (f x).Forms g) : (a >>= f).Forms g := by
  intro u r v hrun c hc hformed
  rw [Act.run_bind] at hrun
  cases hfirst : a u with
  | none =>
    rw [hfirst] at hrun
    cases hrun
  | some p =>
    obtain ⟨r', t⟩ := p
    obtain ⟨d, hd, hformed', hkind⟩ := ha u r' t hfirst c hc hformed
    rw [hfirst] at hrun
    cases r' with
    | error e =>
      cases hrun
      exact ⟨d, hd, hformed', hkind⟩
    | ok x =>
      obtain ⟨d', hd', hformed'', hkind'⟩ := hf x t r v hrun d hd hformed'
      exact ⟨d', hd', hformed'', hkind'.trans hkind⟩

/-- Where containers are changed by such callbacks only, a container stays in form. -/
theorem Store.Led.forms {invoke : Invoke σ ε} {s t : Store} {g : GraphId} {c : Container}
    (h : s.Led invoke t) (hinvoke : invoke.Forms g) (hc : s.graphs[g]? = some c)
    (hformed : c.Formed) : ∃ d, t.graphs[g]? = some d ∧ d.Formed ∧ d.kind = c.kind := by
  have hspared {a b : Store} {d : Container} (hab : a.Spares b) (ha : a.graphs[g]? = some d) :
      b.graphs[g]? = some d := by
    rw [hab.getElem? (Array.getElem?_eq_some_iff.1 ha).1, ha]
  obtain ⟨made, huntouched, hby⟩ := h
  induction made generalizing t with
  | nil => exact ⟨c, hspared huntouched hc, hformed, rfl⟩
  | cons call earlier ih =>
    obtain ⟨d, hd, hformed', hkind⟩ :=
      ih huntouched.2 fun call' hcall' => hby call' (List.mem_cons_of_mem _ hcall')
    obtain ⟨natives, callee, args, u, r, u', hrun, rfl, -⟩ := hby call List.mem_cons_self
    obtain ⟨d', hd', hformed'', hkind'⟩ := hinvoke callee args u r u' hrun d hd hformed'
    exact ⟨d', hspared huntouched.1 hd', hformed'', hkind'.trans hkind⟩

/-- An action that changes containers in such callbacks only. -/
theorem Act.Forms.of_traces {invoke : Invoke σ ε} {g : GraphId} {a : Act σ ε' α}
    {a' : Act (σ × List Callback) ε' α} (h : Traces invoke a a') (hinvoke : invoke.Forms g) :
    a.Forms g :=
  fun _ _ _ hrun _ => (Store.Led.of_traces h hrun).forms hinvoke

/-- Callbacks that leave a container alone leave it in form. -/
theorem Invoke.Spares.forms {invoke : Invoke σ ε} {g : GraphId} (h : invoke.Spares g) :
    invoke.Forms g := fun callee args u r v hrun c hc hformed =>
  ⟨c, (h callee args u r v hrun).trans hc, hformed, rfl⟩

namespace Engine

variable {invoke : Invoke σ ε} {g : GraphId} {c : Container} {w v : World σ}

/-! ### What writes -/

/-- A change of the container in the store fails and writes nothing, or is made in full. -/
theorem commit_cases (hc : w.store.graphs[g]? = some c) (hformed : c.Formed) (m : Mutation) :
    (∃ e, (commit g m : Act σ (MutationError ε) Applied) w = some (.error e, w)) ∨
      Made w g c m (commit g m w : Option (Except (MutationError ε) Applied × World σ)) := by
  cases hfrozen : c.frozen with
  | true => exact Or.inl ⟨_, run_commit_frozen hc hfrozen m⟩
  | false =>
    cases hrefusal : (c.model.refusal? m : Option (MutationError ε)) with
    | some e =>
      refine Or.inl ⟨e, ?_⟩
      unfold commit
      rw [Act.run_bind, Act.run_container]
      dsimp only
      rw [Store.get_of_getElem? hc, hfrozen, if_neg Bool.false_ne_true, Act.run_bind,
        hformed.preflight_eq, hrefusal]
      rfl
    | none => exact Or.inr (made_commit hc hformed hfrozen hrefusal)

theorem forms_commit (m : Mutation) : (commit g m : Act σ (MutationError ε) _).Forms g := by
  intro u r v hrun c hc hformed
  obtain ⟨e, herror⟩ | ⟨a, c', hcommit, hformed', -, -, hstep⟩ :=
    commit_cases (ε := ε) hc hformed m
  · cases herror.symm.trans hrun
    exact ⟨c, hc, hformed, rfl⟩
  · cases hcommit.symm.trans hrun
    exact ⟨c', getElem?_set hc c', hformed', by
      rw [← c'.kind_model, hstep.kind_eq, c.kind_model]⟩

theorem forms_attachRule (rule : Rule) (news : List (Nat × Value)) :
    (attachRule g rule news : Act σ (MutationError ε) Unit).Forms g := by
  intro u r v hrun c hc hformed
  cases hfrozen : c.frozen with
  | true =>
    cases (run_attachRule_frozen hc hfrozen rule news).symm.trans hrun
    exact ⟨c, hc, hformed, rfl⟩
  | false =>
    obtain ⟨v', hattach, hstore⟩ := run_attachRule (ε := ε) hc hfrozen rule news
    cases hattach.symm.trans hrun
    rw [hstore]
    exact ⟨_, getElem?_set hc _, (hformed.rewrite news).withRules _, by rw [c.rewrite_eq news]⟩

/-- No step of an operation changes the kind of a container. -/
theorem Evolves.kind_eq {moment : Moment} {s t : Store} {c' : Container}
    (h : Evolves invoke g c moment s t c') : c'.kind = c.kind := by
  cases h with
  | changed _ _ _ _ hstep => rw [← c'.kind_model, hstep.kind_eq, c.kind_model]
  | attached => rw [c.rewrite_eq]
  | _ => rfl

theorem forms_freeze : (freeze g : Act σ (MutationError ε) Unit).Forms g := by
  intro u r v hrun c hc hformed
  have hevolves : ∃ c', v.store.graphs[g]? = some c' ∧ c'.Formed ∧
      Evolves (fun _ _ _ => none : Invoke σ ε) g c (.meanwhile u.store v.store) u.store v.store
        c' :=
    evolves_freeze hc hformed hrun _
  obtain ⟨c', hc', hformed', hevolves⟩ := hevolves
  exact ⟨c', hc', hformed', hevolves.kind_eq⟩

/-! ### Whole operations -/

theorem forms_apply (hinvoke : invoke.Forms g) (m : Mutation) : (apply invoke g m).Forms g := by
  have hreport (level : Level) (message : String) (fields : Store → List (String × String)) :
      (Act.report level target message fields : Act σ (MutationError ε) Unit).Forms g :=
    .of_traces (.report level target message fields) hinvoke
  refine .bind (.of_traces (.container g) hinvoke) fun c => ?_
  split
  · exact .bind (hreport _ _ _) fun _ => .of_traces (.throw _) hinvoke
  · refine .bind (.of_traces (traces_ofCheck invoke _) hinvoke) fun _ => ?_
    refine .bind (.of_traces (traces_govern invoke g c.rules m) hinvoke) fun m' => ?_
    refine .bind (forms_commit m') fun applied => ?_
    exact .bind (hreport _ _ _) fun _ => .of_traces (.pure applied) hinvoke

theorem forms_addRule (hinvoke : invoke.Forms g) (rule : Rule) :
    (addRule invoke g rule).Forms g := by
  refine .bind (.of_traces (.container g) hinvoke) fun c => ?_
  split
  · exact .of_traces (.throw _) hinvoke
  · exact .bind (.of_traces (traces_prepareRule invoke g rule) hinvoke)
      fun news => forms_attachRule rule news

theorem forms_applyRuleset (hinvoke : invoke.Forms g) (set : Ruleset) :
    (applyRuleset invoke g set).Forms g := by
  refine .bind (.of_traces (.report _ _ _ _) hinvoke) fun _ => ?_
  generalize set.rules = rules
  induction rules with
  | nil => exact .of_traces (.pure _) hinvoke
  | cons rule rest ih => exact .bind (forms_addRule hinvoke rule) fun _ => ih

theorem forms_run (hinvoke : invoke.Forms g) {op : Operation} {succeeds : Bool}
    (h : op.run invoke g w = some (succeeds, v)) (hc : w.store.graphs[g]? = some c)
    (hformed : c.Formed) : ∃ d, v.store.graphs[g]? = some d ∧ d.Formed ∧ d.kind = c.kind := by
  have hkept {α : Type} {a : Act σ (MutationError ε) α} (ha : a.Forms g)
      (hrun : (a w).map (fun p => (p.1.isOk, p.2)) = some (succeeds, v)) :
      ∃ d, v.store.graphs[g]? = some d ∧ d.Formed ∧ d.kind = c.kind := by
    obtain ⟨⟨r, v'⟩, hends, heq⟩ := Option.map_eq_some_iff.1 hrun
    cases heq
    exact ha w r v' hends c hc hformed
  cases op with
  | change m => exact hkept (forms_apply hinvoke m) h
  | attach rule => exact hkept (forms_addRule hinvoke rule) h
  | attachAll set => exact hkept (forms_applyRuleset hinvoke set) h
  | freeze => exact hkept forms_freeze h

/-- Operations leave a container in form, even if their callbacks change it by operations of their
own. -/
theorem Operations.forms {moments : List Moment} (h : Operations invoke g w moments v)
    (hinvoke : invoke.Forms g) (hc : w.store.graphs[g]? = some c) (hformed : c.Formed) :
    ∃ d, v.store.graphs[g]? = some d ∧ d.Formed ∧ d.kind = c.kind := by
  induction h with
  | start => exact ⟨c, hc, hformed, rfl⟩
  | operation _ hends ih =>
    obtain ⟨d, hd, hformed', hkind⟩ := ih
    obtain ⟨d', hd', hformed'', hkind'⟩ := forms_run hinvoke hends hd hformed'
    exact ⟨d', hd', hformed'', hkind'.trans hkind⟩
  | meanwhile _ hkept ih =>
    obtain ⟨d, hd, hformed', hkind⟩ := ih
    exact ⟨d, hkept.trans hd, hformed', hkind⟩

end Engine

end GraphLang
