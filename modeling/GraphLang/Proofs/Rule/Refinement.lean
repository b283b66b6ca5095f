import GraphLang.Proofs.Container.Steps
import GraphLang.Proofs.Rule.Writes

/-!
# Governed changes refine changes of models

Whatever rules a container has, a governed change that succeeds does to the model of the container
what the change says, with the incoming value as the rules have rewritten it. A change that fails
does so because the model refuses it or because a rule does, and then the container is as before.
-/

namespace GraphLang

open Container (Applied Held)

variable {σ ε α : Type}

/-! ### Making a change -/

namespace Engine

variable {w v : World σ} {g : GraphId} {c : Container}

theorem run_ofCheck_ok (a : α) :
    (ofCheck (.ok a) : Act σ (MutationError ε) α) w = some (.ok a, w) := rfl

theorem run_map_write {step : Container → Except ContainerError (α × Container)} {a : α}
    {c' : Container} (f : α → Applied) (hc : w.store.graphs[g]? = some c)
    (h : step c = .ok (a, c')) :
    (f <$> write g step : Act σ (MutationError ε) Applied) w =
      some (.ok (f a), { w with store := w.store.set g c' }) := by
  rw [← Store.get_of_getElem? hc] at h
  rw [Act.run_map, run_write_ok h]
  rfl

/-- The change was made in full: its container stands for what the model says, under the same
rules. -/
def Made (w : World σ) (g : GraphId) (c : Container) (m : Mutation)
    (x : Option (Except (MutationError ε) Applied × World σ)) : Prop :=
  ∃ a c', x = some (.ok a, { w with store := w.store.set g c' }) ∧ c'.Formed ∧
    c'.frozen = false ∧ c'.rules = c.rules ∧ c.model.Step m a c'.model

theorem removeNode_of_mem (h : c.Formed) (hmutable : c.frozen = false) {x : Held}
    (hx : x ∈ c.roster) : x.node ≠ Container.root ∧
      c.removeNode x.node = .ok (x.value, { c with graph := c.graph.removeNode x.node }) := by
  have hnode := (h.mem_nodes.1 (List.mem_map_of_mem hx)).1
  obtain ⟨member, hmember, hvalue⟩ := Option.map_eq_some_iff.1 (h.value?_of_mem hx)
  refine ⟨hnode, ?_⟩
  unfold Container.removeNode Container.ensureMutable
  rw [hmutable, hmember, ← hvalue]
  simp only [beq_eq_false_iff_ne.2 hnode]
  rfl

theorem setValue_of_mem (h : c.Formed) (hmutable : c.frozen = false) {x : Held}
    (hx : x ∈ c.roster) (value : Value) :
    c.setValue x.node value = .ok (x.value, c.putValue x.node value) := by
  obtain ⟨member, hmember, hvalue⟩ := Option.map_eq_some_iff.1 (h.value?_of_mem hx)
  rw [Container.setValue_of_mutable hmutable hmember, hvalue]

theorem nodeAt_of_allowed (h : c.Formed) (hkind : c.kind = .list) {i : Nat}
    (hallowed : (if i < (c.roster.map (·.value)).length then none else
      some (.indexOutOfRange i (c.roster.map (·.value)).length)) =
        (none : Option (MutationError ε))) :
    ∃ x, c.roster[i]? = some x ∧ x ∈ c.roster ∧
      (c.nodeAt i : Except (MutationError ε) Nat) = .ok x.node := by
  rw [List.length_map] at hallowed
  by_cases hi : i < c.roster.length
  · have hx := List.getElem?_eq_getElem hi
    refine ⟨_, hx, List.mem_of_getElem? hx, ?_⟩
    rw [h.nodeAt_eq hkind, dif_pos hi]
    rfl
  · rw [if_neg hi] at hallowed
    cases hallowed

theorem mem_of_allowed {handles : List Nat}
    (hallowed : Model.refusal?.unknown (Model.stranger?
      (c.roster.map fun x => (x.node, x.value)) handles) = (none : Option (MutationError ε))) :
    ∀ n ∈ handles, n ∈ c.roster.map (·.node) := by
  intro n hn
  rw [Model.refusal?.unknown, Option.map_eq_none_iff, Model.stranger?,
    Container.Formed.map_handles] at hallowed
  simpa using List.find?_eq_none.1 hallowed n hn

/-- A change that its model does not refuse is made. -/
theorem made_commit (hc : w.store.graphs[g]? = some c) (h : c.Formed) (hmutable : c.frozen = false)
    {m : Mutation} (hallowed : c.model.refusal? m = (none : Option (MutationError ε))) :
    Made w g c m (commit g m w : Option (Except (MutationError ε) Applied × World σ)) := by
  have hget := Store.get_of_getElem? hc
  have hpreflight : (c.preflight m : Except (MutationError ε) Unit) = .ok () := by
    rw [h.preflight_eq, hallowed]
    rfl
  unfold commit
  rw [Act.run_bind, Act.run_container]
  dsimp only
  rw [hget, hmutable, if_neg Bool.false_ne_true, Act.run_bind, hpreflight, run_ofCheck_ok]
  dsimp only
  cases hkind : c.kind with
  | list =>
    rw [h.model_list hkind] at hallowed
    cases m with
    | insert value =>
      obtain ⟨hformed, hstep⟩ := h.step_insert hkind value
      exact ⟨_, _, run_map_write _ hc (Container.addMember_of_mutable hmutable _ _), hformed,
        hmutable, rfl, hstep⟩
    | set i value =>
      obtain ⟨x, hx, hmem, hnode⟩ := nodeAt_of_allowed h hkind hallowed
      dsimp only
      rw [Act.run_bind, hnode, run_ofCheck_ok]
      exact ⟨_, _, run_map_write _ hc (setValue_of_mem h hmutable hmem value),
        h.putValue x.node value, hmutable, rfl, h.step_set hkind hx value⟩
    | remove target =>
      cases target with
      | index i =>
        obtain ⟨x, hx, hmem, hnode⟩ := nodeAt_of_allowed h hkind hallowed
        obtain ⟨hroot, hremove⟩ := removeNode_of_mem h hmutable hmem
        dsimp only
        rw [Act.run_bind, hnode, run_ofCheck_ok]
        exact ⟨_, _, run_map_write _ hc hremove, h.removeNode hroot, hmutable, rfl,
          h.step_removeIndex hkind hx hroot⟩
      | _ => cases hallowed
    | _ => cases hallowed
  | map =>
    rw [Container.model_map hkind] at hallowed
    cases m with
    | put key value =>
      dsimp only
      obtain ⟨x, hx, hlabel, hnode⟩ | ⟨hkey, hnode⟩ := h.nodeUnder_cases key
      · rw [hnode]
        exact ⟨_, _, run_map_write _ hc (setValue_of_mem h hmutable hx value),
          h.putValue x.node value, hmutable, rfl, h.step_replace hkind hx hlabel value⟩
      · rw [hnode]
        obtain ⟨hformed, hstep⟩ := h.step_append hkind hkey value
        exact ⟨_, _, run_map_write _ hc (Container.addMember_of_mutable hmutable _ _), hformed,
          hmutable, rfl, hstep⟩
    | remove target =>
      cases target with
      | key key =>
        have hkey : Label.entry key ∈ c.roster.map (·.label) := by
          by_contra hno
          rw [Model.refusal?, if_neg fun hmem => hno ((h.mem_keys hkind).1 hmem)] at hallowed
          cases hallowed
        obtain ⟨x, hx, hlabel, hnode⟩ | ⟨hno, -⟩ := h.nodeUnder_cases key
        · obtain ⟨hroot, hremove⟩ := removeNode_of_mem h hmutable hx
          dsimp only
          rw [Act.run_bind, Container.nodeUnder, hnode, run_ofCheck_ok]
          exact ⟨_, _, run_map_write _ hc hremove, h.removeNode hroot, hmutable, rfl,
            h.step_removeKey hkind hx hlabel hroot⟩
        · exact absurd hkey hno
      | _ => cases hallowed
    | _ => cases hallowed
  | user name =>
    rw [h.model_user hkind] at hallowed
    cases m with
    | addMember value parent =>
      have hadd : (w.store.get g).addMember .contains value =
          .ok ((c.attach .contains value).1, (c.attach .contains value).2) := by
        rw [hget, Container.addMember_of_mutable hmutable]
      dsimp only
      rw [Act.run_bind, run_write_ok hadd]
      cases parent with
      | none =>
        exact ⟨_, _, rfl, h.formed_addMember hkind value, hmutable, rfl,
          h.step_addMember hkind value⟩
      | some link =>
        have hparent := mem_of_allowed hallowed link.1 (by simp)
        obtain ⟨hformed, hstep⟩ := h.step_addLinked hkind value hparent link.2
        have hnode : (w.store.get g).graph.hasNode link.1 = true := by
          rw [hget]
          exact (h.mem_nodes.1 hparent).2
        have hlink := run_linkMember (ε := ε) ⟨c, hc, h.timed.sound⟩ (hget ▸ hmutable) hnode link.2
          value
        rw [hget] at hlink
        dsimp only at hlink ⊢
        rw [Act.run_map, hlink]
        exact ⟨_, _, rfl, hformed, hmutable, rfl, hstep⟩
    | link source target tag data =>
      have hsource := mem_of_allowed hallowed source (by simp)
      have htarget := mem_of_allowed hallowed target (by simp)
      exact ⟨_, _, run_map_write _ hc (Container.addEdge_of_mutable hmutable
          (h.mem_nodes.1 hsource).2 (h.mem_nodes.1 htarget).2 _ data),
        h.connect tag data hsource htarget, hmutable, rfl,
        h.step_link hkind hsource htarget tag data⟩
    | remove target =>
      cases target with
      | node n =>
        obtain ⟨x, hx, rfl⟩ := List.mem_map.1 (mem_of_allowed hallowed n (by simp))
        obtain ⟨hroot, hremove⟩ := removeNode_of_mem h hmutable hx
        exact ⟨_, _, run_map_write _ hc hremove, h.removeNode hroot, hmutable, rfl,
          h.step_removeNode hkind hx hroot⟩
      | _ => cases hallowed
    | _ => cases hallowed

/-! ### Asking the rules -/

/-- The change with its incoming value passed through the rewriting rules, in the order of their
attachment, after every rule was asked. -/
def Rewritten (invoke : Invoke σ ε) (g : GraphId) (rules : List Rule) (w : World σ) (m m' : Mutation)
    (v : World σ) : Prop :=
  ∃ u, rules.forM (consult invoke g m) w = some (.ok ⟨⟩, u) ∧
    (m.incoming? = none ∧ m' = m ∧ v = u ∨
      ∃ value value', m.incoming? = some value ∧ m' = m.withIncoming value' ∧
        transformAll invoke (rules.filter (·.transformsIncoming)) value u = some (.ok value', v))

variable {invoke : Invoke σ ε}

theorem rewritten_of_govern {rules : List Rule} {m m' : Mutation}
    (h : govern invoke g rules m w = some (.ok m', v)) : Rewritten invoke g rules w m m' v := by
  unfold govern at h
  rw [Act.run_bind] at h
  cases hasked : rules.forM (consult invoke g m) w with
  | none =>
    rw [hasked] at h
    cases h
  | some p =>
    obtain ⟨r, u⟩ := p
    rw [hasked] at h
    cases r with
    | error e => cases h
    | ok _ =>
      refine ⟨u, hasked, ?_⟩
      dsimp only at h
      cases hincoming : m.incoming? with
      | none =>
        rw [hincoming] at h
        cases h
        exact Or.inl ⟨rfl, rfl, rfl⟩
      | some value =>
        rw [hincoming] at h
        dsimp only at h
        rw [Act.run_map] at h
        obtain ⟨⟨r, v'⟩, hrun, heq⟩ := Option.map_eq_some_iff.1 h
        cases r with
        | error e => cases heq
        | ok value' =>
          cases heq
          exact Or.inr ⟨value, value', rfl, rfl, hrun⟩

/-- Another incoming value does not make a change impossible. -/
theorem refusal?_withIncoming (model : Model) (m : Mutation) (value : Value) :
    (model.refusal? (m.withIncoming value) : Option (MutationError ε)) = model.refusal? m := by
  cases m with
  | link source target tag data => cases data <;> cases model <;> rfl
  | remove target => rfl
  | _ => cases model <;> rfl

theorem Rewritten.refusal? {rules : List Rule} {m m' : Mutation}
    (h : Rewritten invoke g rules w m m' v) (model : Model) :
    (model.refusal? m' : Option (MutationError ε)) = model.refusal? m := by
  obtain ⟨u, -, ⟨-, rfl, -⟩ | ⟨value, value', -, rfl, -⟩⟩ := h
  · rfl
  · exact refusal?_withIncoming model m value'

/-- Callbacks that leave a container alone let it be asked about. -/
theorem govern_keeps (hinvoke : ∀ callee args u r u', invoke callee args u = some (r, u') →
      u'.store.graphs[g]? = u.store.graphs[g]?) (hc : w.store.graphs[g]? = some c)
    {rules : List Rule} {m : Mutation} {r : Except (MutationError ε) Mutation}
    (h : govern invoke g rules m w = some (r, v)) : v.store.graphs[g]? = some c := by
  have htraces := traces_govern invoke g rules m w []
  rw [h] at htraces
  obtain ⟨made, -, huntouched, hby, -⟩ := htraces
  refine huntouched.getElem? hc fun call hcall hbefore => ?_
  obtain ⟨callee, args, u, r, u', hrun, rfl, -⟩ := hby call hcall
  rw [← hbefore]
  exact hinvoke callee args u r u' hrun

/-! ### Governed changes -/

/-- How a change of a container comes out, in terms of what the container stands for. -/
inductive Refines (invoke : Invoke σ ε) (g : GraphId) (c : Container) (w : World σ) (m : Mutation) :
    Option (Except (MutationError ε) Applied × World σ) → Prop where
  /-- The model refuses the change, and nothing happens. -/
  | refused {e : MutationError ε} (hrefused : c.model.refusal? m = some e) :
    Refines invoke g c w m (some (.error e, w))
  /-- A callback does not come to an end. -/
  | endless (hallowed : c.model.refusal? m = (none : Option (MutationError ε)))
    (hgovern : govern invoke g c.rules m w = none) : Refines invoke g c w m none
  /-- A rule refuses the change, and the container is as before. -/
  | vetoed {e : MutationError ε} {v : World σ}
    (hallowed : c.model.refusal? m = (none : Option (MutationError ε)))
    (hgovern : govern invoke g c.rules m w = some (.error e, v))
    (hkept : v.store.graphs[g]? = some c) : Refines invoke g c w m (some (.error e, v))
  /-- The change is made, with the value as the rules have rewritten it. -/
  | made {m' : Mutation} {u v : World σ} {a : Applied} {c' : Container}
    (hallowed : c.model.refusal? m = (none : Option (MutationError ε)))
    (hrewritten : Rewritten invoke g c.rules w m m' u) (hkept : v.store.graphs[g]? = some c')
    (hrules : c'.rules = c.rules) (hstep : c.model.Step m' a c'.model) :
    Refines invoke g c w m (some (.ok a, v))

/-- A container that a program can have made and not frozen. -/
structure Standing (s : Store) (g : GraphId) (c : Container) : Prop where
  /-- The store has it under that number. -/
  stored : s.graphs[g]? = some c
  /-- Its edges hold its members and link them. -/
  formed : c.Formed
  /-- It can still be changed. -/
  mutable : c.frozen = false

theorem getElem?_set {s : Store} (hc : s.graphs[g]? = some c) (c' : Container) :
    (s.set g c').graphs[g]? = some c' := by
  have hlt := (Array.getElem?_eq_some_iff.1 hc).1
  simp [Store.set, hlt]

/-- A change of a container that is not frozen passes its conditions and its rules before it is
made. -/
theorem run_apply (hc : w.store.graphs[g]? = some c) (hmutable : c.frozen = false) (m : Mutation) :
    apply invoke g m w = (do
      ofCheck (c.preflight m)
      let m ← govern invoke g c.rules m
      let applied ← commit g m
      Act.report .trace target "mutation committed" fun _ => [("rules", toString c.rules.length)]
      return applied : Act σ (MutationError ε) Applied) w := by
  unfold apply
  rw [Act.run_bind, Act.run_container]
  dsimp only
  rw [Store.get_of_getElem? hc, hmutable, if_neg Bool.false_ne_true]

/-- A governed change refines the change of the model, and leaves a container that the next change
refines in turn. -/
theorem refines_apply (hc : Standing w.store g c)
    (hinvoke : ∀ callee args u r u', invoke callee args u = some (r, u') →
      u'.store.graphs[g]? = u.store.graphs[g]?) (m : Mutation) :
    Refines invoke g c w m (apply invoke g m w) ∧
      ∀ r v, apply invoke g m w = some (r, v) →
        ∃ c', Standing v.store g c' ∧ c'.rules = c.rules := by
  obtain ⟨hstored, hformed, hmutable⟩ := hc
  rw [run_apply hstored hmutable, Act.run_bind, hformed.preflight_eq]
  cases hrefusal : (c.model.refusal? m : Option (MutationError ε)) with
  | some e =>
    refine ⟨.refused hrefusal, ?_⟩
    rintro r v ⟨⟩
    exact ⟨c, ⟨hstored, hformed, hmutable⟩, rfl⟩
  | none =>
    rw [show Container.verdict none = .ok () from rfl, run_ofCheck_ok]
    dsimp only
    rw [Act.run_bind]
    cases hgovern : govern invoke g c.rules m w with
    | none => exact ⟨.endless hrefusal hgovern, by rintro r v ⟨⟩⟩
    | some p =>
      obtain ⟨r, u⟩ := p
      have hkept := govern_keeps hinvoke hstored hgovern
      cases r with
      | error e =>
        refine ⟨.vetoed hrefusal hgovern hkept, ?_⟩
        rintro r v ⟨⟩
        exact ⟨c, ⟨hkept, hformed, hmutable⟩, rfl⟩
      | ok m' =>
        have hrewritten := rewritten_of_govern hgovern
        obtain ⟨a, c', hcommit, hformed', hmutable', hrules, hstep⟩ :=
          made_commit hkept hformed hmutable ((hrewritten.refusal? c.model).trans hrefusal)
        have hstored' := getElem?_set hkept c'
        dsimp only
        rw [Act.run_bind, hcommit]
        dsimp only
        rw [Act.run_bind, Act.run_report]
        refine ⟨.made hrefusal hrewritten (by rwa [World.noted_store]) hrules hstep, ?_⟩
        rintro r v ⟨⟩
        exact ⟨c', ⟨by rwa [World.noted_store], hformed', hmutable'⟩, hrules⟩

/-- Worlds after changes of a container, one after the other, whether they succeed or fail.
Meanwhile anything else may happen that leaves the container alone. -/
inductive Changes (invoke : Invoke σ ε) (g : GraphId) (w : World σ) : World σ → Prop where
  /-- Before the first change. -/
  | start : Changes invoke g w w
  /-- After another change. -/
  | change {u v : World σ} {m : Mutation} {r : Except (MutationError ε) Applied} :
    Changes invoke g w u → apply invoke g m u = some (r, v) → Changes invoke g w v
  /-- After something else. -/
  | other {u v : World σ} :
    Changes invoke g w u → v.store.graphs[g]? = u.store.graphs[g]? → Changes invoke g w v

/-- A container stays one that changes refine, under its rules. -/
theorem Changes.standing (h : Changes invoke g w v) (hc : Standing w.store g c)
    (hinvoke : ∀ callee args u r u', invoke callee args u = some (r, u') →
      u'.store.graphs[g]? = u.store.graphs[g]?) :
    ∃ c', Standing v.store g c' ∧ c'.rules = c.rules := by
  induction h with
  | start => exact ⟨c, hc, rfl⟩
  | change _ happly ih =>
    obtain ⟨c', hc', hrules'⟩ := ih
    obtain ⟨c'', hc'', hrules''⟩ := (refines_apply hc' hinvoke _).2 _ _ happly
    exact ⟨c'', hc'', hrules''.trans hrules'⟩
  | other _ hkept ih =>
    obtain ⟨c', hc', hrules'⟩ := ih
    exact ⟨c', ⟨hkept.trans hc'.stored, hc'.formed, hc'.mutable⟩, hrules'⟩

end Engine

/-- Whatever rules are attached to a new list, map or user graph, the container stands at first for
what it was made of. After any number of governed changes it stands for a proper model, which is
what the queries of its kind show, and each change refines a change of the model: it is refused
exactly where the model refuses it, with the error that the model gives; or a rule stops it, and the
container is as before; or it does to the model what it says, with the incoming value passed through
the rewriting rules. -/
theorem changes_refine_model {invoke : Invoke σ ε} {g : GraphId} {c₀ : Container} {model₀ : Model}
    {rules : List Rule} {w v : World σ} (hnew : Container.Created c₀ model₀)
    (hstored : w.store.graphs[g]? = some { c₀ with rules := rules })
    (hinvoke : ∀ callee args u r u', invoke callee args u = some (r, u') →
      u'.store.graphs[g]? = u.store.graphs[g]?)
    (hchanges : Engine.Changes invoke g w v) :
    { c₀ with rules := rules }.model = model₀ ∧
    ∃ c, v.store.graphs[g]? = some c ∧ c.rules = rules ∧ c.model.Proper ∧
      c.links = c.linkage.map (fun l => (l.source, l.target, l.name)) ∧
      ∀ m, Engine.Refines invoke g c v m (Engine.apply invoke g m v) := by
  obtain ⟨hformed, -, hmutable, hmodel⟩ := hnew.built
  have hstanding : Engine.Standing w.store g { c₀ with rules := rules } :=
    ⟨hstored, hformed.withRules rules, hmutable⟩
  obtain ⟨c, hc, hrules⟩ := hchanges.standing hstanding hinvoke
  exact ⟨hmodel, c, hc.stored, hrules, hc.formed.proper_model, hc.formed.links_eq,
    fun m => (Engine.refines_apply hc hinvoke m).1⟩

/-! ### A list with a rewriting rule -/

/-- A list of one element whose incoming values are transformed by a callback. -/
def oneList : World Unit where
  store := ⟨#[{ Container.ofElements [.nil] with rules := [.transform (.custom "t" .nil)] }], 0⟩
  output := #[]
  verbosity := .silent
  events := #[]
  natives _ _ s := (.ok .nil, s)
  control := ()

/-- Gives truth for everything. -/
def answerTrue : Invoke Unit String := fun _ _ w => some (.ok (.bool true), w)

/-- After a value was inserted, the list holds what the rule made of it, and the next change refines
a change of the model. -/
theorem changes_oneList : ∃ v c, Engine.Changes answerTrue 0 oneList v ∧
    v.store.graphs[0]? = some c ∧ c.value? 2 = some (.bool true) ∧
    ∀ m, Engine.Refines answerTrue 0 c v m (Engine.apply answerTrue 0 m v) := by
  have hrun : (Engine.apply answerTrue 0 (.insert .nil) oneList).isSome = true := rfl
  obtain ⟨⟨r, v⟩, happly⟩ := Option.isSome_iff_exists.1 hrun
  have hchanges := Engine.Changes.start.change happly
  obtain ⟨-, c, hc, -, -, -, hrefines⟩ :=
    changes_refine_model (.list [.nil]) rfl (by rintro callee args u r u' ⟨⟩; rfl) hchanges
  refine ⟨v, c, hchanges, hc, ?_, hrefines⟩
  cases happly
  cases hc
  rfl

end GraphLang
