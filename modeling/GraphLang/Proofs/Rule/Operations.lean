import GraphLang.Proofs.Rule.Refinement
import Mathlib.Logic.Relation

/-!
# Sequences of operations on a container

A container is changed, given rules and frozen by one operation after the other, whether they
succeed or fail, and meanwhile anything may happen elsewhere. `Evolves` says once what a step of an
operation can make of a container that callbacks leave alone; what each such step keeps, every
sequence of operations keeps.
-/

namespace GraphLang

open Container (Applied Held)
open Relation (ReflTransGen)

variable {σ ε ε₁ α : Type}

/-- A sequence succeeds where both of its actions do. -/
theorem Act.run_bind_eq_ok {β : Type} {a : Act σ ε₁ α} {f : α → Act σ ε₁ β} {w v : World σ}
    {y : β} :
    (a >>= f) w = some (.ok y, v) ↔
      ∃ x u, a w = some (.ok x, u) ∧ f x u = some (.ok y, v) := by
  rw [Act.run_bind]
  cases a w with
  | none => simp
  | some p =>
    obtain ⟨r, u⟩ := p
    cases r <;> simp

theorem Act.run_store_bind (f : Store → Act σ ε₁ α) (w : World σ) :
    (Act.store >>= f) w = f w.store w := rfl

/-! ### What callbacks lead to -/

/-- Callbacks leave a container as it is. -/
def Invoke.Spares (invoke : Invoke σ ε) (g : GraphId) : Prop :=
  ∀ callee args u r u', invoke callee args u = some (r, u') →
    u'.store.graphs[g]? = u.store.graphs[g]?

/-- From the first store to the second one, containers were changed in callbacks only. -/
def Store.Led (invoke : Invoke σ ε) (s t : Store) : Prop :=
  ∃ made, s.Untouched made t ∧ ∀ call ∈ made, ∃ natives, call.By invoke natives

namespace Store

variable {invoke : Invoke σ ε} {s t u : Store} {g : GraphId} {c : Container}

theorem Led.refl : s.Led invoke s := ⟨[], Spares.refl s, by simp⟩

theorem Led.trans (h : s.Led invoke t) (h' : t.Led invoke u) : s.Led invoke u := by
  obtain ⟨made, huntouched, hby⟩ := h
  obtain ⟨made', huntouched', hby'⟩ := h'
  refine ⟨made' ++ made, huntouched.trans huntouched', fun call hcall => ?_⟩
  exact (List.mem_append.1 hcall).elim (hby' call) (hby call)

theorem Led.of_traces {a : Act σ ε₁ α} {a' : Act (σ × List Callback) ε₁ α}
    (h : Traces invoke a a') {w v : World σ} {r : Except ε₁ α} (hrun : a w = some (r, v)) :
    w.store.Led invoke v.store := by
  have htraces := h w []
  rw [hrun] at htraces
  obtain ⟨made, -, huntouched, hby, -⟩ := htraces
  exact ⟨made, huntouched, fun call hcall => ⟨_, hby call hcall⟩⟩

/-- Callbacks that leave a container alone lead to a store that has it. -/
theorem Led.getElem? (h : s.Led invoke t) (hinvoke : invoke.Spares g)
    (hc : s.graphs[g]? = some c) : t.graphs[g]? = some c := by
  obtain ⟨made, huntouched, hby⟩ := h
  refine huntouched.getElem? hc fun call hcall hbefore => ?_
  obtain ⟨natives, callee, args, u, r, u', hrun, rfl, -⟩ := hby call hcall
  rw [← hbefore]
  exact hinvoke callee args u r u' hrun

theorem set_self (hc : s.graphs[g]? = some c) : s.set g c = s := by
  obtain ⟨hlt, rfl⟩ := Array.getElem?_eq_some_iff.1 hc
  simp [set, Array.setIfInBounds, hlt]

theorem set_set (c c' : Container) : (s.set g c).set g c' = s.set g c' := by
  simp [set]

end Store

/-! ### New values of members -/

namespace Container

variable {c : Container} (news : List (Nat × Value))

/-- A container with new values of members, those left out that it does not have. -/
def rewrite (c : Container) (news : List (Nat × Value)) : Container :=
  news.foldl (fun c x => if c.graph.hasNode x.1 then c.putValue x.1 x.2 else c) c

/-- A property that each new value keeps. -/
theorem rewrite_induction {P : Container → Prop} (hc : P c)
    (hput : ∀ c n value, P c → P (c.putValue n value)) : P (c.rewrite news) := by
  induction news generalizing c with
  | nil => exact hc
  | cons x news ih =>
    rw [rewrite, List.foldl_cons]
    refine ih ?_
    split
    · exact hput c x.1 x.2 hc
    · exact hc

/-- New values are all that is new. -/
theorem rewrite_eq : c.rewrite news = { c with graph := (c.rewrite news).graph } :=
  rewrite_induction (P := fun c' => c' = { c with graph := c'.graph }) news rfl
    fun c' n value h => by rw [putValue, h]

theorem Formed.rewrite (h : c.Formed) : (c.rewrite news).Formed :=
  rewrite_induction news h fun _ n value h => h.putValue n value

/-- New values keep members under their labels, and links. -/
theorem Formed.shape_rewrite (h : c.Formed) :
    (c.rewrite news).roster.map (fun x => (x.label, x.node)) =
      c.roster.map (fun x => (x.label, x.node)) ∧ (c.rewrite news).linkage = c.linkage := by
  refine (rewrite_induction (P := fun c' => c'.Formed ∧
    c'.roster.map (fun x => (x.label, x.node)) = c.roster.map (fun x => (x.label, x.node)) ∧
    c'.linkage = c.linkage) news ⟨h, rfl, rfl⟩ fun c' n value ⟨h', hroster, hlinkage⟩ => ?_).2
  refine ⟨h'.putValue n value, ?_, (h'.linkage_putValue n value).trans hlinkage⟩
  rw [h'.roster_putValue, ← hroster, List.map_map]
  exact List.map_congr_left fun x _ => by simp

/-- A member that was given no new value has its old one. -/
theorem Formed.mem_roster_rewrite (h : c.Formed) {x : Held} (hx : x ∈ (c.rewrite news).roster) :
    x ∈ c.roster ∧ x.node ∉ news.map (·.1) ∨ (x.node, x.value) ∈ news := by
  induction news generalizing c with
  | nil => exact Or.inl ⟨hx, by simp⟩
  | cons y news ih =>
    rw [Container.rewrite, List.foldl_cons] at hx
    rw [List.map_cons, List.mem_cons]
    split at hx
    · obtain ⟨hold, hnew⟩ | hnew := ih (h.putValue y.1 y.2) hx
      · rw [h.roster_putValue] at hold
        obtain ⟨z, hz, rfl⟩ := List.mem_map.1 hold
        by_cases hnode : z.node = y.1
        · simp [Held.put, hnode]
        · rw [Held.put, if_neg hnode] at hnew ⊢
          exact Or.inl ⟨hz, by tauto⟩
      · exact Or.inr (List.mem_cons_of_mem y hnew)
    · rename_i hnode
      obtain ⟨hold, hnew⟩ | hnew := ih h hx
      · have hne : x.node ≠ y.1 := fun heq =>
          hnode (heq ▸ (h.mem_nodes.1 (List.mem_map_of_mem hold)).2)
        exact Or.inl ⟨hold, by tauto⟩
      · exact Or.inr (List.mem_cons_of_mem y hnew)

end Container

namespace Engine

variable {invoke : Invoke σ ε} {g : GraphId} {c : Container} {w u v t : World σ}

/-! ### Operations -/

/-- One operation on a container. -/
inductive Operation where
  /-- The container is changed under its rules. -/
  | change (m : Mutation)
  /-- A rule is attached. -/
  | attach (rule : Rule)
  /-- The rules of a ruleset are attached, one after the other. -/
  | attachAll (set : Ruleset)
  /-- The container is frozen. -/
  | freeze

namespace Operation

/-- The rules that an operation attaches. -/
def rules : Operation → List Rule
  | .attach rule => [rule]
  | .attachAll set => set.rules
  | _ => []

/-- Runs an operation, and gives whether it succeeds. -/
def run (invoke : Invoke σ ε) (g : GraphId) (w : World σ) : Operation → Option (Bool × World σ)
  | .change m => (apply invoke g m w).map fun p => (p.1.isOk, p.2)
  | .attach rule => (addRule invoke g rule w).map fun p => (p.1.isOk, p.2)
  | .attachAll set => (applyRuleset invoke g set w).map fun p => (p.1.isOk, p.2)
  | .freeze => (Engine.freeze g w : Option (Except (MutationError ε) Unit × World σ)).map fun p =>
    (p.1.isOk, p.2)

/-- Runs operations one after the other, whether they succeed or fail. -/
def runAll (invoke : Invoke σ ε) (g : GraphId) : List Operation → World σ → Option (World σ)
  | [], w => some w
  | op :: rest, w => (op.run invoke g w).bind fun p => runAll invoke g rest p.2

end Operation

/-- What happens to a container, or elsewhere. -/
inductive Moment where
  /-- An operation on the container, with the store that it finds. -/
  | operation (before : Store) (operation : Operation) (succeeds : Bool)
  /-- Something else, with the store before and after. -/
  | meanwhile (before after : Store)

/-- The store that it finds. -/
def Moment.before : Moment → Store
  | .operation before _ _ | .meanwhile before _ => before

/-- The rules that are attached. -/
def Moment.rules : Moment → List Rule
  | .operation _ op _ => op.rules
  | .meanwhile .. => []

/-- Worlds after operations on a container, the last one first, whether they succeed or fail.
Meanwhile anything else may happen that leaves the container alone. -/
inductive Operations (invoke : Invoke σ ε) (g : GraphId) (w : World σ) :
    List Moment → World σ → Prop where
  /-- Before the first operation. -/
  | start : Operations invoke g w [] w
  /-- After another operation. -/
  | operation {moments : List Moment} {u v : World σ} {op : Operation} {succeeds : Bool} :
    Operations invoke g w moments u → op.run invoke g u = some (succeeds, v) →
      Operations invoke g w (.operation u.store op succeeds :: moments) v
  /-- After something else. -/
  | meanwhile {moments : List Moment} {u v : World σ} :
    Operations invoke g w moments u → v.store.graphs[g]? = u.store.graphs[g]? →
      Operations invoke g w (.meanwhile u.store v.store :: moments) v

/-! ### Steps -/

/-- What a step of an operation can make of a container that callbacks leave alone. -/
inductive Evolves (invoke : Invoke σ ε) (g : GraphId) (c : Container) :
    Moment → Store → Store → Container → Prop where
  /-- The container stays as it is. -/
  | kept {moment : Moment} {s t : Store} (hled : s.Led invoke t) : Evolves invoke g c moment s t c
  /-- Something else happens. -/
  | meanwhile {s t : Store} : Evolves invoke g c (.meanwhile s t) s t c
  /-- A change passes the rules and is made. -/
  | changed {m m' : Mutation} {succeeds : Bool} {a : Applied} {c' : Container} {u t : World σ}
    (hrewritten : Rewritten invoke g c.rules u m m' t) (hkept : t.store.graphs[g]? = some c)
    (hformed : c'.Formed) (hrules : c'.rules = c.rules) (hstep : c.model.Step m' a c'.model) :
    Evolves invoke g c (.operation u.store (.change m) succeeds) u.store (t.store.set g c') c'
  /-- A rule is attached, and the members take new values. -/
  | attached {moment : Moment} {rule : Rule} {news : List (Nat × Value)} {u t : World σ}
    (hrule : rule ∈ moment.rules) (hprepared : prepareRule invoke g rule u = some (.ok news, t))
    (hkept : t.store.graphs[g]? = some c) :
    Evolves invoke g c moment u.store
      (t.store.set g { c.rewrite news with rules := c.rules ++ [rule] })
      { c.rewrite news with rules := c.rules ++ [rule] }
  /-- The container is frozen. -/
  | frozen {moment : Moment} {s : Store} : Evolves invoke g c moment s (s.set g c.freeze) c.freeze

theorem run_writeAll_eq (hc : w.store.graphs[g]? = some c) (hmutable : c.frozen = false)
    (news : List (Nat × Value)) :
    (writeAll g news w : Option (Except (MutationError ε) Unit × World σ)) =
      some (.ok (), { w with store := w.store.set g (c.rewrite news) }) := by
  induction news generalizing w c with
  | nil =>
    rw [show c.rewrite [] = c from rfl, Store.set_self hc]
    rfl
  | cons x news ih =>
    unfold writeAll
    rw [Act.run_bind, Act.run_container]
    dsimp only
    rw [Store.get_of_getElem? hc, Container.rewrite, List.foldl_cons]
    by_cases hnode : c.graph.hasNode x.1 = true
    · obtain ⟨m, hm⟩ := SlotGraph.hasNode_iff.1 hnode
      have hset := Container.setValue_of_mutable hmutable hm x.2
      have hdiscard : (discard (write g (·.setValue x.1 x.2)) : Act σ (MutationError ε) PUnit) w =
          some (.ok ⟨⟩, { w with store := w.store.set g (c.putValue x.1 x.2) }) := by
        change ((fun _ => PUnit.unit) <$> write g _ : Act σ (MutationError ε) PUnit) w = _
        rw [← Store.get_of_getElem? hc] at hset ⊢
        rw [Act.run_map, run_write_ok hset]
        rfl
      rw [if_pos hnode, if_pos hnode, Act.run_bind, hdiscard]
      dsimp only
      rw [ih (c := c.putValue x.1 x.2) (getElem?_set hc _) hmutable]
      dsimp only
      rw [Store.set_set]
      rfl
    · rw [if_neg hnode, if_neg hnode]
      exact ih hc hmutable

/-- A rule whose new values are computed is attached. -/
theorem run_attachRule (hc : w.store.graphs[g]? = some c) (hmutable : c.frozen = false)
    (rule : Rule) (news : List (Nat × Value)) :
    ∃ v, attachRule g rule news w = some ((.ok () : Except (MutationError ε) Unit), v) ∧
      v.store = w.store.set g { c.rewrite news with rules := c.rules ++ [rule] } := by
  have hrest := Container.rewrite_eq (c := c) news
  have hpush : (c.rewrite news).pushRule rule =
      .ok { c.rewrite news with rules := c.rules ++ [rule] } := by
    rw [Container.pushRule_of_mutable (by rw [hrest]; exact hmutable), hrest]
  unfold attachRule
  rw [Act.run_bind, Act.run_container]
  dsimp only
  rw [Store.get_of_getElem? hc, hmutable, if_neg Bool.false_ne_true, Act.run_bind,
    run_writeAll_eq hc hmutable]
  dsimp only
  rw [Act.run_bind, Act.run_container]
  dsimp only
  rw [Act.run_bind, Act.run_report]
  dsimp only
  rw [run_write_ok (a := ()) (c := { c.rewrite news with rules := c.rules ++ [rule] })]
  · refine ⟨_, rfl, ?_⟩
    dsimp only
    rw [World.noted_store, Store.set_set]
  · rw [World.noted_store, Store.get_of_getElem? (getElem?_set hc _), hpush]
    rfl

/-- A change leaves its container as it is, or makes of it what the change says. -/
theorem evolves_apply (hinvoke : invoke.Spares g) (hc : u.store.graphs[g]? = some c)
    (hformed : c.Formed) {m : Mutation} {r : Except (MutationError ε) Applied}
    (h : apply invoke g m u = some (r, v)) (succeeds : Bool) :
    ∃ c', v.store.graphs[g]? = some c' ∧ c'.Formed ∧
      Evolves invoke g c (.operation u.store (.change m) succeeds) u.store v.store c' := by
  cases hfrozen : c.frozen with
  | true =>
    cases (run_apply_frozen hc hfrozen invoke m).symm.trans h
    rw [World.noted_store]
    exact ⟨c, hc, hformed, .kept .refl⟩
  | false =>
    rw [run_apply hc hfrozen, Act.run_bind, hformed.preflight_eq] at h
    cases hrefusal : (c.model.refusal? m : Option (MutationError ε)) with
    | some e =>
      rw [hrefusal] at h
      cases h
      exact ⟨c, hc, hformed, .kept .refl⟩
    | none =>
      rw [hrefusal, show Container.verdict none = .ok () from rfl, run_ofCheck_ok] at h
      dsimp only at h
      rw [Act.run_bind] at h
      cases hgovern : govern invoke g c.rules m u with
      | none =>
        rw [hgovern] at h
        cases h
      | some p =>
        obtain ⟨r, t⟩ := p
        have hled : u.store.Led invoke t.store :=
          .of_traces (traces_govern invoke g c.rules m) hgovern
        have hkept := hled.getElem? hinvoke hc
        rw [hgovern] at h
        cases r with
        | error e =>
          cases h
          exact ⟨c, hkept, hformed, .kept hled⟩
        | ok m' =>
          have hrewritten := rewritten_of_govern hgovern
          obtain ⟨a, c', hcommit, hformed', -, hrules, hstep⟩ :=
            made_commit hkept hformed hfrozen ((hrewritten.refusal? c.model).trans hrefusal)
          dsimp only at h
          rw [Act.run_bind, hcommit] at h
          dsimp only at h
          rw [Act.run_bind, Act.run_report] at h
          cases h
          rw [World.noted_store]
          exact ⟨c', getElem?_set hkept c', hformed',
            .changed hrewritten hkept hformed' hrules hstep⟩

/-- Attaching a rule fails and leaves the container as it is, or attaches the rule. -/
theorem evolves_addRule (hinvoke : invoke.Spares g) (hc : u.store.graphs[g]? = some c)
    (hformed : c.Formed) {rule : Rule} {r : Except (MutationError ε) Unit}
    (h : addRule invoke g rule u = some (r, v)) (moment : Moment) (hrule : rule ∈ moment.rules) :
    ∃ c', v.store.graphs[g]? = some c' ∧ c'.Formed ∧ (r.isOk = true → rule ∈ c'.rules) ∧
      Evolves invoke g c moment u.store v.store c' := by
  cases hfrozen : c.frozen with
  | true =>
    cases (run_addRule_frozen hc hfrozen invoke rule).symm.trans h
    exact ⟨c, hc, hformed, by rintro ⟨⟩, .kept .refl⟩
  | false =>
    rw [run_addRule hc hfrozen, Act.run_bind] at h
    cases hprepared : prepareRule invoke g rule u with
    | none =>
      rw [hprepared] at h
      cases h
    | some p =>
      obtain ⟨r, t⟩ := p
      have hled : u.store.Led invoke t.store :=
        .of_traces (traces_prepareRule invoke g rule) hprepared
      have hkept := hled.getElem? hinvoke hc
      rw [hprepared] at h
      cases r with
      | error e =>
        cases h
        exact ⟨c, hkept, hformed, by rintro ⟨⟩, .kept hled⟩
      | ok news =>
        obtain ⟨v', hattach, hstore⟩ := run_attachRule (ε := ε) hkept hfrozen rule news
        dsimp only at h
        rw [hattach] at h
        cases h
        rw [hstore]
        exact ⟨_, getElem?_set hkept _, (hformed.rewrite news).withRules _, by simp,
          .attached hrule hprepared hkept⟩

/-- Freezing fails and leaves the container as it is, or freezes it. -/
theorem evolves_freeze (hc : u.store.graphs[g]? = some c) (hformed : c.Formed)
    {r : Except (MutationError ε) Unit} (h : freeze g u = some (r, v)) (moment : Moment) :
    ∃ c', v.store.graphs[g]? = some c' ∧ c'.Formed ∧
      Evolves invoke g c moment u.store v.store c' := by
  have hfreeze : (do
      Act.setContainer g c.freeze
      Act.report .debug target "graph frozen" fun _ => [] : Act σ (MutationError ε) Unit) u =
        some (r, v) → ∃ c', v.store.graphs[g]? = some c' ∧ c'.Formed ∧
          Evolves invoke g c moment u.store v.store c' := by
    intro hrun
    rw [Act.run_bind, show (Act.setContainer g c.freeze : Act σ (MutationError ε) Unit) u =
      some (.ok (), { u with store := u.store.set g c.freeze }) from rfl] at hrun
    dsimp only at hrun
    rw [Act.run_report] at hrun
    cases hrun
    rw [World.noted_store]
    exact ⟨c.freeze, getElem?_set hc _, hformed.freeze, .frozen⟩
  unfold freeze at h
  rw [Act.run_bind, Act.run_store] at h
  dsimp only at h
  rw [Store.get_of_getElem? hc] at h
  by_cases hfrozen : c.frozen = true
  · rw [if_pos hfrozen] at h
    cases h
    exact ⟨c, hc, hformed, .kept .refl⟩
  rw [if_neg hfrozen] at h
  cases hmixed : mixedRule? c with
  | none =>
    rw [hmixed] at h
    exact hfreeze h
  | some rule =>
    rw [hmixed] at h
    dsimp only at h
    split at h
    · cases h
      exact ⟨c, hc, hformed, .kept .refl⟩
    · exact hfreeze h

/-- Rules stay attached. -/
theorem Evolves.rules_subset {moment : Moment} {s t : Store} {c' : Container}
    (h : Evolves invoke g c moment s t c') : c.rules ⊆ c'.rules := by
  cases h with
  | changed _ _ _ hrules _ => exact hrules ▸ List.Subset.refl _
  | attached => exact List.subset_append_left _ _
  | _ => exact List.Subset.refl _

/-! ### Sequences -/

/-- What the steps of an operation make of a container, together with the store. -/
def Leads (invoke : Invoke σ ε) (g : GraphId) (moment : Moment) :
    Store × Container → Store × Container → Prop :=
  ReflTransGen fun p q =>
    p.1.graphs[g]? = some p.2 ∧ p.2.Formed ∧ Evolves invoke g p.2 moment p.1 q.1 q.2

theorem Leads.rules_subset {moment : Moment} {p q : Store × Container}
    (h : Leads invoke g moment p q) : p.2.rules ⊆ q.2.rules := by
  induction h with
  | refl => exact List.Subset.refl _
  | tail _ hstep ih => exact List.Subset.trans ih hstep.2.2.rules_subset

/-- Attaching rules is attaching one after the other. -/
theorem leads_addRules (hinvoke : invoke.Spares g) (hc : u.store.graphs[g]? = some c)
    (hformed : c.Formed) (moment : Moment) {rules : List Rule} (hrules : rules ⊆ moment.rules)
    {r : Except (MutationError ε) Unit} (h : addRules invoke g rules u = some (r, v)) :
    ∃ c', v.store.graphs[g]? = some c' ∧ c'.Formed ∧ (r.isOk = true → rules ⊆ c'.rules) ∧
      Leads invoke g moment (u.store, c) (v.store, c') := by
  induction rules generalizing u c with
  | nil =>
    cases h
    exact ⟨c, hc, hformed, by simp, .refl⟩
  | cons rule rest ih =>
    unfold addRules at h
    rw [Act.run_bind] at h
    cases hadd : addRule invoke g rule u with
    | none =>
      rw [hadd] at h
      cases h
    | some p =>
      obtain ⟨r', t⟩ := p
      obtain ⟨c', hc', hformed', hattached, hevolves⟩ :=
        evolves_addRule hinvoke hc hformed hadd moment (hrules List.mem_cons_self)
      have hfirst : Leads invoke g moment (u.store, c) (t.store, c') :=
        .single ⟨hc, hformed, hevolves⟩
      rw [hadd] at h
      cases r' with
      | error e =>
        cases h
        exact ⟨c', hc', hformed', by rintro ⟨⟩, hfirst⟩
      | ok _ =>
        obtain ⟨c'', hc'', hformed'', hrest, hleads⟩ :=
          ih hc' hformed' (List.subset_of_cons_subset hrules) h
        refine ⟨c'', hc'', hformed'', fun hok => ?_, hfirst.trans hleads⟩
        exact List.cons_subset.2 ⟨hleads.rules_subset (hattached rfl), hrest hok⟩

/-- An operation that ends takes its container through steps, and attaches its rules if it
succeeds. -/
theorem leads_run {op : Operation} {succeeds : Bool}
    (h : op.run invoke g u = some (succeeds, v)) (hinvoke : invoke.Spares g)
    (hc : u.store.graphs[g]? = some c) (hformed : c.Formed) :
    ∃ c', v.store.graphs[g]? = some c' ∧ c'.Formed ∧ (succeeds = true → op.rules ⊆ c'.rules) ∧
      Leads invoke g (.operation u.store op succeeds) (u.store, c) (v.store, c') := by
  cases op with
  | change m =>
    obtain ⟨⟨r, v'⟩, hrun, heq⟩ := Option.map_eq_some_iff.1 h
    cases heq
    obtain ⟨c', hc', hformed', hevolves⟩ := evolves_apply hinvoke hc hformed hrun r.isOk
    exact ⟨c', hc', hformed', by simp [Operation.rules], .single ⟨hc, hformed, hevolves⟩⟩
  | attach rule =>
    obtain ⟨⟨r, v'⟩, hrun, heq⟩ := Option.map_eq_some_iff.1 h
    cases heq
    obtain ⟨c', hc', hformed', hattached, hevolves⟩ :=
      evolves_addRule hinvoke hc hformed hrun (.operation u.store (.attach rule) r.isOk)
        (List.mem_singleton_self rule)
    exact ⟨c', hc', hformed', by simpa [Operation.rules] using hattached,
      .single ⟨hc, hformed, hevolves⟩⟩
  | attachAll set =>
    obtain ⟨⟨r, v'⟩, hrun, heq⟩ := Option.map_eq_some_iff.1 h
    cases heq
    unfold applyRuleset at hrun
    rw [Act.run_bind, Act.run_report] at hrun
    dsimp only at hrun
    have hleads := leads_addRules hinvoke (by rwa [World.noted_store]) hformed
      (.operation u.store (.attachAll set) r.isOk) (List.Subset.refl set.rules) hrun
    rwa [World.noted_store] at hleads
  | freeze =>
    obtain ⟨⟨r, v'⟩, hrun, heq⟩ := Option.map_eq_some_iff.1 h
    cases heq
    obtain ⟨c', hc', hformed', hevolves⟩ := evolves_freeze hc hformed hrun _
    exact ⟨c', hc', hformed', by simp [Operation.rules], .single ⟨hc, hformed, hevolves⟩⟩

/-- The moment is an operation that succeeded in attaching the rule. -/
def Moment.Attaches (rule : Rule) : Moment → Prop
  | .operation _ op succeeds => succeeds = true ∧ rule ∈ op.rules
  | .meanwhile .. => False

/-- What holds of a container, and of the store that the last moment found, holds after operations
if every step of them keeps it. -/
theorem Operations.preserves_since {P : Store → Store → Container → Prop} {moments : List Moment}
    (h : Operations invoke g w moments v) (hinvoke : invoke.Spares g)
    (hc : w.store.graphs[g]? = some c) (hformed : c.Formed) (hP : P w.store w.store c)
    (hnext : ∀ before s c, P before s c → P s s c)
    (hstep : ∀ moment ∈ moments, ∀ s t c c', s.graphs[g]? = some c → c.Formed →
      P moment.before s c → Evolves invoke g c moment s t c' → P moment.before t c') :
    ∃ c', v.store.graphs[g]? = some c' ∧ c'.Formed ∧ P v.store v.store c' ∧
      ∀ moment ∈ moments, ∀ rule, moment.Attaches rule → rule ∈ c'.rules := by
  induction h with
  | start => exact ⟨c, hc, hformed, hP, by simp⟩
  | meanwhile _ hkept ih =>
    obtain ⟨c', hc', hformed', hP', hattached⟩ := ih fun moment hmoment =>
      hstep moment (.tail _ hmoment)
    refine ⟨c', hkept.trans hc', hformed',
      hnext _ _ _ (hstep _ (.head _) _ _ _ _ hc' hformed' hP' .meanwhile), ?_⟩
    exact List.forall_mem_cons.2 ⟨fun rule => False.elim, hattached⟩
  | @operation moments u v op succeeds _ hends ih =>
    obtain ⟨c', hc', hformed', hP', hattached⟩ := ih fun moment hmoment =>
      hstep moment (.tail _ hmoment)
    obtain ⟨c'', hc'', hformed'', hrules, hleads⟩ := leads_run hends hinvoke hc' hformed'
    refine ⟨c'', hc'', hformed'', ?_, List.forall_mem_cons.2 ⟨fun rule h => hrules h.1 h.2, ?_⟩⟩
    · have hkeeps {p q : Store × Container}
          (hpq : Leads invoke g (.operation u.store op succeeds) p q) (hp : P u.store p.1 p.2) :
          P u.store q.1 q.2 := by
        induction hpq with
        | refl => exact hp
        | tail _ h ih => exact hstep _ (.head moments) _ _ _ _ h.1 h.2.1 ih h.2.2
      exact hnext _ _ _ (hkeeps hleads hP')
    · exact fun moment hmoment rule h => hleads.rules_subset (hattached moment hmoment rule h)

/-- What holds of a container holds after operations if every step of them keeps it. -/
theorem Operations.preserves {P : Store → Container → Prop} {moments : List Moment}
    (h : Operations invoke g w moments v) (hinvoke : invoke.Spares g)
    (hc : w.store.graphs[g]? = some c) (hformed : c.Formed) (hP : P w.store c)
    (hstep : ∀ moment ∈ moments, ∀ s t c c', s.graphs[g]? = some c → c.Formed → P s c →
      Evolves invoke g c moment s t c' → P t c') :
    ∃ c', v.store.graphs[g]? = some c' ∧ c'.Formed ∧ P v.store c' ∧
      ∀ moment ∈ moments, ∀ rule, moment.Attaches rule → rule ∈ c'.rules :=
  h.preserves_since (P := fun _ => P) hinvoke hc hformed hP (fun _ _ _ => id) hstep

/-- Operations leave a container whose edges hold its members and link them. -/
theorem Operations.formed {moments : List Moment} (h : Operations invoke g w moments v)
    (hinvoke : invoke.Spares g) (hc : w.store.graphs[g]? = some c) (hformed : c.Formed) :
    ∃ c', v.store.graphs[g]? = some c' ∧ c'.Formed := by
  obtain ⟨c', hc', hformed', -⟩ := h.preserves (P := fun _ _ => True) hinvoke hc hformed trivial
    fun _ _ _ _ _ _ _ _ _ _ => trivial
  exact ⟨c', hc', hformed'⟩

/-- Operations that are run one after the other. -/
theorem Operations.runAll {ops : List Operation} {moments : List Moment}
    (h : Operations invoke g w moments u) (hrun : Operation.runAll invoke g ops u = some v) :
    ∃ more, Operations invoke g w (more ++ moments) v ∧
      ∀ moment ∈ more, ∃ before succeeds, ∃ op ∈ ops, moment = .operation before op succeeds := by
  induction ops generalizing u moments with
  | nil =>
    cases hrun
    exact ⟨[], h, by simp⟩
  | cons op ops ih =>
    obtain ⟨⟨succeeds, t⟩, hop, hrest⟩ := Option.bind_eq_some_iff.1 hrun
    obtain ⟨more, hmore, hmoments⟩ := ih (h.operation hop) hrest
    refine ⟨more ++ [.operation u.store op succeeds], by simpa using hmore,
      fun moment hmoment => ?_⟩
    obtain hmoment | hmoment := List.mem_append.1 hmoment
    · obtain ⟨before, succeeds, op', hop', rfl⟩ := hmoments moment hmoment
      exact ⟨before, succeeds, op', List.mem_cons_of_mem op hop', rfl⟩
    · exact ⟨u.store, succeeds, op, List.mem_cons_self, List.mem_singleton.1 hmoment⟩

/-! ### Asking the rules -/

/-- Where all rules let a change pass, each of them was asked. -/
theorem asked_of_forM {rules : List Rule} {m : Mutation} {rule : Rule} (hrule : rule ∈ rules)
    (h : rules.forM (consult invoke g m) w = some (.ok ⟨⟩, v)) :
    ∃ u t, w.store.Led invoke u.store ∧ consult invoke g m rule u = some (.ok ⟨⟩, t) ∧
      t.store.Led invoke v.store := by
  induction rules generalizing w with
  | nil => cases hrule
  | cons first rest ih =>
    obtain ⟨_, t, hfirst, hrun⟩ := Act.run_bind_eq_ok.1
      (show (consult invoke g m first >>= fun _ => rest.forM (consult invoke g m)) w = _ from h)
    obtain rfl | hrule := List.mem_cons.1 hrule
    · exact ⟨w, t, .refl, hfirst, .of_traces (.forM rest (traces_consult invoke g m)) hrun⟩
    · obtain ⟨u, t', hled, hasked, hrest⟩ := ih hrule hrun
      exact ⟨u, t', (Store.Led.of_traces (traces_consult invoke g m first) hfirst).trans hled,
        hasked, hrest⟩

/-- A validation without a callback that lets a change pass has looked at the container. -/
theorem check_of_validate {x : Validation} {m : Mutation}
    (hx : ∀ name callee, x ≠ .predicate name callee)
    (h : validate invoke g x m u = some (.ok ⟨⟩, t)) :
    x.check u.store (u.store.get g) m = .ok () ∧ t = u := by
  cases hcheck : x.check u.store (u.store.get g) m with
  | error reason =>
    have hrun : validate invoke g x m u = refuse x (some reason) u := by
      rw [validate, Act.run_store_bind, hcheck]
      exact hx
    cases hrun.symm.trans h
  | ok _ =>
    have hrun : validate invoke g x m u = some (.ok ⟨⟩, u) := by
      rw [validate, Act.run_store_bind, hcheck]
      · rfl
      · exact hx
    cases hrun.symm.trans h
    exact ⟨rfl, rfl⟩

/-- A validation without a callback has let every change pass that goes through the rules. -/
theorem Rewritten.check {rules : List Rule} {m m' : Mutation} {x : Validation}
    (h : Rewritten invoke g rules u m m' t) (hinvoke : invoke.Spares g)
    (hc : u.store.graphs[g]? = some c) (hrule : .validate x ∈ rules)
    (hx : ∀ name callee, x ≠ .predicate name callee) :
    ∃ s, u.store.Led invoke s ∧ x.check s c m = .ok () := by
  obtain ⟨v, hasked, -⟩ := h
  obtain ⟨u', t', hled, hconsult, -⟩ := asked_of_forM hrule hasked
  have hcheck := (check_of_validate hx hconsult).1
  rw [Store.get_of_getElem? (hled.getElem? hinvoke hc)] at hcheck
  exact ⟨u'.store, hled, hcheck⟩

/-- Only a validation of types looks at the incoming value itself. -/
theorem check_withIncoming {x : Validation} (hx : x ≠ .homogeneous) (s : Store) (c : Container)
    (m : Mutation) (value : Value) : x.check s c (m.withIncoming value) = x.check s c m := by
  cases x with
  | homogeneous => exact absurd rfl hx
  | predicate name callee => rfl
  | _ =>
    cases m with
    | link source target tag data => cases data <;> rfl
    | addMember old parent => cases parent <;> rfl
    | _ => rfl

/-- Such a validation would have let the rewritten change pass as well. -/
theorem Rewritten.check_written {rules : List Rule} {m m' : Mutation} {x : Validation}
    (h : Rewritten invoke g rules u m m' t) (hinvoke : invoke.Spares g)
    (hc : u.store.graphs[g]? = some c) (hrule : .validate x ∈ rules)
    (hx : ∀ name callee, x ≠ .predicate name callee) (hx' : x ≠ .homogeneous) :
    ∃ s, x.check s c m' = .ok () := by
  obtain ⟨s, -, hcheck⟩ := h.check hinvoke hc hrule hx
  refine ⟨s, ?_⟩
  obtain ⟨u, -, ⟨-, rfl, -⟩ | ⟨value, value', -, rfl, -⟩⟩ := h
  · exact hcheck
  · rw [check_withIncoming hx', hcheck]

/-- A validation without a callback looks at the container as it is. -/
theorem run_prepareRule_validate (invoke : Invoke σ ε) {x : Validation}
    (hx : ∀ name callee, x ≠ .predicate name callee) :
    prepareRule invoke g (.validate x) u =
      some (((x.checkNow u.store (u.store.get g)).mapError fun reason =>
        .validationFailed x.display (some reason)).map fun _ => [], u) := by
  rw [prepareRule, Act.run_store_bind]
  cases x with
  | predicate name callee => exact absurd rfl (hx name callee)
  | _ =>
    dsimp only
    generalize Validation.checkNow _ _ _ = result
    cases result <;> rfl

/-- A validation without a callback that is attached holds of the container as it is. -/
theorem checkNow_of_prepareRule {x : Validation} (hx : ∀ name callee, x ≠ .predicate name callee)
    (hc : u.store.graphs[g]? = some c) {news : List (Nat × Value)}
    (h : prepareRule invoke g (.validate x) u = some (.ok news, t)) :
    x.checkNow u.store c = .ok () ∧ news = [] ∧ t = u := by
  rw [run_prepareRule_validate invoke hx, Store.get_of_getElem? hc] at h
  cases hcheck : x.checkNow u.store c with
  | error reason =>
    rw [hcheck] at h
    cases h
  | ok _ =>
    rw [hcheck] at h
    cases h
    exact ⟨rfl, rfl, rfl⟩

end Engine

/-! ### Worlds to operate on -/

/-- A world that holds these containers and nothing else. -/
def World.holding (graphs : Array Container) : World Unit where
  store := ⟨graphs, 0⟩
  output := #[]
  verbosity := .silent
  events := #[]
  natives _ _ s := (.ok .nil, s)
  control := ()

/-- Tells a validation without a callback from other rules. -/
def Rule.validates : Validation → Rule → Bool
  | .maxSize limit, .validate (.maxSize limit') => limit == limit'
  | .acyclic, .validate .acyclic => true
  | .singleRoot, .validate .singleRoot => true
  | .homogeneous, .validate .homogeneous => true
  | _, _ => false

theorem Container.mem_rules_of_any {c : Container} {x : Validation}
    (h : c.rules.any (Rule.validates x) = true) : .validate x ∈ c.rules := by
  obtain ⟨rule, hrule, hvalidation⟩ := List.any_eq_true.1 h
  suffices rule = .validate x from this ▸ hrule
  unfold Rule.validates at hvalidation
  split at hvalidation
  · rw [beq_iff_eq.1 hvalidation]
  · rfl
  · rfl
  · rfl
  · cases hvalidation

theorem answerTrue_spares (g : GraphId) : answerTrue.Spares g := by
  rintro callee args u r u' ⟨⟩
  rfl

end GraphLang
