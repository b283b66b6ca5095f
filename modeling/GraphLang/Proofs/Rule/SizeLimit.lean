import GraphLang.Proofs.Rule.Operations

/-!
# Limits of size

A limit of the number of members is checked before the transforms of a change run, and not when the
change is made. So it holds as long as callbacks leave the container alone; a callback that adds a
member itself can make the container too large by one. The callbacks may be those of an evaluator:
it is enough that the ones leave the container alone that are made.
-/

namespace GraphLang

open Container (Applied)

variable {σ ε : Type}

namespace Container

variable {c c' : Container} {m : Mutation} {a : Applied}

theorem Formed.size_eq (h : c.Formed) : c.size = c.model.values.length := by
  rw [h.values_model, h.memberValues_eq, size, h.members_eq, List.length_map, List.length_map]

/-- A change adds one member at most, and none where it does not say so. -/
theorem Formed.size_step (h : c.Formed) (h' : c'.Formed) (hstep : c.model.Step m a c'.model) :
    c'.size ≤ c.size + if m.grows c then 1 else 0 := by
  rw [h.size_eq, h'.size_eq]
  have hkind := c.kind_model
  generalize hmodel : c.model = model at hstep hkind
  generalize hmodel' : c'.model = model' at hstep
  cases hstep with
  | insert values value node => simp [Model.values, Mutation.grows]
  | set values index value hlt => simp [Model.values]
  | removeIndex values index hlt =>
    have hlength := List.length_eraseIdx_le values index
    exact Nat.le_add_right_of_le hlength
  | put entries key value node =>
    have hmap : c.kind = .map := hkind.symm
    rw [model_map hmap, Model.map.injEq] at hmodel
    subst hmodel
    by_cases hkey : key ∈ (c.roster.filterMap Held.entry?).map (·.1)
    · rw [Model.put, if_pos hkey]
      simp [Model.values]
    · have hgrows : (Mutation.put key value).grows c = true := by
        obtain ⟨x, hx, hlabel, -⟩ | ⟨-, hnode⟩ := h.nodeUnder_cases key
        · exact absurd ((h.mem_keys hmap).2 (hlabel ▸ List.mem_map_of_mem hx)) hkey
        · rw [Mutation.grows, hnode]
          rfl
      rw [hgrows, Model.put, if_neg hkey]
      simp [Model.values]
  | removeKey entries key old hmem =>
    simp only [Model.values, List.length_map]
    exact Nat.le_add_right_of_le (List.length_filter_le _ _)
  | addMember name members links value handle hfresh => simp [Model.values, Mutation.grows]
  | addLinked name members links value handle parent tag hfresh hparent =>
    simp [Model.values, Mutation.grows]
  | link => exact Nat.le_add_right _ _
  | removeNode name members links handle old hmem =>
    simp only [Model.values, List.length_map]
    exact Nat.le_add_right_of_le (List.length_filter_le _ _)

/-- The container is within the limits that its rules set. -/
def Limited (c : Container) : Prop :=
  ∀ limit, .validate (.maxSize limit) ∈ c.rules → c.size ≤ limit

end Container

namespace Engine

variable {invoke : Invoke σ ε} {g : GraphId} {c c' : Container} {s t : Store}

/-- A step of an operation keeps a container within its limits. -/
theorem Evolves.limited {moment : Moment} (h : Evolves invoke g c moment s t c')
    (hinvoke : invoke.Spares g) (hc : s.graphs[g]? = some c) (hformed : c.Formed)
    (hlimited : c.Limited) : c'.Limited := by
  cases h with
  | kept _ => exact hlimited
  | meanwhile => exact hlimited
  | frozen => exact hlimited
  | @changed m m' _ _ _ _ _ hrewritten _ hformed' hrules hstep =>
    intro limit hrule
    rw [hrules] at hrule
    obtain ⟨s, hcheck⟩ := hrewritten.check_written hinvoke hc hrule (by simp) (by simp)
    have hwithin : c.size + (if m'.grows c then 1 else 0) ≤ limit := by
      by_contra hmore
      simp [Validation.check, Nat.lt_of_not_le hmore] at hcheck
    exact (hformed.size_step hformed' hstep).trans hwithin
  | @attached _ rule news u t hrule hprepared _ =>
    intro limit hmem
    have hsize : (c.rewrite news).size = c.size := by
      have hshape := congrArg List.length (hformed.shape_rewrite news).1
      rw [List.length_map, List.length_map] at hshape
      rw [Container.size, Container.size, (hformed.rewrite news).members_eq, hformed.members_eq,
        List.length_map, List.length_map, hshape]
    change (c.rewrite news).size ≤ limit
    rw [hsize]
    obtain hmem | hmem := List.mem_append.1 hmem
    · exact hlimited limit hmem
    · obtain rfl := List.mem_singleton.1 hmem
      obtain ⟨hcheck, -, -⟩ := checkNow_of_prepareRule (by simp) hc hprepared
      by_contra hmore
      simp [Validation.checkNow, Nat.lt_of_not_le hmore] at hcheck

/-- Operations alone keep a new container within its limits. -/
theorem Operations.limited {c₀ : Container} {model₀ : Model} {w v : World σ} {moments : List Moment}
    (h : Operations invoke g w moments v) (hinvoke : invoke.Spares g)
    (hnew : Container.Created c₀ model₀) (hstored : w.store.graphs[g]? = some c₀) :
    ∃ c, v.store.graphs[g]? = some c ∧
      (∀ moment ∈ moments, ∀ rule, moment.Attaches rule → rule ∈ c.rules) ∧ c.Limited := by
  have hstart : c₀.Limited := by simp [Container.Limited, hnew.rules_eq]
  obtain ⟨c, hc, -, hlimited, hattached⟩ :=
    h.preserves (P := fun _ c => c.Limited) hinvoke hstored hnew.built.formed hstart
      fun moment _ s t c c' hc hformed hlimited hevolves =>
        hevolves.limited hinvoke hc hformed hlimited
  exact ⟨c, hc, hattached, hlimited⟩

end Engine

/-- A new list, map or user graph that operations alone have changed, whether they succeeded or
failed, has the rules that they attached, and no more members than the limits among these say, as
long as callbacks leave it alone. -/
theorem size_within_limits {invoke : Invoke σ ε} {g : GraphId} {c₀ : Container} {model₀ : Model}
    {w v : World σ} {moments : List Engine.Moment} (hnew : Container.Created c₀ model₀)
    (hstored : w.store.graphs[g]? = some c₀) (hinvoke : invoke.Spares g)
    (hrun : Engine.Operations invoke g w moments v) :
    ∃ c, v.store.graphs[g]? = some c ∧
      (∀ moment ∈ moments, ∀ rule, moment.Attaches rule → rule ∈ c.rules) ∧
      ∀ limit, .validate (.maxSize limit) ∈ c.rules → c.size ≤ limit :=
  hrun.limited hinvoke hnew hstored

/-! ### Callbacks that leave a container alone in one run -/

open Classical in
/-- Calls back in the same way where that leaves the container as it is, and comes to nothing where
it does not. -/
noncomputable def Invoke.sparing (invoke : Invoke σ ε) (g : GraphId) : Invoke σ ε :=
  fun callee args w => (invoke callee args w).filter fun p =>
    p.2.store.graphs[g]? = w.store.graphs[g]?

theorem Invoke.spares_sparing (invoke : Invoke σ ε) (g : GraphId) :
    (invoke.sparing g).Spares g := by
  intro callee args u r u' hrun
  simpa using (Option.filter_eq_some_iff.1 hrun).2

theorem Invoke.sparing_below (invoke : Invoke σ ε) (g : GraphId) :
    (invoke.sparing g).Below invoke :=
  fun _ _ _ _ hrun => (Option.filter_eq_some_iff.1 hrun).1

namespace Engine

variable {invoke invoke' : Invoke σ ε} {g : GraphId} {w v : World σ}

/-- An operation that ends with some callbacks ends in the same way with callbacks that answer more
often. -/
theorem Operation.run_of_below (h : invoke.Below invoke') {op : Operation} {p : Bool × World σ}
    (hrun : op.run invoke g w = some p) : op.run invoke' g w = some p := by
  cases op with
  | change m =>
    obtain ⟨q, hq, rfl⟩ := Option.map_eq_some_iff.1 hrun
    exact Option.map_eq_some_iff.2 ⟨q, below_apply h g m w q hq, rfl⟩
  | attach rule =>
    obtain ⟨q, hq, rfl⟩ := Option.map_eq_some_iff.1 hrun
    exact Option.map_eq_some_iff.2 ⟨q, below_addRule h g rule w q hq, rfl⟩
  | attachAll set =>
    obtain ⟨q, hq, rfl⟩ := Option.map_eq_some_iff.1 hrun
    exact Option.map_eq_some_iff.2 ⟨q, below_applyRuleset h g set w q hq, rfl⟩
  | freeze => exact hrun

theorem Operations.of_below {moments : List Moment} (hrun : Operations invoke g w moments v)
    (h : invoke.Below invoke') : Operations invoke' g w moments v := by
  induction hrun with
  | start => exact .start
  | operation _ hends ih => exact .operation ih (Operation.run_of_below h hends)
  | meanwhile _ hkept ih => exact .meanwhile ih hkept

end Engine

/-- The same in the runs of an evaluator, whose callbacks call any functions of any programs: the
container is within its limits as long as those callbacks leave it alone that its own rules make. -/
theorem size_within_limits_evaluated {fuel : Nat} {g : GraphId} {c₀ : Container} {model₀ : Model}
    {w v : Machine} {moments : List Engine.Moment} (hnew : Container.Created c₀ model₀)
    (hstored : w.store.graphs[g]? = some c₀)
    (hrun : Engine.Operations ((Eval.callback (Eval.eval fuel)).sparing g) g w moments v) :
    Engine.Operations (Eval.callback (Eval.eval fuel)) g w moments v ∧
    ∃ c, v.store.graphs[g]? = some c ∧
      (∀ moment ∈ moments, ∀ rule, moment.Attaches rule → rule ∈ c.rules) ∧
      ∀ limit, .validate (.maxSize limit) ∈ c.rules → c.size ≤ limit :=
  ⟨hrun.of_below (Invoke.sparing_below _ g), hrun.limited (Invoke.spares_sparing _ g) hnew hstored⟩

/-! ### A list of one member at most -/

/-- A limit of one member and a transform by a callback, then two values. -/
def limitOperations : List Engine.Operation :=
  [.attach (.validate (.maxSize 1)), .attach (.transform (.custom "t" .nil)),
    .change (.insert .nil), .change (.insert .nil)]

/-- The second value is refused. -/
theorem size_limitOperations : ∃ moments v c,
    Engine.Operations answerTrue 0 (.holding #[.ofElements []]) moments v ∧
    v.store.graphs[0]? = some c ∧ c.size = 1 := by
  have hends : (Engine.Operation.runAll answerTrue 0 limitOperations
      (.holding #[.ofElements []])).any (fun v =>
        (v.store.get 0).rules.any (Rule.validates (.maxSize 1)) &&
        (v.store.get 0).graph.hasNode 1) = true := by
    decide +kernel
  obtain ⟨v, hrun, hfacts⟩ := (Option.any_eq_true _ _).1 hends
  obtain ⟨_, hmoments, -⟩ := Engine.Operations.start.runAll hrun
  obtain ⟨c, hc, -, hlimits⟩ := size_within_limits (.list []) rfl (answerTrue_spares 0) hmoments
  obtain ⟨c', hc', hformed⟩ := hmoments.formed (answerTrue_spares 0) rfl
    (Container.Created.list []).built.formed
  obtain rfl : c' = c := Option.some.inj (hc'.symm.trans hc)
  rw [Store.get_of_getElem? hc, Bool.and_eq_true] at hfacts
  obtain ⟨hlimit, hone⟩ := hfacts
  have hlimit := Container.mem_rules_of_any hlimit
  have hmember : 1 ∈ c'.members := by
    rw [hformed.members_eq]
    exact hformed.mem_nodes.2 ⟨by decide, hone⟩
  exact ⟨_, v, c', hmoments, hc, (hlimits 1 hlimit).antisymm (List.length_pos_of_mem hmember)⟩

/-- A callback that inserts a value into the list that a value is inserted into. -/
def insertMore : Invoke Unit String := fun _ _ w =>
  (Engine.apply answerTrue 0 (.insert .nil) w).map fun p => (.ok .nil, p.2)

/-- The members are counted by the edges to them. -/
theorem Container.size_eq_edges {c : Container} (h : c.graph.hasNode root = true) :
    c.size = ((c.graph.outgoing root).filter (!·.2.weight.label.isLink)).length := by
  have hperm : (viewed (c.graph.outgoing root)).Perm ((c.graph.outgoing root).map fun p =>
      ⟨p.1, p.2.source, p.2.target, p.2.weight⟩) := List.mergeSort_perm _ _
  rw [size, members, List.length_map, edgesFrom, if_pos h, (hperm.filter _).length_eq,
    List.filter_map, List.length_map]
  rfl

/-- With this callback the first value that is inserted makes the list too large. -/
theorem size_exceeds_limit : ∃ moments v c,
    Engine.Operations insertMore 0 (.holding #[.ofElements []]) moments v ∧
    v.store.graphs[0]? = some c ∧ .validate (.maxSize 1) ∈ c.rules ∧ c.size = 2 := by
  have hends : (Engine.Operation.runAll insertMore 0 limitOperations.dropLast
      (.holding #[.ofElements []])).any (fun v => v.store.graphs[0]?.any fun c =>
        c.rules.any (Rule.validates (.maxSize 1)) &&
        (c.graph.hasNode Container.root && ((c.graph.outgoing Container.root).filter
          (!·.2.weight.label.isLink)).length == 2)) = true := by
    decide +kernel
  obtain ⟨v, hrun, hfacts⟩ := (Option.any_eq_true _ _).1 hends
  obtain ⟨c, hc, hfacts⟩ := (Option.any_eq_true _ _).1 hfacts
  obtain ⟨_, hmoments, -⟩ := Engine.Operations.start.runAll hrun
  rw [Bool.and_eq_true, Bool.and_eq_true, beq_iff_eq] at hfacts
  obtain ⟨hlimit, hroot, hsize⟩ := hfacts
  have hlimit := Container.mem_rules_of_any hlimit
  exact ⟨_, v, c, hmoments, hc, hlimit, (Container.size_eq_edges hroot).trans hsize⟩

end GraphLang
