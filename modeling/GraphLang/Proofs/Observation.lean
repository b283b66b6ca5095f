import GraphLang.Proofs.Simulation.Twin

/-!
# What the host sees of a run

Two programs that correspond are loaded into new evaluators and run. The host then sees the same
result, the same output, the same containers and the same values at the top level of the unit.
-/

namespace GraphLang

/-- What the host sees of a run that is over. -/
structure Observation where
  /-- The value of the unit, or the error that ended the run. -/
  result : Except EvalError Value
  /-- The lines printed so far. -/
  output : Array String
  /-- The containers. -/
  store : Store
  /-- The names defined at the top level of the unit, with their values. -/
  bindings : List (String × Option Value)

/-- The names that a scope declares, with their values. -/
def Scopes.bindings (s : Scopes) (scope : ScopeId) : List (String × Option Value) :=
  (s.contents scope).map fun x => (x.1, s.valueOf? x.2)

/-- What the host sees after a run of the first unit. -/
def World.observation (w : Machine) (r : Except EvalError Value) : Observation :=
  ⟨r, w.output, w.store, (w.control.units[0]?.map fun loaded =>
    w.control.scopes.bindings loaded.scope).getD []⟩

/-! ### New evaluators -/

namespace Scopes

variable {P : Value → Prop} {s : Scopes}

theorem full_empty : Full P none .empty where
  tidy := tidy_empty
  own := by
    intro n m t hn
    rw [ties_empty] at hn
    cases hn
  outer := by
    intro n t hn
    rw [ties_empty] at hn
    cases hn
  tied := by
    intro n _
    rw [Tied, node?_empty]
    trivial
  holds := by
    intro n v hn
    rw [node?_empty] at hn
    cases hn

theorem Full.natives (h : Full P none s) {prelude : ScopeId} (hprelude : s.isScope prelude = true)
    {natives : List Native} (hnatives : ∀ n ∈ natives, P (.native n)) :
    Full P none
      (natives.foldl (fun s n => (s.declare prelude n.name (.native n) false).2) s) := by
  induction natives generalizing s with
  | nil => exact h
  | cons n natives ih =>
    have hn : (Value.native n).Holds P := hnatives n List.mem_cons_self
    have hdeclare := h.declare hprelude n.name hn false
    have hkeeps := Keeps.declare h.tidy hprelude n.name (.native n) false
    exact ih hdeclare (hkeeps.isScope hprelude) fun m hm => hnatives m (List.mem_cons_of_mem n hm)

/-- The scopes of a new evaluator are full. -/
theorem full_withPrelude {natives : List Native} (hnatives : ∀ n ∈ natives, P (.native n)) :
    Full P none (withPrelude natives).2 := by
  have hroot := Opens.addNode tidy_empty .prelude
  have hfull : Full P none ⟨(SlotGraph.empty.addNode (.scope .prelude true)).2, ∅⟩ :=
    Full.addNode full_empty (by simp) (Or.inl rfl) (Or.inr (Or.inl ⟨.prelude, rfl⟩))
  exact hfull.natives hroot.opened hnatives

theorem Alike.refl (s : Scopes) : Alike s s := ⟨⟨rfl, rfl, fun _ => rfl, fun _ => rfl⟩, rfl, id⟩

/-- Scopes that are alike bind the same names to the same values. -/
theorem Alike.bindings {s' : Scopes} (h : Alike s s') {scope : ScopeId}
    (hscope : s.isScope scope = true) : s'.bindings scope = s.bindings scope := by
  have hcontents : s'.contents scope = s.contents scope := by
    rw [contents_eq, contents_eq, h.graph.ties (not_closure_of_isScope hscope),
      funext h.variableName?]
  unfold Scopes.bindings
  rw [hcontents]
  refine List.map_congr_left fun x hx => ?_
  have hvar : ∀ name, s.graph.node? x.2 ≠ some (.closure name) := by
    intro name hclosure
    rw [contents_eq, List.mem_mergeSort, List.mem_filterMap] at hx
    obtain ⟨t, -, ht⟩ := hx
    split at ht
    · obtain ⟨found, hfound, rfl⟩ := Option.map_eq_some_iff.1 ht
      obtain ⟨mutable, hnode⟩ := variableName?_iff.1 hfound
      rw [hclosure] at hnode
      cases hnode
    · cases ht
  rw [valueOf?_eq, valueOf?_eq, h.graph.tied? hvar, funext h.graph.node?]

end Scopes

namespace Pairing

variable {T : Pairing} {module : ScopeId} {w w' : Machine}

/-- The number of the scope that the first unit of a new evaluator gets. -/
def topLevel : ScopeId :=
  ((Scopes.withPrelude Native.prelude).2.graph.addNode (.scope .module true)).1

/-- Two new evaluators, each with its program as the only unit, correspond. -/
theorem related_new (T : Pairing) {config config' : Config}
    (hdepth : config'.maxCallDepth = config.maxCallDepth) (verbosity : Verbosity)
    (natives : String → HostNative) (events events' : Array Event) (trace trace' : Array TraceEntry) :
    T.Related topLevel
      (((World.evaluator config verbosity natives).withUnit T.first).quiet events trace)
      (((World.evaluator config' verbosity natives).withUnit T.second).quiet events' trace') := by
  have hnatives : ∀ (s : Scopes), ∀ n ∈ Native.prelude, T.Callable s (.native n) := by
    intro s n hn name arity heq
    subst heq
    simp [Native.prelude] at hn
  have hroot := Scopes.Opens.addNode Scopes.tidy_empty .prelude
  have hprelude : (Scopes.withPrelude Native.prelude).2.isScope
      (Scopes.withPrelude Native.prelude).1 = true :=
    (Scopes.keeps_natives hroot.tidy hroot.opened Native.prelude).isScope hroot.opened
  have hfull (s : Scopes) : Scopes.Full (T.Callable s) none (Scopes.withPrelude Native.prelude).2 :=
    Scopes.full_withPrelude (hnatives s)
  have hopens := Scopes.Opens.withScope (hfull .empty).tidy hprelude .module
  have hstart (s : Scopes) := Scopes.Full.withScope (hfull s) hprelude .module
  exact ⟨⟨rfl, rfl, rfl, rfl, rfl, rfl, hdepth, rfl, rfl⟩, rfl, rfl, hopens.opened, .refl _,
    hstart _, hstart _, fun c hc => absurd hc (Array.not_mem_empty c),
    fun set hset => absurd hset List.not_mem_nil⟩

/-- The unit of the second program comes to whatever the unit of the first one comes to. -/
theorem run_matches (hrel : T.Related module w w') (hmain : T.shared mainId) {fuel fuel' : Nat}
    (hev : (T.simulation module).Follows (Eval.eval fuel) (Eval.eval fuel')) :
    (T.simulation module).Matches (T.simulation module).ended w (T.simulation module).Yields
      (Eval.run fuel 0 w) (Eval.run fuel' 0 w') := by
  have hunit : w.control.units[0]? = some ⟨T.first, module⟩ := by
    rw [hrel.unit]
    rfl
  have hunit' : w'.control.units[0]? = some ⟨T.second, module⟩ := by
    rw [hrel.unit']
    rfl
  have hlost (hloose : T.loose) (hroot : (T.first.function? mainId).bind (·.body) = none)
      (hroot' : (T.second.function? mainId).bind (·.body) = none) :
      (T.simulation module).Matches (T.simulation module).ended w (T.simulation module).Yields
        (Eval.run fuel 0 w) (Eval.run fuel' 0 w') := by
    unfold Eval.run Eval.runBy
    rw [Act.run_bind, Act.run_bind, Eval.run_unit, Eval.run_unit, hunit, hunit']
    dsimp only
    rw [hroot, hroot']
    exact .error (T.lawful module) ⟨Or.inl (Or.inl hloose), hrel⟩
  obtain ⟨hloose, hd, hd'⟩ | ⟨d, d', hd, hd', -, -, hbodies⟩ := T.function hmain
  · exact hlost hloose (by rw [hd]; rfl) (by rw [hd']; rfl)
  obtain ⟨hloose, hbody, hbody'⟩ | ⟨root, root', hbody, hbody', hroots⟩ := hbodies
  · exact hlost hloose (by rw [hd, Option.bind_some, hbody]) (by rw [hd', Option.bind_some, hbody'])
  have hframing := framing hrel ⟨mainName, 0, mainId, none, w.control.nextFrame⟩
  have hroot : (T.first.function? mainId).bind (·.body) = some root := by
    simp only [hd, Option.bind_some, hbody]
  have hroot' : (T.second.function? mainId).bind (·.body) = some root' := by
    simp only [hd', Option.bind_some, hbody']
  exact .runBy (T.lawful module) hrel hunit hunit' hroot hroot' hframing
    (hev.body ⟨rfl, rfl, hroots⟩ hframing.rel hrel.module)

/-- Whatever the run of the first program comes to, the run of the second one comes to the same. -/
theorem run_same (hrel : T.Related module w w') (hmain : T.shared mainId) {fuel fuel' : Nat}
    (hev : (T.simulation module).Follows (Eval.eval fuel) (Eval.eval fuel'))
    {r : Except EvalError Value} {v : Machine} (hrun : Eval.run fuel 0 w = some (r, v)) :
    (∃ v', Eval.run fuel' 0 w' = some (r, v') ∧ T.Related module v v') ∧
      ∀ e, r = .error e → T.loose ∨ (∃ limit path, e = .recursionLimit limit path) ∨
        ∃ x path, e = .uncaught x path := by
  obtain ⟨-, hout⟩ := (run_matches hrel hmain hev).ends r v hrun
  generalize Eval.run fuel' 0 w' = y at hout ⊢
  cases hout with
  | ok hrel _ => exact ⟨⟨_, rfl, hrel⟩, nofun⟩
  | error hboth =>
    refine ⟨⟨_, rfl, hboth.2⟩, ?_⟩
    rintro e ⟨⟩
    rcases hboth.1 with (hloose | hlimit) | huncaught
    · exact Or.inl hloose
    · exact Or.inr (Or.inl hlimit)
    · exact Or.inr (Or.inr huncaught)
  | lost hlost => exact hlost.elim

/-- Corresponding worlds look the same to the host. -/
theorem Related.observation (h : T.Related module w w') (r : Except EvalError Value) :
    w'.observation r = w.observation r := by
  unfold World.observation
  rw [h.agree.output, h.agree.store, h.unit, h.unit']
  exact congrArg (Observation.mk r w.output w.store) (h.alike.bindings h.module)

end Pairing

end GraphLang
