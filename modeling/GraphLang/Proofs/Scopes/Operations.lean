import GraphLang.Proofs.Scopes.Tidy

/-!
# Operations on tidy scopes

Defining and writing variables, making closures and importing keep the scopes tidy and the same
scopes open. A scope that is opened and left again in between leaves no trace in this sense.
-/

namespace GraphLang.Scopes

open SlotGraph

variable {g : SlotGraph ScopeNode ScopeEdge} {d : Std.HashMap (ScopeId × String) VarId}
  {s s₁ s₂ : Scopes}

/-! ### Writing variables -/

/-- Releasing a variable removes nothing but a value. -/
theorem node?_unbind_of_ne {var n : Nat} {a : ScopeNode} (h : Tidy ⟨g, d⟩)
    (ha : ∀ v, a ≠ .binding v) (hn : g.node? n = some a) : (unbind g var).node? n = some a := by
  cases ht : tied? g var .bindsTo with
  | none => rw [unbind_of_none ht, hn]
  | some t =>
    obtain ⟨v, hv⟩ := h.bound (tied?_eq_some ht)
    have hne : n ≠ t := by
      rintro rfl
      rw [hn] at hv
      exact ha v (Option.some.inj hv)
    rw [node?_unbind h.sound ht, if_neg hne, hn]

/-- Binding a variable anew changes no node but values. -/
theorem node?_rebound (h : Tidy ⟨g, d⟩) {var n : Nat} {a : ScopeNode} (value : Value)
    (ha : ∀ v, a ≠ .binding v) (hn : g.node? n = some a) :
    (bind (unbind g var) var value).node? n = some a := by
  have hkept : (unbind g var).node? n = some a := node?_unbind_of_ne h ha hn
  have hsound := sound_unbind h.sound var
  rw [node?_bind hsound, if_neg (node?_ne_new hsound hkept), hkept]

theorem Keeps.rebound (h : Tidy ⟨g, d⟩) {var : VarId} {name : String} {mutable : Bool}
    (hvar : g.node? var = some (.variable name mutable)) (value : Value) :
    Keeps ⟨g, d⟩ ⟨Scopes.bind (Scopes.unbind g var) var value, d⟩ := by
  have hunbind : Keeps ⟨g, d⟩ ⟨Scopes.unbind g var, d⟩ := .unbind h var
  exact hunbind.trans (.bind hunbind.tidy (node?_unbind_of_ne h (by simp) hvar) value)

theorem rebind_of_variable {var : VarId} {name : String} (hvar : s.variableName? var = some name)
    (value : Value) :
    s.rebind var value = (.ok (), ⟨bind (unbind s.graph var) var value, s.declared⟩) := by
  rw [rebind, hvar]

theorem Keeps.rebind (h : s.Tidy) (var : VarId) (value : Value) :
    Keeps s (s.rebind var value).2 := by
  cases hvar : s.variableName? var with
  | none =>
    rw [Scopes.rebind, hvar]
    exact .refl h
  | some name =>
    rw [rebind_of_variable hvar]
    obtain ⟨mutable, hnode⟩ := variableName?_iff.1 hvar
    exact .rebound h hnode value

theorem Keeps.redefine (h : s.Tidy) (var : VarId) (value : Value) (mutable : Bool) :
    Keeps s (s.redefine var value mutable).2 := by
  have hmodify : Keeps s ⟨s.graph.modifyNode var (ScopeNode.withMutable mutable), s.declared⟩ :=
    .modifyNode h var mutable
  exact hmodify.trans (.rebind hmodify.tidy var value)

/-! ### Declaring variables -/

/-- Registering a variable that is there. -/
theorem Keeps.insert (h : Tidy ⟨g, d⟩) {scope : ScopeId} {name : String} {var : VarId}
    (hscope : Scopes.isScope ⟨g, d⟩ scope = true)
    (hvar : Scopes.variableName? ⟨g, d⟩ var = some name) :
    Keeps ⟨g, d⟩ ⟨g, d.insert (scope, name) var⟩ := by
  refine ⟨⟨h.sound, h.bound, ?_⟩, fun _ => rfl, id, id⟩
  intro scope' name' var' hvar'
  rw [Std.HashMap.getElem?_insert] at hvar'
  split at hvar'
  · rename_i heq
    rw [beq_iff_eq, Prod.mk.injEq] at heq
    cases hvar'
    rw [← heq.1, ← heq.2]
    exact ⟨hscope, hvar⟩
  · exact h.declared hvar'

/-- The graph after a variable was added to a scope, before it has a value. -/
def withVariable (g : SlotGraph ScopeNode ScopeEdge) (scope : ScopeId) (name : String)
    (mutable : Bool) : SlotGraph ScopeNode ScopeEdge :=
  ((g.addNode (.variable name mutable)).2.addEdge scope (g.addNode (.variable name mutable)).1
    .contains).2

theorem declare_eq (scope : ScopeId) (name : String) (value : Value) (mutable : Bool) :
    s.declare scope name value mutable =
      ((s.graph.addNode (.variable name mutable)).1,
        ⟨bind (withVariable s.graph scope name mutable) (s.graph.addNode (.variable name mutable)).1
            value,
          s.declared.insert (scope, name) (s.graph.addNode (.variable name mutable)).1⟩) := rfl

theorem node?_withVariable (h : g.Sound) (scope : ScopeId) (name : String) (mutable : Bool)
    (n : Nat) :
    (withVariable g scope name mutable).node? n =
      if n = (g.addNode (.variable name mutable)).1 then some (.variable name mutable)
      else g.node? n := by
  rw [withVariable, node?_addEdge, h.node?_addNode]

theorem Keeps.withVariable (h : Tidy ⟨g, d⟩) {scope : ScopeId}
    (hscope : Scopes.isScope ⟨g, d⟩ scope = true) (name : String) (mutable : Bool) :
    Keeps ⟨g, d⟩ ⟨Scopes.withVariable g scope name mutable, d⟩ := by
  have hadd : Keeps ⟨g, d⟩ ⟨(g.addNode (.variable name mutable)).2, d⟩ := .addNode h (by simp)
  obtain ⟨kind, active, hnode⟩ := isScope_iff.1 (hadd.isScope hscope)
  refine hadd.trans (.addEdge hadd.tidy (hasNode_iff.2 ⟨_, hnode⟩)
    (hasNode_addNode_new h.sound _) (by simp) ?_)
  intro inner hc
  obtain ⟨⟨c, hclosure⟩, -⟩ := closureScope_eq_ok.1 hc
  rw [hnode] at hclosure
  cases hclosure

theorem Keeps.declare (h : s.Tidy) {scope : ScopeId} (hscope : s.isScope scope = true)
    (name : String) (value : Value) (mutable : Bool) :
    Keeps s (s.declare scope name value mutable).2 := by
  rw [declare_eq]
  have hadd : Keeps s ⟨Scopes.withVariable s.graph scope name mutable, s.declared⟩ :=
    .withVariable h hscope name mutable
  have hvar := node?_withVariable h.sound scope name mutable
    (s.graph.addNode (.variable name mutable)).1
  rw [if_pos rfl] at hvar
  have hbind := hadd.trans (.bind hadd.tidy hvar value)
  refine hbind.trans (.insert hbind.tidy (hbind.isScope hscope) (variableName?_iff.2 ⟨mutable, ?_⟩))
  dsimp only
  rw [node?_bind hadd.tidy.sound, if_neg (node?_ne_new hadd.tidy.sound hvar), hvar]

theorem Keeps.define (h : s.Tidy) (scope : ScopeId) (name : String) (value : Value)
    (mutable : Bool) : Keeps s (s.define scope name value mutable).2 := by
  unfold Scopes.define
  by_cases hscope : s.isScope scope = true
  · rw [if_neg (by simp [hscope])]
    cases s.declared[(scope, name)]? with
    | none => exact .declare h hscope name value mutable
    | some var =>
      dsimp only
      by_cases hmutable : (s.isMutable? var == some false) = true
      · rw [if_pos hmutable]
        exact .refl h
      · rw [if_neg hmutable]
        exact .redefine h var value mutable
  · rw [if_pos (by simp [hscope])]
    exact .refl h

theorem Keeps.assign (h : s.Tidy) (scope : ScopeId) (name : String) (value : Value) :
    Keeps s (s.assign scope name value).2 := by
  unfold Scopes.assign
  cases s.find scope name with
  | error e => exact .refl h
  | ok var =>
    dsimp only
    by_cases hmutable : (s.isMutable? var == some false) = true
    · rw [if_pos hmutable]
      exact .refl h
    · rw [if_neg hmutable]
      exact .rebind h var value

/-! ### Closures and imports -/

/-- A name leads to a variable. -/
theorem variableName?_localVar? (h : s.Tidy) {name : String} {scope : ScopeId} {var : VarId}
    (hvar : s.localVar? name scope = some var) : s.variableName? var = some name := by
  unfold localVar? at hvar
  split at hvar
  · rename_i hdeclared
    cases hvar
    exact (h.declared hdeclared).2
  · rw [imported?_eq] at hvar
    obtain ⟨t, hfind, rfl⟩ := Option.map_eq_some_iff.1 hvar
    have hname := List.find?_some hfind
    simp only [Bool.and_eq_true, beq_iff_eq] at hname
    exact hname.2

theorem variableName?_lookup? (h : s.Tidy) {name : String} {fuel : Nat} {scope : ScopeId}
    {var : VarId} (hvar : s.lookup? name fuel scope = some var) :
    s.variableName? var = some name := by
  induction fuel generalizing scope with
  | zero => cases hvar
  | succ fuel ih =>
    unfold lookup? at hvar
    cases hlocal : s.localVar? name scope with
    | some var' =>
      rw [hlocal] at hvar
      cases hvar
      exact variableName?_localVar? h hlocal
    | none =>
      rw [hlocal] at hvar
      cases hparent : s.parent? scope with
      | none => simp [hparent] at hvar
      | some parent =>
        simp only [hparent] at hvar
        exact ih hvar

theorem exists_variable_of_visible (h : s.Tidy) {scope : ScopeId} {names : List String}
    {var : VarId} (hvar : var ∈ s.visible scope names) : ∃ name, s.variableName? var = some name := by
  obtain ⟨name, -, hlookup⟩ := List.mem_filterMap.1 hvar
  exact ⟨name, variableName?_lookup? h hlookup⟩

/-- The graph after a closure was made that captures the given variables. -/
def withClosure (g : SlotGraph ScopeNode ScopeEdge) (scope : ScopeId) (name : String)
    (captured : List VarId) : SlotGraph ScopeNode ScopeEdge :=
  captured.foldl
    (fun graph var => (graph.addEdge (g.addNode (.closure name)).1 var .captures).2)
    ((g.addNode (.closure name)).2.addEdge (g.addNode (.closure name)).1 scope .captures).2

theorem node?_withClosure (h : g.Sound) (scope : ScopeId) (name : String) (captured : List VarId)
    (n : Nat) :
    (withClosure g scope name captured).node? n =
      if n = (g.addNode (.closure name)).1 then some (.closure name) else g.node? n := by
  have hfold : ∀ (captured : List VarId) (g' : SlotGraph ScopeNode ScopeEdge) (c : Nat),
      (captured.foldl (fun graph var => (graph.addEdge c var .captures).2) g').node? n =
        g'.node? n := by
    intro captured
    induction captured with
    | nil => exact fun _ _ => rfl
    | cons var captured ih =>
      intro g' c
      rw [List.foldl_cons, ih, node?_addEdge]
  rw [withClosure, hfold, node?_addEdge, h.node?_addNode]

theorem createClosure_of_isScope {scope : ScopeId} (hscope : s.isScope scope = true) (name : String)
    (names : List String) :
    s.createClosure scope name names =
      (.ok (s.graph.addNode (.closure name)).1,
        ⟨withClosure s.graph scope name (s.visible scope names), s.declared⟩) := by
  rw [createClosure, if_pos hscope]
  rfl

/-- A closure may capture more variables. -/
theorem Keeps.capture (h : Tidy ⟨g, d⟩) {c : ClosureId} {name : String} {captured : List VarId}
    (hc : g.node? c = some (.closure name))
    (hvars : ∀ var ∈ captured, ∃ name, Scopes.variableName? ⟨g, d⟩ var = some name) :
    Keeps ⟨g, d⟩
      ⟨captured.foldl (fun graph var => (graph.addEdge c var .captures).2) g, d⟩ := by
  induction captured generalizing g with
  | nil => exact .refl h
  | cons var captured ih =>
    obtain ⟨x, hx⟩ := hvars var (by simp)
    obtain ⟨mutable, hvar⟩ := variableName?_iff.1 hx
    have hadd : Keeps ⟨g, d⟩ ⟨(g.addEdge c var .captures).2, d⟩ := by
      refine .addEdge h (hasNode_iff.2 ⟨_, hc⟩) (hasNode_iff.2 ⟨_, hvar⟩) (by simp) ?_
      intro scope _
      rw [Scopes.isScope, hvar]
    refine hadd.trans (ih hadd.tidy ?_ ?_)
    · rw [node?_addEdge, hc]
    · intro var' hvar'
      obtain ⟨x', hx'⟩ := hvars var' (List.mem_cons_of_mem var hvar')
      obtain ⟨mutable', hnode'⟩ := variableName?_iff.1 hx'
      exact ⟨x', variableName?_iff.2 ⟨mutable', by dsimp only; rw [node?_addEdge, hnode']⟩⟩

theorem variableName?_addNode (h : g.Sound) (a : ScopeNode) {var : VarId} {name : String}
    (hvar : Scopes.variableName? ⟨g, d⟩ var = some name) :
    Scopes.variableName? ⟨(g.addNode a).2, d⟩ var = some name := by
  obtain ⟨mutable, hnode⟩ := variableName?_iff.1 hvar
  exact variableName?_iff.2 ⟨mutable, node?_addNode_old h hnode⟩

/-- A new closure leads to the scope it is made in. -/
theorem Keeps.withClosure (h : Tidy ⟨g, d⟩) {scope : ScopeId} {captured : List VarId}
    (hscope : Scopes.isScope ⟨g, d⟩ scope = true)
    (hvars : ∀ var ∈ captured, ∃ name, Scopes.variableName? ⟨g, d⟩ var = some name)
    (name : String) :
    Keeps ⟨g, d⟩ ⟨Scopes.withClosure g scope name captured, d⟩ ∧
      Scopes.closureScope ⟨Scopes.withClosure g scope name captured, d⟩
        (g.addNode (.closure name)).1 = .ok scope := by
  have hadd : Keeps ⟨g, d⟩ ⟨(g.addNode (.closure name)).2, d⟩ := .addNode h (by simp)
  have hnew : (g.addNode (.closure name)).2.node? (g.addNode (.closure name)).1 =
      some (.closure name) := by
    rw [h.sound.node?_addNode, if_pos rfl]
  have hties : (g.addNode (.closure name)).2.ties (g.addNode (.closure name)).1 = [] := by
    rw [h.sound.ties_addNode, ties_of_vacant (h.sound.node?_new _)]
  obtain ⟨kind, active, hnode⟩ := isScope_iff.1 (hadd.isScope hscope)
  have hlead : Keeps ⟨(g.addNode (.closure name)).2, d⟩
      ⟨((g.addNode (.closure name)).2.addEdge (g.addNode (.closure name)).1 scope .captures).2,
        d⟩ := by
    refine .addEdge hadd.tidy (hasNode_iff.2 ⟨_, hnew⟩) (hasNode_iff.2 ⟨_, hnode⟩) (by simp) ?_
    intro inner hc
    have hfind := (closureScope_eq_ok.1 hc).2
    dsimp only at hfind
    rw [hties] at hfind
    cases hfind
  have hcapture : Keeps
      ⟨((g.addNode (.closure name)).2.addEdge (g.addNode (.closure name)).1 scope .captures).2, d⟩
      ⟨Scopes.withClosure g scope name captured, d⟩ := by
    have hnode : ((g.addNode (.closure name)).2.addEdge (g.addNode (.closure name)).1 scope
        .captures).2.node? (g.addNode (.closure name)).1 = some (.closure name) := by
      rw [node?_addEdge, hnew]
    refine .capture hlead.tidy hnode ?_
    · intro var hvar
      obtain ⟨x, hx⟩ := hvars var hvar
      refine ⟨x, ?_⟩
      rw [← variableName?_addNode h.sound (.closure name) hx, variableName?, variableName?]
      dsimp only
      rw [node?_addEdge]
  refine ⟨hadd.trans (hlead.trans hcapture), hcapture.closureScope ?_⟩
  refine closureScope_eq_ok.2 ⟨⟨name, by dsimp only; rw [node?_addEdge, hnew]⟩, ?_⟩
  have hsame : Scopes.isScope ⟨((g.addNode (.closure name)).2.addEdge
      (g.addNode (.closure name)).1 scope .captures).2, d⟩ scope = true := hlead.isScope
    (hadd.isScope hscope)
  dsimp only
  rw [hadd.tidy.sound.ties_addEdge (hasNode_iff.2 ⟨_, hnew⟩), if_pos rfl, hties, List.map_cons,
    List.find?_cons_of_pos hsame]

theorem Keeps.createClosure (h : s.Tidy) (scope : ScopeId) (name : String) (names : List String) :
    Keeps s (s.createClosure scope name names).2 := by
  by_cases hscope : s.isScope scope = true
  · rw [createClosure_of_isScope hscope]
    exact (Keeps.withClosure h hscope (fun _ => exists_variable_of_visible h) name).1
  · rw [Scopes.createClosure, if_neg hscope]
    exact .refl h

theorem Keeps.importVar (h : s.Tidy) (scope : ScopeId) (var : VarId) :
    Keeps s (s.importVar scope var).2 := by
  unfold Scopes.importVar
  by_cases hscope : s.isScope scope = true
  · rw [if_neg (by simp [hscope])]
    cases hname : s.variableName? var with
    | none => exact .refl h
    | some name =>
      obtain ⟨kind, active, hnode⟩ := isScope_iff.1 hscope
      obtain ⟨mutable, hvar⟩ := variableName?_iff.1 hname
      refine .addEdge h (hasNode_iff.2 ⟨_, hnode⟩) (hasNode_iff.2 ⟨_, hvar⟩) (by simp) ?_
      intro inner hc
      obtain ⟨⟨c, hclosure⟩, -⟩ := closureScope_eq_ok.1 hc
      dsimp only at hclosure
      rw [hnode] at hclosure
      cases hclosure
  · rw [if_pos (by simp [hscope])]
    exact .refl h

end GraphLang.Scopes
