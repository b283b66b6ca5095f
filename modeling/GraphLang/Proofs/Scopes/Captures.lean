import GraphLang.Proofs.Scopes.Carried
import GraphLang.Proofs.Scopes.Constant

/-!
# What the names of a closure mean

When a closure is made it captures the variables that its names mean, and a scope that is opened for
a call of it sees these very variables. Later it sees the nearest variable of each name, which is
the captured one as long as no scope on the way to that one gets another variable of the name.
-/

namespace GraphLang.Scopes

open SlotGraph

variable {kept : Nat → Prop} {s s₁ : Scopes} {n scope : ScopeId} {c : ClosureId}
  {var x : VarId} {name : String}

/-! ### Variables that a scope shows -/

/-- A scope contains the variable, or it was imported there. -/
def Shows (s : Scopes) (n : ScopeId) (var : VarId) : Prop :=
  ∃ kind, kind ≠ ScopeEdge.parent ∧ (kind, var) ∈ s.graph.ties n

theorem Regular.shows_of_localVar? (h : Regular none s) (hx : s.localVar? name n = some x) :
    s.Shows n x := by
  unfold localVar? at hx
  split at hx
  · next hdeclared =>
    cases hx
    obtain ⟨e, hedge⟩ := ((h.declared _ _ _).1 hdeclared).1
    exact ⟨.contains, by decide, h.sound.mem_ties.2 ⟨e, hedge⟩⟩
  · rw [imported?_eq] at hx
    obtain ⟨t, hfind, rfl⟩ := Option.map_eq_some_iff.1 hx
    have hkind := List.find?_some hfind
    simp only [Bool.and_eq_true, beq_iff_eq] at hkind
    exact ⟨.captures, by decide, hkind.1 ▸ List.mem_of_find?_eq_some hfind⟩

/-- Where a scope shows a variable, its name means something. -/
theorem Regular.exists_localVar? (h : Regular none s) (hn : s.isScope n = true)
    (hshows : s.Shows n var) (hname : s.variableName? var = some name) :
    ∃ x, s.localVar? name n = some x := by
  obtain ⟨kind, hkind, htie⟩ := hshows
  obtain ⟨e, hedge⟩ := h.sound.mem_ties.1 htie
  unfold localVar?
  cases hdeclared : s.declared[(n, name)]? with
  | some y => exact ⟨y, rfl⟩
  | none =>
    have hcaptures : kind = .captures := by
      obtain ⟨a, b, ha, hb, hfits⟩ := h.fits hedge
      obtain ⟨kind', active, hnode⟩ := isScope_iff.1 hn
      obtain ⟨mutable, hvar⟩ := variableName?_iff.1 hname
      rw [hnode] at ha
      rw [hvar] at hb
      cases ha
      cases hb
      cases kind with
      | contains =>
        rw [(h.declared n name var).2 ⟨⟨e, hedge⟩, hname⟩] at hdeclared
        cases hdeclared
      | captures => rfl
      | parent => exact hfits.elim
      | bindsTo => exact hfits.elim
    have hfind : ((s.graph.ties n).find? fun t =>
        t.1 == .captures && s.variableName? t.2 == some name).isSome = true :=
      List.find?_isSome.2 ⟨_, htie, by simp [hcaptures, hname]⟩
    obtain ⟨t, ht⟩ := Option.isSome_iff_exists.1 hfind
    dsimp only
    rw [imported?_eq, ht]
    exact ⟨t.2, rfl⟩

/-! ### Seen from a scope -/

/-- The name means the nearest variable of that name. -/
theorem Regular.resolve_eq_some_iff (h : Regular none s) (hn : s.isScope n = true) :
    s.resolve n name = .ok (some x) ↔ ∃ near m far, s.ancestry n = near ++ m :: far ∧
      s.localVar? name m = some x ∧ ∀ k ∈ near, s.localVar? name k = none := by
  rw [h.consistent.resolves hn, Except.ok.injEq, List.findSome?_eq_some_iff]

/-- Where a scope on the way outward shows a variable, its name means a variable of a scope that is
at least as near. -/
theorem Regular.exists_resolve (h : Regular none s) (hn : s.isScope n = true) {m : ScopeId}
    (hm : m ∈ s.ancestry n) (hshows : s.Shows m var) (hname : s.variableName? var = some name) :
    ∃ x near k far, s.resolve n name = .ok (some x) ∧ s.ancestry n = near ++ k :: far ∧
      s.localVar? name k = some x ∧ m ∉ near := by
  obtain ⟨y, hy⟩ := h.exists_localVar? (h.isScope_of_mem_chain hn hm) hshows hname
  obtain ⟨x, hx⟩ : ∃ x, (s.ancestry n).findSome? (s.localVar? name) = some x := by
    rw [← Option.isSome_iff_exists, List.findSome?_isSome_iff]
    exact ⟨m, hm, by rw [hy]; rfl⟩
  obtain ⟨near, k, far, heq, hlocal, hnear⟩ := List.findSome?_eq_some_iff.1 hx
  refine ⟨x, near, k, far, ?_, heq, hlocal, fun hmem => ?_⟩
  · rw [h.consistent.resolves hn, hx]
  · rw [hnear m hmem] at hy
    cases hy

/-! ### Later scopes -/

theorem Carries.parent? (h : Carries kept s s₁) (hkept : kept n) (hn : s.isScope n = true) :
    s₁.parent? n = s.parent? n := by
  obtain ⟨new, hnew, hkind⟩ := h.ties hkept hn
  have hnone : new.find? (fun t => t.1 == .parent) = none :=
    List.find?_eq_none.2 fun t ht => by simp [hkind t ht]
  rw [parent?_eq, parent?_eq, tied?, tied?, hnew, List.find?_append, hnone, Option.none_or]

theorem Carries.shows (h : Carries kept s s₁) (hkept : kept n) (hn : s.isScope n = true)
    (hshows : s.Shows n var) : s₁.Shows n var := by
  obtain ⟨kind, hkind, htie⟩ := hshows
  obtain ⟨new, hnew, -⟩ := h.ties hkept hn
  exact ⟨kind, hkind, hnew ▸ List.mem_append_right new htie⟩

/-- The scopes around a scope are behind whatever it is behind. -/
theorem Regular.behind_of_mem_chain (h : Regular none s) {fuel : Nat} {a m : Nat}
    (hn : s.Behind a n) (hm : m ∈ s.chain fuel n) : s.Behind a m := by
  induction fuel generalizing n with
  | zero => cases hm
  | succ fuel ih =>
    unfold Scopes.chain at hm
    rcases List.mem_cons.1 hm with rfl | hm
    · exact hn
    · cases hparent : s.parent? n with
      | none => simp [hparent] at hm
      | some parent =>
        obtain ⟨e, hedge⟩ := h.parent?_iff.1 hparent
        have htie := h.sound.mem_ties.2 ⟨e, hedge⟩
        exact ih (hn.tie htie (by decide)) (by simpa [hparent] using hm)

theorem Carries.ancestry (h : Carries (s.Behind c) s s₁) (hs : Regular none s)
    (hbehind : s.Behind c n) (hn : s.isScope n = true) : s₁.ancestry n = s.ancestry n :=
  hs.ancestry_congr h.regular fun _ hm =>
    h.parent? (hs.behind_of_mem_chain hbehind hm) (hs.isScope_of_mem_chain hn hm)

/-- The variable has become that of its name in a scope around the given one, where the name meant
nothing or something else, and before which it meant nothing. -/
def Overtakes (s s₁ : Scopes) (n : ScopeId) (name : String) (x : VarId) : Prop :=
  ∃ near m far, s.ancestry n = near ++ m :: far ∧ (∀ k ∈ near, s.localVar? name k = none) ∧
    s₁.localVar? name m = some x ∧ s.localVar? name m ≠ some x

/-- A name goes on to mean the same variable, unless another one of that name overtakes it. -/
theorem Carries.resolve (h : Carries (s.Behind c) s s₁) (hs : Regular none s)
    (hbehind : s.Behind c n) (hn : s.isScope n = true) (hvar : s.resolve n name = .ok (some var)) :
    ∃ x, s₁.resolve n name = .ok (some x) ∧ (x = var ∨ Overtakes s s₁ n name x) := by
  obtain ⟨near, m, far, heq, hlocal, hnear⟩ := (hs.resolve_eq_some_iff hn).1 hvar
  have hm : m ∈ s.ancestry n := heq ▸ List.mem_append_right near List.mem_cons_self
  have hscope := hs.isScope_of_mem_chain hn hm
  have hmbehind := hs.behind_of_mem_chain hbehind hm
  have hshows := hs.shows_of_localVar? hlocal
  have hvarbehind : s.Behind c var := by
    obtain ⟨kind, -, htie⟩ := hshows
    refine hmbehind.tie htie ?_
    rintro rfl
    obtain ⟨e, hedge⟩ := hs.sound.mem_ties.1 htie
    obtain ⟨a, b, ha, -, hfits⟩ := hs.fits hedge
    obtain ⟨kind, active, hnode⟩ := isScope_iff.1 hscope
    rw [hnode] at ha
    cases ha
    cases b <;> exact hfits.elim
  have hname := h.name hvarbehind (variableName?_localVar? hs.tidy hlocal)
  have hancestry := h.ancestry hs hbehind hn
  obtain ⟨x, near₁, k, far₁, hx, heq₁, hlocal₁, hfirst⟩ := h.regular.exists_resolve
    (h.isScope hbehind hn) (hancestry ▸ hm) (h.shows hmbehind hscope hshows) hname
  refine ⟨x, hx, ?_⟩
  rw [hancestry] at heq₁
  -- The walk ends at the old place or before it.
  have hplace : near₁ = near ∧ k = m ∨ ∃ rest, near = near₁ ++ k :: rest := by
    rcases List.append_eq_append_iff.1 (heq.symm.trans heq₁) with ⟨between, h₁, h₂⟩ | ⟨rest, h₁, h₂⟩
    · cases between with
      | nil =>
        rw [List.append_nil] at h₁
        exact Or.inl ⟨h₁, (List.cons.inj h₂).1.symm⟩
      | cons j between =>
        obtain ⟨rfl, -⟩ := List.cons.inj h₂
        exact absurd (h₁ ▸ List.mem_append_right near List.mem_cons_self) hfirst
    · cases rest with
      | nil =>
        rw [List.append_nil] at h₁
        exact Or.inl ⟨h₁.symm, (List.cons.inj h₂).1⟩
      | cons j rest =>
        obtain ⟨rfl, -⟩ := List.cons.inj h₂
        exact Or.inr ⟨rest, h₁⟩
  rcases hplace with ⟨rfl, rfl⟩ | ⟨rest, rfl⟩
  · by_cases hsame : x = var
    · exact Or.inl hsame
    · refine Or.inr ⟨near₁, k, far₁, heq₁, hnear, hlocal₁, ?_⟩
      rw [hlocal]
      exact fun heq => hsame (Option.some.inj heq).symm
  · refine Or.inr ⟨near₁, k, far₁, heq₁, fun j hj => hnear j (List.mem_append_left _ hj), hlocal₁, ?_⟩
    rw [hnear k (List.mem_append_right near₁ List.mem_cons_self)]
    exact Option.some_ne_none x |>.symm

/-! ### Scopes that are opened for calls -/

/-- A scope lies in itself and in what its parent lies in. -/
theorem Regular.ancestry_of_parent (h : Regular none s) {outer : ScopeId}
    (hparent : s.parent? n = some outer) : s.ancestry n = n :: s.ancestry outer := by
  obtain ⟨outermost, hlast, hends⟩ := h.ancestry_ends n
  have hstep : s.ancestry n = n :: s.chain s.graph.slots.size outer := by
    rw [Scopes.ancestry, Scopes.chain, hparent]
  rw [hstep] at hlast ⊢
  rw [List.getLast?_cons] at hlast
  cases hrest : (s.chain s.graph.slots.size outer).getLast? with
  | none =>
    rw [hrest] at hlast
    obtain rfl : n = outermost := Option.some.inj hlast
    rw [hparent] at hends
    cases hends
  | some m =>
    rw [hrest] at hlast
    obtain rfl : m = outermost := Option.some.inj hlast
    rw [Scopes.ancestry, chain_of_ends hrest hends (Nat.le_succ _)]

/-- From a new scope everything is seen as from the scope around it. -/
theorem Regular.resolve_push (h : Regular none s) {inner : ScopeId} {kind : ScopeKind}
    (hn : s.isScope n = true) (hpush : s.push n kind = (.ok inner, s₁)) (name : String) :
    s₁.resolve inner name = s.resolve n name := by
  have hundisturbed : Undisturbed (fun _ => True) s (s.push n kind).2 :=
    h.undisturbed_push n kind
  have hregular := h.push n kind
  rw [hpush] at hundisturbed hregular
  rw [push_of_isScope hn] at hpush
  cases hpush
  have hopens := Opens.withScope h.tidy hn kind
  have hties : (withScope s.graph n kind).ties (s.graph.addNode (.scope kind true)).1 =
      [(.parent, n)] := by
    rw [withScope, (h.sound.addNode _).ties_addEdge (hasNode_addNode_new h.sound _), if_pos rfl,
      h.sound.ties_addNode, ties_of_vacant (h.sound.node?_new _)]
  have hparent : Scopes.parent? ⟨withScope s.graph n kind, s.declared⟩
      (s.graph.addNode (.scope kind true)).1 = some n := by
    rw [parent?_eq, tied?]
    dsimp only
    rw [hties]
    rfl
  have hnone : Scopes.localVar? ⟨withScope s.graph n kind, s.declared⟩ name
      (s.graph.addNode (.scope kind true)).1 = none := by
    rw [localVar?, imported?_eq]
    dsimp only
    rw [hopens.declared_eq_none h.tidy, hties]
    rfl
  rw [← hundisturbed.resolve h hn (fun _ _ => trivial) name,
    hregular.consistent.resolves hopens.opened,
    hregular.consistent.resolves (hopens.isScope hn), hregular.ancestry_of_parent hparent,
    List.findSome?_cons, hnone]

/-- A scope that is opened for a call of the closure sees the variable under the name, and reads its
value. -/
def Means (s : Scopes) (c : ClosureId) (name : String) (x : VarId) : Prop :=
  ∃ n inner s₁, s.closureScope c = .ok n ∧ s.push n .function = (.ok inner, s₁) ∧
    s₁.resolve inner name = .ok (some x) ∧
    ∃ value, s.valueOf? x = some value ∧ s₁.get inner name = .ok value

theorem Regular.variableName?_of_resolve (h : Regular none s) (hn : s.isScope n = true)
    (hx : s.resolve n name = .ok (some x)) : s.variableName? x = some name := by
  rw [Scopes.resolve, ensureScope, if_pos hn] at hx
  exact variableName?_lookup? h.tidy (Except.ok.inj hx)

theorem get_of_resolve {value : Value} (hx : s.resolve n name = .ok (some x))
    (hvalue : s.valueOf? x = some value) : s.get n name = .ok value := by
  have hfind : s.find n name = .ok x := by
    rw [Scopes.find, hx]
    rfl
  unfold Scopes.get
  rw [hfind]
  dsimp only [Bind.bind, Except.bind]
  rw [hvalue]
  rfl

/-- What a name means for a closure is what it means in the scope of the closure. -/
theorem Regular.means (h : Regular none s) (hscope : s.closureScope c = .ok n)
    (hx : s.resolve n name = .ok (some x)) : s.Means c name x := by
  have hn := isScope_of_closureScope hscope
  obtain ⟨mutable, hnode⟩ := variableName?_iff.1 (h.variableName?_of_resolve hn hx)
  obtain ⟨value, hvalue⟩ := h.exists_valueOf? hnode
  have hpush := push_of_isScope hn .function
  have hconfined : Confined (fun _ => False) s.graph (s.push n .function).2.graph :=
    confined_push h.sound n .function
  have hregular := h.push n .function
  rw [hpush] at hconfined hregular
  have hseen := (h.resolve_push hn hpush name).trans hx
  obtain ⟨t, htie, ht⟩ := h.valueOf?_iff.1 hvalue
  have hvalue₁ : Scopes.valueOf? ⟨withScope s.graph n .function, s.declared⟩ x = some value := by
    refine hregular.valueOf?_iff.2 ⟨t, ?_, hconfined.node ht id⟩
    rw [hconfined.ties hnode id]
    exact htie
  exact ⟨n, _, _, hscope, hpush, hseen, value, hvalue, get_of_resolve hseen hvalue₁⟩

/-- Nothing else is meant for a closure than in its scope. -/
theorem Regular.resolve_of_means (h : Regular none s) (hscope : s.closureScope c = .ok n)
    (hx : s.Means c name x) : s.resolve n name = .ok (some x) := by
  obtain ⟨n', inner, s₁, hscope', hpush, hseen, -⟩ := hx
  rw [hscope] at hscope'
  cases hscope'
  rwa [h.resolve_push (isScope_of_closureScope hscope) hpush] at hseen

/-- The variable belongs to a scope around the closure that is at least as near as one that shows
the given variable, and means the name there. -/
def Nearest (s : Scopes) (c : ClosureId) (name : String) (var x : VarId) : Prop :=
  ∃ n near m far, s.closureScope c = .ok n ∧ s.ancestry n = near ++ m :: far ∧
    s.localVar? name m = some x ∧ ∃ k ∈ m :: far, s.Shows k var

/-! ### What a closure captured -/

theorem mem_captured : (name, var) ∈ s.captured c ↔
    (∃ kind, (kind, var) ∈ s.graph.ties c) ∧ s.variableName? var = some name := by
  simp only [captured, List.mem_mergeSort, successors_eq, List.mem_filterMap, List.mem_map,
    Option.map_eq_some_iff, Prod.mk.injEq, Prod.exists]
  constructor
  · rintro ⟨_, ⟨kind, _, htie, rfl⟩, _, hname, rfl, rfl⟩
    exact ⟨⟨kind, htie⟩, hname⟩
  · rintro ⟨⟨kind, htie⟩, hname⟩
    exact ⟨var, ⟨kind, var, htie, rfl⟩, name, hname, rfl, rfl⟩

theorem mem_ties_capture {g : SlotGraph ScopeNode ScopeEdge} (h : g.Sound)
    (hc : g.hasNode c = true) {captured : List VarId} (hvars : ∀ var ∈ captured, g.hasNode var = true)
    {kind : ScopeEdge} {t : Nat} :
    (kind, t) ∈ (captured.foldl (fun graph var => (graph.addEdge c var .captures).2) g).ties c ↔
      (kind, t) ∈ g.ties c ∨ kind = .captures ∧ t ∈ captured := by
  induction captured generalizing g with
  | nil => simp
  | cons var captured ih =>
    have hkept {n : Nat} (hn : g.hasNode n = true) :
        (g.addEdge c var .captures).2.hasNode n = true := by
      rw [hasNode, node?_addEdge]
      exact hn
    rw [List.foldl_cons, ih (h.addEdge hc (hvars var List.mem_cons_self) _) (hkept hc)
      fun v hv => hkept (hvars v (List.mem_cons_of_mem var hv)), h.ties_addEdge hc, if_pos rfl,
      List.mem_cons, List.mem_cons, Prod.mk.injEq]
    tauto

/-- A new closure captured what its names mean, and that is what they mean for it. -/
theorem Regular.createClosure_captures (h : Regular none s) {fname : String} {names : List String}
    (hmade : s.createClosure n fname names = (.ok c, s₁)) :
    s₁.graph.node? c = some (.closure fname) ∧ s₁.closureScope c = .ok n ∧
      ∀ name var, (name, var) ∈ s₁.captured c ↔
        name ∈ names ∧ s₁.resolve n name = .ok (some var) := by
  have hundisturbed : Undisturbed (fun _ => True) s (s.createClosure n fname names).2 :=
    h.undisturbed_createClosure n fname names
  by_cases hn : s.isScope n = true
  · have hvars (var : VarId) (hvar : var ∈ s.visible n names) := exists_variable_of_visible h.tidy hvar
    have hclosure := (Keeps.withClosure h.tidy hn hvars fname).2
    rw [hmade] at hundisturbed
    rw [createClosure_of_isScope hn] at hmade
    cases hmade
    have hnode {m : Nat} := node?_withClosure h.sound n fname (s.visible n names) m
    have hties {kind : ScopeEdge} {t : Nat} : (kind, t) ∈ (withClosure s.graph n fname
        (s.visible n names)).ties (s.graph.addNode (.closure fname)).1 ↔
          kind = .captures ∧ (t = n ∨ t ∈ s.visible n names) := by
      have hsound := h.sound.addNode (.closure fname)
      have hnew := hasNode_addNode_new h.sound (.closure fname)
      have hold {m : Nat} {a : ScopeNode} (hm : s.graph.node? m = some a) :
          (s.graph.addNode (.closure fname)).2.hasNode m = true :=
        hasNode_addNode h.sound _ (hasNode_iff.2 ⟨a, hm⟩)
      have hkept {m : Nat} (hm : (s.graph.addNode (.closure fname)).2.hasNode m = true) :
          ((s.graph.addNode (.closure fname)).2.addEdge (s.graph.addNode (.closure fname)).1 n
            .captures).2.hasNode m = true := by
        rw [hasNode, node?_addEdge]
        exact hm
      obtain ⟨kind', active, hscope⟩ := isScope_iff.1 hn
      rw [withClosure, mem_ties_capture (hsound.addEdge hnew (hold hscope) _) (hkept hnew),
        hsound.ties_addEdge hnew, if_pos rfl, h.sound.ties_addNode,
        ties_of_vacant (h.sound.node?_new _), List.mem_singleton, Prod.mk.injEq, and_or_left]
      intro var hvar
      obtain ⟨name, hname⟩ := hvars var hvar
      obtain ⟨mutable, hnode⟩ := variableName?_iff.1 hname
      exact hkept (hold hnode)
    have hvisible {var : VarId} : var ∈ s.visible n names ↔
        ∃ name ∈ names, s.resolve n name = .ok (some var) := by
      simp only [visible, List.mem_filterMap, Scopes.resolve, ensureScope, if_pos hn]
      exact exists_congr fun name => and_congr_right fun _ => Except.ok.injEq .. ▸ Iff.rfl
    refine ⟨by rw [hnode, if_pos rfl], hclosure, fun name var => ?_⟩
    rw [mem_captured, hundisturbed.resolve h hn fun _ _ => trivial]
    simp only [hties, hvisible]
    constructor
    · rintro ⟨⟨kind, -, rfl | ⟨name', hmem, hvar⟩⟩, hname⟩
      · -- The scope is no variable.
        obtain ⟨kind', active, hscope⟩ := isScope_iff.1 (hundisturbed.isScope hn)
        obtain ⟨mutable, hvariable⟩ := variableName?_iff.1 hname
        rw [hscope] at hvariable
        cases hvariable
      · have hname' := hundisturbed.name (h.variableName?_of_resolve hn hvar)
        rw [hname] at hname'
        cases hname'
        exact ⟨hmem, hvar⟩
    · rintro ⟨hmem, hvar⟩
      exact ⟨⟨.captures, rfl, Or.inr ⟨name, hmem, hvar⟩⟩,
        hundisturbed.name (h.variableName?_of_resolve hn hvar)⟩
  · rw [Scopes.createClosure, if_neg hn] at hmade
    cases hmade

theorem Regular.exists_closureScope (h : Regular none s) {fname : String}
    (hc : s.graph.node? c = some (.closure fname)) : ∃ n, s.closureScope c = .ok n := by
  obtain ⟨e, n, hedge, hn⟩ := h.made hc (by simp)
  have hfind : (((s.graph.ties c).map (·.2)).find? s.isScope).isSome = true :=
    List.find?_isSome.2 ⟨n, List.mem_map.2 ⟨_, h.sound.mem_ties.2 ⟨e, hedge⟩, rfl⟩, hn⟩
  obtain ⟨m, hm⟩ := Option.isSome_iff_exists.1 hfind
  exact ⟨m, closureScope_eq_ok.2 ⟨⟨fname, hc⟩, hm⟩⟩

theorem Regular.behind_closureScope (h : Regular none s) (hscope : s.closureScope c = .ok n) :
    s.Behind c n := by
  obtain ⟨⟨fname, hc⟩, hfind⟩ := closureScope_eq_ok.1 hscope
  obtain ⟨⟨kind, t⟩, htie, rfl⟩ := List.mem_map.1 (List.mem_of_find?_eq_some hfind)
  refine Behind.tie .refl htie ?_
  rintro rfl
  obtain ⟨e, hedge⟩ := h.sound.mem_ties.1 htie
  obtain ⟨a, b, ha, -, hfits⟩ := h.fits hedge
  rw [hc] at ha
  cases ha
  cases b <;> exact hfits.elim

/-- What a closure leads to stays what it is. -/
theorem Carries.target (h : Carries (s.Behind c) s s₁) (hs : Regular none s) {fname : String}
    (hc : s.graph.node? c = some (.closure fname)) {kind : ScopeEdge} {t : Nat}
    (htie : (kind, t) ∈ s.graph.ties c) :
    s₁.isScope t = s.isScope t ∧ s₁.variableName? t = s.variableName? t := by
  obtain ⟨e, hedge⟩ := hs.sound.mem_ties.1 htie
  obtain ⟨a, b, ha, hb, hfits⟩ := hs.fits hedge
  rw [hc] at ha
  cases ha
  have hkind : kind = .captures := by cases kind <;> cases b <;> simp_all [ScopeNode.Fits]
  have hbehind : s.Behind c t := Behind.tie .refl htie (by simp [hkind])
  have hcases : s.isScope t = true ∨ ∃ name, s.variableName? t = some name := by
    cases b <;> simp_all [ScopeNode.Fits, Scopes.isScope, Scopes.variableName?]
  -- No node is both a scope and a variable.
  have hapart {s : Scopes} {name : String} (hname : s.variableName? t = some name) :
      s.isScope t = false := by
    obtain ⟨mutable, hnode⟩ := variableName?_iff.1 hname
    rw [Scopes.isScope, hnode]
  have hnameless {s : Scopes} (hscope : s.isScope t = true) : s.variableName? t = none := by
    rw [Option.eq_none_iff_forall_ne_some]
    intro name hname
    rw [hapart hname] at hscope
    cases hscope
  rcases hcases with hscope | ⟨name, hname⟩
  · have hscope₁ := h.isScope hbehind hscope
    exact ⟨hscope₁.trans hscope.symm, (hnameless hscope₁).trans (hnameless hscope).symm⟩
  · have hname₁ := h.name hbehind hname
    exact ⟨(hapart hname₁).trans (hapart hname).symm, hname₁.trans hname.symm⟩

/-- A closure stays in its scope, with what it captured. -/
theorem Carries.closure_same (h : Carries (s.Behind c) s s₁) (hs : Regular none s) {fname : String}
    (hc : s.graph.node? c = some (.closure fname)) :
    s₁.closureScope c = s.closureScope c ∧ s₁.captured c = s.captured c := by
  obtain ⟨hc₁, hties⟩ := h.closure .refl hc
  constructor
  · obtain ⟨n, hn⟩ := hs.exists_closureScope hc
    refine Eq.trans ?_ hn.symm
    rw [closureScope_eq_ok] at hn ⊢
    refine ⟨⟨fname, hc₁⟩, ?_⟩
    rw [hties, ← hn.2]
    refine List.find?_congr fun t ht => ?_
    obtain ⟨⟨kind, t⟩, htie, rfl⟩ := List.mem_map.1 ht
    exact (h.target hs hc htie).1
  · rw [captured, captured, successors_eq, successors_eq, hties]
    congr 1
    refine List.filterMap_congr fun t ht => ?_
    obtain ⟨⟨kind, t⟩, htie, rfl⟩ := List.mem_map.1 ht
    rw [(h.target hs hc htie).2]

end GraphLang.Scopes
