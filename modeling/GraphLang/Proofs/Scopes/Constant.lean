import GraphLang.Proofs.Scopes.Reached
import GraphLang.Proofs.Scopes.Survival

/-!
# What an operation on scopes touches

An operation touches at most one node that was there before, and the value of that node: the scope
that it declares a variable in or imports one into, or the variable that it writes. Every other node
stays as it is and leads where it led.
-/

namespace GraphLang.Scopes

open SlotGraph

variable {g g₁ g₂ : SlotGraph ScopeNode ScopeEdge} {d : Std.HashMap (ScopeId × String) VarId}
  {s : Scopes} {touched touched' : Nat → Prop}

/-- The nodes that are not touched are as they were and lead where they led. -/
structure Confined (touched : Nat → Prop) (g g₁ : SlotGraph ScopeNode ScopeEdge) : Prop where
  /-- They are as they were. -/
  node : ∀ {n a}, g.node? n = some a → ¬touched n → g₁.node? n = some a
  /-- They lead where they led. -/
  ties : ∀ {n a}, g.node? n = some a → ¬touched n → g₁.ties n = g.ties n

namespace Confined

theorem refl (g : SlotGraph ScopeNode ScopeEdge) : Confined touched g g :=
  ⟨fun hn _ => hn, fun _ _ => rfl⟩

theorem weaken (h : Confined touched g g₁) (hsub : ∀ n, touched n → touched' n) :
    Confined touched' g g₁ :=
  ⟨fun hn ht => h.node hn (ht ∘ hsub _), fun hn ht => h.ties hn (ht ∘ hsub _)⟩

/-- The second change touches of the old nodes only what the first one may touch. -/
theorem trans (h : Confined touched g g₁) (h' : Confined touched' g₁ g₂)
    (hsub : ∀ {n a}, g.node? n = some a → touched' n → touched n) : Confined touched g g₂ where
  node hn ht := h'.node (h.node hn ht) (ht ∘ hsub hn)
  ties hn ht := (h'.ties (h.node hn ht) (ht ∘ hsub hn)).trans (h.ties hn ht)

/-- A change of new nodes touches none of the old ones. -/
theorem trans_new (h : Confined touched g g₁) {m : Nat} (h' : Confined (· = m) g₁ g₂)
    (hm : g.node? m = none) : Confined touched g g₂ := by
  refine h.trans h' ?_
  rintro n a hn rfl
  rw [hm] at hn
  cases hn

theorem addNode (h : g.Sound) (a : ScopeNode) : Confined touched g (g.addNode a).2 :=
  ⟨fun hn _ => node?_addNode_old h hn, fun _ _ => h.ties_addNode _ _⟩

theorem addEdge (h : g.Sound) {n : Nat} (hn : g.hasNode n = true) (t : Nat) (kind : ScopeEdge) :
    Confined (· = n) g (g.addEdge n t kind).2 where
  node hm _ := by rw [node?_addEdge, hm]
  ties _ hne := by rw [h.ties_addEdge hn, if_neg hne]

theorem modifyNode (n : Nat) (f : ScopeNode → ScopeNode) : Confined (· = n) g (g.modifyNode n f) where
  node hm hne := by rw [node?_modifyNode, if_neg hne, hm]
  ties _ _ := ties_modifyNode ..

theorem bind (h : g.Sound) {var : VarId} (hvar : g.hasNode var = true) (value : Value) :
    Confined (· = var) g (Scopes.bind g var value) where
  node hm _ := by rw [node?_bind h, if_neg (node?_ne_new h hm), hm]
  ties _ hne := by rw [ties_bind h hvar, if_neg hne]

end Confined

/-- The node, or its value. -/
def At (g : SlotGraph ScopeNode ScopeEdge) (x n : Nat) : Prop :=
  n = x ∨ (ScopeEdge.bindsTo, n) ∈ g.ties x

theorem Confined.at {x : Nat} (h : Confined (· = x) g g₁) : Confined (At g x) g g₁ :=
  h.weaken fun _ => Or.inl

/-! ### Values -/

/-- Nothing but the variable leads to its value. -/
theorem Regular.eq_of_ties (h : Regular none ⟨g, d⟩) {var n t : Nat} {kind : ScopeEdge}
    (ht : (.bindsTo, t) ∈ g.ties var) (hn : (kind, t) ∈ g.ties n) : n = var := by
  obtain ⟨e, hedge⟩ := h.sound.mem_ties.1 ht
  obtain ⟨e', hedge'⟩ := h.sound.mem_ties.1 hn
  obtain rfl := h.own hedge hedge' rfl rfl
  exact congrArg Edge.source (Option.some.inj (hedge'.symm.trans hedge))

theorem Regular.confined_unbind (h : Regular none ⟨g, d⟩) (var : VarId) :
    Confined (At g var) g (Scopes.unbind g var) := by
  cases ht : tied? g var .bindsTo with
  | none =>
    rw [unbind_of_none ht]
    exact .refl g
  | some t =>
    have hmem := tied?_eq_some ht
    refine ⟨fun {n a} hn haway => ?_, fun {n a} hn haway => ?_⟩
    · have hne : n ≠ t := fun heq => haway (Or.inr (heq ▸ hmem))
      rw [node?_unbind h.sound ht, if_neg hne, hn]
    · have hne : n ≠ t := fun heq => haway (Or.inr (heq ▸ hmem))
      rw [ties_unbind h.sound ht hne, List.filter_eq_self]
      rintro ⟨kind, t'⟩ htie
      rw [bne_iff_ne]
      rintro rfl
      exact haway (Or.inl (h.eq_of_ties hmem htie))

theorem Regular.confined_rebind (h : Regular none s) (var : VarId) (value : Value) :
    Confined (At s.graph var) s.graph (s.rebind var value).2.graph := by
  cases hvar : s.variableName? var with
  | none =>
    rw [Scopes.rebind, hvar]
    exact .refl _
  | some name =>
    rw [rebind_of_variable hvar]
    obtain ⟨mutable, hnode⟩ := variableName?_iff.1 hvar
    have hunbind : Confined (At s.graph var) s.graph (Scopes.unbind s.graph var) :=
      Regular.confined_unbind h var
    have hkept : (Scopes.unbind s.graph var).node? var = some (.variable name mutable) :=
      node?_unbind_of_ne h.tidy (by simp) hnode
    exact hunbind.trans (.bind (sound_unbind h.sound var) (hasNode_iff.2 ⟨_, hkept⟩) value)
      fun _ => Or.inl

theorem Regular.confined_redefine (h : Regular none s) (var : VarId) (value : Value)
    (mutable : Bool) : Confined (At s.graph var) s.graph (s.redefine var value mutable).2.graph := by
  have hmodify : Regular none
      ⟨s.graph.modifyNode var (ScopeNode.withMutable mutable), s.declared⟩ :=
    Regular.modifyNode h (ScopeNode.like_withMutable mutable) var
  have hchanged : Confined (At s.graph var) s.graph
      (s.graph.modifyNode var (ScopeNode.withMutable mutable)) := (Confined.modifyNode var _).at
  refine hchanged.trans (hmodify.confined_rebind var value) fun _ hat => ?_
  exact hat.imp_right fun htie => by rwa [ties_modifyNode] at htie

/-! ### Operations -/

/-- Nothing is touched, or one node of a kind together with its value. -/
def Touches (touched : Nat → Prop) (s s₁ : Scopes) : Prop :=
  Confined (fun _ => False) s.graph s₁.graph ∨
    ∃ x, touched x ∧ Confined (At s.graph x) s.graph s₁.graph

theorem Touches.refl (s : Scopes) : Touches touched s s := Or.inl (.refl _)

theorem Touches.weaken {s₁ : Scopes} (h : Touches touched s s₁)
    (hsub : ∀ x, touched x → touched' x) : Touches touched' s s₁ :=
  h.imp_right fun ⟨x, hx, hconfined⟩ => ⟨x, hsub x hx, hconfined⟩

/-- A variable that can be written. -/
def Mutable (s : Scopes) (x : Nat) : Prop := ∃ name, s.graph.node? x = some (.variable name true)

theorem Regular.confined_declare (h : Regular none s) {scope : ScopeId}
    (hscope : s.isScope scope = true) (name : String) (value : Value) (mutable : Bool) :
    Confined (· = scope) s.graph (s.declare scope name value mutable).2.graph := by
  rw [declare_eq]
  obtain ⟨kind, active, hnode⟩ := isScope_iff.1 hscope
  have hsound := h.sound.addNode (.variable name mutable)
  have hlive := hasNode_addNode h.sound (.variable name mutable) (hasNode_iff.2 ⟨_, hnode⟩)
  have hnew := hasNode_addNode_new h.sound (.variable name mutable)
  have hadd : Confined (· = scope) s.graph (withVariable s.graph scope name mutable) :=
    (Confined.addNode h.sound _).trans (.addEdge hsound hlive _ _) fun _ => id
  have hvar : (withVariable s.graph scope name mutable).hasNode
      (s.graph.addNode (.variable name mutable)).1 = true := by
    rw [hasNode, node?_withVariable h.sound, if_pos rfl]
    rfl
  exact hadd.trans_new (.bind (hsound.addEdge hlive hnew _) hvar value) (h.sound.node?_new _)

theorem confined_push (h : s.graph.Sound) (parent : ScopeId) (kind : ScopeKind) :
    Confined touched s.graph (s.push parent kind).2.graph := by
  by_cases hparent : s.isScope parent = true
  · rw [push_of_isScope hparent]
    exact (Confined.addNode h _).trans_new
      (.addEdge (h.addNode _) (hasNode_addNode_new h _) _ _) (h.node?_new _)
  · rw [Scopes.push, if_neg hparent]
    exact .refl _

theorem touches_pop (scope : ScopeId) : Touches (s.isScope · = true) s (s.pop scope).2 := by
  by_cases hscope : s.isScope scope = true
  · rw [pop_of_isScope hscope]
    exact Or.inr ⟨scope, hscope, (Confined.modifyNode scope _).at⟩
  · rw [Scopes.pop, if_neg hscope]
    exact .refl s

/-- A definition touches its scope, or else a variable that can be written. -/
theorem Regular.touches_define (h : Regular none s) (scope : ScopeId) (name : String)
    (value : Value) (mutable : Bool) :
    Touches (fun x => x = scope ∧ s.isScope scope = true ∨ s.Mutable x) s
      (s.define scope name value mutable).2 := by
  unfold Scopes.define
  by_cases hscope : s.isScope scope = true
  · rw [if_neg (by simp [hscope])]
    cases hvar : s.declared[(scope, name)]? with
    | none =>
      exact Or.inr ⟨scope, Or.inl ⟨rfl, hscope⟩, (h.confined_declare hscope name value mutable).at⟩
    | some var =>
      obtain ⟨-, hname⟩ := (h.declared scope name var).1 hvar
      obtain ⟨mutable', hnode⟩ := variableName?_iff.1 hname
      dsimp only
      rw [isMutable?_of_node? hnode]
      cases mutable' with
      | false => exact .refl s
      | true =>
        exact Or.inr ⟨var, Or.inr ⟨name, hnode⟩, h.confined_redefine var value mutable⟩
  · rw [if_pos (by simp [hscope])]
    exact .refl s

/-- An assignment touches a variable that can be written. -/
theorem Regular.touches_assign (h : Regular none s) (scope : ScopeId) (name : String)
    (value : Value) : Touches s.Mutable s (s.assign scope name value).2 := by
  unfold Scopes.assign
  cases s.find scope name with
  | error e => exact .refl s
  | ok var =>
    dsimp only
    cases hmutable : s.isMutable? var with
    | none =>
      have hgone : s.variableName? var = none := by
        rw [Option.eq_none_iff_forall_ne_some]
        intro name' hname
        obtain ⟨mutable, hnode⟩ := variableName?_iff.1 hname
        rw [isMutable?_of_node? hnode] at hmutable
        cases hmutable
      rw [if_neg (by simp), Scopes.rebind, hgone]
      exact .refl s
    | some mutable =>
      obtain ⟨name', hnode⟩ := node?_of_isMutable? hmutable
      cases mutable with
      | false => exact .refl s
      | true => exact Or.inr ⟨var, ⟨name', hnode⟩, h.confined_rebind var value⟩

theorem Confined.capture {c : ClosureId} (h : Confined touched g g₁) (hsound : g₁.Sound)
    (hc : g.node? c = none) (hlive : g₁.hasNode c = true) {captured : List VarId}
    (hvars : ∀ var ∈ captured, g₁.hasNode var = true) :
    Confined touched g (captured.foldl (fun graph var => (graph.addEdge c var .captures).2) g₁) := by
  induction captured generalizing g₁ with
  | nil => exact h
  | cons var captured ih =>
    have hkept {n : Nat} (hn : g₁.hasNode n = true) :
        (g₁.addEdge c var .captures).2.hasNode n = true := by
      rw [hasNode, node?_addEdge]
      exact hn
    refine ih (h.trans_new (.addEdge hsound hlive var .captures) hc)
      (hsound.addEdge hlive (hvars var List.mem_cons_self) _) (hkept hlive) fun var' hvar' => ?_
    exact hkept (hvars var' (List.mem_cons_of_mem var hvar'))

theorem Regular.confined_createClosure (h : Regular none s) (scope : ScopeId) (name : String)
    (names : List String) :
    Confined touched s.graph (s.createClosure scope name names).2.graph := by
  by_cases hscope : s.isScope scope = true
  · rw [createClosure_of_isScope hscope]
    obtain ⟨kind, active, hnode⟩ := isScope_iff.1 hscope
    have hsound := h.sound.addNode (.closure name)
    have hnew := hasNode_addNode_new h.sound (.closure name)
    have hlive {n : Nat} {a : ScopeNode} (hn : s.graph.node? n = some a) :
        (s.graph.addNode (.closure name)).2.hasNode n = true :=
      hasNode_addNode h.sound _ (hasNode_iff.2 ⟨a, hn⟩)
    have hkept {n : Nat} (hn : (s.graph.addNode (.closure name)).2.hasNode n = true) :
        ((s.graph.addNode (.closure name)).2.addEdge (s.graph.addNode (.closure name)).1 scope
          .captures).2.hasNode n = true := by
      rw [hasNode, node?_addEdge]
      exact hn
    have hadd : Confined touched s.graph (s.graph.addNode (.closure name)).2 := .addNode h.sound _
    have hfirst := hadd.trans_new (.addEdge hsound hnew scope .captures) (h.sound.node?_new _)
    refine hfirst.capture (hsound.addEdge hnew (hlive hnode) _) (h.sound.node?_new _) (hkept hnew)
      fun var hvar => ?_
    obtain ⟨name', hname⟩ := exists_variable_of_visible h.tidy hvar
    obtain ⟨mutable, hvariable⟩ := variableName?_iff.1 hname
    exact hkept (hlive hvariable)
  · rw [Scopes.createClosure, if_neg hscope]
    exact .refl _

theorem Regular.touches_importVar (h : Regular none s) (scope : ScopeId) (var : VarId) :
    Touches (s.isScope · = true) s (s.importVar scope var).2 := by
  unfold Scopes.importVar
  by_cases hscope : s.isScope scope = true
  · rw [if_neg (by simp [hscope])]
    obtain ⟨kind, active, hnode⟩ := isScope_iff.1 hscope
    cases s.variableName? var with
    | none => exact .refl s
    | some name =>
      exact Or.inr ⟨scope, hscope, (Confined.addEdge h.sound (hasNode_iff.2 ⟨_, hnode⟩) var _).at⟩
  · rw [if_pos (by simp [hscope])]
    exact .refl s

/-! ### Variables that cannot be written

An operation writes scopes, variables that can be written, and their values. So a variable that
cannot be written keeps its value, however its name is defined or assigned, and as no two variables
share a value, writing the others does not reach it either. -/

variable {s₁ s₂ : Scopes} {var : VarId} {name : String} {value : Value}

/-! ### Values -/

theorem Regular.valueOf?_iff (h : Regular none s) : s.valueOf? var = some value ↔
    ∃ t, (ScopeEdge.bindsTo, t) ∈ s.graph.ties var ∧ s.graph.node? t = some (.binding value) := by
  rw [valueOf?_eq, Option.bind_eq_some_iff]
  constructor
  · rintro ⟨t, ht, hvalue⟩
    obtain ⟨e, hedge⟩ := h.sound.mem_ties.1 (tied?_eq_some ht)
    obtain ⟨value', hnode⟩ := h.bindsTo_ends hedge
    rw [hnode] at hvalue
    cases hvalue
    exact ⟨t, tied?_eq_some ht, hnode⟩
  · rintro ⟨t, htie, hvalue⟩
    obtain ⟨t', ht'⟩ := exists_tied? htie
    obtain ⟨e, hedge⟩ := h.sound.mem_ties.1 htie
    obtain ⟨e', hedge'⟩ := h.sound.mem_ties.1 (tied?_eq_some ht')
    obtain rfl := h.once hedge hedge' rfl (Or.inl ⟨rfl, rfl⟩)
    rw [hedge] at hedge'
    cases hedge'
    exact ⟨t, ht', by rw [hvalue]⟩

theorem Regular.exists_valueOf? (h : Regular none s) {mutable : Bool}
    (hvar : s.graph.node? var = some (.variable name mutable)) :
    ∃ value, s.valueOf? var = some value := by
  obtain ⟨e, t, hedge⟩ := h.bound hvar (by simp)
  obtain ⟨value, hvalue⟩ := h.bindsTo_ends hedge
  exact ⟨value, h.valueOf?_iff.2 ⟨t, h.sound.mem_ties.2 ⟨e, hedge⟩, hvalue⟩⟩

/-! ### Constant variables -/

/-- If the variable cannot be written in the first scopes, it cannot be written in the second ones
and has the same value there. -/
def Constant (var : VarId) (s s₁ : Scopes) : Prop :=
  ∀ name, s.graph.node? var = some (.variable name false) →
    s₁.graph.node? var = some (.variable name false) ∧ s₁.valueOf? var = s.valueOf? var

theorem Constant.refl (var : VarId) (s : Scopes) : Constant var s s := fun _ hvar => ⟨hvar, rfl⟩

theorem Constant.trans (h : Constant var s s₁) (h' : Constant var s₁ s₂) : Constant var s s₂ := by
  intro name hvar
  obtain ⟨hvar₁, hvalue₁⟩ := h name hvar
  obtain ⟨hvar₂, hvalue₂⟩ := h' name hvar₁
  exact ⟨hvar₂, hvalue₂.trans hvalue₁⟩

/-- A change that touches a scope or a variable that can be written, and its value. -/
theorem Regular.constant (h : Regular none s) (h₁ : Regular none s₁)
    (htouches : Touches (fun x => s.isScope x = true ∨ s.Mutable x) s s₁) (var : VarId) :
    Constant var s s₁ := by
  intro name hvar
  obtain ⟨value, hvalue⟩ := h.exists_valueOf? hvar
  obtain ⟨t, htie, ht⟩ := h.valueOf?_iff.1 hvalue
  -- Neither the variable nor its value is touched.
  have hkept : s₁.graph.node? var = some (.variable name false) ∧
      s₁.graph.ties var = s.graph.ties var ∧ s₁.graph.node? t = some (.binding value) := by
    rcases htouches with hnone | ⟨x, hx, hat⟩
    · exact ⟨hnone.node hvar id, hnone.ties hvar id, hnone.node ht id⟩
    · have hne : var ≠ x := by
        rintro rfl
        rcases hx with hscope | ⟨name', hmutable⟩
        · obtain ⟨kind, active, hnode⟩ := isScope_iff.1 hscope
          rw [hvar] at hnode
          cases hnode
        · rw [hvar] at hmutable
          cases hmutable
      have hvarAway : ¬At s.graph x var := by
        rintro (heq | hmem)
        · exact hne heq
        · obtain ⟨e, hedge⟩ := h.sound.mem_ties.1 hmem
          obtain ⟨value', hbinding⟩ := h.bindsTo_ends hedge
          rw [hvar] at hbinding
          cases hbinding
      have htAway : ¬At s.graph x t := by
        rintro (rfl | hmem)
        · rcases hx with hscope | ⟨name', hmutable⟩
          · obtain ⟨kind, active, hnode⟩ := isScope_iff.1 hscope
            rw [ht] at hnode
            cases hnode
          · rw [ht] at hmutable
            cases hmutable
        · exact hne (Regular.eq_of_ties h hmem htie)
      exact ⟨hat.node hvar hvarAway, hat.ties hvar hvarAway, hat.node ht htAway⟩
  obtain ⟨hnode, hties, hbinding⟩ := hkept
  refine ⟨hnode, ?_⟩
  rw [hvalue, h₁.valueOf?_iff]
  exact ⟨t, hties ▸ htie, hbinding⟩

/-- A collection that does not remove the variable. -/
theorem Regular.constant_collect (h : Regular none s) (store : Store) (roots : List Nat)
    (hkept : (s.collect store roots).2.graph.hasNode var = true) :
    Constant var s (s.collect store roots).2 := by
  intro name hvar
  have hretained := (hasNode_collect h.sound).1 hkept
  have hsame := (h.agreeOn_collect store roots).sameAt hretained
  exact ⟨by rw [hsame.node?, hvar], hsame.valueOf?⟩

/-! ### Attempts to write them -/

theorem Regular.define_constant (h : Regular none s) {name' : String}
    (hvar : s.graph.node? var = some (.variable name' false)) {scope : ScopeId}
    (hdeclared : s.declared[(scope, name)]? = some var) (value : Value) (mutable : Bool) :
    s.define scope name value mutable = (.error (.immutable name), s) := by
  obtain ⟨⟨e, hedge⟩, -⟩ := (h.declared scope name var).1 hdeclared
  have hscope := (h.contains_ends hedge).1
  unfold Scopes.define
  rw [if_neg (by simp [hscope]), hdeclared]
  dsimp only
  rw [isMutable?_of_node? hvar, if_pos (by simp)]

theorem assign_constant {name' : String} (hvar : s.graph.node? var = some (.variable name' false))
    {scope : ScopeId} (hfind : s.find scope name = .ok var) (value : Value) :
    s.assign scope name value = (.error (.immutable name), s) := by
  unfold Scopes.assign
  rw [hfind]
  dsimp only
  rw [isMutable?_of_node? hvar, if_pos (by simp)]

/-! ### The natives -/

/-- Natives of different names may be declared one after the other. -/
theorem Regular.natives (h : Regular none s) {prelude : ScopeId}
    (hprelude : s.isScope prelude = true) {natives : List Native}
    (hnodup : (natives.map (·.name)).Nodup)
    (hnew : ∀ n ∈ natives, s.declared[(prelude, n.name)]? = none) :
    Regular none
      (natives.foldl (fun s n => (s.declare prelude n.name (.native n) false).2) s) := by
  induction natives generalizing s with
  | nil => exact h
  | cons n natives ih =>
    rw [List.map_cons, List.nodup_cons] at hnodup
    refine ih (h.declare hprelude (hnew n List.mem_cons_self) (.native n) false)
      ((Keeps.declare h.tidy hprelude n.name (.native n) false).isScope hprelude) hnodup.2
      fun m hm => ?_
    have hne : n.name ≠ m.name := fun heq => hnodup.1 (List.mem_map.2 ⟨m, hm, heq.symm⟩)
    dsimp only
    rw [declare_eq]
    dsimp only
    rw [Std.HashMap.getElem?_insert, if_neg (by simp [hne]), hnew m (List.mem_cons_of_mem n hm)]

end GraphLang.Scopes
