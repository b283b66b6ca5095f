import GraphLang.Proofs.Scopes.Regular
import GraphLang.Proofs.Scopes.Marking
import Mathlib.Data.List.Perm.Subperm

/-!
# Scopes that a program can come to

Every operation on regular scopes leaves regular scopes, whether it succeeds or fails. So the scopes
of every run are regular, and walking outward from a scope always comes to an end.
-/

namespace GraphLang.Scopes

open SlotGraph

variable {g : SlotGraph ScopeNode ScopeEdge} {d : Std.HashMap (ScopeId × String) VarId}
  {s : Scopes} {bare : Option Nat}

/-! ### Kinds of edges -/

theorem Regular.parent_ends (h : Regular bare s) {e inner outer : Nat}
    (hedge : s.graph.edge? e = some ⟨inner, outer, .parent⟩) :
    s.isScope inner = true ∧ s.isScope outer = true := by
  obtain ⟨a, b, ha, hb, hfits⟩ := h.fits hedge
  cases a <;> cases b <;> simp only [ScopeNode.Fits] at hfits
  exact ⟨isScope_iff.2 ⟨_, _, ha⟩, isScope_iff.2 ⟨_, _, hb⟩⟩

theorem Regular.contains_ends (h : Regular bare s) {e scope var : Nat}
    (hedge : s.graph.edge? e = some ⟨scope, var, .contains⟩) :
    s.isScope scope = true ∧ ∃ name, s.variableName? var = some name := by
  obtain ⟨a, b, ha, hb, hfits⟩ := h.fits hedge
  cases a <;> cases b <;> simp only [ScopeNode.Fits] at hfits
  exact ⟨isScope_iff.2 ⟨_, _, ha⟩, _, variableName?_iff.2 ⟨_, hb⟩⟩

theorem Regular.bindsTo_ends (h : Regular bare s) {e var t : Nat}
    (hedge : s.graph.edge? e = some ⟨var, t, .bindsTo⟩) :
    ∃ value, s.graph.node? t = some (.binding value) := by
  obtain ⟨a, b, ha, hb, hfits⟩ := h.fits hedge
  cases a <;> cases b <;> simp only [ScopeNode.Fits] at hfits
  exact ⟨_, hb⟩

theorem Regular.tidy (h : Regular bare s) : s.Tidy where
  sound := h.sound
  bound := by
    intro n t hmem
    obtain ⟨e, hedge⟩ := h.sound.mem_ties.1 hmem
    exact h.bindsTo_ends hedge
  declared := by
    intro scope name var hvar
    obtain ⟨⟨e, hedge⟩, hname⟩ := (h.declared scope name var).1 hvar
    exact ⟨(h.contains_ends hedge).1, hname⟩

/-! ### Opening and leaving -/

theorem Regular.pushRoot (h : Regular none s) (kind : ScopeKind) :
    Regular none (s.pushRoot kind).2 :=
  Regular.addNode h (by simp)

/-- Nothing leads to a new node or from it. -/
theorem Regular.not_ends_new (h : Regular bare ⟨g, d⟩) (a : ScopeNode) {e : Nat}
    {edge : Edge ScopeEdge} (hedge : (g.addNode a).2.edge? e = some edge) :
    edge.source ≠ (g.addNode a).1 ∧ edge.target ≠ (g.addNode a).1 := by
  rw [edge?_addNode] at hedge
  obtain ⟨⟨b, hb⟩, c, hc⟩ := h.hasNode_ends hedge
  exact ⟨node?_ne_new h.sound hb, node?_ne_new h.sound hc⟩

theorem Regular.push (h : Regular none s) (parent : ScopeId) (kind : ScopeKind) :
    Regular none (s.push parent kind).2 := by
  by_cases hparent : s.isScope parent = true
  · rw [push_of_isScope hparent]
    obtain ⟨kind', active, hnode⟩ := isScope_iff.1 hparent
    have hadd : Regular none ⟨(s.graph.addNode (.scope kind true)).2, s.declared⟩ :=
      Regular.addNode h (by simp)
    have hnew := h.sound.node?_addNode (.scope kind true) (s.graph.addNode (.scope kind true)).1
    rw [if_pos rfl] at hnew
    have hadmits : Admits (s.graph.addNode (.scope kind true)).2 s.declared
        (s.graph.addNode (.scope kind true)).1 parent .parent := by
      refine ⟨⟨_, _, hnew, node?_addNode_old h.sound hnode, trivial⟩, by simp, ?_, ?_⟩
      · intro _ e edge hedge hsource
        exact absurd hsource (Regular.not_ends_new h _ hedge).1
      · exact fun _ => ⟨(node?_ne_new h.sound hnode).symm,
          fun hedge => (Regular.not_ends_new h _ hedge).2⟩
    exact hadd.addEdge hadmits s.declared (by simp)
  · rw [Scopes.push, if_neg hparent]
    exact h

theorem Regular.pop (h : Regular none s) (scope : ScopeId) : Regular none (s.pop scope).2 := by
  by_cases hscope : s.isScope scope = true
  · rw [pop_of_isScope hscope]
    exact Regular.modifyNode h ScopeNode.like_leave scope
  · rw [Scopes.pop, if_neg hscope]
    exact h

/-! ### Variables -/

theorem Regular.rebind (h : Regular none s) (var : VarId) (value : Value) :
    Regular none (s.rebind var value).2 := by
  cases hvar : s.variableName? var with
  | none =>
    rw [Scopes.rebind, hvar]
    exact h
  | some name =>
    rw [rebind_of_variable hvar]
    obtain ⟨mutable, hnode⟩ := variableName?_iff.1 hvar
    obtain ⟨hunbind, hbare⟩ := Regular.unbind h hnode
    exact hunbind.bind (node?_unbind_of_ne h.tidy (by simp) hnode) hbare value

theorem Regular.redefine (h : Regular none s) (var : VarId) (value : Value) (mutable : Bool) :
    Regular none (s.redefine var value mutable).2 := by
  have hmodify : Regular none
      ⟨s.graph.modifyNode var (ScopeNode.withMutable mutable), s.declared⟩ :=
    Regular.modifyNode h (ScopeNode.like_withMutable mutable) var
  exact hmodify.rebind var value

theorem Regular.declare (h : Regular none s) {scope : ScopeId} (hscope : s.isScope scope = true)
    {name : String} (hnew : s.declared[(scope, name)]? = none) (value : Value) (mutable : Bool) :
    Regular none (s.declare scope name value mutable).2 := by
  rw [declare_eq]
  obtain ⟨kind, active, hnode⟩ := isScope_iff.1 hscope
  -- The variable is bare until it gets its value.
  have hadd : Regular (some (s.graph.addNode (.variable name mutable)).1)
      ⟨(s.graph.addNode (.variable name mutable)).2, s.declared⟩ :=
    Regular.addNode (h.weaken _) (Or.inl rfl)
  have hvar := h.sound.node?_addNode (.variable name mutable)
    (s.graph.addNode (.variable name mutable)).1
  rw [if_pos rfl] at hvar
  have hname : Scopes.variableName?
      ⟨(s.graph.addNode (.variable name mutable)).2, s.declared⟩
      (s.graph.addNode (.variable name mutable)).1 = some name :=
    variableName?_iff.2 ⟨mutable, hvar⟩
  have hedge : Regular (some (s.graph.addNode (.variable name mutable)).1)
      ⟨withVariable s.graph scope name mutable,
        s.declared.insert (scope, name) (s.graph.addNode (.variable name mutable)).1⟩ := by
    have hadmits : Admits (s.graph.addNode (.variable name mutable)).2 s.declared scope
        (s.graph.addNode (.variable name mutable)).1 .contains := by
      refine ⟨⟨_, _, node?_addNode_old h.sound hnode, hvar, trivial⟩, by simp, ?_, by simp⟩
      intro htarget
      obtain ⟨kind', active', hnode'⟩ := isScope_iff.1 htarget
      dsimp only at hnode'
      rw [hvar] at hnode'
      cases hnode'
    refine hadd.addEdge hadmits _ fun scope' name' var' => ?_
    rw [Std.HashMap.getElem?_insert, hname]
    by_cases hkey : ((scope, name) == (scope', name')) = true
    · rw [if_pos hkey]
      rw [beq_iff_eq, Prod.mk.injEq] at hkey
      obtain ⟨rfl, rfl⟩ := hkey
      simp [hnew, eq_comm]
    · rw [if_neg hkey]
      rw [beq_iff_eq, Prod.mk.injEq, not_and] at hkey
      constructor
      · exact Or.inl
      · rintro (hold | ⟨-, rfl, -, heq⟩)
        · exact hold
        · exact absurd (Option.some.inj heq) (hkey rfl)
  have hvar' : (withVariable s.graph scope name mutable).node?
      (s.graph.addNode (.variable name mutable)).1 = some (.variable name mutable) := by
    rw [node?_withVariable h.sound, if_pos rfl]
  refine hedge.bind hvar' ?_ value
  · rintro e edge hedge' ⟨hsource, hkind⟩
    rw [withVariable, hadd.sound.edge?_addEdge] at hedge'
    split at hedge'
    · cases hedge'
      cases hkind
    · exact (Regular.not_ends_new h _ hedge').1 hsource

theorem Regular.define (h : Regular none s) (scope : ScopeId) (name : String) (value : Value)
    (mutable : Bool) : Regular none (s.define scope name value mutable).2 := by
  unfold Scopes.define
  by_cases hscope : s.isScope scope = true
  · rw [if_neg (by simp [hscope])]
    cases hvar : s.declared[(scope, name)]? with
    | none => exact h.declare hscope hvar value mutable
    | some var =>
      dsimp only
      by_cases hmutable : (s.isMutable? var == some false) = true
      · rw [if_pos hmutable]
        exact h
      · rw [if_neg hmutable]
        exact h.redefine var value mutable
  · rw [if_pos (by simp [hscope])]
    exact h

theorem Regular.assign (h : Regular none s) (scope : ScopeId) (name : String) (value : Value) :
    Regular none (s.assign scope name value).2 := by
  unfold Scopes.assign
  cases s.find scope name with
  | error e => exact h
  | ok var =>
    dsimp only
    by_cases hmutable : (s.isMutable? var == some false) = true
    · rw [if_pos hmutable]
      exact h
    · rw [if_neg hmutable]
      exact h.rebind var value

/-! ### Closures and imports -/

/-- A closure may capture variables one after the other. -/
theorem Regular.captures (h : Regular bare ⟨g, d⟩) {c : ClosureId} {name : String}
    {captured : List VarId} (hc : g.node? c = some (.closure name))
    (hvars : ∀ var ∈ captured, ∃ name mutable, g.node? var = some (.variable name mutable)) :
    Regular bare ⟨captured.foldl (fun graph var => (graph.addEdge c var .captures).2) g, d⟩ := by
  induction captured generalizing g with
  | nil => exact h
  | cons var captured ih =>
    obtain ⟨name', mutable, hvar⟩ := hvars var List.mem_cons_self
    refine ih (h.capture hc hvar trivial) (by rw [node?_addEdge, hc]) fun var' hvar' => ?_
    obtain ⟨name', mutable, hvar'⟩ := hvars var' (List.mem_cons_of_mem var hvar')
    exact ⟨name', mutable, by rw [node?_addEdge, hvar']⟩

theorem Regular.createClosure (h : Regular none s) (scope : ScopeId) (name : String)
    (names : List String) : Regular none (s.createClosure scope name names).2 := by
  by_cases hscope : s.isScope scope = true
  · rw [createClosure_of_isScope hscope]
    obtain ⟨kind, active, hnode⟩ := isScope_iff.1 hscope
    -- The closure is bare until it leads to its scope.
    have hadd : Regular (some (s.graph.addNode (.closure name)).1)
        ⟨(s.graph.addNode (.closure name)).2, s.declared⟩ :=
      Regular.addNode (h.weaken _) (Or.inl rfl)
    have hclosure := h.sound.node?_addNode (.closure name) (s.graph.addNode (.closure name)).1
    rw [if_pos rfl] at hclosure
    have hold {n : Nat} {a : ScopeNode} (hn : s.graph.node? n = some a) :
        ((s.graph.addNode (.closure name)).2.addEdge (s.graph.addNode (.closure name)).1 scope
          .captures).2.node? n = some a := by
      rw [node?_addEdge, node?_addNode_old h.sound hn]
    have hadmits : Admits (s.graph.addNode (.closure name)).2 s.declared
        (s.graph.addNode (.closure name)).1 scope .captures :=
      ⟨⟨_, _, hclosure, node?_addNode_old h.sound hnode, trivial⟩, by simp,
        fun _ _ _ hedge hsource => absurd hsource (Regular.not_ends_new h _ hedge).1, by simp⟩
    have hclosure' : ((s.graph.addNode (.closure name)).2.addEdge
        (s.graph.addNode (.closure name)).1 scope .captures).2.node?
        (s.graph.addNode (.closure name)).1 = some (.closure name) := by
      rw [node?_addEdge, hclosure]
    have hsettled := (hadd.addEdge hadmits s.declared (by simp)).settle_closure hclosure'
      ((hadd.sound.edge?_addEdge _ _ _ _).trans (if_pos rfl))
      (isScope_iff.2 ⟨kind, active, hold hnode⟩)
    refine hsettled.captures hclosure' fun var hvar => ?_
    obtain ⟨name', hname⟩ := exists_variable_of_visible h.tidy hvar
    obtain ⟨mutable, hnode'⟩ := variableName?_iff.1 hname
    exact ⟨name', mutable, hold hnode'⟩
  · rw [Scopes.createClosure, if_neg hscope]
    exact h

theorem Regular.importVar (h : Regular none s) (scope : ScopeId) (var : VarId) :
    Regular none (s.importVar scope var).2 := by
  unfold Scopes.importVar
  by_cases hscope : s.isScope scope = true
  · rw [if_neg (by simp [hscope])]
    cases hname : s.variableName? var with
    | none => exact h
    | some name =>
      obtain ⟨kind, active, hnode⟩ := isScope_iff.1 hscope
      obtain ⟨mutable, hvar⟩ := variableName?_iff.1 hname
      exact Regular.capture h hnode hvar trivial
  · rw [if_pos (by simp [hscope])]
    exact h

/-! ### Collecting -/

theorem collect_eq (store : Store) (roots : List Nat) :
    s.collect store roots = ((s.dead store roots).length,
      ⟨s.graph.sweep (s.dead store roots), s.declared.filter fun (scope, _) var =>
        (s.graph.sweep (s.dead store roots)).hasNode scope &&
          (s.graph.sweep (s.dead store roots)).hasNode var⟩) := rfl

/-- The sweep keeps the declarations of variables that stay in scopes that stay. -/
theorem getElem?_declared_collect (h : Regular none s) (store : Store) (roots : List Nat)
    (scope : ScopeId) (name : String) (var : VarId) :
    (s.collect store roots).2.declared[(scope, name)]? = some var ↔
      s.declared[(scope, name)]? = some var ∧ scope ∉ s.dead store roots ∧
        var ∉ s.dead store roots := by
  rw [collect_eq]
  dsimp only
  rw [Std.HashMap.getElem?_filter', Option.filter_eq_some_iff, Bool.and_eq_true, hasNode_sweep,
    hasNode_sweep]
  refine and_congr_right fun hvar => ?_
  obtain ⟨⟨e, hedge⟩, -⟩ := (h.declared scope name var).1 hvar
  simp [h.sound.hasNode_source hedge, h.sound.hasNode_target hedge]

theorem Regular.collect (h : Regular none s) (store : Store) (roots : List Nat) :
    Regular none (s.collect store roots).2 := by
  refine Regular.sweep h (fun {e edge} hedge hsource => ?_) (getElem?_declared_collect h store roots)
  refine Retained.not_mem_dead h.sound (.edge ?_ hedge)
  exact retained_of_not_mem_dead h.sound (h.sound.hasNode_source hedge) hsource

/-! ### Runs of operations -/

/-- Scopes that come about from none by operations, whatever their arguments are and whether they
succeed or fail. -/
inductive Reached : Scopes → Prop
  | empty : Reached .empty
  | pushRoot {s : Scopes} (h : Reached s) (kind : ScopeKind) : Reached (s.pushRoot kind).2
  | push {s : Scopes} (h : Reached s) (parent : ScopeId) (kind : ScopeKind) :
      Reached (s.push parent kind).2
  | pop {s : Scopes} (h : Reached s) (scope : ScopeId) : Reached (s.pop scope).2
  | define {s : Scopes} (h : Reached s) (scope : ScopeId) (name : String) (value : Value)
      (mutable : Bool) : Reached (s.define scope name value mutable).2
  | assign {s : Scopes} (h : Reached s) (scope : ScopeId) (name : String) (value : Value) :
      Reached (s.assign scope name value).2
  | rebind {s : Scopes} (h : Reached s) (var : VarId) (value : Value) :
      Reached (s.rebind var value).2
  | createClosure {s : Scopes} (h : Reached s) (scope : ScopeId) (name : String)
      (names : List String) : Reached (s.createClosure scope name names).2
  | importVar {s : Scopes} (h : Reached s) (scope : ScopeId) (var : VarId) :
      Reached (s.importVar scope var).2
  | collect {s : Scopes} (h : Reached s) (store : Store) (roots : List Nat) :
      Reached (s.collect store roots).2

theorem Reached.regular (h : Reached s) : Regular none s := by
  induction h with
  | empty => exact regular_empty
  | pushRoot _ kind ih => exact ih.pushRoot kind
  | push _ parent kind ih => exact ih.push parent kind
  | pop _ scope ih => exact ih.pop scope
  | define _ scope name value mutable ih => exact ih.define scope name value mutable
  | assign _ scope name value ih => exact ih.assign scope name value
  | rebind _ var value ih => exact ih.rebind var value
  | createClosure _ scope name names ih => exact ih.createClosure scope name names
  | importVar _ scope var ih => exact ih.importVar scope var
  | collect _ store roots ih => exact ih.collect store roots

/-! ### Walking outward -/

theorem Regular.parent?_iff (h : Regular bare s) {inner outer : Nat} :
    s.parent? inner = some outer ↔ ∃ e, s.graph.edge? e = some ⟨inner, outer, .parent⟩ := by
  rw [parent?_eq, ← h.sound.mem_ties]
  refine ⟨tied?_eq_some, fun hmem => ?_⟩
  obtain ⟨t, ht⟩ := exists_tied? hmem
  obtain ⟨e, hedge⟩ := h.sound.mem_ties.1 hmem
  obtain ⟨e', hedge'⟩ := h.sound.mem_ties.1 (tied?_eq_some ht)
  obtain rfl := h.once hedge hedge' rfl
    (Or.inr ⟨(h.parent_ends hedge).2, (h.parent_ends hedge').2⟩)
  rw [hedge] at hedge'
  cases hedge'
  exact ht

/-- A walk takes as many steps as it may, or it comes to a scope without a parent. -/
theorem length_chain_or (s : Scopes) (fuel : Nat) (scope : ScopeId) :
    (s.chain fuel scope).length = fuel ∨
      ∃ outermost, (s.chain fuel scope).getLast? = some outermost ∧ s.parent? outermost = none := by
  induction fuel generalizing scope with
  | zero => exact Or.inl rfl
  | succ fuel ih =>
    unfold chain
    cases hparent : s.parent? scope with
    | none => exact Or.inr ⟨scope, rfl, hparent⟩
    | some parent =>
      rcases ih parent with hlength | ⟨outermost, hlast, hnone⟩
      · exact Or.inl (congrArg (· + 1) hlength)
      · exact Or.inr ⟨outermost, by rw [List.getLast?_cons, hlast]; rfl, hnone⟩

/-- The scopes of a walk are there, and they differ. -/
theorem Regular.chain (h : Regular bare s) {rank : Nat → Nat}
    (hrank : ∀ {e inner outer}, s.graph.edge? e = some ⟨inner, outer, .parent⟩ →
      rank outer < rank inner) (fuel : Nat) {scope : ScopeId} (hscope : s.graph.hasNode scope = true) :
    (s.chain fuel scope).Pairwise (fun inner outer => rank outer < rank inner) ∧
      ∀ n ∈ s.chain fuel scope, s.graph.hasNode n = true ∧ rank n ≤ rank scope := by
  induction fuel generalizing scope with
  | zero => exact ⟨.nil, fun n hn => nomatch hn⟩
  | succ fuel ih =>
    unfold Scopes.chain
    cases hparent : s.parent? scope with
    | none =>
      refine ⟨List.pairwise_singleton _ _, fun n hn => ?_⟩
      obtain rfl := List.mem_singleton.1 hn
      exact ⟨hscope, Nat.le_refl _⟩
    | some parent =>
      obtain ⟨e, hedge⟩ := h.parent?_iff.1 hparent
      obtain ⟨hpairwise, hmem⟩ := ih (h.sound.hasNode_target hedge)
      have hlt := hrank hedge
      refine ⟨List.pairwise_cons.2 ⟨fun n hn => Nat.lt_of_le_of_lt (hmem n hn).2 hlt, hpairwise⟩,
        fun n hn => ?_⟩
      rcases List.mem_cons.1 hn with rfl | hn
      · exact ⟨hscope, Nat.le_refl _⟩
      · exact ⟨(hmem n hn).1, Nat.le_trans (hmem n hn).2 (Nat.le_of_lt hlt)⟩

/-- A walk outward comes to a scope without a parent. -/
theorem Regular.ancestry_ends (h : Regular bare s) (scope : ScopeId) :
    ∃ outermost, (s.ancestry scope).getLast? = some outermost ∧ s.parent? outermost = none := by
  by_cases hscope : s.graph.hasNode scope = true
  · obtain ⟨rank, hrank⟩ := h.outward
    obtain ⟨hpairwise, hmem⟩ := h.chain hrank (s.graph.slots.size + 1) hscope
    refine (s.length_chain_or (s.graph.slots.size + 1) scope).resolve_left fun hlength => ?_
    -- There are not so many different nodes.
    have hnodup : (s.chain (s.graph.slots.size + 1) scope).Nodup :=
      hpairwise.imp fun {a b} hlt (heq : a = b) => Nat.lt_irrefl (rank a) (by rwa [← heq] at hlt)
    have hsub : s.chain (s.graph.slots.size + 1) scope ⊆ List.range s.graph.slots.size := by
      intro n hn
      obtain ⟨a, ha⟩ := hasNode_iff.1 (hmem n hn).1
      exact List.mem_range.2 (node?_lt ha)
    have hle := (hnodup.subperm hsub).length_le
    rw [List.length_range] at hle
    omega
  · have hparent : s.parent? scope = none := by
      rw [Option.eq_none_iff_forall_ne_some]
      intro outer hparent
      obtain ⟨e, hedge⟩ := h.parent?_iff.1 hparent
      exact hscope (h.sound.hasNode_source hedge)
    refine ⟨scope, ?_, hparent⟩
    rw [ancestry, Scopes.chain, hparent]
    rfl

/-- A name is looked up in the scopes outward, one after the other. -/
theorem lookup?_eq_findSome? (s : Scopes) (name : String) (fuel : Nat) (scope : ScopeId) :
    s.lookup? name fuel scope = (s.chain fuel scope).findSome? (s.localVar? name) := by
  induction fuel generalizing scope with
  | zero => rfl
  | succ fuel ih =>
    unfold lookup? chain
    rw [List.findSome?_cons]
    cases s.localVar? name scope with
    | some var => rfl
    | none =>
      cases s.parent? scope with
      | none => rfl
      | some parent => exact ih parent

/-! ### What holds of all scopes -/

/-- The edge of that number is the only one from its source of which something holds. -/
def OnlyFrom (g : SlotGraph ScopeNode ScopeEdge) (e : Nat) (edge : Edge ScopeEdge)
    (P : Edge ScopeEdge → Prop) : Prop :=
  g.edge? e = some edge ∧ P edge ∧ ∀ {e' edge'}, g.edge? e' = some edge' →
    edge'.source = edge.source → P edge' → e' = e

/-- How the nodes of the scope graph hang together. -/
structure Consistent (s : Scopes) : Prop where
  /-- A variable has exactly one value, and nothing else leads there. -/
  bound : ∀ {var name mutable}, s.graph.node? var = some (.variable name mutable) →
    ∃ e t value, OnlyFrom s.graph e ⟨var, t, .bindsTo⟩ (·.weight = .bindsTo) ∧
      s.graph.node? t = some (.binding value) ∧
      ∀ {e' edge}, s.graph.edge? e' = some edge → edge.target = t → e' = e
  /-- The declared names are those of the variables that scopes contain. -/
  declared : ∀ scope name var, s.declared[(scope, name)]? = some var ↔
    s.isScope scope = true ∧ (∃ e, s.graph.edge? e = some ⟨scope, var, .contains⟩) ∧
      s.variableName? var = some name
  /-- A scope contains at most one variable of a name. -/
  unique : ∀ {scope name var var' e e'}, s.graph.edge? e = some ⟨scope, var, .contains⟩ →
    s.graph.edge? e' = some ⟨scope, var', .contains⟩ → s.variableName? var = some name →
    s.variableName? var' = some name → var = var'
  /-- A scope has at most one parent, which is a scope. -/
  parent : ∀ {e inner outer}, s.graph.edge? e = some ⟨inner, outer, .parent⟩ →
    s.isScope outer = true ∧ OnlyFrom s.graph e ⟨inner, outer, .parent⟩ (·.weight = .parent)
  /-- Parents never lead back. -/
  acyclic : ∀ scope, ¬Relation.TransGen
    (fun inner outer => ∃ e, s.graph.edge? e = some ⟨inner, outer, .parent⟩) scope scope
  /-- A walk outward comes to a scope without a parent. -/
  ends : ∀ scope, ∃ outermost,
    (s.ancestry scope).getLast? = some outermost ∧ s.parent? outermost = none
  /-- A name means the first local variable of that name on the whole walk. -/
  resolves : ∀ {scope}, s.isScope scope = true → ∀ name,
    s.resolve scope name = .ok ((s.ancestry scope).findSome? (s.localVar? name))
  /-- A closure was made in exactly one scope. -/
  made : ∀ {c name}, s.graph.node? c = some (.closure name) →
    ∃ e scope, OnlyFrom s.graph e ⟨c, scope, .captures⟩
      fun edge => edge.weight = .captures ∧ s.isScope edge.target = true

theorem Regular.consistent (h : Regular none s) : s.Consistent where
  bound := by
    intro var name mutable hvar
    obtain ⟨e, t, hedge⟩ := h.bound hvar (by simp)
    obtain ⟨value, hvalue⟩ := h.bindsTo_ends hedge
    refine ⟨e, t, value, ⟨hedge, rfl, fun hedge' hsource hkind => ?_⟩, hvalue,
      fun hedge' htarget => h.own hedge hedge' rfl htarget⟩
    exact h.once hedge' hedge hsource (Or.inl ⟨hkind, rfl⟩)
  declared scope name var := by
    rw [h.declared]
    refine ⟨fun hvar => ⟨?_, hvar⟩, And.right⟩
    obtain ⟨⟨e, hedge⟩, -⟩ := hvar
    exact (h.contains_ends hedge).1
  unique := by
    intro scope name var var' e e' hedge hedge' hname hname'
    have hvar := (h.declared scope name var).2 ⟨⟨e, hedge⟩, hname⟩
    have hvar' := (h.declared scope name var').2 ⟨⟨e', hedge'⟩, hname'⟩
    rw [hvar] at hvar'
    exact Option.some.inj hvar'
  parent := by
    intro e inner outer hedge
    refine ⟨(h.parent_ends hedge).2, hedge, rfl, ?_⟩
    rintro e' ⟨inner', outer', kind⟩ hedge' hsource hkind
    dsimp only at hsource hkind
    subst hsource hkind
    exact h.once hedge' hedge rfl (Or.inr ⟨(h.parent_ends hedge').2, (h.parent_ends hedge).2⟩)
  acyclic := by
    obtain ⟨rank, hrank⟩ := h.outward
    have hlt {a b : Nat} (hpath : Relation.TransGen
        (fun inner outer => ∃ e, s.graph.edge? e = some ⟨inner, outer, .parent⟩) a b) :
        rank b < rank a := by
      induction hpath with
      | single hstep =>
        obtain ⟨e, hedge⟩ := hstep
        exact hrank hedge
      | tail _ hstep ih =>
        obtain ⟨e, hedge⟩ := hstep
        exact Nat.lt_trans (hrank hedge) ih
    exact fun scope hpath => Nat.lt_irrefl _ (hlt hpath)
  ends := h.ancestry_ends
  resolves := by
    intro scope hscope name
    rw [resolve, ensureScope, if_pos hscope, lookup?_eq_findSome?]
    rfl
  made := by
    intro c name hc
    obtain ⟨e, scope, hedge, hscope⟩ := h.made hc (by simp)
    refine ⟨e, scope, hedge, ⟨rfl, hscope⟩, fun hedge' hsource hkind => ?_⟩
    exact h.once hedge' hedge hsource (Or.inr ⟨hkind.2, hscope⟩)

/-- Whatever is done with the scopes, they stay consistent. -/
theorem reached_consistent (h : Reached s) : s.Consistent := h.regular.consistent

/-- A closure that sees a variable of the scope around the one it was made in. -/
def capturing : Scopes :=
  let top := (Scopes.empty.pushRoot .module).2
  let declaring := (top.define 0 "x" (.bool true) true).2
  let nested := (declaring.push 0 .function).2
  (nested.createClosure 3 "f" ["x"]).2

theorem reached_capturing : Reached capturing :=
  (((Reached.empty.pushRoot .module).define 0 "x" (.bool true) true).push 0 .function).createClosure
    3 "f" ["x"]

theorem consistent_capturing :
    capturing.graph.node? 4 = some (.closure "f") ∧ capturing.Consistent :=
  ⟨by cbv, reached_consistent reached_capturing⟩

end GraphLang.Scopes
