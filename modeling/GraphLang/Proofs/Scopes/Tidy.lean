import GraphLang.Proofs.Scopes.Lookups
import GraphLang.Scopes.Collection
import Std.Data.HashMap.Lemmas

/-!
# Tidy scopes

In tidy scopes variables lead to values, and declared names to variables of their scopes. Every
operation keeps them tidy. Apart from opening and leaving a scope, no operation changes which
scopes are open, and none loses a scope or the scope of a closure.
-/

namespace GraphLang.Scopes

open SlotGraph

variable {g : SlotGraph ScopeNode ScopeEdge} {d : Std.HashMap (ScopeId × String) VarId}
  {s s₁ s₂ : Scopes}

/-- Variables lead to values, and declared names to variables of their scopes. -/
structure Tidy (s : Scopes) : Prop where
  /-- The graph is sound. -/
  sound : s.graph.Sound
  /-- What a variable is bound to is a value. -/
  bound : ∀ {n t}, (ScopeEdge.bindsTo, t) ∈ s.graph.ties n →
    ∃ value, s.graph.node? t = some (.binding value)
  /-- A declared name leads to a variable of that name. -/
  declared : ∀ {scope name var}, s.declared[(scope, name)]? = some var →
    s.isScope scope = true ∧ s.variableName? var = some name

/-- The scopes are tidy after a change that opens, leaves and loses no scope. -/
structure Keeps (s s' : Scopes) : Prop where
  /-- The scopes are tidy. -/
  tidy : s'.Tidy
  /-- The same scopes are open. -/
  isActive : ∀ n, s'.isActive n = s.isActive n
  /-- No scope is lost. -/
  isScope : ∀ {n}, s.isScope n = true → s'.isScope n = true
  /-- Closures stay in their scopes. -/
  closureScope : ∀ {c scope}, s.closureScope c = .ok scope → s'.closureScope c = .ok scope

theorem Keeps.refl (h : s.Tidy) : Keeps s s := ⟨h, fun _ => rfl, id, id⟩

theorem Keeps.trans (h : Keeps s s₁) (h₁ : Keeps s₁ s₂) : Keeps s s₂ :=
  ⟨h₁.tidy, fun n => (h₁.isActive n).trans (h.isActive n), h₁.isScope ∘ h.isScope,
    h₁.closureScope ∘ h.closureScope⟩

/-- Of a closure's ties only those to scopes decide where it was made. -/
theorem closureScope_congr {s' : Scopes} {c : ClosureId} {scope : ScopeId}
    (hscope : s.closureScope c = .ok scope)
    (hnode : s'.graph.node? c = s.graph.node? c)
    (hties : ((s'.graph.ties c).map (·.2)).filter s'.isScope =
      ((s.graph.ties c).map (·.2)).filter s.isScope) : s'.closureScope c = .ok scope := by
  rw [closureScope_eq_ok] at hscope ⊢
  rw [hnode]
  refine ⟨hscope.1, ?_⟩
  rw [← List.head?_filter, hties, List.head?_filter]
  exact hscope.2

/-! ### Single changes of the graph -/

theorem isScope_congr {s' : Scopes} {n : Nat} (h : s'.graph.node? n = s.graph.node? n) :
    s'.isScope n = s.isScope n := by
  rw [Scopes.isScope, Scopes.isScope, h]

theorem isActive_congr {s' : Scopes} {n : Nat} (h : s'.graph.node? n = s.graph.node? n) :
    s'.isActive n = s.isActive n := by
  rw [Scopes.isActive, Scopes.isActive, h]

theorem isScope_eq_false {n : Nat} (h : s.graph.node? n = none) : s.isScope n = false := by
  rw [Scopes.isScope, h]

theorem isActive_eq_false {n : Nat} (h : s.graph.node? n = none) : s.isActive n = false := by
  rw [Scopes.isActive, h]

theorem node?_ne_new {n : Nat} {a b : ScopeNode} (h : g.Sound) (hn : g.node? n = some b) :
    n ≠ (g.addNode a).1 := by
  rintro rfl
  rw [h.node?_new] at hn
  cases hn

/-- A new node changes no other one. -/
theorem node?_addNode_old {n : Nat} {a b : ScopeNode} (h : g.Sound) (hn : g.node? n = some b) :
    (g.addNode a).2.node? n = some b := by
  rw [h.node?_addNode, if_neg (node?_ne_new h hn), hn]

theorem Tidy.addNode (h : Tidy ⟨g, d⟩) (a : ScopeNode) : Tidy ⟨(g.addNode a).2, d⟩ where
  sound := h.sound.addNode a
  bound := by
    intro n t hmem
    rw [h.sound.ties_addNode] at hmem
    obtain ⟨value, hvalue⟩ := h.bound hmem
    exact ⟨value, node?_addNode_old h.sound hvalue⟩
  declared := by
    intro scope name var hvar
    obtain ⟨hscope, hname⟩ := h.declared hvar
    obtain ⟨kind, active, hscope⟩ := isScope_iff.1 hscope
    obtain ⟨mutable, hname⟩ := variableName?_iff.1 hname
    exact ⟨isScope_iff.2 ⟨kind, active, node?_addNode_old h.sound hscope⟩,
      variableName?_iff.2 ⟨mutable, node?_addNode_old h.sound hname⟩⟩

/-- A new node is not where any tie leads. -/
theorem isScope_addNode_of_tie (h : g.Sound) (a : ScopeNode) {n t : Nat} {kind : ScopeEdge}
    (hmem : (kind, t) ∈ g.ties n) :
    Scopes.isScope ⟨(g.addNode a).2, d⟩ t = Scopes.isScope ⟨g, d⟩ t := by
  obtain ⟨b, hb⟩ := hasNode_iff.1 (h.hasNode_of_mem_ties hmem).2
  exact isScope_congr ((node?_addNode_old h hb).trans hb.symm)

theorem closureScope_addNode (h : g.Sound) (a : ScopeNode) {c : ClosureId} {scope : ScopeId}
    (hscope : Scopes.closureScope ⟨g, d⟩ c = .ok scope) :
    Scopes.closureScope ⟨(g.addNode a).2, d⟩ c = .ok scope := by
  obtain ⟨⟨name, hnode⟩, -⟩ := closureScope_eq_ok.1 hscope
  refine closureScope_congr hscope ((node?_addNode_old h hnode).trans hnode.symm) ?_
  dsimp only
  rw [h.ties_addNode]
  refine List.filter_congr fun t ht => ?_
  obtain ⟨⟨kind, t'⟩, hmem, rfl⟩ := List.mem_map.1 ht
  exact isScope_addNode_of_tie h a hmem

/-- A new node that is no scope. -/
theorem Keeps.addNode (h : Tidy ⟨g, d⟩) {a : ScopeNode} (ha : ∀ kind, a ≠ .scope kind true) :
    Keeps ⟨g, d⟩ ⟨(g.addNode a).2, d⟩ where
  tidy := h.addNode a
  isActive n := by
    by_cases hn : n = (g.addNode a).1
    · rw [hn, isActive_eq_false (h.sound.node?_new a), Bool.eq_false_iff]
      intro hactive
      obtain ⟨kind, hnode⟩ := isActive_iff.1 hactive
      rw [h.sound.node?_addNode, if_pos rfl] at hnode
      exact ha kind (Option.some.inj hnode)
    · refine isActive_congr ?_
      dsimp only
      rw [h.sound.node?_addNode, if_neg hn]
  isScope := by
    intro n hn
    obtain ⟨kind, active, hnode⟩ := isScope_iff.1 hn
    exact isScope_iff.2 ⟨kind, active, node?_addNode_old h.sound hnode⟩
  closureScope := closureScope_addNode h.sound a

/-- A new tie, which leads to a value if it binds, and does not lead a closure to another scope. -/
theorem Keeps.addEdge (h : Tidy ⟨g, d⟩) {n t : Nat} {kind : ScopeEdge} (hn : g.hasNode n = true)
    (ht : g.hasNode t = true)
    (hbinds : kind = .bindsTo → ∃ value, g.node? t = some (.binding value))
    (hscope : ∀ scope, Scopes.closureScope ⟨g, d⟩ n = .ok scope →
      Scopes.isScope ⟨g, d⟩ t = false) :
    Keeps ⟨g, d⟩ ⟨(g.addEdge n t kind).2, d⟩ where
  tidy := by
    refine ⟨h.sound.addEdge hn ht kind, ?_, ?_⟩
    · intro m t' hmem
      rw [h.sound.ties_addEdge hn] at hmem
      rw [node?_addEdge]
      split at hmem
      · rcases List.mem_cons.1 hmem with heq | hmem
        · cases heq
          exact hbinds rfl
        · exact h.bound hmem
      · exact h.bound hmem
    · intro scope name var hvar
      obtain ⟨hscope, hname⟩ := h.declared hvar
      refine ⟨?_, ?_⟩
      · rw [← hscope]
        exact isScope_congr (node?_addEdge n t kind scope)
      · rw [← hname, variableName?, variableName?]
        dsimp only
        rw [node?_addEdge]
  isActive m := isActive_congr (node?_addEdge n t kind m)
  isScope := by
    intro m hm
    rw [← hm]
    exact isScope_congr (node?_addEdge n t kind m)
  closureScope := by
    intro c scope hc
    have hsame : Scopes.isScope ⟨(g.addEdge n t kind).2, d⟩ = Scopes.isScope ⟨g, d⟩ :=
      funext fun m => isScope_congr (node?_addEdge n t kind m)
    refine closureScope_congr hc (node?_addEdge n t kind c) ?_
    dsimp only
    rw [hsame, h.sound.ties_addEdge hn]
    split
    · rename_i hcn
      rw [List.map_cons, List.filter_cons_of_neg]
      simpa using hscope scope (hcn ▸ hc)
    · rfl

/-- Letting a variable be written, or not. -/
theorem Keeps.modifyNode (h : Tidy ⟨g, d⟩) (var : VarId) (mutable : Bool) :
    Keeps ⟨g, d⟩ ⟨g.modifyNode var (ScopeNode.withMutable mutable), d⟩ := by
  have hscope (n : Nat) : Scopes.isScope ⟨g.modifyNode var (ScopeNode.withMutable mutable), d⟩ n =
      Scopes.isScope ⟨g, d⟩ n := by
    unfold Scopes.isScope
    dsimp only
    rw [node?_modifyNode]
    by_cases hn : n = var
    · rw [if_pos hn]
      rcases g.node? n with - | (- | - | - | -) <;> rfl
    · rw [if_neg hn]
  have hname (n : Nat) :
      Scopes.variableName? ⟨g.modifyNode var (ScopeNode.withMutable mutable), d⟩ n =
        Scopes.variableName? ⟨g, d⟩ n := by
    unfold Scopes.variableName?
    dsimp only
    rw [node?_modifyNode]
    by_cases hn : n = var
    · rw [if_pos hn]
      rcases g.node? n with - | (- | - | - | -) <;> rfl
    · rw [if_neg hn]
  have hfixed {n : Nat} {a : ScopeNode} (ha : a.withMutable mutable = a)
      (hn : g.node? n = some a) :
      (g.modifyNode var (ScopeNode.withMutable mutable)).node? n = some a := by
    rw [node?_modifyNode, hn]
    split <;> simp [ha]
  refine ⟨⟨h.sound.modifyNode _ _, ?_, ?_⟩, ?_, ?_, ?_⟩
  · intro n t hmem
    rw [ties_modifyNode] at hmem
    obtain ⟨value, hvalue⟩ := h.bound hmem
    exact ⟨value, hfixed rfl hvalue⟩
  · intro scope name v hv
    rw [hscope, hname]
    exact h.declared hv
  · intro n
    unfold Scopes.isActive
    dsimp only
    rw [node?_modifyNode]
    by_cases hn : n = var
    · rw [if_pos hn]
      rcases g.node? n with - | (- | - | - | -) <;> rfl
    · rw [if_neg hn]
  · intro n hn
    rwa [hscope]
  · intro c scope hc
    obtain ⟨⟨name, hnode⟩, -⟩ := closureScope_eq_ok.1 hc
    refine closureScope_congr hc ((hfixed rfl hnode).trans hnode.symm) ?_
    dsimp only
    rw [ties_modifyNode, funext hscope]

/-- Releasing a variable. -/
theorem Keeps.unbind (h : Tidy ⟨g, d⟩) (var : VarId) : Keeps ⟨g, d⟩ ⟨unbind g var, d⟩ := by
  cases ht : tied? g var .bindsTo with
  | none => rw [unbind_of_none ht]; exact .refl h
  | some t =>
    obtain ⟨value, hvalue⟩ := h.bound (tied?_eq_some ht)
    have hnode {n : Nat} (hn : n ≠ t) : (Scopes.unbind g var).node? n = g.node? n := by
      rw [node?_unbind h.sound ht, if_neg hn]
    have hgone : (Scopes.unbind g var).node? t = none := by
      rw [node?_unbind h.sound ht, if_pos rfl]
    have hother {n : Nat} {a : ScopeNode} (ha : ∀ v, a ≠ .binding v) (hn : g.node? n = some a) :
        n ≠ t := by
      rintro rfl
      rw [hvalue] at hn
      exact ha value (Option.some.inj hn).symm
    have hscope (n : Nat) : Scopes.isScope ⟨Scopes.unbind g var, d⟩ n =
        Scopes.isScope ⟨g, d⟩ n := by
      by_cases hn : n = t
      · have hnone : Scopes.isScope ⟨Scopes.unbind g var, d⟩ t = false := isScope_eq_false hgone
        rw [hn, hnone, Scopes.isScope, hvalue]
      · exact isScope_congr (hnode hn)
    refine ⟨⟨sound_unbind h.sound var, ?_, ?_⟩, ?_, ?_, ?_⟩
    · intro n t' hmem
      have hnt : n ≠ t := by
        rintro rfl
        rw [ties_of_vacant hgone] at hmem
        cases hmem
      rw [ties_unbind h.sound ht hnt, List.mem_filter] at hmem
      obtain ⟨value', hvalue'⟩ := h.bound hmem.1
      exact ⟨value', by rw [← hvalue']; exact hnode (by simpa using hmem.2)⟩
    · intro scope name v hv
      obtain ⟨hin, hname⟩ := h.declared hv
      obtain ⟨mutable, hvar⟩ := variableName?_iff.1 hname
      exact ⟨by rwa [hscope], variableName?_iff.2
        ⟨mutable, (hnode (hother (by simp) hvar)).trans hvar⟩⟩
    · intro n
      by_cases hn : n = t
      · have hnone : Scopes.isActive ⟨Scopes.unbind g var, d⟩ t = false := isActive_eq_false hgone
        rw [hn, hnone, Scopes.isActive, hvalue]
      · exact isActive_congr (hnode hn)
    · intro n hn
      rwa [hscope]
    · intro c scope hc
      obtain ⟨⟨name, hclosure⟩, -⟩ := closureScope_eq_ok.1 hc
      have hct := hother (by simp) hclosure
      refine closureScope_congr hc (hnode hct) ?_
      dsimp only
      rw [ties_unbind h.sound ht hct, funext hscope, List.filter_map, List.filter_map,
        List.filter_filter]
      congr 1
      refine List.filter_congr fun p _ => ?_
      by_cases hp : p.2 = t
      · have hvalue' : Scopes.isScope ⟨g, d⟩ t = false := by rw [Scopes.isScope, hvalue]
        simp [hp, hvalue']
      · simp [hp]

/-- Leading a variable to a new value. -/
theorem Keeps.bind (h : Tidy ⟨g, d⟩) {var : VarId} {name : String} {mutable : Bool}
    (hvar : g.node? var = some (.variable name mutable)) (value : Value) :
    Keeps ⟨g, d⟩ ⟨bind g var value, d⟩ := by
  have hadd : Keeps ⟨g, d⟩ ⟨(g.addNode (.binding value)).2, d⟩ := .addNode h (by simp)
  have hvar' := node?_addNode_old (a := .binding value) h.sound hvar
  have hnew : (g.addNode (.binding value)).2.node? (g.addNode (.binding value)).1 =
      some (.binding value) := by
    rw [h.sound.node?_addNode, if_pos rfl]
  refine hadd.trans (.addEdge hadd.tidy (hasNode_iff.2 ⟨_, hvar'⟩)
    (hasNode_addNode_new h.sound _) (fun _ => ⟨value, hnew⟩) ?_)
  · intro scope hc
    obtain ⟨⟨c, hnode⟩, -⟩ := closureScope_eq_ok.1 hc
    dsimp only at hnode
    rw [hvar'] at hnode
    cases hnode

end GraphLang.Scopes
