import GraphLang.Proofs.SlotGraph.Ties
import GraphLang.Scopes.Basic

/-!
# Look-ups in scopes

Whatever is looked up in the scopes depends on the nodes and their ties only. Binding a variable
adds one tie, and releasing it removes the value it led to with everything that leads there.
-/

namespace GraphLang.Scopes

open SlotGraph

variable {g : SlotGraph ScopeNode ScopeEdge} {s : Scopes}

/-- Where the newest tie of a kind leads. -/
def tied? (g : SlotGraph ScopeNode ScopeEdge) (n : Nat) (kind : ScopeEdge) : Option Nat :=
  ((g.ties n).find? fun t => t.1 == kind).map (·.2)

theorem tied?_eq_some {n t : Nat} {kind : ScopeEdge} (h : tied? g n kind = some t) :
    (kind, t) ∈ g.ties n := by
  obtain ⟨⟨kind', t'⟩, hfind, rfl⟩ := Option.map_eq_some_iff.1 h
  have hkind : kind' = kind := by simpa using List.find?_some hfind
  exact hkind ▸ List.mem_of_find?_eq_some hfind

theorem exists_tied? {n t : Nat} {kind : ScopeEdge} (h : (kind, t) ∈ g.ties n) :
    ∃ t', tied? g n kind = some t' := by
  have hfind : ((g.ties n).find? fun t => t.1 == kind).isSome := by
    rw [List.find?_isSome]
    exact ⟨_, h, by simp⟩
  obtain ⟨t', ht'⟩ := Option.isSome_iff_exists.1 hfind
  exact ⟨t'.2, by rw [tied?, ht']; rfl⟩

theorem firstEdge?_target (n : Nat) (kind : ScopeEdge) :
    (firstEdge? g n kind).map (·.2.target) = tied? g n kind := by
  unfold firstEdge? tied? ties
  rw [List.find?_map, Option.map_map]
  rfl

theorem firstEdge?_eq_some {n e : Nat} {kind : ScopeEdge} {edge : Edge ScopeEdge}
    (h : g.Sound) (hfirst : firstEdge? g n kind = some (e, edge)) :
    g.edge? e = some edge ∧ edge.source = n ∧ tied? g n kind = some edge.target := by
  have hmem := List.mem_of_find?_eq_some hfirst
  obtain ⟨hedge, hsource⟩ := h.mem_outgoing_iff.1 hmem
  refine ⟨hedge, hsource, ?_⟩
  rw [← firstEdge?_target, hfirst]
  rfl

theorem parent?_eq (scope : ScopeId) : s.parent? scope = tied? s.graph scope .parent :=
  firstEdge?_target scope .parent

theorem valueOf?_eq (var : VarId) :
    s.valueOf? var = (tied? s.graph var .bindsTo).bind fun t =>
      match s.graph.node? t with
      | some (.binding value) => some value
      | _ => none := by
  rw [valueOf?, ← firstEdge?_target]
  cases firstEdge? s.graph var .bindsTo <;> rfl

theorem imported?_eq (scope : ScopeId) (name : String) :
    s.imported? scope name =
      ((s.graph.ties scope).find? fun t =>
        t.1 == .captures && s.variableName? t.2 == some name).map (·.2) := by
  unfold imported? ties
  rw [List.find?_map, Option.map_map]
  rfl

theorem contents_eq (s : Scopes) (scope : ScopeId) :
    s.contents scope = ((s.graph.ties scope).filterMap fun t =>
      if t.1 == .contains then (s.variableName? t.2).map fun name => (name, t.2)
      else none).mergeSort nameOrder := by
  rw [contents, ties, List.filterMap_map]
  rfl

theorem isScope_iff {n : Nat} :
    s.isScope n = true ↔ ∃ kind active, s.graph.node? n = some (.scope kind active) := by
  unfold isScope
  split
  · rename_i kind active hnode
    simp [hnode]
  · rename_i hnode
    simp only [Bool.false_eq_true, false_iff]
    rintro ⟨kind, active, h⟩
    exact hnode kind active h

theorem isActive_iff {n : Nat} :
    s.isActive n = true ↔ ∃ kind, s.graph.node? n = some (.scope kind true) := by
  unfold isActive
  split
  · rename_i kind active hnode
    simp [hnode]
  · rename_i hnode
    simp only [Bool.false_eq_true, false_iff]
    rintro ⟨kind, h⟩
    exact hnode kind true h

theorem variableName?_iff {var : VarId} {name : String} :
    s.variableName? var = some name ↔
      ∃ mutable, s.graph.node? var = some (.variable name mutable) := by
  unfold variableName?
  split
  · rename_i name' mutable hnode
    simp [hnode]
  · rename_i hnode
    simp only [reduceCtorEq, false_iff]
    rintro ⟨mutable, h⟩
    exact hnode name mutable h

/-- A closure leads to the first scope among its ties. -/
theorem closureScope_eq_ok {c : ClosureId} {scope : ScopeId} :
    s.closureScope c = .ok scope ↔
      (∃ name, s.graph.node? c = some (.closure name)) ∧
        ((s.graph.ties c).map (·.2)).find? s.isScope = some scope := by
  unfold closureScope
  rw [successors_eq]
  split
  · rename_i name hnode
    cases ((s.graph.ties c).map (·.2)).find? s.isScope <;> simp [hnode]
  · rename_i hnode
    simp only [reduceCtorEq, false_iff]
    rintro ⟨⟨name, h⟩, -⟩
    exact hnode name h

theorem closureScope_eq_error {c : ClosureId} {e : BindingError}
    (h : s.closureScope c = .error e) : e = .unknownClosure c := by
  unfold closureScope at h
  split at h
  · split at h <;> cases h
    rfl
  · cases h
    rfl

/-- The scope of a closure is a scope that the closure leads to. -/
theorem isScope_of_closureScope {c : ClosureId} {scope : ScopeId}
    (h : s.closureScope c = .ok scope) : s.isScope scope = true :=
  List.find?_some (closureScope_eq_ok.1 h).2

/-! ### Binding and releasing -/

theorem node?_bind (h : g.Sound) (var : VarId) (value : Value) (m : Nat) :
    (bind g var value).node? m =
      if m = (g.addNode (.binding value)).1 then some (.binding value) else g.node? m := by
  unfold bind
  dsimp only
  rw [node?_addEdge, h.node?_addNode]

theorem hasNode_addNode_new (h : g.Sound) (a : ScopeNode) :
    (g.addNode a).2.hasNode (g.addNode a).1 = true := by
  rw [hasNode, h.node?_addNode, if_pos rfl]
  rfl

theorem hasNode_addNode (h : g.Sound) (a : ScopeNode) {n : Nat} (hn : g.hasNode n = true) :
    (g.addNode a).2.hasNode n = true := by
  obtain ⟨b, hb⟩ := hasNode_iff.1 hn
  rw [hasNode, h.node?_addNode]
  split <;> simp [hb]

theorem ties_bind (h : g.Sound) {var : VarId} (hvar : g.hasNode var = true) (value : Value)
    (m : Nat) :
    (bind g var value).ties m =
      if m = var then (.bindsTo, (g.addNode (.binding value)).1) :: g.ties m else g.ties m := by
  unfold bind
  dsimp only
  rw [(h.addNode _).ties_addEdge (hasNode_addNode h _ hvar), h.ties_addNode]

theorem unbind_of_none {var : VarId} (hvar : tied? g var .bindsTo = none) : unbind g var = g := by
  rw [← firstEdge?_target, Option.map_eq_none_iff] at hvar
  rw [unbind, hvar]

/-- Releasing a variable removes the edge to its value and then the value. -/
theorem exists_unbind (h : g.Sound) {var t : Nat} (ht : tied? g var .bindsTo = some t) :
    ∃ e edge, g.edge? e = some edge ∧ edge.target = t ∧
      unbind g var = (g.removeEdge e).removeNode t := by
  rw [← firstEdge?_target] at ht
  obtain ⟨⟨e, edge⟩, hfirst, rfl⟩ := Option.map_eq_some_iff.1 ht
  exact ⟨e, edge, (firstEdge?_eq_some h hfirst).1, rfl, by rw [unbind, hfirst]⟩

theorem node?_unbind (h : g.Sound) {var t : Nat} (ht : tied? g var .bindsTo = some t) (m : Nat) :
    (unbind g var).node? m = if m = t then none else g.node? m := by
  obtain ⟨e, edge, -, -, heq⟩ := exists_unbind h ht
  rw [heq, node?_removeNode, node?_removeEdge]

theorem ties_unbind (h : g.Sound) {var t m : Nat} (ht : tied? g var .bindsTo = some t)
    (hm : m ≠ t) : (unbind g var).ties m = (g.ties m).filter fun p => p.2 != t := by
  obtain ⟨e, edge, hedge, htarget, heq⟩ := exists_unbind h ht
  rw [heq, h.ties_removeEdge_removeNode hedge htarget hm]

theorem sound_unbind (h : g.Sound) (var : VarId) : (unbind g var).Sound := by
  unfold unbind
  split
  · exact (h.removeEdge _).removeNode _
  · exact h

end GraphLang.Scopes
