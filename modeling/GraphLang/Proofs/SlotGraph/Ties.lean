import GraphLang.Proofs.SlotGraph.Removal
import Mathlib.Data.List.Nodup

/-!
# The edges of a node without their numbers

Edge numbers are recycled, and nothing but bookkeeping depends on them. What look-ups see of a
node is the list of its edges with what they carry and where they lead, newest first. Each
operation on a sound graph has one effect on these lists.
-/

namespace GraphLang.SlotGraph

variable {α β : Type} {g : SlotGraph α β}

/-- What the edges from a node carry and where they lead, newest first. -/
def ties (g : SlotGraph α β) (n : Nat) : List (β × Nat) :=
  (g.outgoing n).map fun p => (p.2.weight, p.2.target)

theorem mem_edgesOf {ids : List Nat} {e : Nat} {edge : Edge β} :
    (e, edge) ∈ g.edgesOf ids ↔ e ∈ ids ∧ g.edge? e = some edge := by
  simp only [edgesOf, List.mem_filterMap, Option.map_eq_some_iff, Prod.mk.injEq]
  constructor
  · rintro ⟨e', he', edge', hedge', rfl, rfl⟩
    exact ⟨he', hedge'⟩
  · rintro ⟨he, hedge⟩
    exact ⟨e, he, edge, hedge, rfl, rfl⟩

theorem Sound.mem_outgoing_iff (h : g.Sound) {n e : Nat} {edge : Edge β} :
    (e, edge) ∈ g.outgoing n ↔ g.edge? e = some edge ∧ edge.source = n := by
  rw [outgoing, mem_edgesOf, h.mem_outgoing]
  constructor
  · rintro ⟨⟨edge', hedge', hsource⟩, hedge⟩
    rw [hedge] at hedge'
    cases hedge'
    exact ⟨hedge, hsource⟩
  · rintro ⟨hedge, hsource⟩
    exact ⟨⟨edge, hedge, hsource⟩, hedge⟩

theorem Sound.mem_incoming_iff (h : g.Sound) {n e : Nat} {edge : Edge β} :
    (e, edge) ∈ g.incoming n ↔ g.edge? e = some edge ∧ edge.target = n := by
  rw [incoming, mem_edgesOf, h.mem_incoming]
  constructor
  · rintro ⟨⟨edge', hedge', htarget⟩, hedge⟩
    rw [hedge] at hedge'
    cases hedge'
    exact ⟨hedge, htarget⟩
  · rintro ⟨hedge, htarget⟩
    exact ⟨⟨edge, hedge, htarget⟩, hedge⟩

/-- The edges that end at a node are as many as the node lists. -/
theorem Sound.countP_target (h : g.Sound) (n : Nat) :
    g.edgeList.countP (fun e => e.2.target == n) = (g.incomingIds n).length := by
  have hnodup : ((g.edgeList.filter fun e => e.2.target == n).map (·.1)).Nodup := by
    refine List.Nodup.sublist (List.filter_sublist.map _) ?_
    rw [edgeList, map_fst_edgesOf]
    exact List.nodup_range.filter _
  have hperm : ((g.edgeList.filter fun e => e.2.target == n).map (·.1)).Perm (g.incomingIds n) := by
    refine (List.perm_ext_iff_of_nodup hnodup (h.nodup_incoming n)).2 fun e => ?_
    rw [List.mem_map, h.mem_incoming]
    constructor
    · rintro ⟨⟨e, edge⟩, hmem, rfl⟩
      obtain ⟨hedge, htarget⟩ := List.mem_filter.1 hmem
      exact ⟨edge, (mem_edgesOf.1 hedge).2, by simpa using htarget⟩
    · rintro ⟨edge, hedge, htarget⟩
      refine ⟨(e, edge), List.mem_filter.2 ⟨?_, by simpa using htarget⟩, rfl⟩
      exact mem_edgesOf.2 ⟨List.mem_range.2 (edge?_lt hedge), hedge⟩
  rw [List.countP_eq_length_filter, ← hperm.length_eq, List.length_map]

theorem Sound.mem_ties (h : g.Sound) {n t : Nat} {b : β} :
    (b, t) ∈ g.ties n ↔ ∃ e, g.edge? e = some ⟨n, t, b⟩ := by
  simp only [ties, List.mem_map, Prod.mk.injEq, Prod.exists]
  constructor
  · rintro ⟨e, edge, hmem, rfl, rfl⟩
    obtain ⟨hedge, rfl⟩ := h.mem_outgoing_iff.1 hmem
    exact ⟨e, hedge⟩
  · rintro ⟨e, hedge⟩
    exact ⟨e, ⟨n, t, b⟩, h.mem_outgoing_iff.2 ⟨hedge, rfl⟩, rfl, rfl⟩

theorem Sound.hasNode_of_mem_ties (h : g.Sound) {n t : Nat} {b : β} (hmem : (b, t) ∈ g.ties n) :
    g.hasNode n = true ∧ g.hasNode t = true := by
  obtain ⟨e, hedge⟩ := h.mem_ties.1 hmem
  exact ⟨h.hasNode_source hedge, h.hasNode_target hedge⟩

theorem ties_of_vacant {n : Nat} (hn : g.node? n = none) : g.ties n = [] := by
  rw [ties, outgoing, outgoingIds_of_vacant hn]
  rfl

/-- The nodes that edges lead to are those of the ties. -/
theorem successors_eq (n : Nat) : g.successors n = (g.ties n).map (·.2) := by
  rw [successors, ties, List.map_map]
  rfl

/-! ### What the operations do to the ties -/

theorem Sound.ties_addNode (h : g.Sound) (a : α) (m : Nat) :
    (g.addNode a).2.ties m = g.ties m := by
  simp only [ties, outgoing, edgesOf, h.outgoingIds_addNode, edge?_addNode]

theorem ties_modifyNode (n : Nat) (f : α → α) (m : Nat) :
    (g.modifyNode n f).ties m = g.ties m := by
  simp only [ties, outgoing, edgesOf, outgoingIds_modifyNode, edge?_modifyNode]

/-- A new edge leaves the edges that were there before as they are. -/
theorem Sound.edgesOf_addEdge (h : g.Sound) (s t : Nat) (b : β) {ids : List Nat}
    (hids : ∀ e ∈ ids, (g.edge? e).isSome) : (g.addEdge s t b).2.edgesOf ids = g.edgesOf ids := by
  refine List.filterMap_congr fun e he => ?_
  have hne : e ≠ g.nextEdge := by
    rintro rfl
    simpa [h.edge?_nextEdge] using hids _ he
  rw [h.edge?_addEdge, if_neg hne]

theorem Sound.ties_addEdge (h : g.Sound) {s t : Nat} (hs : g.hasNode s = true) (b : β) (m : Nat) :
    (g.addEdge s t b).2.ties m = if m = s then (b, t) :: g.ties m else g.ties m := by
  have hids : ∀ e ∈ g.outgoingIds m, (g.edge? e).isSome := by
    intro e he
    obtain ⟨edge, hedge, -⟩ := (h.mem_outgoing m e).1 he
    simp [hedge]
  rw [ties, outgoing, outgoingIds_addEdge hs]
  split
  · have hnew : (g.addEdge s t b).2.edge? g.nextEdge = some ⟨s, t, b⟩ := by
      rw [h.edge?_addEdge, if_pos rfl]
    have hcons : (g.addEdge s t b).2.edgesOf (g.nextEdge :: g.outgoingIds m) =
        (g.nextEdge, ⟨s, t, b⟩) :: (g.addEdge s t b).2.edgesOf (g.outgoingIds m) := by
      simp [edgesOf, hnew]
    rw [hcons, h.edgesOf_addEdge s t b hids]
    rfl
  · rw [h.edgesOf_addEdge s t b hids]
    rfl

theorem Sound.outgoing_removeEdge (h : g.Sound) (e m : Nat) :
    (g.removeEdge e).outgoing m = (g.outgoing m).filter fun p => p.1 != e := by
  simp only [outgoing, edgesOf, h.outgoingIds_removeEdge, (h.nodup_outgoing m).erase_eq_filter]
  rw [List.filterMap_filter, List.filter_filterMap]
  refine List.filterMap_congr fun e' _ => ?_
  rw [edge?_removeEdge]
  by_cases he : e' = e
  · simp [he, Option.filter]
    cases g.edge? e <;> simp
  · cases hedge : g.edge? e' <;> simp [he, Option.filter]

theorem Sound.outgoing_removeNode (h : g.Sound) (n m : Nat) :
    (g.removeNode n).outgoing m =
      (g.outgoing m).filter fun p => p.2.source != n && p.2.target != n := by
  simp only [outgoing, edgesOf, h.outgoingIds_removeNode]
  rw [List.filterMap_filter, List.filter_filterMap]
  refine List.filterMap_congr fun e' _ => ?_
  rw [h.edge?_removeNode]
  cases hedge : g.edge? e' with
  | none => simp
  | some edge =>
    by_cases hs : edge.source = n <;> by_cases ht : edge.target = n <;>
      simp [Option.filter, hs, ht]

/-- Removing a node takes the edges to it away from all other nodes. -/
theorem Sound.ties_removeNode (h : g.Sound) {n m : Nat} (hm : m ≠ n) :
    (g.removeNode n).ties m = (g.ties m).filter fun p => p.2 != n := by
  rw [ties, h.outgoing_removeNode, ties, List.filter_map]
  congr 1
  refine List.filter_congr fun p hp => ?_
  have hsource := (h.mem_outgoing_iff.1 hp).2
  simp [hsource, hm]

/-- Removing an edge and then the node it leads to comes to removing the node. -/
theorem Sound.ties_removeEdge_removeNode (h : g.Sound) {e n m : Nat} {edge : Edge β}
    (hedge : g.edge? e = some edge) (htarget : edge.target = n) (hm : m ≠ n) :
    ((g.removeEdge e).removeNode n).ties m = (g.ties m).filter fun p => p.2 != n := by
  rw [(h.removeEdge e).ties_removeNode hm, ties, h.outgoing_removeEdge, List.filter_map,
    List.filter_filter, ties, List.filter_map]
  congr 1
  refine List.filter_congr fun p hp => ?_
  have hp' := (h.mem_outgoing_iff.1 hp).1
  by_cases he : p.1 = e
  · rw [he, hedge] at hp'
    cases hp'
    simp [htarget]
  · simp [he]

/-! ### Parents -/

theorem Sound.mem_successors (h : g.Sound) {n m : Nat} :
    m ∈ g.successors n ↔ ∃ e edge, g.edge? e = some edge ∧ edge.source = n ∧ edge.target = m := by
  simp only [successors, List.mem_map, Prod.exists, h.mem_outgoing_iff]
  constructor
  · rintro ⟨e, edge, ⟨hedge, hsource⟩, htarget⟩
    exact ⟨e, edge, hedge, hsource, htarget⟩
  · rintro ⟨e, edge, hedge, hsource, htarget⟩
    exact ⟨e, edge, ⟨hedge, hsource⟩, htarget⟩

theorem Sound.mem_predecessors (h : g.Sound) {n m : Nat} :
    n ∈ g.predecessors m ↔ ∃ e edge, g.edge? e = some edge ∧ edge.source = n ∧ edge.target = m := by
  simp only [predecessors, List.mem_map, Prod.exists, h.mem_incoming_iff]
  constructor
  · rintro ⟨e, edge, ⟨hedge, htarget⟩, hsource⟩
    exact ⟨e, edge, hedge, hsource, htarget⟩
  · rintro ⟨e, edge, hedge, hsource, htarget⟩
    exact ⟨e, edge, ⟨hedge, htarget⟩, hsource⟩

/-- No two edges end at one node. -/
def SingleParents (g : SlotGraph α β) : Prop :=
  ∀ e e' edge edge', g.edge? e = some edge → g.edge? e' = some edge' →
    edge'.target = edge.target → e' = e

theorem SingleParents.edge_eq (h : g.SingleParents) {e e' : Nat} {edge edge' : Edge β}
    (hedge : g.edge? e = some edge) (hedge' : g.edge? e' = some edge')
    (htarget : edge'.target = edge.target) : e' = e ∧ edge' = edge := by
  have he := h _ _ _ _ hedge hedge' htarget
  rw [he, hedge] at hedge'
  exact ⟨he, (Option.some.inj hedge').symm⟩

theorem SingleParents.parent_eq (h : g.SingleParents) (hsound : g.Sound) {n m c : Nat}
    (hn : c ∈ g.successors n) (hm : c ∈ g.successors m) : m = n := by
  obtain ⟨e, edge, hedge, hsource, htarget⟩ := hsound.mem_successors.1 hn
  obtain ⟨e', edge', hedge', hsource', htarget'⟩ := hsound.mem_successors.1 hm
  obtain ⟨-, rfl⟩ := h.edge_eq hedge hedge' (htarget'.trans htarget.symm)
  exact hsource'.symm.trans hsource

theorem Sound.nodup_outgoing_pairs (h : g.Sound) (n : Nat) : (g.outgoing n).Nodup := by
  refine (h.nodup_outgoing n).filterMap fun e e' x hx hx' => ?_
  obtain ⟨edge, -, rfl⟩ := Option.map_eq_some_iff.1 hx
  obtain ⟨edge', -, heq⟩ := Option.map_eq_some_iff.1 hx'
  exact (congrArg Prod.fst heq).symm

theorem SingleParents.nodup_successors (h : g.SingleParents) (hsound : g.Sound) (n : Nat) :
    (g.successors n).Nodup := by
  refine (hsound.nodup_outgoing_pairs n).map_on fun x hx y hy hxy => ?_
  obtain ⟨he, hedge⟩ := h.edge_eq (hsound.mem_outgoing_iff.1 hx).1
    (hsound.mem_outgoing_iff.1 hy).1 hxy.symm
  exact Prod.ext he.symm hedge.symm

/-! ### Removing several nodes

When nodes are removed one after the other, what is left are the other nodes and the edges between
them, each in its place. -/

/-- The graph after the nodes of a list were removed. -/
def sweep (g : SlotGraph α β) (gone : List Nat) : SlotGraph α β := gone.foldl removeNode g

theorem node?_sweep (gone : List Nat) (n : Nat) :
    (g.sweep gone).node? n = if n ∈ gone then none else g.node? n := by
  unfold sweep
  induction gone generalizing g with
  | nil => simp
  | cons m gone ih =>
    rw [List.foldl_cons, ih, node?_removeNode]
    by_cases hn : n ∈ gone <;> by_cases hm : n = m <;> simp [hn, hm]

theorem hasNode_sweep {gone : List Nat} {n : Nat} :
    (g.sweep gone).hasNode n = true ↔ g.hasNode n = true ∧ n ∉ gone := by
  rw [hasNode, node?_sweep, hasNode]
  by_cases hn : n ∈ gone <;> simp [hn]

theorem Sound.sweep (h : g.Sound) (gone : List Nat) : (g.sweep gone).Sound := by
  unfold SlotGraph.sweep
  induction gone generalizing g with
  | nil => exact h
  | cons m gone ih => exact ih (h.removeNode m)

theorem Sound.edge?_sweep (h : g.Sound) (gone : List Nat) {e : Nat} {edge : Edge β} :
    (g.sweep gone).edge? e = some edge ↔
      g.edge? e = some edge ∧ edge.source ∉ gone ∧ edge.target ∉ gone := by
  unfold SlotGraph.sweep
  induction gone generalizing g with
  | nil => simp
  | cons m gone ih =>
    rw [List.foldl_cons, ih (h.removeNode m), h.edge?_removeNode, Option.filter_eq_some_iff]
    simp only [Bool.and_eq_true, bne_iff_ne, List.mem_cons, not_or]
    tauto

theorem Sound.outgoing_sweep (h : g.Sound) (gone : List Nat) (n : Nat) :
    (g.sweep gone).outgoing n =
      (g.outgoing n).filter fun p => decide (p.2.source ∉ gone ∧ p.2.target ∉ gone) := by
  unfold SlotGraph.sweep
  induction gone generalizing g with
  | nil => simp
  | cons m gone ih =>
    rw [List.foldl_cons, ih (h.removeNode m), h.outgoing_removeNode, List.filter_filter]
    refine List.filter_congr fun p _ => ?_
    by_cases hs : p.2.source = m <;> by_cases ht : p.2.target = m <;> simp [hs, ht]

theorem size_sweep (gone : List Nat) : (g.sweep gone).slots.size = g.slots.size := by
  unfold sweep
  induction gone generalizing g with
  | nil => rfl
  | cons m gone ih => rw [List.foldl_cons, ih, size_removeNode]

end GraphLang.SlotGraph
