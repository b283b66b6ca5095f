import GraphLang.Proofs.SlotGraph.Sound

/-!
# Removing edges and nodes of sound graphs

Removing an edge takes it out of the lists of its two ends. Removing a node takes away the node
and all edges at it, and leaves the other edges in their order.
-/

namespace GraphLang.SlotGraph

variable {α β : Type} {g : SlotGraph α β}

/-! ### Changing the content of nodes -/

theorem node?_modifyNode (n : Nat) (f : α → α) (m : Nat) :
    (g.modifyNode n f).node? m = if m = n then (g.node? m).map f else g.node? m := by
  rw [node?_eq, node?_eq, modifyNode, Array.getElem?_modify]
  by_cases hm : n = m
  · subst hm
    cases g.slots[n]? <;> simp
  · have hne : m ≠ n := fun heq => hm heq.symm
    simp [hm, hne]

theorem outgoingIds_modifyNode (n : Nat) (f : α → α) (m : Nat) :
    (g.modifyNode n f).outgoingIds m = g.outgoingIds m := by
  rw [outgoingIds_eq, outgoingIds_eq, modifyNode, Array.getElem?_modify]
  by_cases hm : n = m
  · subst hm
    cases hslot : g.slots[n]? with
    | none => simp
    | some slot => cases hweight : slot.weight <;> simp [Option.filter, hweight]
  · simp [hm]

theorem incomingIds_modifyNode (n : Nat) (f : α → α) (m : Nat) :
    (g.modifyNode n f).incomingIds m = g.incomingIds m := by
  rw [incomingIds_eq, incomingIds_eq, modifyNode, Array.getElem?_modify]
  by_cases hm : n = m
  · subst hm
    cases hslot : g.slots[n]? with
    | none => simp
    | some slot => cases hweight : slot.weight <;> simp [Option.filter, hweight]
  · simp [hm]

theorem edge?_modifyNode (n : Nat) (f : α → α) (e : Nat) :
    (g.modifyNode n f).edge? e = g.edge? e := rfl

theorem Sound.modifyNode (h : g.Sound) (n : Nat) (f : α → α) : (g.modifyNode n f).Sound where
  mem_outgoing m e := by rw [outgoingIds_modifyNode]; exact h.mem_outgoing m e
  mem_incoming m e := by rw [incomingIds_modifyNode]; exact h.mem_incoming m e
  nodup_outgoing m := by rw [outgoingIds_modifyNode]; exact h.nodup_outgoing m
  nodup_incoming m := by rw [incomingIds_modifyNode]; exact h.nodup_incoming m
  vacant_node m hm := by
    obtain ⟨hlt, hnone⟩ := h.vacant_node m hm
    rw [node?_modifyNode, hnone]
    simpa [SlotGraph.modifyNode] using hlt
  nodup_vacantNodes := h.nodup_vacantNodes
  vacant_edge := h.vacant_edge
  nodup_vacantEdges := h.nodup_vacantEdges

/-! ### Removing an edge -/

theorem getElem?_unlinkEnds (slots : Array (Slot α)) (e s t m : Nat) :
    (unlinkEnds slots e s t)[m]? = slots[m]?.map fun slot =>
      { slot with
        outgoing := if m = s then slot.outgoing.erase e else slot.outgoing
        incoming := if m = t then slot.incoming.erase e else slot.incoming } := by
  unfold unlinkEnds
  rw [Array.getElem?_modify, Array.getElem?_modify]
  cases hslot : slots[m]? with
  | none => split <;> split <;> rfl
  | some slot =>
    by_cases hs : s = m <;> by_cases ht : t = m <;>
      simp [hs, ht, eq_comm (a := m)]

theorem node?_removeEdge (e m : Nat) : (g.removeEdge e).node? m = g.node? m := by
  unfold removeEdge
  split
  · rfl
  · rw [node?_eq, getElem?_unlinkEnds, node?_eq]
    cases g.slots[m]? <;> rfl

theorem edge?_removeEdge (e e' : Nat) :
    (g.removeEdge e).edge? e' = if e' = e then none else g.edge? e' := by
  unfold removeEdge
  split
  · rename_i hnone
    split
    · rename_i heq
      rw [heq, hnone]
    · rfl
  · rename_i edge hedge
    have hlt := edge?_lt hedge
    by_cases he : e' = e
    · subst he
      simp [edge?_eq, hlt]
    · have hne : e ≠ e' := fun heq => he heq.symm
      simp [edge?_eq, he, hne]

theorem hasNode_removeEdge (e m : Nat) : (g.removeEdge e).hasNode m = g.hasNode m := by
  rw [hasNode, node?_removeEdge, hasNode]

/-- An edge of the smaller graph is another one, and was there before. -/
theorem of_edge?_removeEdge {e e' : Nat} {edge : Edge β}
    (h : (g.removeEdge e).edge? e' = some edge) : e' ≠ e ∧ g.edge? e' = some edge := by
  rw [edge?_removeEdge] at h
  split at h
  · cases h
  · next hne => exact ⟨hne, h⟩

theorem Sound.outgoingIds_removeEdge (h : g.Sound) (e m : Nat) :
    (g.removeEdge e).outgoingIds m = (g.outgoingIds m).erase e := by
  unfold removeEdge
  split
  · rename_i hnone
    have hnot : e ∉ g.outgoingIds m := by simp [h.mem_outgoing, hnone]
    rw [List.erase_of_not_mem hnot]
  · rename_i edge hedge
    rw [outgoingIds_eq, getElem?_unlinkEnds]
    by_cases hm : m = edge.source
    · rw [outgoingIds_eq]
      cases hslot : g.slots[m]? with
      | none => simp
      | some slot => cases hweight : slot.weight <;> simp [Option.filter, hweight, hm]
    · have hnot : e ∉ g.outgoingIds m := by
        rw [h.mem_outgoing]
        rintro ⟨edge', hedge', hsource⟩
        rw [hedge] at hedge'
        cases hedge'
        exact hm hsource.symm
      rw [List.erase_of_not_mem hnot, outgoingIds_eq]
      cases hslot : g.slots[m]? with
      | none => simp
      | some slot => cases hweight : slot.weight <;> simp [Option.filter, hweight, hm]

theorem Sound.incomingIds_removeEdge (h : g.Sound) (e m : Nat) :
    (g.removeEdge e).incomingIds m = (g.incomingIds m).erase e := by
  unfold removeEdge
  split
  · rename_i hnone
    have hnot : e ∉ g.incomingIds m := by simp [h.mem_incoming, hnone]
    rw [List.erase_of_not_mem hnot]
  · rename_i edge hedge
    rw [incomingIds_eq, getElem?_unlinkEnds]
    by_cases hm : m = edge.target
    · rw [incomingIds_eq]
      cases hslot : g.slots[m]? with
      | none => simp
      | some slot => cases hweight : slot.weight <;> simp [Option.filter, hweight, hm]
    · have hnot : e ∉ g.incomingIds m := by
        rw [h.mem_incoming]
        rintro ⟨edge', hedge', htarget⟩
        rw [hedge] at hedge'
        cases hedge'
        exact hm htarget.symm
      rw [List.erase_of_not_mem hnot, incomingIds_eq]
      cases hslot : g.slots[m]? with
      | none => simp
      | some slot => cases hweight : slot.weight <;> simp [Option.filter, hweight, hm]

theorem Sound.removeEdge (h : g.Sound) (e : Nat) : (g.removeEdge e).Sound where
  mem_outgoing n e' := by
    rw [h.outgoingIds_removeEdge, (h.nodup_outgoing n).mem_erase_iff, h.mem_outgoing,
      edge?_removeEdge]
    by_cases he : e' = e <;> simp [he]
  mem_incoming n e' := by
    rw [h.incomingIds_removeEdge, (h.nodup_incoming n).mem_erase_iff, h.mem_incoming,
      edge?_removeEdge]
    by_cases he : e' = e <;> simp [he]
  nodup_outgoing n := by rw [h.outgoingIds_removeEdge]; exact (h.nodup_outgoing n).erase e
  nodup_incoming n := by rw [h.incomingIds_removeEdge]; exact (h.nodup_incoming n).erase e
  vacant_node n hn := by
    have hold : n ∈ g.vacantNodes ∧ (g.removeEdge e).slots.size = g.slots.size := by
      unfold SlotGraph.removeEdge at hn ⊢
      split at hn <;> exact ⟨hn, by simp [unlinkEnds]⟩
    rw [node?_removeEdge, hold.2]
    exact h.vacant_node n hold.1
  nodup_vacantNodes := by
    unfold SlotGraph.removeEdge
    split <;> exact h.nodup_vacantNodes
  vacant_edge e' he' := by
    rw [edge?_removeEdge]
    unfold SlotGraph.removeEdge at he' ⊢
    split at he'
    · obtain ⟨hlt, hnone⟩ := h.vacant_edge e' he'
      exact ⟨hlt, by rw [hnone]; simp⟩
    · rename_i edge hedge
      rcases List.mem_cons.1 he' with rfl | hmem
      · exact ⟨by simpa using edge?_lt hedge, by simp⟩
      · obtain ⟨hlt, hnone⟩ := h.vacant_edge e' hmem
        exact ⟨by simpa using hlt, by rw [hnone]; simp⟩
  nodup_vacantEdges := by
    unfold SlotGraph.removeEdge
    split
    · exact h.nodup_vacantEdges
    · rename_i edge hedge
      refine List.nodup_cons.2 ⟨fun hmem => ?_, h.nodup_vacantEdges⟩
      rw [(h.vacant_edge e hmem).2] at hedge
      cases hedge

/-! ### Removing several edges -/

theorem node?_removeEdges (es : List Nat) (m : Nat) :
    (es.foldl SlotGraph.removeEdge g).node? m = g.node? m := by
  induction es generalizing g with
  | nil => rfl
  | cons e es ih => rw [List.foldl_cons, ih, node?_removeEdge]

theorem edge?_removeEdges (es : List Nat) (e' : Nat) :
    (es.foldl SlotGraph.removeEdge g).edge? e' = if e' ∈ es then none else g.edge? e' := by
  induction es generalizing g with
  | nil => simp
  | cons e es ih =>
    rw [List.foldl_cons, ih, edge?_removeEdge]
    by_cases hmem : e' ∈ es <;> by_cases he : e' = e <;> simp [hmem, he]

theorem Sound.removeEdges (h : g.Sound) (es : List Nat) :
    (es.foldl SlotGraph.removeEdge g).Sound := by
  induction es generalizing g with
  | nil => exact h
  | cons e es ih => exact ih (h.removeEdge e)

theorem Sound.outgoingIds_removeEdges (h : g.Sound) (es : List Nat) (m : Nat) :
    (es.foldl SlotGraph.removeEdge g).outgoingIds m =
      (g.outgoingIds m).filter fun e => decide (e ∉ es) := by
  induction es generalizing g with
  | nil => simp
  | cons e es ih =>
    rw [List.foldl_cons, ih (h.removeEdge e), h.outgoingIds_removeEdge,
      (h.nodup_outgoing m).erase_eq_filter, List.filter_filter]
    refine List.filter_congr fun e' _ => ?_
    by_cases he : e' = e <;> simp [he]

theorem Sound.incomingIds_removeEdges (h : g.Sound) (es : List Nat) (m : Nat) :
    (es.foldl SlotGraph.removeEdge g).incomingIds m =
      (g.incomingIds m).filter fun e => decide (e ∉ es) := by
  induction es generalizing g with
  | nil => simp
  | cons e es ih =>
    rw [List.foldl_cons, ih (h.removeEdge e), h.incomingIds_removeEdge,
      (h.nodup_incoming m).erase_eq_filter, List.filter_filter]
    refine List.filter_congr fun e' _ => ?_
    by_cases he : e' = e <;> simp [he]

theorem removeEdge_frame (e : Nat) :
    (g.removeEdge e).slots.size = g.slots.size ∧ (g.removeEdge e).vacantNodes = g.vacantNodes := by
  unfold removeEdge
  split
  · exact ⟨rfl, rfl⟩
  · exact ⟨by simp [unlinkEnds], rfl⟩

theorem removeEdges_frame (es : List Nat) :
    (es.foldl SlotGraph.removeEdge g).slots.size = g.slots.size ∧
      (es.foldl SlotGraph.removeEdge g).vacantNodes = g.vacantNodes := by
  induction es generalizing g with
  | nil => exact ⟨rfl, rfl⟩
  | cons e es ih =>
    rw [List.foldl_cons]
    exact ⟨ih.1.trans (removeEdge_frame e).1, ih.2.trans (removeEdge_frame e).2⟩

/-! ### Removing a node -/

/-- The edges at a node, in the order in which they are removed with it. -/
def edgesAt (g : SlotGraph α β) (n : Nat) : List Nat :=
  g.outgoingIds n ++ ((g.outgoingIds n).foldl SlotGraph.removeEdge g).incomingIds n

theorem Sound.mem_edgesAt (h : g.Sound) {n e : Nat} :
    e ∈ g.edgesAt n ↔ ∃ edge, g.edge? e = some edge ∧ (edge.source = n ∨ edge.target = n) := by
  rw [edgesAt, h.incomingIds_removeEdges, List.mem_append, List.mem_filter, h.mem_incoming]
  cases hedge : g.edge? e with
  | none => simp [h.mem_outgoing, hedge]
  | some edge =>
    by_cases hs : edge.source = n <;> by_cases ht : edge.target = n <;>
      simp [hs, ht, h.mem_outgoing, hedge]

theorem removeNode_of_vacant {n : Nat} (hn : g.node? n = none) : g.removeNode n = g := by
  rw [removeNode, hn]

theorem removeNode_eq {n : Nat} {a : α} (hn : g.node? n = some a) :
    g.removeNode n =
      { (g.edgesAt n).foldl SlotGraph.removeEdge g with
        slots := vacate ((g.edgesAt n).foldl SlotGraph.removeEdge g).slots n
        vacantNodes := n :: g.vacantNodes } := by
  rw [removeNode, hn]
  simp only [edgesAt, List.foldl_append, (removeEdges_frame _).2]

theorem vacantNodes_removeNode {n : Nat} {a : α} (hn : g.node? n = some a) :
    (g.removeNode n).vacantNodes = n :: g.vacantNodes := by
  rw [removeNode_eq hn]

theorem size_removeNode (n : Nat) : (g.removeNode n).slots.size = g.slots.size := by
  cases hn : g.node? n with
  | none => rw [removeNode_of_vacant hn]
  | some a =>
    rw [removeNode_eq hn]
    simpa [vacate] using (removeEdges_frame (g.edgesAt n)).1

/-- Removing a node changes one node slot, apart from the edge lists. -/
theorem getElem?_removeNode {n : Nat} {a : α} (hn : g.node? n = some a) (m : Nat) :
    (g.removeNode n).slots[m]? =
      if m = n then some ⟨none, [], []⟩
      else ((g.edgesAt n).foldl SlotGraph.removeEdge g).slots[m]? := by
  have hlt : n < ((g.edgesAt n).foldl SlotGraph.removeEdge g).slots.size := by
    rw [(removeEdges_frame _).1]
    exact node?_lt hn
  rw [removeNode_eq hn, vacate]
  by_cases hm : m = n
  · subst hm
    simp [hlt]
  · have hne : n ≠ m := fun heq => hm heq.symm
    simp [hm, hne]

theorem node?_removeNode (n m : Nat) :
    (g.removeNode n).node? m = if m = n then none else g.node? m := by
  cases hn : g.node? n with
  | none =>
    rw [removeNode_of_vacant hn]
    split
    · rename_i hm
      rw [hm, hn]
    · rfl
  | some a =>
    rw [node?_eq, getElem?_removeNode hn]
    split
    · rfl
    · rw [← node?_eq, node?_removeEdges]

/-- An edge that is left was there before. -/
theorem of_edge?_removeNode {n e : Nat} {edge : Edge β}
    (h : (g.removeNode n).edge? e = some edge) : g.edge? e = some edge := by
  cases hn : g.node? n with
  | none => rwa [removeNode_of_vacant hn] at h
  | some a =>
    rw [edge?_eq, removeNode_eq hn, ← edge?_eq (g := (g.edgesAt n).foldl SlotGraph.removeEdge g),
      edge?_removeEdges] at h
    split at h
    · cases h
    · exact h

/-- Exactly the edges at the node are gone. -/
theorem Sound.edge?_removeNode (h : g.Sound) (n e : Nat) :
    (g.removeNode n).edge? e =
      (g.edge? e).filter fun edge => edge.source != n && edge.target != n := by
  cases hn : g.node? n with
  | none =>
    rw [removeNode_of_vacant hn]
    cases hedge : g.edge? e with
    | none => rfl
    | some edge =>
      have hs : edge.source ≠ n := by
        rintro rfl
        simpa [hasNode, hn] using h.hasNode_source hedge
      have ht : edge.target ≠ n := by
        rintro rfl
        simpa [hasNode, hn] using h.hasNode_target hedge
      simp [Option.filter, hs, ht]
  | some a =>
    have hedges : (g.removeNode n).edge? e =
        ((g.edgesAt n).foldl SlotGraph.removeEdge g).edge? e := by
      rw [edge?_eq, removeNode_eq hn, edge?_eq]
    rw [hedges, edge?_removeEdges]
    cases hedge : g.edge? e with
    | none => simp
    | some edge =>
      by_cases hs : edge.source = n <;> by_cases ht : edge.target = n <;>
        simp [Option.filter, hs, ht, h.mem_edgesAt, hedge]

/-- The other nodes keep their edges, in order, but for those at the removed node. -/
theorem Sound.outgoingIds_removeNode (h : g.Sound) (n m : Nat) :
    (g.removeNode n).outgoingIds m =
      (g.outgoingIds m).filter fun e => ((g.removeNode n).edge? e).isSome := by
  have hkept {e : Nat} (he : e ∈ g.outgoingIds m) :
      ((g.removeNode n).edge? e).isSome = decide (e ∉ g.edgesAt n) := by
    obtain ⟨edge, hedge, -⟩ := (h.mem_outgoing m e).1 he
    rw [h.edge?_removeNode, hedge]
    by_cases hs : edge.source = n <;> by_cases ht : edge.target = n <;>
      simp [Option.filter, hs, ht, h.mem_edgesAt, hedge]
  rw [List.filter_congr fun e he => hkept he, ← h.outgoingIds_removeEdges]
  cases hn : g.node? n with
  | none =>
    have hbare : g.edgesAt n = [] := by
      rw [edgesAt, outgoingIds_of_vacant hn, List.foldl_nil, incomingIds_of_vacant hn]
      rfl
    rw [removeNode_of_vacant hn, hbare, List.foldl_nil]
  | some a =>
    rw [outgoingIds_eq, getElem?_removeNode hn]
    split
    · rename_i hm
      subst hm
      rw [h.outgoingIds_removeEdges, Eq.comm, Option.filter_some_neg (by simp)]
      refine List.filter_eq_nil_iff.2 fun e he => ?_
      obtain ⟨edge, hedge, hsource⟩ := (h.mem_outgoing _ e).1 he
      have hmem := h.mem_edgesAt.2 ⟨edge, hedge, Or.inl hsource⟩
      simpa using hmem
    · rw [← outgoingIds_eq]

theorem Sound.incomingIds_removeNode (h : g.Sound) (n m : Nat) :
    (g.removeNode n).incomingIds m =
      (g.incomingIds m).filter fun e => ((g.removeNode n).edge? e).isSome := by
  have hkept {e : Nat} (he : e ∈ g.incomingIds m) :
      ((g.removeNode n).edge? e).isSome = decide (e ∉ g.edgesAt n) := by
    obtain ⟨edge, hedge, -⟩ := (h.mem_incoming m e).1 he
    rw [h.edge?_removeNode, hedge]
    by_cases hs : edge.source = n <;> by_cases ht : edge.target = n <;>
      simp [Option.filter, hs, ht, h.mem_edgesAt, hedge]
  rw [List.filter_congr fun e he => hkept he, ← h.incomingIds_removeEdges]
  cases hn : g.node? n with
  | none =>
    have hbare : g.edgesAt n = [] := by
      rw [edgesAt, outgoingIds_of_vacant hn, List.foldl_nil, incomingIds_of_vacant hn]
      rfl
    rw [removeNode_of_vacant hn, hbare, List.foldl_nil]
  | some a =>
    rw [incomingIds_eq, getElem?_removeNode hn]
    split
    · rename_i hm
      subst hm
      rw [h.incomingIds_removeEdges, Eq.comm, Option.filter_some_neg (by simp)]
      refine List.filter_eq_nil_iff.2 fun e he => ?_
      obtain ⟨edge, hedge, htarget⟩ := (h.mem_incoming _ e).1 he
      have hmem := h.mem_edgesAt.2 ⟨edge, hedge, Or.inr htarget⟩
      simpa using hmem
    · rw [← incomingIds_eq]

theorem Sound.removeNode (h : g.Sound) (n : Nat) : (g.removeNode n).Sound := by
  cases hn : g.node? n with
  | none => rwa [removeNode_of_vacant hn]
  | some a =>
    refine ⟨fun m e => ?_, fun m e => ?_, fun m => ?_, fun m => ?_, fun m hm => ?_, ?_,
      fun e he => ?_, ?_⟩
    · rw [h.outgoingIds_removeNode, List.mem_filter, h.mem_outgoing, h.edge?_removeNode]
      cases hedge : g.edge? e <;> simp [Option.filter, ite_eq_iff]
      grind
    · rw [h.incomingIds_removeNode, List.mem_filter, h.mem_incoming, h.edge?_removeNode]
      cases hedge : g.edge? e <;> simp [Option.filter, ite_eq_iff]
      grind
    · rw [h.outgoingIds_removeNode]
      exact (h.nodup_outgoing m).filter _
    · rw [h.incomingIds_removeNode]
      exact (h.nodup_incoming m).filter _
    · rw [vacantNodes_removeNode hn] at hm
      rw [size_removeNode, node?_removeNode]
      rcases List.mem_cons.1 hm with rfl | hm
      · exact ⟨node?_lt hn, by simp⟩
      · obtain ⟨hlt, hnone⟩ := h.vacant_node m hm
        exact ⟨hlt, by simp [hnone]⟩
    · rw [vacantNodes_removeNode hn]
      refine List.nodup_cons.2 ⟨fun hmem => ?_, h.nodup_vacantNodes⟩
      rw [(h.vacant_node n hmem).2] at hn
      cases hn
    · have hcut := (h.removeEdges (g.edgesAt n)).vacant_edge e (by rwa [removeNode_eq hn] at he)
      rw [edge?_eq, removeNode_eq hn, ← edge?_eq (g := (g.edgesAt n).foldl SlotGraph.removeEdge g)]
      exact hcut
    · rw [removeNode_eq hn]
      exact (h.removeEdges (g.edgesAt n)).nodup_vacantEdges

end GraphLang.SlotGraph
