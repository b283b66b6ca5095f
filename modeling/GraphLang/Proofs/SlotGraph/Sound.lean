import GraphLang.SlotGraph.Basic
import Mathlib.Data.List.Basic
import Mathlib.Data.List.Pairwise

/-!
# Sound graphs

A graph is sound if the edge lists of its nodes are exactly those of its edges and its vacant
slots are vacant. Then every edge joins two nodes that are there. All operations keep graphs
sound, and each one changes look-ups and edge lists in one place only.
-/

namespace GraphLang.SlotGraph

variable {α β : Type} {g : SlotGraph α β}

/-- The edge lists of nodes agree with the edges, and vacant slots are vacant. -/
structure Sound (g : SlotGraph α β) : Prop where
  /-- A node lists exactly the edges that start at it. -/
  mem_outgoing : ∀ n e, e ∈ g.outgoingIds n ↔ ∃ edge, g.edge? e = some edge ∧ edge.source = n
  /-- A node lists exactly the edges that end at it. -/
  mem_incoming : ∀ n e, e ∈ g.incomingIds n ↔ ∃ edge, g.edge? e = some edge ∧ edge.target = n
  /-- No edge is listed twice where it starts. -/
  nodup_outgoing : ∀ n, (g.outgoingIds n).Nodup
  /-- No edge is listed twice where it ends. -/
  nodup_incoming : ∀ n, (g.incomingIds n).Nodup
  /-- The slots to use next are there and hold no node. -/
  vacant_node : ∀ n ∈ g.vacantNodes, n < g.slots.size ∧ g.node? n = none
  /-- No slot is to be used twice. -/
  nodup_vacantNodes : g.vacantNodes.Nodup
  /-- The edge slots to use next are there and hold no edge. -/
  vacant_edge : ∀ e ∈ g.vacantEdges, e < g.edges.size ∧ g.edge? e = none
  /-- No edge slot is to be used twice. -/
  nodup_vacantEdges : g.vacantEdges.Nodup

/-! ### Look-ups -/

theorem node?_eq (n : Nat) : g.node? n = g.slots[n]?.bind (·.weight) := by
  unfold node?
  cases g.slots[n]? <;> rfl

theorem edge?_eq (e : Nat) : g.edge? e = g.edges[e]?.join := by
  unfold edge?
  cases g.edges[e]? <;> rfl

theorem map_fst_edgesOf (ids : List Nat) :
    (g.edgesOf ids).map (·.1) = ids.filter fun e => (g.edge? e).isSome := by
  induction ids with
  | nil => rfl
  | cons e ids ih =>
    rw [edgesOf] at ih ⊢
    cases hedge : g.edge? e with
    | none => rw [List.filterMap_cons_none (by simp [hedge]), ih,
        List.filter_cons_of_neg (by simp [hedge])]
    | some edge => rw [List.filterMap_cons_some (by simp [hedge]; rfl), List.map_cons, ih,
        List.filter_cons_of_pos (by simp [hedge])]

theorem node?_lt {n : Nat} {a : α} (h : g.node? n = some a) : n < g.slots.size := by
  rw [node?_eq] at h
  obtain ⟨slot, hslot, -⟩ := Option.bind_eq_some_iff.1 h
  exact (Array.getElem?_eq_some_iff.1 hslot).1

theorem edge?_lt {e : Nat} {edge : Edge β} (h : g.edge? e = some edge) : e < g.edges.size := by
  rw [edge?_eq, Option.join_eq_some_iff] at h
  exact (Array.getElem?_eq_some_iff.1 h).1

theorem hasNode_iff {n : Nat} : g.hasNode n = true ↔ ∃ a, g.node? n = some a := by
  rw [hasNode, Option.isSome_iff_exists]

/-- What a slot says about its node and the edges at it decides all look-ups at the node. -/
theorem outgoingIds_eq (n : Nat) :
    g.outgoingIds n = ((g.slots[n]?.filter (·.weight.isSome)).map (·.outgoing)).getD [] := by
  unfold outgoingIds occupied?
  cases g.slots[n]?.filter (·.weight.isSome) <;> rfl

theorem incomingIds_eq (n : Nat) :
    g.incomingIds n = ((g.slots[n]?.filter (·.weight.isSome)).map (·.incoming)).getD [] := by
  unfold incomingIds occupied?
  cases g.slots[n]?.filter (·.weight.isSome) <;> rfl

theorem hasNode_of_mem_outgoingIds {n e : Nat} (h : e ∈ g.outgoingIds n) : g.hasNode n = true := by
  rw [outgoingIds_eq] at h
  cases hslot : g.slots[n]? with
  | none => simp [hslot] at h
  | some slot =>
    cases hweight : slot.weight with
    | none => simp [hslot, hweight, Option.filter] at h
    | some a => simp [hasNode, node?_eq, hslot, hweight]

theorem hasNode_of_mem_incomingIds {n e : Nat} (h : e ∈ g.incomingIds n) : g.hasNode n = true := by
  rw [incomingIds_eq] at h
  cases hslot : g.slots[n]? with
  | none => simp [hslot] at h
  | some slot =>
    cases hweight : slot.weight with
    | none => simp [hslot, hweight, Option.filter] at h
    | some a => simp [hasNode, node?_eq, hslot, hweight]

theorem outgoingIds_of_vacant {n : Nat} (h : g.node? n = none) : g.outgoingIds n = [] := by
  rw [List.eq_nil_iff_forall_not_mem]
  intro e he
  have := hasNode_of_mem_outgoingIds he
  simp [hasNode, h] at this

theorem incomingIds_of_vacant {n : Nat} (h : g.node? n = none) : g.incomingIds n = [] := by
  rw [List.eq_nil_iff_forall_not_mem]
  intro e he
  have := hasNode_of_mem_incomingIds he
  simp [hasNode, h] at this

/-- The ends of an edge are nodes. -/
theorem Sound.hasNode_source (h : g.Sound) {e : Nat} {edge : Edge β}
    (hedge : g.edge? e = some edge) : g.hasNode edge.source = true :=
  hasNode_of_mem_outgoingIds ((h.mem_outgoing _ _).2 ⟨edge, hedge, rfl⟩)

theorem Sound.hasNode_target (h : g.Sound) {e : Nat} {edge : Edge β}
    (hedge : g.edge? e = some edge) : g.hasNode edge.target = true :=
  hasNode_of_mem_incomingIds ((h.mem_incoming _ _).2 ⟨edge, hedge, rfl⟩)

theorem sound_empty : (empty : SlotGraph α β).Sound := by
  constructor <;> simp [empty, outgoingIds_eq, incomingIds_eq, edge?_eq]

/-! ### Adding nodes -/

/-- A new node takes a slot that held none. -/
theorem Sound.node?_new (h : g.Sound) (a : α) : g.node? (g.addNode a).1 = none := by
  unfold addNode
  split
  · rename_i n rest hvacant
    exact (h.vacant_node n (by simp [hvacant])).2
  · rw [node?_eq, Array.getElem?_eq_none (by simp), Option.bind_none]

/-- Adding a node changes one slot. -/
theorem Sound.getElem?_addNode (h : g.Sound) (a : α) (m : Nat) :
    (g.addNode a).2.slots[m]? =
      if m = (g.addNode a).1 then some ⟨some a, [], []⟩ else g.slots[m]? := by
  unfold addNode
  split
  · rename_i n rest hvacant
    have hlt := (h.vacant_node n (by simp [hvacant])).1
    by_cases hm : m = n
    · subst hm
      simp [hlt]
    · have hne : n ≠ m := fun heq => hm heq.symm
      simp [hm, hne]
  · by_cases hm : m = g.slots.size
    · simp [hm]
    · simp [hm, Array.getElem?_push]

theorem Sound.node?_addNode (h : g.Sound) (a : α) (m : Nat) :
    (g.addNode a).2.node? m = if m = (g.addNode a).1 then some a else g.node? m := by
  rw [node?_eq, h.getElem?_addNode, node?_eq]
  split <;> rfl

theorem edge?_addNode (a : α) (e : Nat) : (g.addNode a).2.edge? e = g.edge? e := by
  unfold addNode
  split <;> rfl

theorem Sound.outgoingIds_addNode (h : g.Sound) (a : α) (m : Nat) :
    (g.addNode a).2.outgoingIds m = g.outgoingIds m := by
  by_cases hm : m = (g.addNode a).1
  · rw [outgoingIds_eq, h.getElem?_addNode, if_pos hm, hm,
      outgoingIds_of_vacant (h.node?_new a)]
    rfl
  · rw [outgoingIds_eq, h.getElem?_addNode, if_neg hm, outgoingIds_eq]

theorem Sound.incomingIds_addNode (h : g.Sound) (a : α) (m : Nat) :
    (g.addNode a).2.incomingIds m = g.incomingIds m := by
  by_cases hm : m = (g.addNode a).1
  · rw [incomingIds_eq, h.getElem?_addNode, if_pos hm, hm,
      incomingIds_of_vacant (h.node?_new a)]
    rfl
  · rw [incomingIds_eq, h.getElem?_addNode, if_neg hm, incomingIds_eq]

theorem Sound.addNode (h : g.Sound) (a : α) : (g.addNode a).2.Sound where
  mem_outgoing n e := by rw [h.outgoingIds_addNode, h.mem_outgoing]; simp only [edge?_addNode]
  mem_incoming n e := by rw [h.incomingIds_addNode, h.mem_incoming]; simp only [edge?_addNode]
  nodup_outgoing n := by rw [h.outgoingIds_addNode]; exact h.nodup_outgoing n
  nodup_incoming n := by rw [h.incomingIds_addNode]; exact h.nodup_incoming n
  vacant_node n hn := by
    have hold : n ∈ g.vacantNodes ∧ n ≠ (g.addNode a).1 := by
      have hnodup := h.nodup_vacantNodes
      unfold SlotGraph.addNode at hn ⊢
      split at hn
      · rename_i m rest hvacant
        rw [hvacant] at hnodup ⊢
        refine ⟨List.mem_cons_of_mem m hn, ?_⟩
        rintro rfl
        exact (List.nodup_cons.1 hnodup).1 hn
      · rename_i hvacant
        simp [hvacant] at hn
    obtain ⟨hlt, hnone⟩ := h.vacant_node n hold.1
    refine ⟨?_, by rw [h.node?_addNode, if_neg hold.2, hnone]⟩
    unfold SlotGraph.addNode
    split <;> simp <;> omega
  nodup_vacantNodes := by
    have hnodup := h.nodup_vacantNodes
    unfold SlotGraph.addNode
    split
    · rename_i m rest hvacant
      rw [hvacant] at hnodup
      exact (List.nodup_cons.1 hnodup).2
    · exact hnodup
  vacant_edge e he := by
    rw [edge?_addNode]
    unfold SlotGraph.addNode at he ⊢
    split at he <;> exact h.vacant_edge e he
  nodup_vacantEdges := by
    unfold SlotGraph.addNode
    split <;> exact h.nodup_vacantEdges

/-! ### Adding edges -/

/-- The number that the next edge gets. -/
def nextEdge (g : SlotGraph α β) : Nat := g.vacantEdges.headD g.edges.size

theorem addEdge_fst (s t : Nat) (b : β) : (g.addEdge s t b).1 = g.nextEdge := by
  unfold addEdge nextEdge
  split <;> rename_i hvacant <;> rw [hvacant] <;> rfl

theorem addEdge_slots (s t : Nat) (b : β) :
    (g.addEdge s t b).2.slots = linkEnds g.slots g.nextEdge s t := by
  unfold addEdge nextEdge
  split <;> rename_i hvacant <;> rw [hvacant] <;> rfl

theorem getElem?_linkEnds (slots : Array (Slot α)) (e s t m : Nat) :
    (linkEnds slots e s t)[m]? = slots[m]?.map fun slot =>
      { slot with
        outgoing := if m = s then e :: slot.outgoing else slot.outgoing
        incoming := if m = t then e :: slot.incoming else slot.incoming } := by
  unfold linkEnds
  rw [Array.getElem?_modify, Array.getElem?_modify]
  cases hslot : slots[m]? with
  | none => split <;> split <;> rfl
  | some slot =>
    by_cases hs : s = m <;> by_cases ht : t = m <;>
      simp [hs, ht, eq_comm (a := m)]

theorem node?_addEdge (s t : Nat) (b : β) (m : Nat) :
    (g.addEdge s t b).2.node? m = g.node? m := by
  rw [node?_eq, addEdge_slots, getElem?_linkEnds, node?_eq]
  cases g.slots[m]? <;> rfl

theorem Sound.edge?_nextEdge (h : g.Sound) : g.edge? g.nextEdge = none := by
  unfold nextEdge
  cases hvacant : g.vacantEdges with
  | nil => rw [List.headD_nil, edge?_eq, Array.getElem?_eq_none (by simp), Option.join_none]
  | cons e rest => exact (h.vacant_edge e (by simp [hvacant])).2

theorem Sound.edge?_addEdge (h : g.Sound) (s t : Nat) (b : β) (e : Nat) :
    (g.addEdge s t b).2.edge? e = if e = g.nextEdge then some ⟨s, t, b⟩ else g.edge? e := by
  unfold addEdge nextEdge
  split
  · rename_i e' rest hvacant
    have hlt := (h.vacant_edge e' (by simp [hvacant])).1
    rw [hvacant, List.headD_cons]
    by_cases he : e = e'
    · subst he
      simp [edge?_eq, hlt]
    · have hne : e' ≠ e := fun heq => he heq.symm
      simp [edge?_eq, he, hne]
  · rename_i hvacant
    rw [hvacant, List.headD_nil]
    by_cases he : e = g.edges.size
    · simp [edge?_eq, he]
    · simp [edge?_eq, he, Array.getElem?_push]

/-- An edge is the new one or was there before. -/
theorem of_edge?_addEdge {s t : Nat} {b : β} {e : Nat} {edge : Edge β}
    (h : (g.addEdge s t b).2.edge? e = some edge) : edge = ⟨s, t, b⟩ ∨ g.edge? e = some edge := by
  unfold addEdge at h
  split at h
  · rename_i e' rest _
    rw [edge?_eq, Array.getElem?_setIfInBounds] at h
    split at h
    · split at h
      · exact Or.inl (Option.some.inj h).symm
      · cases h
    · exact Or.inr ((edge?_eq e).trans h)
  · rw [edge?_eq, Array.getElem?_push] at h
    split at h
    · exact Or.inl (Option.some.inj h).symm
    · exact Or.inr ((edge?_eq e).trans h)

theorem outgoingIds_addEdge {s : Nat} (hs : g.hasNode s = true) (t : Nat) (b : β) (m : Nat) :
    (g.addEdge s t b).2.outgoingIds m =
      if m = s then g.nextEdge :: g.outgoingIds m else g.outgoingIds m := by
  obtain ⟨a, ha⟩ := hasNode_iff.1 hs
  rw [outgoingIds_eq, addEdge_slots, getElem?_linkEnds, outgoingIds_eq]
  cases hslot : g.slots[m]? with
  | none =>
    by_cases hm : m = s
    · subst hm
      simp [node?_eq, hslot] at ha
    · simp [hm]
  | some slot =>
    by_cases hm : m = s
    · subst hm
      have hweight : slot.weight = some a := by simpa [node?_eq, hslot] using ha
      simp [Option.filter, hweight]
    · cases hweight : slot.weight <;> simp [Option.filter, hweight, hm]

theorem incomingIds_addEdge {t : Nat} (ht : g.hasNode t = true) (s : Nat) (b : β) (m : Nat) :
    (g.addEdge s t b).2.incomingIds m =
      if m = t then g.nextEdge :: g.incomingIds m else g.incomingIds m := by
  obtain ⟨a, ha⟩ := hasNode_iff.1 ht
  rw [incomingIds_eq, addEdge_slots, getElem?_linkEnds, incomingIds_eq]
  cases hslot : g.slots[m]? with
  | none =>
    by_cases hm : m = t
    · subst hm
      simp [node?_eq, hslot] at ha
    · simp [hm]
  | some slot =>
    by_cases hm : m = t
    · subst hm
      have hweight : slot.weight = some a := by simpa [node?_eq, hslot] using ha
      simp [Option.filter, hweight]
    · cases hweight : slot.weight <;> simp [Option.filter, hweight, hm]

theorem Sound.addEdge (h : g.Sound) {s t : Nat} (hs : g.hasNode s = true)
    (ht : g.hasNode t = true) (b : β) : (g.addEdge s t b).2.Sound where
  mem_outgoing n e := by
    rw [outgoingIds_addEdge hs, h.edge?_addEdge]
    by_cases he : e = g.nextEdge
    · have hold : e ∉ g.outgoingIds n := by
        rw [h.mem_outgoing, he, h.edge?_nextEdge]
        simp
      by_cases hn : n = s
      · simp [he, hn]
      · simp [he, hn, eq_comm (a := s), he ▸ hold]
    · rw [if_neg he, ← h.mem_outgoing]
      by_cases hn : n = s <;> simp [he, hn]
  mem_incoming n e := by
    rw [incomingIds_addEdge ht, h.edge?_addEdge]
    by_cases he : e = g.nextEdge
    · have hold : e ∉ g.incomingIds n := by
        rw [h.mem_incoming, he, h.edge?_nextEdge]
        simp
      by_cases hn : n = t
      · simp [he, hn]
      · simp [he, hn, eq_comm (a := t), he ▸ hold]
    · rw [if_neg he, ← h.mem_incoming]
      by_cases hn : n = t <;> simp [he, hn]
  nodup_outgoing n := by
    rw [outgoingIds_addEdge hs]
    split
    · refine List.nodup_cons.2 ⟨?_, h.nodup_outgoing n⟩
      rw [h.mem_outgoing, h.edge?_nextEdge]
      simp
    · exact h.nodup_outgoing n
  nodup_incoming n := by
    rw [incomingIds_addEdge ht]
    split
    · refine List.nodup_cons.2 ⟨?_, h.nodup_incoming n⟩
      rw [h.mem_incoming, h.edge?_nextEdge]
      simp
    · exact h.nodup_incoming n
  vacant_node n hn := by
    have hold : n ∈ g.vacantNodes := by
      unfold SlotGraph.addEdge at hn
      split at hn <;> exact hn
    rw [node?_addEdge, addEdge_slots]
    simpa [linkEnds] using h.vacant_node n hold
  nodup_vacantNodes := by
    unfold SlotGraph.addEdge
    split <;> exact h.nodup_vacantNodes
  vacant_edge e he := by
    have hold : e ∈ g.vacantEdges ∧ e ≠ g.nextEdge ∧
        g.edges.size ≤ (g.addEdge s t b).2.edges.size := by
      have hnodup := h.nodup_vacantEdges
      unfold SlotGraph.addEdge at he ⊢
      unfold nextEdge
      split at he
      · rename_i m rest hvacant
        rw [hvacant] at hnodup ⊢
        refine ⟨List.mem_cons_of_mem m he, ?_, by simp⟩
        rintro rfl
        exact (List.nodup_cons.1 hnodup).1 he
      · rename_i hvacant
        simp [hvacant] at he
    obtain ⟨hlt, hnone⟩ := h.vacant_edge e hold.1
    exact ⟨by omega, by rw [h.edge?_addEdge, if_neg hold.2.1, hnone]⟩
  nodup_vacantEdges := by
    have hnodup := h.nodup_vacantEdges
    unfold SlotGraph.addEdge
    split
    · rename_i m rest hvacant
      rw [hvacant] at hnodup
      exact (List.nodup_cons.1 hnodup).2
    · exact hnodup

/-! ### The last node -/

/-- The last of the numbers that pass a test bounds them all. -/
theorem lt_last_succ {keep : Nat → Bool} {k n : Nat} (hn : n < k) (hkeep : keep n = true) :
    n < ((((List.range k).filter keep).getLast?).map (· + 1)).getD 0 := by
  have hmem : n ∈ (List.range k).filter keep :=
    List.mem_filter.2 ⟨List.mem_range.2 hn, hkeep⟩
  have hsorted : ((List.range k).filter keep).Pairwise (· < ·) :=
    List.pairwise_lt_range.filter keep
  rw [List.getLast?_eq_some_getLast (List.ne_nil_of_mem hmem)]
  exact Nat.lt_succ_of_le (hsorted.imp Nat.le_of_lt |>.rel_getLast hmem)

theorem last_succ_le (keep : Nat → Bool) (k : Nat) :
    ((((List.range k).filter keep).getLast?).map (· + 1)).getD 0 ≤ k := by
  cases hlast : ((List.range k).filter keep).getLast? with
  | none => exact Nat.zero_le k
  | some n =>
    have hmem := List.mem_filter.1 (List.mem_of_getLast? hlast)
    exact List.mem_range.1 hmem.1

theorem lt_nodeBound {n : Nat} {a : α} (h : g.node? n = some a) : n < g.nodeBound :=
  lt_last_succ (node?_lt h) (hasNode_iff.2 ⟨a, h⟩)

theorem nodeBound_le : g.nodeBound ≤ g.slots.size := last_succ_le _ _

end GraphLang.SlotGraph
