import GraphLang.Proofs.SlotGraph.Ties
import GraphLang.SlotGraph.Cycle
import Mathlib.Algebra.GroupWithZero.Nat
import Mathlib.Algebra.Order.BigOperators.Group.List
import Mathlib.Algebra.Order.Group.Nat
import Mathlib.Data.List.Permutation

/-!
# Graphs without cycles

Where the search for a cycle finds none, the nodes have ranks that grow along every edge. The order
of the finishing times gives the ranks: every node is in it, and the backward searches have found
the predecessors of a node before the node itself.
-/

namespace GraphLang.SlotGraph

variable {α β : Type} {g : SlotGraph α β}

/-! ### The fuel of the search -/

theorem mem_nodeIds {n : Nat} : n ∈ g.nodeIds ↔ g.hasNode n = true := by
  rw [nodeIds, List.mem_filter, List.mem_range]
  refine ⟨And.right, fun h => ⟨?_, h⟩⟩
  obtain ⟨a, ha⟩ := hasNode_iff.1 h
  exact node?_lt ha

theorem nodup_nodeIds (g : SlotGraph α β) : g.nodeIds.Nodup :=
  List.nodup_range.filter _

/-- The edges out of all nodes are no more than there are edge slots. -/
theorem Sound.sum_successors_le (h : g.Sound) :
    (g.nodeIds.map fun n => (g.successors n).length).sum ≤ g.edges.size := by
  have hnodup : (g.nodeIds.flatMap g.outgoingIds).Nodup := by
    refine List.nodup_flatMap.2 ⟨fun n _ => h.nodup_outgoing n, ?_⟩
    refine g.nodup_nodeIds.imp fun {n m} hne e hn hm => hne ?_
    obtain ⟨edge, hedge, rfl⟩ := (h.mem_outgoing n e).1 hn
    obtain ⟨edge', hedge', rfl⟩ := (h.mem_outgoing m e).1 hm
    rw [hedge] at hedge'
    cases hedge'
    rfl
  have hsub : g.nodeIds.flatMap g.outgoingIds ⊆ List.range g.edges.size := by
    intro e he
    obtain ⟨n, -, he⟩ := List.mem_flatMap.1 he
    obtain ⟨edge, hedge, -⟩ := (h.mem_outgoing n e).1 he
    exact List.mem_range.2 (edge?_lt hedge)
  have hlength := (List.subperm_of_subset hnodup hsub).length_le
  rw [List.length_flatMap, List.length_range] at hlength
  refine le_trans (List.sum_le_sum fun n _ => ?_) hlength
  rw [successors, List.length_map, outgoing, edgesOf]
  exact List.length_filterMap_le _ _

/-- What the search may still push: each node not met yet, and its successors. -/
def pending (g : SlotGraph α β) (met : Std.HashSet Nat) : Nat :=
  ((g.nodeIds.filter fun n => !met.contains n).map fun n => (g.successors n).length + 1).sum

theorem pending_insert {met : Std.HashSet Nat} {n : Nat} (hn : g.hasNode n = true)
    (hnew : n ∉ met) :
    (g.successors n).length + 1 + g.pending (met.insert n) = g.pending met := by
  have hmem : n ∈ g.nodeIds.filter fun m => !met.contains m :=
    List.mem_filter.2 ⟨mem_nodeIds.2 hn, by simpa using hnew⟩
  have herase : (g.nodeIds.filter fun m => !(met.insert n).contains m) =
      (g.nodeIds.filter fun m => !met.contains m).erase n := by
    rw [List.Nodup.erase_eq_filter (g.nodup_nodeIds.filter _), List.filter_filter]
    refine List.filter_congr fun m _ => ?_
    rw [Std.HashSet.contains_insert, Bool.not_or, bne, BEq.comm]
  rw [pending, herase, pending]
  exact List.sum_map_erase (fun m => (g.successors m).length + 1) hmem

theorem Sound.pending_lt (h : g.Sound) (met : Std.HashSet Nat) :
    g.pending met + 1 < g.searchBound := by
  have hsub : (g.nodeIds.filter fun n => !met.contains n).Sublist g.nodeIds := List.filter_sublist
  have hall : g.pending met ≤ (g.nodeIds.map fun n => (g.successors n).length + 1).sum :=
    (hsub.map _).sum_le_sum fun _ _ => Nat.zero_le _
  have hsum : (g.nodeIds.map fun n => (g.successors n).length + 1).sum =
      (g.nodeIds.map fun n => (g.successors n).length).sum + g.nodeIds.length := by
    rw [List.sum_map_add]
    simp
  have hcount : g.nodeIds.length ≤ g.slots.size := by
    have := List.length_filter_le g.hasNode (List.range g.slots.size)
    rwa [List.length_range] at this
  have hedges := h.sum_successors_le
  unfold searchBound
  omega

/-! ### The order of finishing times -/

/-- The search is under way: it keeps to the nodes of the graph, a node that was met is finished or
still on the stack, and none of the nodes met leads to itself. -/
structure Searching (g : SlotGraph α β) (stack : List Nat) (st : FinishSearch) : Prop where
  live : ∀ n ∈ stack, g.hasNode n = true
  ordered : ∀ n ∈ st.order, g.hasNode n = true
  met : ∀ n ∈ st.discovered, n ∈ st.order ∨ n ∈ stack
  finished : ∀ n ∈ st.finished, n ∈ st.order
  simple : ∀ n ∈ st.discovered, n ∉ g.successors n

theorem Searching.finish {n : Nat} {stack : List Nat} {st : FinishSearch}
    (h : g.Searching (n :: stack) st) :
    g.Searching stack { st with finished := st.finished.insert n, order := n :: st.order } where
  live m hm := h.live m (List.mem_cons_of_mem n hm)
  ordered m hm := by
    rcases List.mem_cons.1 hm with rfl | hm
    · exact h.live m List.mem_cons_self
    · exact h.ordered m hm
  met m hm := by
    rcases h.met m hm with hdone | hopen
    · exact Or.inl (List.mem_cons_of_mem n hdone)
    · rcases List.mem_cons.1 hopen with rfl | hopen
      · exact Or.inl List.mem_cons_self
      · exact Or.inr hopen
  finished m hm := by
    rcases Std.HashSet.mem_insert.1 hm with heq | hm
    · rw [beq_iff_eq] at heq
      exact heq ▸ List.mem_cons_self
    · exact List.mem_cons_of_mem n (h.finished m hm)
  simple := h.simple

theorem Searching.skip {n : Nat} {stack : List Nat} {st : FinishSearch}
    (h : g.Searching (n :: stack) st) (hn : n ∈ st.finished) : g.Searching stack st where
  live m hm := h.live m (List.mem_cons_of_mem n hm)
  ordered := h.ordered
  met m hm := by
    rcases h.met m hm with hdone | hopen
    · exact Or.inl hdone
    · rcases List.mem_cons.1 hopen with rfl | hopen
      · exact Or.inl (h.finished m hn)
      · exact Or.inr hopen
  finished := h.finished
  simple := h.simple

theorem Searching.meet (hsound : g.Sound) {n : Nat} {stack : List Nat} {st : FinishSearch}
    (h : g.Searching (n :: stack) st) (hsimple : n ∉ g.successors n) (p : Nat → Bool) :
    g.Searching (((g.successors n).filter p).reverse ++ n :: stack)
      { st with discovered := st.discovered.insert n } where
  live m hm := by
    rcases List.mem_append.1 hm with hm | hm
    · have hm := List.mem_of_mem_filter (List.mem_reverse.1 hm)
      obtain ⟨e, edge, hedge, -, rfl⟩ := hsound.mem_successors.1 hm
      exact hsound.hasNode_target hedge
    · exact h.live m hm
  ordered := h.ordered
  met m hm := by
    rcases Std.HashSet.mem_insert.1 hm with heq | hm
    · rw [beq_iff_eq] at heq
      exact Or.inr (List.mem_append_right _ (heq ▸ List.mem_cons_self))
    · rcases h.met m hm with hdone | hopen
      · exact Or.inl hdone
      · exact Or.inr (List.mem_append_right _ hopen)
  finished := h.finished
  simple m hm := by
    rcases Std.HashSet.mem_insert.1 hm with heq | hm
    · rw [beq_iff_eq] at heq
      exact heq ▸ hsimple
    · exact h.simple m hm

/-- With enough fuel the stack is worked off, and everything on it has been met. -/
theorem Searching.finishFrom (hsound : g.Sound) {fuel : Nat} {stack : List Nat}
    {st st' : FinishSearch} (h : g.Searching stack st)
    (hfuel : stack.length + g.pending st.discovered < fuel)
    (hdone : g.finishFrom g.nodeBound fuel stack st = .ok st') :
    g.Searching [] st' ∧ (∀ n ∈ stack, n ∈ st'.discovered) ∧
      ∀ n ∈ st.discovered, n ∈ st'.discovered := by
  induction fuel generalizing stack st with
  | zero => omega
  | succ fuel ih =>
    cases stack with
    | nil =>
      cases hdone
      exact ⟨h, fun n hn => (by cases hn), fun n hn => hn⟩
    | cons n stack =>
      rw [List.length_cons] at hfuel
      obtain ⟨a, ha⟩ := hasNode_iff.1 (h.live n List.mem_cons_self)
      unfold SlotGraph.finishFrom at hdone
      rw [if_neg (Nat.not_le.2 (lt_nodeBound ha))] at hdone
      by_cases hmet : st.discovered.contains n = true
      · rw [if_pos hmet] at hdone
        have hrest : g.Searching [] st' ∧ (∀ m ∈ stack, m ∈ st'.discovered) ∧
            ∀ m ∈ st.discovered, m ∈ st'.discovered := by
          by_cases hfinished : st.finished.contains n = true
          · rw [if_pos hfinished] at hdone
            exact ih (h.skip hfinished) (by omega) hdone
          · rw [if_neg hfinished] at hdone
            have hrest := ih (Searching.finish h) (by dsimp only; omega) hdone
            exact hrest
        refine ⟨hrest.1, fun m hm => ?_, hrest.2.2⟩
        rcases List.mem_cons.1 hm with rfl | hm
        · exact hrest.2.2 m hmet
        · exact hrest.2.1 m hm
      · rw [if_neg hmet] at hdone
        dsimp only at hdone
        by_cases hloop : (g.successors n).contains n = true
        · rw [if_pos hloop] at hdone
          cases hdone
        · rw [if_neg hloop] at hdone
          have hsimple : n ∉ g.successors n := by simpa using hloop
          have hpending := pending_insert (h.live n List.mem_cons_self) (by simpa using hmet)
          have hfresh := List.length_filter_le
            (fun s => !(st.discovered.insert n).contains s) (g.successors n)
          obtain ⟨hend, hon, hold⟩ := ih (h.meet hsound hsimple _) (by
            rw [List.length_append, List.length_reverse, List.length_cons]
            dsimp only
            omega) hdone
          refine ⟨hend, fun m hm => hon m (List.mem_append_right _ hm), fun m hm => ?_⟩
          exact hold m (Std.HashSet.mem_insert.2 (Or.inr hm))

/-- The search from one node, unless it was met before. -/
def finishNode (g : SlotGraph α β) (st : FinishSearch) (n : Nat) :
    Except SearchStop FinishSearch :=
  if st.discovered.contains n then .ok st else finishFrom g g.nodeBound g.searchBound [n] st

theorem Searching.finishNode (hsound : g.Sound) {st st' : FinishSearch} {n : Nat}
    (h : g.Searching [] st) (hn : g.hasNode n = true) (hdone : g.finishNode st n = .ok st') :
    g.Searching [] st' ∧ n ∈ st'.discovered ∧ ∀ m ∈ st.discovered, m ∈ st'.discovered := by
  unfold SlotGraph.finishNode at hdone
  by_cases hmet : st.discovered.contains n = true
  · rw [if_pos hmet] at hdone
    cases hdone
    exact ⟨h, hmet, fun m hm => hm⟩
  · rw [if_neg hmet] at hdone
    have hstart : g.Searching [n] st := by
      refine ⟨?_, h.ordered, fun m hm => (h.met m hm).imp_right (by simp), h.finished, h.simple⟩
      simpa using hn
    have hfuel := hsound.pending_lt st.discovered
    obtain ⟨hend, hon, hold⟩ :=
      hstart.finishFrom hsound (by simpa [Nat.add_comm] using hfuel) hdone
    exact ⟨hend, hon n List.mem_cons_self, hold⟩

theorem Searching.finishNodes (hsound : g.Sound) {ns : List Nat} {st st' : FinishSearch}
    (h : g.Searching [] st) (hns : ∀ n ∈ ns, g.hasNode n = true)
    (hdone : ns.foldlM g.finishNode st = .ok st') :
    g.Searching [] st' ∧ (∀ n ∈ ns, n ∈ st'.discovered) ∧
      ∀ n ∈ st.discovered, n ∈ st'.discovered := by
  induction ns generalizing st with
  | nil =>
    cases hdone
    exact ⟨h, fun n hn => (by cases hn), fun n hn => hn⟩
  | cons n ns ih =>
    rw [List.foldlM_cons] at hdone
    cases hstep : g.finishNode st n with
    | error e =>
      rw [hstep] at hdone
      cases hdone
    | ok mid =>
      rw [hstep] at hdone
      obtain ⟨hmid, hn, hkept⟩ := h.finishNode hsound (hns n List.mem_cons_self) hstep
      obtain ⟨hend, hall, hold⟩ := ih hmid (fun m hm => hns m (List.mem_cons_of_mem n hm)) hdone
      refine ⟨hend, fun m hm => ?_, fun m hm => hold m (hkept m hm)⟩
      rcases List.mem_cons.1 hm with rfl | hm
      · exact hold m hn
      · exact hall m hm

theorem finishOrder_eq (g : SlotGraph α β) :
    g.finishOrder = (g.nodeIds.foldlM g.finishNode ⟨∅, ∅, []⟩).map (·.order) := by
  unfold finishOrder
  change (g.nodeIds.foldlM g.finishNode ⟨∅, ∅, []⟩ >>= fun st => pure st.order) = _
  cases g.nodeIds.foldlM g.finishNode ⟨∅, ∅, []⟩ <;> rfl

/-- Every node gets a finishing time, and none leads to itself. -/
theorem Sound.mem_finishOrder (h : g.Sound) {order : List Nat} (horder : g.finishOrder = .ok order)
    {n : Nat} (hn : g.hasNode n = true) : n ∈ order ∧ n ∉ g.successors n := by
  rw [finishOrder_eq] at horder
  cases hrun : g.nodeIds.foldlM g.finishNode ⟨∅, ∅, []⟩ with
  | error e =>
    rw [hrun] at horder
    cases horder
  | ok st =>
    rw [hrun] at horder
    cases horder
    have hstart : g.Searching [] ⟨∅, ∅, []⟩ := by
      refine ⟨?_, ?_, ?_, ?_, ?_⟩ <;> intro m hm <;> simp at hm
    obtain ⟨hend, hall, -⟩ := hstart.finishNodes h (fun m => mem_nodeIds.1) hrun
    have hmet := hall n (mem_nodeIds.2 hn)
    refine ⟨?_, hend.simple n hmet⟩
    simpa using hend.met n hmet

/-! ### The backward searches -/

/-- A backward search that finds no second node has seen all predecessors before. -/
theorem of_visitBack {marks fuel n : Nat} {seen seen' : Std.HashSet Nat}
    (h : g.visitBack marks (fuel + 2) false [n] seen = .ok seen') :
    (∀ m, m ∈ seen' ↔ m = n ∨ m ∈ seen) ∧
      (n ∉ seen → ∀ m ∈ g.predecessors n, m = n ∨ m ∈ seen) := by
  unfold visitBack at h
  by_cases hmark : marks ≤ n
  · rw [if_pos hmark] at h
    cases h
  rw [if_neg hmark] at h
  by_cases hseen : seen.contains n = true
  · rw [if_pos hseen] at h
    cases h
    refine ⟨fun m => ⟨Or.inr, ?_⟩, fun hnot => absurd hseen hnot⟩
    rintro (rfl | hm)
    · exact hseen
    · exact hm
  · rw [if_neg hseen, if_neg (by simp)] at h
    dsimp only at h
    rw [List.append_nil] at h
    cases hfresh : ((g.predecessors n).filter
        fun s => !(seen.insert n).contains s).reverse with
    | nil =>
      rw [hfresh] at h
      cases h
      refine ⟨fun m => ?_, fun _ m hm => ?_⟩
      · rw [Std.HashSet.mem_insert, beq_iff_eq, eq_comm]
      · have hnil := List.reverse_eq_nil_iff.1 hfresh
        have hm := List.filter_eq_nil_iff.1 hnil m hm
        rwa [Bool.not_eq_true', Bool.not_eq_false, Std.HashSet.contains_insert, Bool.or_eq_true,
          beq_iff_eq, eq_comm] at hm
    | cons m rest =>
      rw [hfresh] at h
      have hm : m ∈ (g.predecessors n).filter fun s => !(seen.insert n).contains s := by
        rw [← List.mem_reverse, hfresh]
        exact List.mem_cons_self
      have hnew : ¬(seen.insert n).contains m = true := by
        simpa using (List.mem_filter.1 hm).2
      unfold visitBack at h
      by_cases hfar : marks ≤ m
      · rw [if_pos hfar] at h
        cases h
      · rw [if_neg hfar, if_neg hnew, if_pos rfl] at h
        cases h

/-- In an order without a second visit, predecessors come first. -/
theorem predecessors_of_visitBack {rest before : List Nat} {seen seen' : Std.HashSet Nat}
    (hseen : ∀ m, m ∈ seen ↔ m ∈ before)
    (h : rest.foldlM (fun seen n => g.visitBack g.nodeBound g.searchBound false [n] seen) seen =
      .ok seen')
    {pre post : List Nat} {n : Nat} (hsplit : rest = pre ++ n :: post) (hn : n ∉ before ++ pre) :
    ∀ m ∈ g.predecessors n, m = n ∨ m ∈ before ++ pre := by
  induction rest generalizing before seen pre with
  | nil => simp at hsplit
  | cons k rest ih =>
    rw [List.foldlM_cons] at h
    cases hvisit : g.visitBack g.nodeBound g.searchBound false [k] seen with
    | error stop =>
      rw [hvisit] at h
      cases h
    | ok mid =>
      rw [hvisit] at h
      obtain ⟨hinsert, hpred⟩ := of_visitBack hvisit
      cases pre with
      | nil =>
        rw [List.nil_append] at hsplit
        cases hsplit
        rw [List.append_nil] at hn ⊢
        intro m hm
        rcases hpred (fun hk => hn ((hseen n).1 hk)) m hm with rfl | hm
        · exact Or.inl rfl
        · exact Or.inr ((hseen m).1 hm)
      | cons k' pre =>
        rw [List.cons_append] at hsplit
        cases hsplit
        have hmem : ∀ m, m ∈ mid ↔ m ∈ before ++ [k] := by
          intro m
          rw [hinsert, hseen, List.mem_append, List.mem_singleton, or_comm]
        have hrest := ih hmem h rfl (by simpa using hn)
        intro m hm
        simpa using hrest m hm

/-- An order is found where both searches come to their end. -/
theorem topologicalOrder_eq_ok {order : List Nat} (h : g.topologicalOrder = .ok order) :
    g.finishOrder = .ok order ∧ ∃ seen, g.visitAllBack order = .ok seen := by
  unfold topologicalOrder at h
  cases hfinish : g.finishOrder with
  | error stop =>
    rw [hfinish] at h
    cases h
  | ok first =>
    rw [hfinish] at h
    change (g.visitAllBack first >>= fun _ => pure first) = .ok order at h
    cases hback : g.visitAllBack first with
    | error stop =>
      rw [hback] at h
      cases h
    | ok seen =>
      rw [hback] at h
      cases h
      exact ⟨rfl, seen, hback⟩

/-- Where an order is found, the nodes have ranks that grow along every edge. -/
theorem Sound.exists_rank (h : g.Sound) {order : List Nat} (hfound : g.topologicalOrder = .ok order) :
    ∃ rank : Nat → Nat, ∀ n m, m ∈ g.successors n → rank n < rank m := by
  obtain ⟨horder, seen, hback⟩ := topologicalOrder_eq_ok hfound
  refine ⟨fun n => order.idxOf n, fun n m hm => ?_⟩
  obtain ⟨e, edge, hedge, hsource, htarget⟩ := h.mem_successors.1 hm
  have hlive : g.hasNode m = true := htarget ▸ h.hasNode_target hedge
  obtain ⟨hmem, -⟩ := h.mem_finishOrder horder hlive
  obtain ⟨pre, post, hsplit, hfirst⟩ := List.eq_append_cons_of_mem hmem
  have hempty : ∀ k, k ∈ (∅ : Std.HashSet Nat) ↔ k ∈ ([] : List Nat) := by simp
  have hpred := predecessors_of_visitBack hempty hback hsplit (by simpa using hfirst) n
    (h.mem_predecessors.2 ⟨e, edge, hedge, hsource, htarget⟩)
  have hne : n ≠ m := by
    rintro rfl
    exact (h.mem_finishOrder horder hlive).2 hm
  have hpre : n ∈ pre := by simpa [hne] using hpred
  have hrank : (pre ++ m :: post).idxOf m = pre.length := by
    rw [List.idxOf_append_of_notMem hfirst, List.idxOf_cons_self, Nat.add_zero]
  dsimp only
  rw [hsplit, hrank, List.idxOf_append_of_mem hpre]
  exact List.idxOf_lt_length_of_mem hpre

end GraphLang.SlotGraph
