import GraphLang.Proofs.SlotGraph.Acyclic

/-!
# The search for an order is exact

In a graph without cycles the search for finishing times puts every node before the nodes that it
leads to: while a node is open, everything above it on the stack can be reached from it, so no
successor of a new node can still be open. Then no backward search finds a second node. Hence a
cycle is reported exactly where there is one.
-/

namespace GraphLang.SlotGraph

variable {α β : Type} {g : SlotGraph α β}

/-- An edge leads from the first node to the second. -/
def Leads (g : SlotGraph α β) (n m : Nat) : Prop :=
  ∃ e edge, g.edge? e = some edge ∧ edge.source = n ∧ edge.target = m

/-- No way along the edges comes back to where it started. -/
def Acyclic (g : SlotGraph α β) : Prop := ∀ n, ¬Relation.TransGen g.Leads n n

theorem Sound.leads_iff (h : g.Sound) {n m : Nat} : g.Leads n m ↔ m ∈ g.successors n :=
  h.mem_successors.symm

theorem acyclic_of_rank {rank : Nat → Nat} (h : ∀ n m, g.Leads n m → rank n < rank m) :
    g.Acyclic := by
  have hgrows : ∀ n m, Relation.TransGen g.Leads n m → rank n < rank m := by
    intro n m hway
    induction hway with
    | single hlast => exact h _ _ hlast
    | tail _ hlast ih => exact ih.trans (h _ _ hlast)
  intro n hcycle
  exact absurd (hgrows n n hcycle) (lt_irrefl _)

/-! ### Open nodes -/

/-- The search is under way in a graph without cycles. A node is open if it was met and is not
finished. Everything above an open node on the stack can be reached from it, and what it leads to is
finished or above it; what a finished node leads to was finished before. -/
structure Nesting (g : SlotGraph α β) (stack : List Nat) (st : FinishSearch) : Prop where
  finished : ∀ n, n ∈ st.finished ↔ n ∈ st.order
  discovered : ∀ n ∈ st.order, n ∈ st.discovered
  nodup : st.order.Nodup
  closed : ∀ pre n post, st.order = pre ++ n :: post → ∀ m, g.Leads n m → m ∈ post
  above : ∀ pre n post, stack = pre ++ n :: post → n ∉ pre → n ∈ st.discovered → n ∉ st.order →
    (∀ m ∈ pre, Relation.TransGen g.Leads n m) ∧ ∀ m, g.Leads n m → m ∈ st.order ∨ m ∈ pre

section Nesting

variable {n : Nat} {stack : List Nat} {st : FinishSearch}

theorem Nesting.skip (h : g.Nesting (n :: stack) st) (hn : n ∈ st.finished) :
    g.Nesting stack st where
  finished := h.finished
  discovered := h.discovered
  nodup := h.nodup
  closed := h.closed
  above pre x post hstack hx hmet hopen := by
    have hxn : x ≠ n := by
      rintro rfl
      exact hopen ((h.finished x).1 hn)
    obtain ⟨habove, hnext⟩ := h.above (n :: pre) x post (by rw [hstack]; rfl)
      (by simp [hxn, hx]) hmet hopen
    refine ⟨fun m hm => habove m (List.mem_cons_of_mem n hm), fun m hm => ?_⟩
    rcases hnext m hm with hdone | hm
    · exact Or.inl hdone
    · rcases List.mem_cons.1 hm with rfl | hm
      · exact Or.inl ((h.finished m).1 hn)
      · exact Or.inr hm

theorem Nesting.finish (h : g.Nesting (n :: stack) st) (hmet : n ∈ st.discovered)
    (hopen : n ∉ st.finished) :
    g.Nesting stack { st with finished := st.finished.insert n, order := n :: st.order } where
  finished m := by
    rw [Std.HashSet.mem_insert, h.finished, List.mem_cons, beq_iff_eq, eq_comm]
  discovered m hm := by
    rcases List.mem_cons.1 hm with rfl | hm
    · exact hmet
    · exact h.discovered m hm
  nodup := List.nodup_cons.2 ⟨fun hdone => hopen ((h.finished n).2 hdone), h.nodup⟩
  closed pre x post horder m hm := by
    cases pre with
    | nil =>
      rw [List.nil_append] at horder
      cases horder
      have hnext := (h.above [] n stack rfl (by simp) hmet
        (fun hdone => hopen ((h.finished n).2 hdone))).2 m hm
      simpa using hnext
    | cons y pre =>
      rw [List.cons_append] at horder
      exact h.closed pre x post (List.cons.inj horder).2 m hm
  above pre x post hstack hx hxmet hxopen := by
    have hxn : x ≠ n := by
      rintro rfl
      exact hxopen List.mem_cons_self
    have hxold : x ∉ st.order := fun hdone => hxopen (List.mem_cons_of_mem n hdone)
    obtain ⟨habove, hnext⟩ := h.above (n :: pre) x post (by rw [hstack]; rfl)
      (by simp [hxn, hx]) hxmet hxold
    refine ⟨fun m hm => habove m (List.mem_cons_of_mem n hm), fun m hm => ?_⟩
    rcases hnext m hm with hdone | hm
    · exact Or.inl (List.mem_cons_of_mem n hdone)
    · rcases List.mem_cons.1 hm with rfl | hm
      · exact Or.inl List.mem_cons_self
      · exact Or.inr hm

/-- What a new node leads to is finished or new: an open node that it led to would close a cycle. -/
theorem Nesting.finished_of_met (hacyclic : g.Acyclic) (hsearch : g.Searching (n :: stack) st)
    (h : g.Nesting (n :: stack) st) (hnew : n ∉ st.discovered) {m : Nat} (hm : g.Leads n m)
    (hmet : m ∈ st.discovered) : m ∈ st.order := by
  by_contra hopen
  have hon : m ∈ n :: stack := (hsearch.met m hmet).resolve_left hopen
  obtain ⟨pre, post, hsplit, hfirst⟩ := List.eq_append_cons_of_mem hon
  have hmn : m ≠ n := by
    rintro rfl
    exact hnew hmet
  have hn : n ∈ pre := by
    cases pre with
    | nil => exact absurd (List.cons.inj hsplit).1.symm hmn
    | cons y pre =>
      rw [List.cons_append] at hsplit
      exact (List.cons.inj hsplit).1 ▸ List.mem_cons_self
  have hway := (h.above pre m post hsplit hfirst hmet hopen).1 n hn
  exact hacyclic m (hway.tail hm)

theorem Nesting.meet (hsound : g.Sound) (hacyclic : g.Acyclic)
    (hsearch : g.Searching (n :: stack) st) (h : g.Nesting (n :: stack) st)
    (hnew : n ∉ st.discovered) :
    g.Nesting (((g.successors n).filter fun s => !(st.discovered.insert n).contains s).reverse ++
      n :: stack) { st with discovered := st.discovered.insert n } where
  finished := h.finished
  discovered m hm := Std.HashSet.mem_insert.2 (Or.inr (h.discovered m hm))
  nodup := h.nodup
  closed := h.closed
  above pre x post hstack hx hxmet hxopen := by
    have hfresh : ∀ m, m ∈ ((g.successors n).filter
        fun s => !(st.discovered.insert n).contains s).reverse ↔
        g.Leads n m ∧ m ∉ st.discovered.insert n := by
      intro m
      rw [List.mem_reverse, List.mem_filter, hsound.leads_iff]
      simp
    generalize ((g.successors n).filter
      fun s => !(st.discovered.insert n).contains s).reverse = fresh at hstack hfresh
    -- The first `x` on the stack is not among the new successors, which were not met before.
    have hxfresh : x ∉ fresh := fun hmem => ((hfresh x).1 hmem).2 hxmet
    obtain ⟨pre', rfl, hrest⟩ : ∃ pre', pre = fresh ++ pre' ∧ n :: stack = pre' ++ x :: post := by
      rcases List.append_eq_append_iff.1 hstack with ⟨as, hpre, hrest⟩ | ⟨cs, hfr, hrest⟩
      · exact ⟨as, hpre, hrest⟩
      · cases cs with
        | nil => exact ⟨[], by simpa using hfr.symm, by simpa using hrest.symm⟩
        | cons c cs =>
          rw [List.cons_append] at hrest
          exact absurd (by simp [hfr, (List.cons.inj hrest).1]) hxfresh
    rcases Std.HashSet.mem_insert.1 hxmet with heq | hxold
    · -- The new node itself: it stands right below its new successors.
      rw [beq_iff_eq] at heq
      subst heq
      have hpre' : pre' = [] := by
        cases pre' with
        | nil => rfl
        | cons y pre' =>
          rw [List.cons_append] at hrest
          exact absurd (by simp [(List.cons.inj hrest).1]) hx
      subst hpre'
      rw [List.append_nil]
      refine ⟨fun m hm => .single ((hfresh m).1 hm).1, fun m hm => ?_⟩
      by_cases hmet : m ∈ st.discovered.insert n
      · refine Or.inl (h.finished_of_met hacyclic hsearch hnew hm ?_)
        rcases Std.HashSet.mem_insert.1 hmet with heq | hmet
        · rw [beq_iff_eq] at heq
          subst heq
          exact (hacyclic n (.single hm)).elim
        · exact hmet
      · exact Or.inr ((hfresh m).2 ⟨hm, hmet⟩)
    · -- A node that was open before: the new node, and so its successors, can be reached from it.
      have hxn : x ≠ n := by
        rintro rfl
        exact hnew hxold
      have hxpre' : x ∉ pre' := fun hmem => hx (List.mem_append_right _ hmem)
      obtain ⟨habove, hnext⟩ := h.above pre' x post hrest hxpre' hxold hxopen
      have hnpre : n ∈ pre' := by
        cases pre' with
        | nil => exact absurd (List.cons.inj hrest).1.symm hxn
        | cons y pre' =>
          rw [List.cons_append] at hrest
          exact (List.cons.inj hrest).1 ▸ List.mem_cons_self
      refine ⟨fun m hm => ?_, fun m hm => (hnext m hm).imp_right (List.mem_append_right _)⟩
      rcases List.mem_append.1 hm with hm | hm
      · exact (habove n hnpre).tail ((hfresh m).1 hm).1
      · exact habove m hm

/-- With enough fuel the search works off its stack, and meets no self loop. -/
theorem Nesting.finishFrom (hsound : g.Sound) (hacyclic : g.Acyclic) {fuel : Nat}
    (hsearch : g.Searching stack st) (h : g.Nesting stack st)
    (hfuel : stack.length + g.pending st.discovered < fuel) :
    ∃ st', g.finishFrom g.nodeBound fuel stack st = .ok st' ∧ g.Nesting [] st' := by
  induction fuel generalizing stack st with
  | zero => omega
  | succ fuel ih =>
    cases stack with
    | nil => exact ⟨st, rfl, h⟩
    | cons n stack =>
      rw [List.length_cons] at hfuel
      obtain ⟨a, ha⟩ := hasNode_iff.1 (hsearch.live n List.mem_cons_self)
      unfold SlotGraph.finishFrom
      rw [if_neg (Nat.not_le.2 (lt_nodeBound ha))]
      by_cases hmet : st.discovered.contains n = true
      · rw [if_pos hmet]
        by_cases hfinished : st.finished.contains n = true
        · rw [if_pos hfinished]
          exact ih (hsearch.skip hfinished) (h.skip hfinished) (by omega)
        · rw [if_neg hfinished]
          exact ih hsearch.finish (h.finish hmet (by simpa using hfinished)) (by dsimp only; omega)
      · rw [if_neg hmet]
        have hnew : n ∉ st.discovered := by simpa using hmet
        have hsimple : n ∉ g.successors n := fun hloop =>
          hacyclic n (.single (hsound.leads_iff.2 hloop))
        dsimp only
        rw [if_neg (by simpa using hsimple)]
        have hpending := pending_insert (hsearch.live n List.mem_cons_self) hnew
        have hfresh := List.length_filter_le
          (fun s => !(st.discovered.insert n).contains s) (g.successors n)
        refine ih (hsearch.meet hsound hsimple _) (h.meet hsound hacyclic hsearch hnew) ?_
        rw [List.length_append, List.length_reverse, List.length_cons]
        dsimp only
        omega

theorem Nesting.finishNode (hsound : g.Sound) (hacyclic : g.Acyclic) (hsearch : g.Searching [] st)
    (h : g.Nesting [] st) (hn : g.hasNode n = true) :
    ∃ st', g.finishNode st n = .ok st' ∧ g.Nesting [] st' := by
  unfold SlotGraph.finishNode
  by_cases hmet : st.discovered.contains n = true
  · rw [if_pos hmet]
    exact ⟨st, rfl, h⟩
  · rw [if_neg hmet]
    have hstart : g.Searching [n] st := by
      refine ⟨?_, hsearch.ordered, fun m hm => (hsearch.met m hm).imp_right (by simp), hsearch.finished,
        hsearch.simple⟩
      simpa using hn
    have hnesting : g.Nesting [n] st := by
      refine ⟨h.finished, h.discovered, h.nodup, h.closed, ?_⟩
      intro pre x post hstack _ hxmet hopen
      exact absurd ((hsearch.met x hxmet).resolve_right (by simp)) hopen
    have hfuel := hsound.pending_lt st.discovered
    exact hnesting.finishFrom hsound hacyclic hstart (by simpa [Nat.add_comm] using hfuel)

theorem Nesting.finishNodes (hsound : g.Sound) (hacyclic : g.Acyclic) {ns : List Nat}
    (hsearch : g.Searching [] st) (h : g.Nesting [] st) (hns : ∀ n ∈ ns, g.hasNode n = true) :
    ∃ st', ns.foldlM g.finishNode st = .ok st' ∧ g.Nesting [] st' := by
  induction ns generalizing st with
  | nil => exact ⟨st, rfl, h⟩
  | cons n ns ih =>
    have hn := hns n List.mem_cons_self
    obtain ⟨mid, hmid, hnesting⟩ := h.finishNode hsound hacyclic hsearch hn
    rw [List.foldlM_cons, hmid]
    exact ih (hsearch.finishNode hsound hn hmid).1 hnesting
      fun m hm => hns m (List.mem_cons_of_mem n hm)

end Nesting

/-! ### The order of an acyclic graph -/

/-- In a graph without cycles every node stands before the nodes that it leads to. -/
theorem Sound.finishOrder_of_acyclic (h : g.Sound) (hacyclic : g.Acyclic) :
    ∃ order, g.finishOrder = .ok order ∧ (∀ n ∈ order, g.hasNode n = true) ∧ order.Nodup ∧
      ∀ pre n post, order = pre ++ n :: post → ∀ m, g.Leads n m → m ∈ post := by
  have hsearch : g.Searching [] ⟨∅, ∅, []⟩ := by
    refine ⟨?_, ?_, ?_, ?_, ?_⟩ <;> intro m hm <;> simp at hm
  have hstart : g.Nesting [] ⟨∅, ∅, []⟩ := by
    refine ⟨by simp, by simp, List.nodup_nil, ?_, ?_⟩ <;> intro pre n post hsplit <;> simp at hsplit
  obtain ⟨st, hrun, hend⟩ := hstart.finishNodes h hacyclic hsearch fun m => mem_nodeIds.1
  have hsearched := (hsearch.finishNodes h (fun m => mem_nodeIds.1) hrun).1
  refine ⟨st.order, ?_, hsearched.ordered, hend.nodup, hend.closed⟩
  rw [finishOrder_eq, hrun]
  rfl

/-- A backward search from a node whose predecessors were all seen finds no second node. -/
theorem visitBack_of_seen {fuel n : Nat} {seen : Std.HashSet Nat} (hlive : g.hasNode n = true)
    (hn : n ∉ seen) (hpred : ∀ m ∈ g.predecessors n, m ∈ seen) :
    g.visitBack g.nodeBound (fuel + 2) false [n] seen = .ok (seen.insert n) := by
  have hfresh : ((g.predecessors n).filter fun s => !(seen.insert n).contains s) = [] := by
    refine List.filter_eq_nil_iff.2 fun m hm => ?_
    simp [hpred m hm]
  obtain ⟨a, ha⟩ := hasNode_iff.1 hlive
  unfold visitBack
  rw [if_neg (Nat.not_le.2 (lt_nodeBound ha)), if_neg (by simpa using hn), if_neg (by simp)]
  dsimp only
  rw [hfresh]
  rfl

/-- In an order where predecessors come first no backward search finds a second node. -/
theorem exists_visitAllBack {rest : List Nat} (before : List Nat) {seen : Std.HashSet Nat}
    (hlive : ∀ n ∈ rest, g.hasNode n = true) (hseen : ∀ m, m ∈ seen ↔ m ∈ before)
    (hnodup : (before ++ rest).Nodup)
    (hpred : ∀ pre n post, rest = pre ++ n :: post → ∀ m ∈ g.predecessors n, m ∈ before ++ pre) :
    ∃ seen', rest.foldlM (fun seen n => g.visitBack g.nodeBound g.searchBound false [n] seen) seen =
      .ok seen' := by
  induction rest generalizing before seen with
  | nil => exact ⟨seen, rfl⟩
  | cons n rest ih =>
    have hn : n ∉ seen := by
      rw [hseen]
      exact fun hmem => (List.nodup_append.1 hnodup).2.2 n hmem n List.mem_cons_self rfl
    have hfirst : ∀ m ∈ g.predecessors n, m ∈ seen := by
      intro m hm
      rw [hseen]
      simpa using hpred [] n rest rfl m hm
    have hbound : g.searchBound = (2 * g.slots.size + g.edges.size) + 2 := rfl
    rw [List.foldlM_cons, hbound,
      visitBack_of_seen (hlive n List.mem_cons_self) hn hfirst, ← hbound]
    refine ih (before ++ [n]) (fun m hm => hlive m (List.mem_cons_of_mem n hm)) (fun m => ?_)
      (by simpa using hnodup) ?_
    · rw [Std.HashSet.mem_insert, hseen, beq_iff_eq, List.mem_append, List.mem_singleton,
        or_comm, eq_comm]
    · intro pre k post hsplit m hm
      have := hpred (n :: pre) k post (by rw [hsplit]; rfl) m hm
      simpa using this

/-- An order is found exactly where there is no cycle. -/
theorem Sound.exists_topologicalOrder_iff (h : g.Sound) :
    (∃ order, g.topologicalOrder = .ok order) ↔ g.Acyclic := by
  constructor
  · rintro ⟨order, horder⟩
    obtain ⟨rank, hrank⟩ := h.exists_rank horder
    exact acyclic_of_rank fun n m hm => hrank n m (h.leads_iff.1 hm)
  · intro hacyclic
    obtain ⟨order, horder, hlives, hnodup, hclosed⟩ := h.finishOrder_of_acyclic hacyclic
    suffices hback : ∃ seen, g.visitAllBack order = .ok seen by
      obtain ⟨seen, hseen⟩ := hback
      refine ⟨order, ?_⟩
      unfold topologicalOrder
      rw [horder]
      change (g.visitAllBack order >>= fun _ => pure order) = .ok order
      rw [hseen]
      rfl
    refine exists_visitAllBack [] hlives (by simp) hnodup ?_
    intro pre n post hsplit m hm
    obtain ⟨e, edge, hedge, hsource, htarget⟩ := h.mem_predecessors.1 hm
    have hlive : g.hasNode m = true := hsource ▸ h.hasNode_source hedge
    have hmem := (h.mem_finishOrder horder hlive).1
    have hleads : g.Leads m n := ⟨e, edge, hedge, hsource, htarget⟩
    have hmn : m ≠ n := by
      rintro rfl
      exact hacyclic m (.single hleads)
    -- If `m` stood after `n`, then `n` would stand a second time after `m`.
    by_contra hnot
    have hmpost : m ∈ post := by
      rw [hsplit] at hmem
      rcases List.mem_append.1 hmem with hpre | hrest
      · exact absurd hpre (by simpa using hnot)
      · exact (List.mem_cons.1 hrest).resolve_left hmn
    obtain ⟨post₁, post₂, hm'⟩ := List.append_of_mem hmpost
    have hsecond : order = (pre ++ n :: post₁) ++ m :: post₂ := by simp [hsplit, hm']
    have hafter := hclosed _ m post₂ hsecond n hleads
    rw [hsecond] at hnodup
    exact (List.nodup_append.1 hnodup).2.2 n (by simp) n (List.mem_cons_of_mem m hafter) rfl

/-! ### Sound graphs have marks for all that is met -/

theorem Searching.cycle_of_finishFrom (hsound : g.Sound) {fuel : Nat} {stack : List Nat}
    {st : FinishSearch} {stop : SearchStop} (h : g.Searching stack st)
    (hstop : g.finishFrom g.nodeBound fuel stack st = .error stop) : ∃ n, stop = .cycle n := by
  induction fuel generalizing stack st with
  | zero => cases hstop
  | succ fuel ih =>
    cases stack with
    | nil => cases hstop
    | cons n stack =>
      obtain ⟨a, ha⟩ := hasNode_iff.1 (h.live n List.mem_cons_self)
      unfold SlotGraph.finishFrom at hstop
      rw [if_neg (Nat.not_le.2 (lt_nodeBound ha))] at hstop
      by_cases hmet : st.discovered.contains n = true
      · rw [if_pos hmet] at hstop
        by_cases hfinished : st.finished.contains n = true
        · rw [if_pos hfinished] at hstop
          exact ih (h.skip hfinished) hstop
        · rw [if_neg hfinished] at hstop
          exact ih h.finish hstop
      · rw [if_neg hmet] at hstop
        dsimp only at hstop
        by_cases hloop : (g.successors n).contains n = true
        · rw [if_pos hloop] at hstop
          cases hstop
          exact ⟨n, rfl⟩
        · rw [if_neg hloop] at hstop
          exact ih (h.meet hsound (by simpa using hloop) _) hstop

theorem Searching.cycle_of_finishNodes (hsound : g.Sound) {ns : List Nat} {st : FinishSearch}
    {stop : SearchStop} (h : g.Searching [] st) (hns : ∀ n ∈ ns, g.hasNode n = true)
    (hstop : ns.foldlM g.finishNode st = .error stop) : ∃ n, stop = .cycle n := by
  induction ns generalizing st with
  | nil => cases hstop
  | cons n ns ih =>
    have hn := hns n List.mem_cons_self
    rw [List.foldlM_cons] at hstop
    cases hstep : g.finishNode st n with
    | ok mid =>
      rw [hstep] at hstop
      exact ih (h.finishNode hsound hn hstep).1 (fun m hm => hns m (List.mem_cons_of_mem n hm))
        hstop
    | error stop' =>
      rw [hstep] at hstop
      cases hstop
      unfold SlotGraph.finishNode at hstep
      by_cases hmet : st.discovered.contains n = true
      · rw [if_pos hmet] at hstep
        cases hstep
      · rw [if_neg hmet] at hstep
        refine Searching.cycle_of_finishFrom hsound ?_ hstep
        exact ⟨by simpa using hn, h.ordered, fun m hm => (h.met m hm).imp_right (by simp),
          h.finished, h.simple⟩

theorem Sound.cycle_of_visitBack (h : g.Sound) {fuel : Nat} {started : Bool} {stack : List Nat}
    {seen : Std.HashSet Nat} {stop : SearchStop} (hlive : ∀ n ∈ stack, g.hasNode n = true)
    (hstop : g.visitBack g.nodeBound fuel started stack seen = .error stop) :
    ∃ n, stop = .cycle n := by
  induction fuel generalizing started stack seen with
  | zero => cases hstop
  | succ fuel ih =>
    cases stack with
    | nil => cases hstop
    | cons n stack =>
      obtain ⟨a, ha⟩ := hasNode_iff.1 (hlive n List.mem_cons_self)
      have hrest : ∀ m ∈ stack, g.hasNode m = true := fun m hm =>
        hlive m (List.mem_cons_of_mem n hm)
      unfold visitBack at hstop
      rw [if_neg (Nat.not_le.2 (lt_nodeBound ha))] at hstop
      by_cases hseen : seen.contains n = true
      · rw [if_pos hseen] at hstop
        exact ih hrest hstop
      · rw [if_neg hseen] at hstop
        by_cases hstarted : started = true
        · rw [if_pos hstarted] at hstop
          cases hstop
          exact ⟨n, rfl⟩
        · rw [if_neg hstarted] at hstop
          refine ih (fun m hm => ?_) hstop
          rcases List.mem_append.1 hm with hm | hm
          · have hm := (List.mem_filter.1 (List.mem_reverse.1 hm)).1
            obtain ⟨e, edge, hedge, rfl, -⟩ := h.mem_predecessors.1 hm
            exact h.hasNode_source hedge
          · exact hrest m hm

theorem Sound.cycle_of_visitAllBack (h : g.Sound) {order : List Nat} {seen : Std.HashSet Nat}
    {stop : SearchStop} (hlive : ∀ n ∈ order, g.hasNode n = true)
    (hstop : order.foldlM (fun seen n => g.visitBack g.nodeBound g.searchBound false [n] seen) seen =
      .error stop) : ∃ n, stop = .cycle n := by
  induction order generalizing seen with
  | nil => cases hstop
  | cons n order ih =>
    rw [List.foldlM_cons] at hstop
    cases hstep : g.visitBack g.nodeBound g.searchBound false [n] seen with
    | ok mid =>
      rw [hstep] at hstop
      exact ih (fun m hm => hlive m (List.mem_cons_of_mem n hm)) hstop
    | error stop' =>
      rw [hstep] at hstop
      cases hstop
      refine h.cycle_of_visitBack (fun m hm => ?_) hstep
      exact hlive m (List.mem_singleton.1 hm ▸ List.mem_cons_self)

/-- In a sound graph either an order is found or a cycle. -/
theorem Sound.topologicalOrder_cases (h : g.Sound) :
    (∃ order, g.topologicalOrder = .ok order) ∨ ∃ n, g.topologicalOrder = .error (.cycle n) := by
  cases hfound : g.topologicalOrder with
  | ok order => exact Or.inl ⟨order, rfl⟩
  | error stop =>
    suffices hcycle : ∃ n, stop = .cycle n by
      obtain ⟨n, rfl⟩ := hcycle
      exact Or.inr ⟨n, rfl⟩
    have hstart : g.Searching [] ⟨∅, ∅, []⟩ := by
      refine ⟨?_, ?_, ?_, ?_, ?_⟩ <;> intro m hm <;> simp at hm
    unfold topologicalOrder at hfound
    rw [finishOrder_eq] at hfound
    cases hrun : g.nodeIds.foldlM g.finishNode ⟨∅, ∅, []⟩ with
    | error stop' =>
      rw [hrun] at hfound
      cases hfound
      exact hstart.cycle_of_finishNodes h (fun m => mem_nodeIds.1) hrun
    | ok st =>
      rw [hrun] at hfound
      have hordered := (hstart.finishNodes h (fun m => mem_nodeIds.1) hrun).1.ordered
      change (g.visitAllBack st.order >>= fun _ => pure st.order) = .error stop at hfound
      cases hback : g.visitAllBack st.order with
      | ok seen =>
        rw [hback] at hfound
        cases hfound
      | error stop' =>
        rw [hback] at hfound
        cases hfound
        exact h.cycle_of_visitAllBack hordered hback

end GraphLang.SlotGraph
