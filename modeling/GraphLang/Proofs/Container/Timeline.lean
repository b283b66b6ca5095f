import GraphLang.Container.Basic
import GraphLang.Proofs.SlotGraph.Ties
import Mathlib.Data.List.Sort

/-!
# The edges of a container in the order of their making

Slots of edges are used again, so the numbers of edges say nothing about their age. What does is the
number that each edge carries. All queries about edges are parts of one list, the edges in the order
of these numbers: a new edge comes at the end of it, and removing a node takes the edges at the node
out of it.
-/

namespace GraphLang.Container

variable {c : Container}

/-! ### Order -/

/-- Sorting by a number puts the smaller numbers first. -/
theorem pairwise_mergeSort_key {α : Type} (key : α → Nat) (l : List α) :
    (l.mergeSort fun a b => key a ≤ key b).Pairwise fun a b => key a ≤ key b := by
  have hsorted : (l.mergeSort fun a b => key a ≤ key b).Pairwise
      fun a b => decide (key a ≤ key b) = true := by
    refine List.pairwise_mergeSort (fun a b c hab hbc => ?_) (fun a b => ?_) l
    · rw [decide_eq_true_eq] at hab hbc ⊢
      exact hab.trans hbc
    · rw [Bool.or_eq_true, decide_eq_true_eq, decide_eq_true_eq]
      exact Nat.le_total _ _
  simpa only [decide_eq_true_eq] using hsorted

/-- The first edge was made before the second one. -/
def EdgeView.Before (a b : EdgeView) : Prop := a.tie.seq < b.tie.seq

instance : Std.Irrefl EdgeView.Before := ⟨fun a => Nat.lt_irrefl a.tie.seq⟩

instance : Std.Antisymm EdgeView.Before := ⟨fun _ _ h h' => absurd h' (Nat.lt_asymm h)⟩

/-- The edge that a query shows. -/
def EdgeView.edge (view : EdgeView) : Edge Tie := ⟨view.source, view.target, view.tie⟩

theorem mem_viewed {edges : List (Nat × Edge Tie)} {view : EdgeView} :
    view ∈ viewed edges ↔ (view.id, view.edge) ∈ edges := by
  unfold viewed
  rw [List.mem_mergeSort, List.mem_map]
  constructor
  · rintro ⟨⟨id, edge⟩, hmem, rfl⟩
    exact hmem
  · exact fun hmem => ⟨_, hmem, rfl⟩

/-- The edges of a container are told apart by the numbers they carry. -/
structure Timed (c : Container) : Prop where
  /-- The slots of the container are a graph. -/
  sound : c.graph.Sound
  /-- Edges carry numbers that were given. -/
  seq_lt : ∀ {e edge}, c.graph.edge? e = some edge → edge.weight.seq < c.nextSeq
  /-- No number was given twice. -/
  seq_inj : ∀ {e e' edge edge'}, c.graph.edge? e = some edge → c.graph.edge? e' = some edge' →
    edge.weight.seq = edge'.weight.seq → e = e'

theorem Timed.new (kind : Kind) : (new kind).Timed where
  sound := SlotGraph.sound_empty.addNode _
  seq_lt h := by
    rw [Container.new, SlotGraph.edge?_addNode] at h
    cases h
  seq_inj h := by
    rw [Container.new, SlotGraph.edge?_addNode] at h
    cases h

/-- Edges with the same number are the same. -/
theorem Timed.view_eq (h : c.Timed) {a b : EdgeView} (ha : c.graph.edge? a.id = some a.edge)
    (hb : c.graph.edge? b.id = some b.edge) (hseq : a.tie.seq = b.tie.seq) : a = b := by
  have hid := h.seq_inj ha hb hseq
  obtain ⟨ida, sa, ta, tiea⟩ := a
  obtain ⟨idb, sb, tb, tieb⟩ := b
  dsimp only at hid ha hb
  subst hid
  rw [ha] at hb
  cases hb
  rfl

/-- Edges are shown in the order of their making. -/
theorem Timed.pairwise_viewed (h : c.Timed) {ids : List Nat} (hids : ids.Nodup) :
    (viewed (c.graph.edgesOf ids)).Pairwise EdgeView.Before := by
  have hsorted := pairwise_mergeSort_key (fun view : EdgeView => view.tie.seq)
    ((c.graph.edgesOf ids).map fun p => ⟨p.1, p.2.source, p.2.target, p.2.weight⟩)
  have hnodup : (viewed (c.graph.edgesOf ids)).Nodup := by
    rw [viewed, (List.mergeSort_perm _ _).nodup_iff]
    refine List.Nodup.map ?_ ?_
    · rintro ⟨id, edge⟩ ⟨id', edge'⟩ heq
      cases edge
      cases edge'
      cases heq
      rfl
    · refine hids.filterMap fun e e' p hp hp' => ?_
      obtain ⟨edge, -, rfl⟩ := Option.map_eq_some_iff.1 hp
      obtain ⟨edge', -, heq⟩ := Option.map_eq_some_iff.1 hp'
      cases heq
      rfl
  refine (hsorted.and hnodup).imp_of_mem ?_
  rintro a b ha hb ⟨hle, hne⟩
  refine Nat.lt_of_le_of_ne hle fun hseq => hne ?_
  have hedge := (SlotGraph.mem_edgesOf.1 (mem_viewed.1 ha)).2
  have hedge' := (SlotGraph.mem_edgesOf.1 (mem_viewed.1 hb)).2
  exact h.view_eq hedge hedge' hseq

/-! ### The timeline -/

/-- The edges, oldest first. -/
def timeline (c : Container) : List EdgeView := viewed c.graph.edgeList

theorem mem_timeline {view : EdgeView} :
    view ∈ c.timeline ↔ c.graph.edge? view.id = some view.edge := by
  rw [timeline, mem_viewed, SlotGraph.edgeList, SlotGraph.mem_edgesOf, List.mem_range]
  exact ⟨fun h => h.2, fun h => ⟨SlotGraph.edge?_lt h, h⟩⟩

theorem Timed.pairwise_timeline (h : c.Timed) : c.timeline.Pairwise EdgeView.Before :=
  h.pairwise_viewed List.nodup_range

/-- The timeline is the list of all edges in the order of their making. -/
theorem Timed.timeline_eq (h : c.Timed) {views : List EdgeView}
    (hviews : views.Pairwise EdgeView.Before)
    (hmem : ∀ view, view ∈ views ↔ c.graph.edge? view.id = some view.edge) : c.timeline = views :=
  h.pairwise_timeline.eq_of_mem_iff hviews fun view => by rw [mem_timeline, hmem]

theorem timeline_new (kind : Kind) : (new kind).timeline = [] :=
  (Timed.new kind).timeline_eq .nil fun view => by
    rw [new, SlotGraph.edge?_addNode]
    exact iff_of_false List.not_mem_nil (Option.some_ne_none _).symm

/-- The edges from a node are those of the timeline. -/
theorem Timed.edgesFrom_eq (h : c.Timed) (n : Nat) :
    c.edgesFrom n = c.timeline.filter (·.source == n) := by
  have hmem (view : EdgeView) : view ∈ viewed (c.graph.outgoing n) ↔
      view ∈ c.timeline.filter (·.source == n) := by
    rw [mem_viewed, h.sound.mem_outgoing_iff, List.mem_filter, mem_timeline, beq_iff_eq]
    rfl
  have hviewed : viewed (c.graph.outgoing n) = c.timeline.filter (·.source == n) :=
    (h.pairwise_viewed (h.sound.nodup_outgoing n)).eq_of_mem_iff (h.pairwise_timeline.filter _) hmem
  unfold edgesFrom
  split
  · exact hviewed
  · rename_i hnode
    have hvacant : c.graph.node? n = none := by simpa [SlotGraph.hasNode] using hnode
    rw [← hviewed, SlotGraph.outgoing, SlotGraph.outgoingIds_of_vacant hvacant]
    exact List.mergeSort_nil.symm

/-! ### What changes do to the timeline -/

/-- The container with other nodes. -/
theorem Timed.of_edges (h : c.Timed) {graph : SlotGraph Member Tie} (hsound : graph.Sound)
    (hedges : ∀ e, graph.edge? e = c.graph.edge? e) : { c with graph := graph }.Timed where
  sound := hsound
  seq_lt he := by rw [hedges] at he; exact h.seq_lt he
  seq_inj he he' := by rw [hedges] at he he'; exact h.seq_inj he he'

theorem Timed.timeline_of_edges (h : c.Timed) {graph : SlotGraph Member Tie} (hsound : graph.Sound)
    (hedges : ∀ e, graph.edge? e = c.graph.edge? e) :
    { c with graph := graph }.timeline = c.timeline :=
  (h.of_edges hsound hedges).timeline_eq h.pairwise_timeline fun view => by
    rw [mem_timeline, hedges]

section Connect

variable {source target : Nat}

theorem edge?_connect (h : c.graph.Sound) (label : Label) (data : Option Value) (e : Nat) :
    (c.connect source target label data).2.graph.edge? e =
      if e = (c.connect source target label data).1 then
        some ⟨source, target, label, data, c.nextSeq⟩ else c.graph.edge? e := by
  unfold connect
  dsimp only
  rw [h.edge?_addEdge, SlotGraph.addEdge_fst]

theorem edge?_fst_connect (h : c.graph.Sound) (label : Label) (data : Option Value) :
    c.graph.edge? (c.connect source target label data).1 = none := by
  unfold connect
  dsimp only
  rw [SlotGraph.addEdge_fst, h.edge?_nextEdge]

theorem Timed.connect (h : c.Timed) (hsource : c.graph.hasNode source = true)
    (htarget : c.graph.hasNode target = true) (label : Label) (data : Option Value) :
    (c.connect source target label data).2.Timed where
  sound := h.sound.addEdge hsource htarget _
  seq_lt {e edge} he := by
    rw [edge?_connect h.sound] at he
    split at he
    · cases he
      exact Nat.lt_succ_self _
    · exact Nat.lt_succ_of_lt (h.seq_lt he)
  seq_inj {e e' edge edge'} he he' hseq := by
    rw [edge?_connect h.sound] at he he'
    -- the number of the new edge is larger than all that were given
    split at he <;> split at he'
    · simp_all
    · cases he
      exact absurd hseq (Nat.ne_of_gt (h.seq_lt he'))
    · cases he'
      exact absurd hseq (Nat.ne_of_lt (h.seq_lt he))
    · exact h.seq_inj he he' hseq

/-- A new edge comes last. -/
theorem Timed.timeline_connect (h : c.Timed) (hsource : c.graph.hasNode source = true)
    (htarget : c.graph.hasNode target = true) (label : Label) (data : Option Value) :
    (c.connect source target label data).2.timeline = c.timeline ++
      [⟨(c.connect source target label data).1, source, target, label, data, c.nextSeq⟩] := by
  refine (h.connect hsource htarget label data).timeline_eq ?_ fun view => ?_
  · refine List.pairwise_append.2 ⟨h.pairwise_timeline, List.pairwise_singleton _ _, ?_⟩
    intro a ha b hb
    rw [List.mem_singleton.1 hb]
    exact h.seq_lt (mem_timeline.1 ha)
  · rw [List.mem_append, mem_timeline, List.mem_singleton, edge?_connect h.sound]
    obtain ⟨id, s, t, tie⟩ := view
    constructor
    · rintro (hold | hnew)
      · rw [if_neg]
        · exact hold
        · rintro rfl
          rw [edge?_fst_connect h.sound] at hold
          cases hold
      · cases hnew
        rw [if_pos rfl]
        rfl
    · split
      · rename_i hid
        intro heq
        cases heq
        exact Or.inr (by rw [← hid])
      · exact Or.inl

end Connect

theorem Timed.removeNode (h : c.Timed) (n : Nat) :
    { c with graph := c.graph.removeNode n }.Timed where
  sound := h.sound.removeNode n
  seq_lt he := by
    rw [h.sound.edge?_removeNode, Option.filter_eq_some_iff] at he
    exact h.seq_lt he.1
  seq_inj he he' := by
    rw [h.sound.edge?_removeNode, Option.filter_eq_some_iff] at he he'
    exact h.seq_inj he.1 he'.1

/-- With a node, exactly the edges at it are gone. -/
theorem Timed.timeline_removeNode (h : c.Timed) (n : Nat) :
    { c with graph := c.graph.removeNode n }.timeline =
      c.timeline.filter fun view => view.source != n && view.target != n := by
  refine (h.removeNode n).timeline_eq (h.pairwise_timeline.filter _) fun view => ?_
  rw [List.mem_filter, mem_timeline, h.sound.edge?_removeNode, Option.filter_eq_some_iff]
  rfl

end GraphLang.Container
