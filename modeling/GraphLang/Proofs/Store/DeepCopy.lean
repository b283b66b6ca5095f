import GraphLang.Proofs.Container.Roster
import GraphLang.Proofs.Store.Copying
import Mathlib.Data.List.Permutation
import Mathlib.Logic.Relation

/-!
# What a deep copy is

A deep copy of a container, put into the store, leads to new containers only. Each of them comes
from a container that the original leads to, and is like it but for being unfrozen and for the
containers in its nodes: these come from those in the nodes of the other one, and two nodes hold the
same new container exactly where they held the same old one. So cycles become cycles, and what was
shared is shared again.
-/

namespace GraphLang

open Relation (ReflTransGen TransGen)

/-! ### New contents of all nodes -/

namespace SlotGraph

variable {α β : Type} {g : SlotGraph α β} (f : α → α)

@[simp] theorem node?_mapNodes (n : Nat) : (g.mapNodes f).node? n = (g.node? n).map f := by
  rw [node?_eq, node?_eq, mapNodes, Array.getElem?_map]
  cases g.slots[n]? <;> rfl

@[simp] theorem edge?_mapNodes (e : Nat) : (g.mapNodes f).edge? e = g.edge? e := rfl

@[simp] theorem outgoingIds_mapNodes (n : Nat) :
    (g.mapNodes f).outgoingIds n = g.outgoingIds n := by
  rw [outgoingIds_eq, outgoingIds_eq, mapNodes, Array.getElem?_map]
  rcases g.slots[n]? with _ | ⟨_ | _, _, _⟩ <;> rfl

@[simp] theorem incomingIds_mapNodes (n : Nat) :
    (g.mapNodes f).incomingIds n = g.incomingIds n := by
  rw [incomingIds_eq, incomingIds_eq, mapNodes, Array.getElem?_map]
  rcases g.slots[n]? with _ | ⟨_ | _, _, _⟩ <;> rfl

theorem mem_nodes {n : Nat} {a : α} : (n, a) ∈ g.nodes ↔ g.node? n = some a := by
  unfold nodes
  rw [List.mem_filterMap]
  constructor
  · rintro ⟨m, -, hm⟩
    obtain ⟨b, hb, heq⟩ := Option.map_eq_some_iff.1 hm
    cases heq
    exact hb
  · intro h
    exact ⟨n, List.mem_range.2 (node?_lt h), by rw [h]; rfl⟩

end SlotGraph

/-- A value that becomes a container was one. -/
theorem Value.moved_eq_graph {f : GraphId → GraphId} {v : Value} {h : GraphId}
    (heq : v.moved f = .graph h) : ∃ g, v = .graph g ∧ f g = h := by
  cases v with
  | graph g => exact ⟨g, rfl, Value.graph.inj heq⟩
  | _ => cases heq

/-- A container that is unfrozen and like another one, but for the containers that its nodes hold:
they come from those that the nodes of the other one hold. -/
structure Container.CopyOf (origin : GraphId → GraphId) (c d : Container) : Prop where
  /-- It is of the same kind. -/
  kind : c.kind = d.kind
  /-- It has the same rules. -/
  rules : c.rules = d.rules
  /-- As many edges were made. -/
  nextSeq : c.nextSeq = d.nextSeq
  /-- It is not frozen. -/
  mutable : c.frozen = false
  /-- It has the same edges, with the same ends, labels, data and numbers. -/
  edge : ∀ e, c.graph.edge? e = d.graph.edge? e
  /-- The same edges start at each node. -/
  outgoing : ∀ n, c.graph.outgoingIds n = d.graph.outgoingIds n
  /-- The same edges end at each node. -/
  incoming : ∀ n, c.graph.incomingIds n = d.graph.incomingIds n
  /-- Nodes to come take the same numbers. -/
  vacantNodes : c.graph.slots.size = d.graph.slots.size ∧ c.graph.vacantNodes = d.graph.vacantNodes
  /-- Edges to come take the same numbers. -/
  vacantEdges : c.graph.edges.size = d.graph.edges.size ∧ c.graph.vacantEdges = d.graph.vacantEdges
  /-- It has the same nodes, with the same notes and values. -/
  node : ∀ n, d.graph.node? n =
    (c.graph.node? n).map fun m => { m with value := m.value.moved origin }

namespace Store

variable {s : Store} {g h x y z n : Nat}

/-! ### What nodes lead to -/

/-- The node of the first container holds the second one. -/
def NestsAt (s : Store) (g : GraphId) (n : Nat) (h : GraphId) : Prop :=
  (s.get g).value? n = some (.graph h)

/-- A node of the first container holds the second one. -/
def Nests (s : Store) (g h : GraphId) : Prop := ∃ n, s.NestsAt g n h

/-- A node holds one container at most. -/
theorem NestsAt.eq (hx : s.NestsAt g n x) (hy : s.NestsAt g n y) : x = y :=
  Value.graph.inj (Option.some.inj (hx.symm.trans hy))

theorem NestsAt.lt (hnests : s.NestsAt g n h) : g < s.graphs.size := by
  by_contra hge
  rw [NestsAt, Store.get, Array.getElem?_eq_none (Nat.le_of_not_lt hge), Option.getD_none,
    Container.value?, Container.new, SlotGraph.sound_empty.node?_addNode] at hnests
  split at hnests <;> cases hnests

/-- The container leads to whatever is copied along. -/
theorem reached_of_mem_nested (hmem : h ∈ s.nested (s.get g)) : TransGen s.Nests g h :=
  forall_mem_nested (Q := TransGen s.Nests g) (fun _ hx => .single (mem_payloadGraphs.1 hx))
    (fun _ hx _ hy => hx.tail (mem_payloadGraphs.1 hy)) h hmem

/-- The containers that are copied along are those that the container leads to. -/
theorem mem_nested : h ∈ s.nested (s.get g) ↔ TransGen s.Nests g h := by
  refine ⟨reached_of_mem_nested, fun hpath => ?_⟩
  induction hpath with
  | single hnests => exact mem_nested_of_held (mem_payloadGraphs.2 hnests)
  | tail _ hnests ih => exact mem_nested_of_mem ih (mem_payloadGraphs.2 hnests)

/-! ### A copy in the store -/

/-- A deep copy of a container, put into the store after the copies it leads to. -/
def duplicate (s : Store) (g : GraphId) : GraphId × Store :=
  let (copy, t) := s.deepCopy (s.get g)
  t.alloc copy

/-- The container that a new one was copied from. -/
def origin (s : Store) (g x : GraphId) : GraphId :=
  (s.nested (s.get g) ++ [g])[x - s.graphs.size]?.getD g

/-- The new container that takes the place of one that is copied along. -/
abbrev fresh (s : Store) (g : GraphId) : GraphId → GraphId :=
  freshId s.graphs.size (s.nested (s.get g))

theorem duplicate_graphs (s : Store) (g : GraphId) : (s.duplicate g).2.graphs = s.graphs ++
    ((s.nested (s.get g) ++ [g]).map fun h =>
      renamed s.graphs.size (s.nested (s.get g)) (s.get h)).toArray := by
  rw [duplicate, deepCopy_eq]
  simp [alloc]

theorem duplicate_fst (s : Store) (g : GraphId) :
    (s.duplicate g).1 = s.graphs.size + (s.nested (s.get g)).length := by
  rw [duplicate, deepCopy_eq]
  simp [alloc]

theorem size_duplicate (s : Store) (g : GraphId) :
    (s.duplicate g).2.graphs.size = s.graphs.size + (s.nested (s.get g)).length + 1 := by
  rw [duplicate_graphs]
  simp [Nat.add_assoc]

/-- What was there before the copy is there as it was. -/
theorem getElem?_duplicate_of_lt (hlt : h < s.graphs.size) :
    (s.duplicate g).2.graphs[h]? = s.graphs[h]? := by
  rw [duplicate_graphs, Array.getElem?_append_left hlt]

theorem get_duplicate_of_le (hle : s.graphs.size ≤ x) (hlt : x < (s.duplicate g).2.graphs.size) :
    (s.duplicate g).2.get x =
      renamed s.graphs.size (s.nested (s.get g)) (s.get (s.origin g x)) := by
  have hindex : x - s.graphs.size < (s.nested (s.get g) ++ [g]).length := by
    rw [size_duplicate] at hlt
    rw [List.length_append, List.length_singleton]
    omega
  unfold Store.get origin
  rw [duplicate_graphs, Array.getElem?_append_right hle, List.getElem?_toArray, List.getElem?_map]
  rw [List.getElem?_eq_getElem hindex]
  rfl

theorem origin_duplicate (s : Store) (g : GraphId) : s.origin g (s.duplicate g).1 = g := by
  unfold origin
  rw [duplicate_fst]
  simp

/-- The new container in the place of another one comes from that one. -/
theorem origin_fresh (hmem : h ∈ s.nested (s.get g)) : s.origin g (s.fresh g h) = h := by
  have hlt := List.idxOf_lt_length_of_mem hmem
  unfold origin fresh freshId
  rw [Nat.add_sub_cancel_left, List.getElem?_append_left hlt, List.getElem?_eq_getElem hlt,
    List.getElem_idxOf]
  rfl

/-- What takes the place of a container is new. -/
theorem fresh_bounds (s : Store) (g h : GraphId) :
    s.graphs.size ≤ s.fresh g h ∧ s.fresh g h < (s.duplicate g).2.graphs.size := by
  rw [size_duplicate]
  unfold fresh freshId
  exact ⟨Nat.le_add_right _ _, Nat.lt_succ_of_le (Nat.add_le_add_left List.idxOf_le_length _)⟩

/-- A new container is the copy itself or stands in the place of one that is copied along. -/
theorem eq_or_fresh (hle : s.graphs.size ≤ x) (hlt : x < (s.duplicate g).2.graphs.size) :
    x = (s.duplicate g).1 ∨ ∃ h ∈ s.nested (s.get g), x = s.fresh g h := by
  rw [size_duplicate] at hlt
  rw [duplicate_fst]
  obtain hlt | heq := Nat.lt_succ_iff_lt_or_eq.1 hlt
  · refine Or.inr ?_
    have hindex : x - s.graphs.size < (s.nested (s.get g)).length := by omega
    refine ⟨_, List.getElem_mem hindex, ?_⟩
    unfold fresh freshId
    rw [(nodup_nested s _).idxOf_getElem]
    omega
  · exact Or.inl heq

/-! ### What the copy leads to -/

theorem value?_renamed (base : Nat) (sources : List GraphId) (c : Container) (n : Nat) :
    (renamed base sources c).value? n = (c.value? n).map (Value.moved (freshId base sources)) := by
  unfold Container.value? renamed
  rw [SlotGraph.node?_mapNodes, Option.map_map, Option.map_map]
  rfl

/-- A new container comes from one that the original leads to. -/
theorem reached_origin (hle : s.graphs.size ≤ x) (hlt : x < (s.duplicate g).2.graphs.size) :
    ReflTransGen s.Nests g (s.origin g x) := by
  obtain rfl | ⟨h, hmem, rfl⟩ := eq_or_fresh hle hlt
  · rw [origin_duplicate]
  · rw [origin_fresh hmem]
    exact (reached_of_mem_nested hmem).to_reflTransGen

/-- What a container that is copied holds is copied along. -/
theorem origin_fresh_of_nests (hle : s.graphs.size ≤ x)
    (hlt : x < (s.duplicate g).2.graphs.size) (hnests : s.Nests (s.origin g x) z) :
    s.origin g (s.fresh g z) = z :=
  origin_fresh (mem_nested.2 (.tail' (reached_origin hle hlt) hnests))

/-- What a node of a new container holds stands in the place of what the node held before. -/
theorem nestsAt_duplicate (hle : s.graphs.size ≤ x) (hlt : x < (s.duplicate g).2.graphs.size) :
    (s.duplicate g).2.NestsAt x n y ↔ ∃ z, s.NestsAt (s.origin g x) n z ∧ s.fresh g z = y := by
  unfold NestsAt
  rw [get_duplicate_of_le hle hlt, value?_renamed, Option.map_eq_some_iff]
  constructor
  · rintro ⟨value, hvalue, hmoved⟩
    obtain ⟨z, rfl, hz⟩ := Value.moved_eq_graph hmoved
    exact ⟨z, hvalue, hz⟩
  · rintro ⟨z, hz, rfl⟩
    exact ⟨.graph z, hz, rfl⟩

theorem duplicate_bounds (s : Store) (g : GraphId) :
    s.graphs.size ≤ (s.duplicate g).1 ∧ (s.duplicate g).1 < (s.duplicate g).2.graphs.size := by
  rw [size_duplicate, duplicate_fst]
  exact ⟨Nat.le_add_right _ _, Nat.lt_succ_self _⟩

/-- Steps along which the nodes of new containers lead go from the copy to new containers only. -/
theorem new_of_path {R : GraphId → GraphId → Prop}
    (hR : ∀ x y, s.graphs.size ≤ x → x < (s.duplicate g).2.graphs.size → R x y →
      (s.duplicate g).2.Nests x y) (hpath : ReflTransGen R (s.duplicate g).1 x) :
    s.graphs.size ≤ x ∧ x < (s.duplicate g).2.graphs.size := by
  induction hpath with
  | refl => exact s.duplicate_bounds g
  | tail _ hstep ih =>
    obtain ⟨n, hnests⟩ := hR _ _ ih.1 ih.2 hstep
    obtain ⟨z, -, rfl⟩ := (nestsAt_duplicate ih.1 ih.2).1 hnests
    exact s.fresh_bounds g z

/-- The copy leads to all new containers. -/
theorem reached_of_new (hle : s.graphs.size ≤ x)
    (hlt : x < (s.duplicate g).2.graphs.size) :
    ReflTransGen (s.duplicate g).2.Nests (s.duplicate g).1 x := by
  -- A path from the original to what is copied along has a copy as well.
  have hcopied {h : GraphId} (hpath : TransGen s.Nests g h) :
      ReflTransGen (s.duplicate g).2.Nests (s.duplicate g).1 (s.fresh g h) := by
    induction hpath with
    | @single h hnests =>
      obtain ⟨n, hnests⟩ := hnests
      obtain ⟨hle, hlt⟩ := s.duplicate_bounds g
      refine .single ⟨n, (nestsAt_duplicate hle hlt).2 ⟨h, ?_, rfl⟩⟩
      rwa [origin_duplicate]
    | @tail x y hpath hnests ih =>
      obtain ⟨n, hnests⟩ := hnests
      obtain ⟨hle, hlt⟩ := s.fresh_bounds g x
      refine ih.tail ⟨n, (nestsAt_duplicate hle hlt).2 ⟨y, ?_, rfl⟩⟩
      rwa [origin_fresh (mem_nested.2 hpath)]
  obtain rfl | ⟨h, hmem, rfl⟩ := eq_or_fresh hle hlt
  · exact .refl
  · exact hcopied (reached_of_mem_nested hmem)

/-- Each new container is a copy of the one that it comes from. -/
theorem copyOf_duplicate (hle : s.graphs.size ≤ x)
    (hlt : x < (s.duplicate g).2.graphs.size) :
    ((s.duplicate g).2.get x).CopyOf (s.origin g) (s.get (s.origin g x)) := by
  rw [get_duplicate_of_le hle hlt]
  refine ⟨rfl, rfl, rfl, rfl, fun e => rfl, SlotGraph.outgoingIds_mapNodes _,
    SlotGraph.incomingIds_mapNodes _, ⟨Array.size_map .., rfl⟩, ⟨rfl, rfl⟩, fun n => ?_⟩
  unfold renamed
  rw [SlotGraph.node?_mapNodes, Option.map_map]
  cases hnode : (s.get (s.origin g x)).graph.node? n with
  | none => rfl
  | some m =>
    obtain ⟨value, notes⟩ := m
    cases value with
    | graph z =>
      have hnests : s.Nests (s.origin g x) z := ⟨n, by rw [NestsAt, Container.value?, hnode]; rfl⟩
      have hback := origin_fresh_of_nests hle hlt hnests
      simp [Member.moved, hback]
    | _ => rfl

end Store

/-! ### The copy -/

/-- A deep copy of a container, put into the store, leaves all containers as they were and leads to
exactly the new ones. Each of these comes from a container that the original leads to, and is an
unfrozen copy of it: it has the same kind, rules, edges, nodes, notes and values, with new
containers in the place of those that the nodes of the original one hold. Two nodes hold the same
new container exactly where they held the same container before. Making the copy goes no deeper than
there are containers. -/
theorem deep_copy_faithful (s : Store) (g : GraphId) :
    let copy := s.deepCopy (s.get g)
    let r := (copy.2.alloc copy.1).1
    let u := (copy.2.alloc copy.1).2
    (∀ h < s.graphs.size, u.graphs[h]? = s.graphs[h]?) ∧
    u.graphs[r]? = some copy.1 ∧
    (∀ x, ReflTransGen u.Nests r x ↔ s.graphs.size ≤ x ∧ x < u.graphs.size) ∧
    (∃ origin : GraphId → GraphId, origin r = g ∧
      (∀ x, s.graphs.size ≤ x → x < u.graphs.size →
        ReflTransGen s.Nests g (origin x) ∧ (u.get x).CopyOf origin (s.get (origin x))) ∧
      ∀ x n y x' n' y', s.graphs.size ≤ x → s.graphs.size ≤ x' →
        u.NestsAt x n y → u.NestsAt x' n' y' →
        (y = y' ↔ ∃ z, s.NestsAt (origin x) n z ∧ s.NestsAt (origin x') n' z)) ∧
    ∀ depth, s.graphs.size < depth →
      let made := Store.copyWith (Store.copyNested s.graphs.size depth) (s.get g) ⟨s, ∅⟩
      made.1 = copy.1 ∧ made.2.store = copy.2 := by
  intro copy r u
  refine ⟨fun h hlt => Store.getElem?_duplicate_of_lt hlt, Array.getElem?_push_size,
    fun x => ⟨Store.new_of_path fun _ _ _ _ h => h,
      fun hnew => Store.reached_of_new hnew.1 hnew.2⟩,
    ⟨s.origin g, s.origin_duplicate g, fun x hle hlt =>
      ⟨Store.reached_origin hle hlt, Store.copyOf_duplicate hle hlt⟩, ?_⟩, fun depth hdepth => ?_⟩
  · intro x n y x' n' y' hle hle' hnests hnests'
    obtain ⟨z, hz, rfl⟩ := (Store.nestsAt_duplicate hle hnests.lt).1 hnests
    obtain ⟨z', hz', rfl⟩ := (Store.nestsAt_duplicate hle' hnests'.lt).1 hnests'
    constructor
    · intro heq
      have hback := Store.origin_fresh_of_nests hle hnests.lt ⟨n, hz⟩
      rw [heq, Store.origin_fresh_of_nests hle' hnests'.lt ⟨n', hz'⟩] at hback
      exact ⟨z, hz, hback ▸ hz'⟩
    · rintro ⟨w, hw, hw'⟩
      rw [hz.eq hw, hz'.eq hw']
  · exact Prod.mk.inj (s.deepCopy_fuel (s.get g) hdepth).symm

/-- A list that holds itself, and another list twice. -/
def knot : Store := ⟨#[.ofElements [.graph 0, .graph 1, .graph 1], .ofElements []], 0⟩

/-- A copy of the list holds one new list twice. -/
theorem knot_copied :
    let copy := knot.deepCopy (knot.get 0)
    let r := (copy.2.alloc copy.1).1
    let u := (copy.2.alloc copy.1).2
    ∃ y, 2 ≤ y ∧ u.NestsAt r 2 y ∧ u.NestsAt r 3 y := by
  intro copy r u
  obtain ⟨-, -, hnew, ⟨origin, horigin, hcopies, hshared⟩, -⟩ := deep_copy_faithful knot 0
  obtain ⟨hle, hlt⟩ := (hnew r).1 .refl
  obtain ⟨-, hcopy⟩ := hcopies r hle hlt
  have hholds (n : Nat) (hn : knot.NestsAt 0 n 1) : ∃ y, u.NestsAt r n y := by
    obtain ⟨m, hm, hvalue⟩ := Option.map_eq_some_iff.1 hn
    have hnode := hcopy.node n
    rw [horigin, hm] at hnode
    obtain ⟨m', hm', rfl⟩ := Option.map_eq_some_iff.1 hnode.symm
    obtain ⟨y, hy, -⟩ := Value.moved_eq_graph hvalue
    exact ⟨y, by rw [Store.NestsAt, Container.value?, hm', Option.map_some, hy]⟩
  have htwo : knot.NestsAt 0 2 1 := by cbv
  have hthree : knot.NestsAt 0 3 1 := by cbv
  obtain ⟨y, hy⟩ := hholds 2 htwo
  obtain ⟨y', hy'⟩ := hholds 3 hthree
  obtain rfl := (hshared r 2 y r 3 y' hle hle hy hy').2 ⟨1, by rwa [horigin], by rwa [horigin]⟩
  exact ⟨y, ((hnew y).1 (.single ⟨2, hy⟩)).1, hy, hy'⟩

end GraphLang
