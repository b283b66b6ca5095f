import GraphLang.Proofs.Store.DeepCopy
import Mathlib.Data.List.Forall2

/-!
# Graphs of one shape

Two graphs have the same shape if they have the same slots with the same edge lists, and what their
nodes and edges hold is related place by place. Every operation with related contents keeps that,
and every look-up gives the same numbers.
-/

/-! ### Options -/

namespace Option

variable {α β γ δ : Type} {R R' : α → β → Prop} {S : γ → δ → Prop} {x : Option α} {y : Option β}

theorem Rel.imp (h : Rel R x y) (hR : ∀ {a b}, R a b → R' a b) : Rel R' x y := by
  cases h with
  | some hab => exact .some (hR hab)
  | none => exact .none

theorem Rel.bind (h : Rel R x y) {f : α → Option γ} {g : β → Option δ}
    (hfg : ∀ {a b}, R a b → Rel S (f a) (g b)) : Rel S (x.bind f) (y.bind g) := by
  cases h with
  | some hab => exact hfg hab
  | none => exact .none

theorem Rel.map (h : Rel R x y) {f : α → γ} {g : β → δ} (hfg : ∀ {a b}, R a b → S (f a) (g b)) :
    Rel S (x.map f) (y.map g) := by
  cases h with
  | some hab => exact .some (hfg hab)
  | none => exact .none

theorem Rel.isSome_eq (h : Rel R x y) : y.isSome = x.isSome := by
  cases h <;> rfl

theorem Rel.none_or_some (h : Rel R x y) :
    (x = Option.none ∧ y = Option.none) ∨
      ∃ a b, x = Option.some a ∧ y = Option.some b ∧ R a b := by
  cases h with
  | some hab => exact Or.inr ⟨_, _, rfl, rfl, hab⟩
  | none => exact Or.inl ⟨rfl, rfl⟩

theorem Rel.exists_of_eq_some (h : Rel R x y) {a : α} (ha : x = Option.some a) : ∃ b, R a b := by
  subst ha
  cases h with
  | some hab => exact ⟨_, hab⟩

theorem Rel.of_self {T : α → α → Prop} (h : ∀ a, x = Option.some a → T a a) : Rel T x x := by
  cases x with
  | none => exact .none
  | some a => exact .some (h a rfl)

end Option

/-! ### Lists -/

namespace List

variable {α β γ δ : Type} {R : α → β → Prop} {S : γ → δ → Prop} {xs : List α} {ys : List β}

theorem Forall₂.map (h : Forall₂ R xs ys) {f : α → γ} {g : β → δ}
    (hfg : ∀ {a b}, R a b → S (f a) (g b)) : Forall₂ S (xs.map f) (ys.map g) :=
  rel_map (fun _ _ hab => hfg hab) h

theorem Forall₂.map_eq (h : Forall₂ R xs ys) {f : α → γ} {g : β → γ}
    (hfg : ∀ {a b}, R a b → g b = f a) : ys.map g = xs.map f := by
  induction h with
  | nil => rfl
  | cons hab _ ih => rw [map_cons, map_cons, hfg hab, ih]

theorem Forall₂.filterMap (h : Forall₂ R xs ys) {f : α → Option γ} {g : β → Option δ}
    (hfg : ∀ {a b}, R a b → Option.Rel S (f a) (g b)) :
    Forall₂ S (xs.filterMap f) (ys.filterMap g) :=
  rel_filterMap (fun _ _ hab => hfg hab) h

theorem Forall₂.filterMap_eq (h : Forall₂ R xs ys) {f : α → Option γ} {g : β → Option γ}
    (hfg : ∀ {a b}, R a b → g b = f a) : ys.filterMap g = xs.filterMap f := by
  induction h with
  | nil => rfl
  | cons hab _ ih => rw [filterMap_cons, filterMap_cons, hfg hab, ih]

theorem Forall₂.filter (h : Forall₂ R xs ys) {p : α → Bool} {q : β → Bool}
    (hpq : ∀ {a b}, R a b → q b = p a) : Forall₂ R (xs.filter p) (ys.filter q) :=
  rel_filter (p := p) (q := q) (fun _ _ hab => Bool.eq_iff_iff.1 (hpq hab).symm) h

theorem Forall₂.find? (h : Forall₂ R xs ys) {p : α → Bool} {q : β → Bool}
    (hpq : ∀ {a b}, R a b → q b = p a) : Option.Rel R (xs.find? p) (ys.find? q) := by
  induction h with
  | nil => exact .none
  | cons hab _ ih =>
    rw [find?_cons, find?_cons, hpq hab]
    split
    · exact .some hab
    · exact ih

theorem Forall₂.all_eq (h : Forall₂ R xs ys) {p : α → Bool} {q : β → Bool}
    (hpq : ∀ {a b}, R a b → q b = p a) : ys.all q = xs.all p := by
  induction h with
  | nil => rfl
  | cons hab _ ih => rw [all_cons, all_cons, hpq hab, ih]

theorem Forall₂.head? (h : Forall₂ R xs ys) : Option.Rel R xs.head? ys.head? := by
  cases h with
  | nil => exact .none
  | cons hab _ => exact .some hab

/-- Actions that are the same for related things. -/
theorem Forall₂.mapM_eq {m : Type → Type} [Monad m] [LawfulMonad m] (h : Forall₂ R xs ys)
    {f : α → m γ} {g : β → m γ} (hfg : ∀ {a b}, a ∈ xs → R a b → g b = f a) :
    ys.mapM g = xs.mapM f := by
  induction h with
  | nil => rfl
  | cons hab _ ih =>
    rw [mapM_cons, mapM_cons, hfg mem_cons_self hab, ih fun ha => hfg (mem_cons_of_mem _ ha)]

/-- Sorting looks at the order only. -/
theorem Forall₂.mergeSort (h : Forall₂ R xs ys) {le : α → α → Bool} {le' : β → β → Bool}
    (hle : ∀ {a b a' b'}, R a b → R a' b' → le' b b' = le a a') :
    Forall₂ R (xs.mergeSort le) (ys.mergeSort le') := by
  obtain ⟨hlength, hpairs⟩ := forall₂_iff_zip.1 h
  have hfst : (xs.zip ys).map Prod.fst = xs := map_fst_zip (Nat.le_of_eq hlength)
  have hsnd : (xs.zip ys).map Prod.snd = ys := map_snd_zip (Nat.le_of_eq hlength.symm)
  have hsorted := map_mergeSort (l := xs.zip ys) (r := fun p q => le p.1 q.1) (s := le)
    (f := Prod.fst) fun _ _ _ _ => rfl
  have hsorted' := map_mergeSort (l := xs.zip ys) (r := fun p q => le p.1 q.1) (s := le')
    (f := Prod.snd) fun p hp q hq => (hle (hpairs hp) (hpairs hq)).symm
  rw [hfst] at hsorted
  rw [hsnd] at hsorted'
  rw [← hsorted, ← hsorted', forall₂_map_left_iff, forall₂_map_right_iff, forall₂_same]
  exact fun p hp => hpairs (mem_mergeSort.1 hp)

end List

namespace GraphLang

/-! ### Arrays -/

/-- The arrays are of one size, with related entries. -/
def Entrywise {α β : Type} (R : α → β → Prop) (a : Array α) (b : Array β) : Prop :=
  ∀ i : Nat, Option.Rel R a[i]? b[i]?

namespace Entrywise

variable {α β : Type} {R S : α → β → Prop} {a : Array α} {b : Array β}

theorem mono (h : Entrywise R a b) (hRS : ∀ {x y}, R x y → S x y) : Entrywise S a b := by
  exact fun i => (h i).imp hRS

theorem size_eq (h : Entrywise R a b) : b.size = a.size := by
  have hat (i : Nat) : b.size ≤ i ↔ a.size ≤ i := by
    rw [← Array.getElem?_eq_none_iff, ← Array.getElem?_eq_none_iff]
    obtain ⟨ha, hb⟩ | ⟨x, y, ha, hb, -⟩ := (h i).none_or_some <;> simp [ha, hb]
  exact Nat.le_antisymm ((hat a.size).2 (Nat.le_refl _)) ((hat b.size).1 (Nat.le_refl _))

theorem push (h : Entrywise R a b) {x : α} {y : β} (hxy : R x y) :
    Entrywise R (a.push x) (b.push y) := by
  intro i
  rw [Array.getElem?_push, Array.getElem?_push, h.size_eq]
  split
  · exact .some hxy
  · exact h i

theorem set (h : Entrywise R a b) (n : Nat) {x : α} {y : β} (hxy : R x y) :
    Entrywise R (a.setIfInBounds n x) (b.setIfInBounds n y) := by
  intro i
  rw [Array.getElem?_setIfInBounds, Array.getElem?_setIfInBounds, h.size_eq]
  split
  · split
    · exact .some hxy
    · exact .none
  · exact h i

theorem modify (h : Entrywise R a b) (n : Nat) {f : α → α} {g : β → β}
    (hfg : ∀ {x y}, R x y → R (f x) (g y)) : Entrywise R (a.modify n f) (b.modify n g) := by
  intro i
  rw [Array.getElem?_modify, Array.getElem?_modify]
  split
  · exact (h i).map hfg
  · exact h i

theorem map {γ δ : Type} {T : γ → δ → Prop} (h : Entrywise R a b) {f : α → γ} {g : β → δ}
    (hfg : ∀ {x y}, R x y → T (f x) (g y)) : Entrywise T (a.map f) (b.map g) := by
  intro i
  rw [Array.getElem?_map, Array.getElem?_map]
  exact (h i).map hfg

end Entrywise

/-! ### Graphs -/

variable {α β : Type}

/-- Slots with the same edge lists and related contents. -/
structure Slot.SameShape (R : α → α → Prop) (s s' : Slot α) : Prop where
  weight : Option.Rel R s.weight s'.weight
  outgoing : s'.outgoing = s.outgoing
  incoming : s'.incoming = s.incoming

/-- Edges between the same nodes that carry related things. -/
structure Edge.SameShape (T : β → β → Prop) (e e' : Edge β) : Prop where
  source : e'.source = e.source
  target : e'.target = e.target
  weight : T e.weight e'.weight

namespace SlotGraph

/-- The graphs have the same nodes and edges in the same slots, with related contents. -/
structure SameShape (R : α → α → Prop) (T : β → β → Prop) (g g' : SlotGraph α β) : Prop where
  slots : Entrywise (Slot.SameShape R) g.slots g'.slots
  edges : Entrywise (Option.Rel (Edge.SameShape T)) g.edges g'.edges
  vacantNodes : g'.vacantNodes = g.vacantNodes
  vacantEdges : g'.vacantEdges = g.vacantEdges

/-- The same edge number, and edges of one shape. -/
def NumberedAlike (T : β → β → Prop) (p p' : Nat × Edge β) : Prop :=
  p'.1 = p.1 ∧ p.2.SameShape T p'.2

namespace SameShape

variable {R R' : α → α → Prop} {T T' : β → β → Prop} {g g' : SlotGraph α β}

theorem mono (h : SameShape R T g g') (hR : ∀ {a a'}, R a a' → R' a a')
    (hT : ∀ {b b'}, T b b' → T' b b') : SameShape R' T' g g' where
  slots := h.slots.mono fun hs => ⟨hs.weight.imp hR, hs.outgoing, hs.incoming⟩
  edges := h.edges.mono fun he => he.imp fun he => ⟨he.source, he.target, hT he.weight⟩
  vacantNodes := h.vacantNodes
  vacantEdges := h.vacantEdges

/-- A graph has its own shape where its contents are related to themselves. -/
theorem of_self (hR : ∀ n a, g.node? n = some a → R a a)
    (hT : ∀ e edge, g.edge? e = some edge → T edge.weight edge.weight) : SameShape R T g g where
  slots n := by
    cases hslot : g.slots[n]? with
    | none => exact .none
    | some slot =>
      refine .some ⟨?_, rfl, rfl⟩
      cases hweight : slot.weight with
      | none => exact .none
      | some a => exact .some (hR n a (by rw [node?_eq, hslot]; exact hweight))
  edges e := by
    cases hedge : g.edges[e]? with
    | none => exact .none
    | some place =>
      refine .some ?_
      cases place with
      | none => exact .none
      | some edge => exact .some ⟨rfl, rfl, hT e edge (by rw [edge?_eq, hedge]; rfl)⟩
  vacantNodes := rfl
  vacantEdges := rfl

/-! ### Look-ups -/

theorem node? (h : SameShape R T g g') (n : Nat) : Option.Rel R (g.node? n) (g'.node? n) := by
  rw [node?_eq, node?_eq]
  exact (h.slots n).bind Slot.SameShape.weight

theorem hasNode (h : SameShape R T g g') (n : Nat) : g'.hasNode n = g.hasNode n := by
  exact (h.node? n).isSome_eq

theorem edge? (h : SameShape R T g g') (e : Nat) :
    Option.Rel (Edge.SameShape T) (g.edge? e) (g'.edge? e) := by
  rw [edge?_eq, edge?_eq]
  rw [← Option.bind_id_eq_join, ← Option.bind_id_eq_join]
  exact (h.edges e).bind id

theorem occupied? (h : SameShape R T g g') (n : Nat) :
    Option.Rel (Slot.SameShape R) (g.occupied? n) (g'.occupied? n) := by
  unfold SlotGraph.occupied?
  obtain ⟨hs, hs'⟩ | ⟨s, s', hs, hs', hshape⟩ := (h.slots n).none_or_some <;> rw [hs, hs']
  · exact .none
  · rw [Option.filter_some, Option.filter_some, hshape.weight.isSome_eq]
    split
    · exact .some hshape
    · exact .none

theorem outgoingIds (h : SameShape R T g g') (n : Nat) :
    g'.outgoingIds n = g.outgoingIds n := by
  unfold SlotGraph.outgoingIds
  obtain ⟨hs, hs'⟩ | ⟨s, s', hs, hs', hshape⟩ := (h.occupied? n).none_or_some <;> rw [hs, hs']
  exact hshape.outgoing

theorem incomingIds (h : SameShape R T g g') (n : Nat) :
    g'.incomingIds n = g.incomingIds n := by
  unfold SlotGraph.incomingIds
  obtain ⟨hs, hs'⟩ | ⟨s, s', hs, hs', hshape⟩ := (h.occupied? n).none_or_some <;> rw [hs, hs']
  exact hshape.incoming

theorem edgesOf (h : SameShape R T g g') (ids : List Nat) :
    List.Forall₂ (NumberedAlike T) (g.edgesOf ids) (g'.edgesOf ids) := by
  refine List.rel_filterMap ?_ (List.forall₂_same.2 fun _ _ => rfl)
  rintro e _ rfl
  exact (h.edge? e).map fun he => ⟨rfl, he⟩

theorem outgoing (h : SameShape R T g g') (n : Nat) :
    List.Forall₂ (NumberedAlike T) (g.outgoing n) (g'.outgoing n) := by
  rw [SlotGraph.outgoing, SlotGraph.outgoing, h.outgoingIds]
  exact h.edgesOf _

theorem incoming (h : SameShape R T g g') (n : Nat) :
    List.Forall₂ (NumberedAlike T) (g.incoming n) (g'.incoming n) := by
  rw [SlotGraph.incoming, SlotGraph.incoming, h.incomingIds]
  exact h.edgesOf _

theorem nodeIds (h : SameShape R T g g') : g'.nodeIds = g.nodeIds := by
  rw [SlotGraph.nodeIds, SlotGraph.nodeIds, h.slots.size_eq]
  exact List.filter_congr fun n _ => h.hasNode n

/-! ### Operations -/

theorem empty : SameShape R T (.empty : SlotGraph α β) .empty :=
  ⟨fun _ => .none, fun _ => .none, rfl, rfl⟩

theorem addNode (h : SameShape R T g g') {a a' : α} (ha : R a a') :
    (g'.addNode a').1 = (g.addNode a).1 ∧ SameShape R T (g.addNode a).2 (g'.addNode a').2 := by
  have hslot : Slot.SameShape R ⟨some a, [], []⟩ ⟨some a', [], []⟩ := ⟨.some ha, rfl, rfl⟩
  unfold SlotGraph.addNode
  rw [h.vacantNodes]
  cases g.vacantNodes with
  | nil => exact ⟨h.slots.size_eq, h.slots.push hslot, h.edges, rfl, h.vacantEdges⟩
  | cons n rest => exact ⟨rfl, h.slots.set n hslot, h.edges, rfl, h.vacantEdges⟩

theorem linkEnds (h : SameShape R T g g') (e source target : Nat) :
    Entrywise (Slot.SameShape R) (SlotGraph.linkEnds g.slots e source target)
      (SlotGraph.linkEnds g'.slots e source target) := by
  refine (h.slots.modify source fun hs => ?_).modify target fun hs => ?_
  · exact ⟨hs.weight, by rw [hs.outgoing], hs.incoming⟩
  · exact ⟨hs.weight, hs.outgoing, by rw [hs.incoming]⟩

theorem addEdge (h : SameShape R T g g') (source target : Nat) {b b' : β} (hb : T b b') :
    (g'.addEdge source target b').1 = (g.addEdge source target b).1 ∧
      SameShape R T (g.addEdge source target b).2 (g'.addEdge source target b').2 := by
  have hedge : Option.Rel (Edge.SameShape T) (some ⟨source, target, b⟩)
      (some ⟨source, target, b'⟩) := .some ⟨rfl, rfl, hb⟩
  unfold SlotGraph.addEdge
  rw [h.vacantEdges]
  cases g.vacantEdges with
  | nil =>
    have hsize := h.edges.size_eq
    refine ⟨hsize, ?_, h.edges.push hedge, h.vacantNodes, rfl⟩
    dsimp only
    rw [hsize]
    exact h.linkEnds _ _ _
  | cons e rest => exact ⟨rfl, h.linkEnds _ _ _, h.edges.set e hedge, h.vacantNodes, rfl⟩

theorem removeEdge (h : SameShape R T g g') (e : Nat) :
    SameShape R T (g.removeEdge e) (g'.removeEdge e) := by
  unfold SlotGraph.removeEdge
  obtain ⟨he, he'⟩ | ⟨edge, edge', he, he', hshape⟩ := (h.edge? e).none_or_some <;> rw [he, he']
  · exact h
  · refine ⟨?_, h.edges.set e .none, h.vacantNodes, congrArg (e :: ·) h.vacantEdges⟩
    dsimp only
    rw [hshape.source, hshape.target]
    refine (h.slots.modify _ fun hs => ?_).modify _ fun hs => ?_
    · exact ⟨hs.weight, by rw [hs.outgoing], hs.incoming⟩
    · exact ⟨hs.weight, hs.outgoing, by rw [hs.incoming]⟩

theorem removeEdges (h : SameShape R T g g') (es : List Nat) :
    SameShape R T (es.foldl SlotGraph.removeEdge g) (es.foldl SlotGraph.removeEdge g') := by
  induction es generalizing g g' with
  | nil => exact h
  | cons e es ih => exact ih (h.removeEdge e)

theorem removeNode (h : SameShape R T g g') (n : Nat) :
    SameShape R T (g.removeNode n) (g'.removeNode n) := by
  unfold SlotGraph.removeNode
  obtain ⟨hn, hn'⟩ | ⟨a, a', hn, hn', -⟩ := (h.node? n).none_or_some <;> rw [hn, hn']
  · exact h
  · have hout := h.removeEdges (g.outgoingIds n)
    have hin := hout.removeEdges
      (((g.outgoingIds n).foldl SlotGraph.removeEdge g).incomingIds n)
    dsimp only
    rw [h.outgoingIds, hout.incomingIds]
    exact ⟨hin.slots.set n ⟨.none, rfl, rfl⟩, hin.edges, congrArg (n :: ·) hin.vacantNodes,
      hin.vacantEdges⟩

theorem modifyNode (h : SameShape R T g g') (n : Nat) {f f' : α → α}
    (hf : ∀ {a a'}, R a a' → R (f a) (f' a')) :
    SameShape R T (g.modifyNode n f) (g'.modifyNode n f') where
  slots := h.slots.modify n fun hs => ⟨hs.weight.map hf, hs.outgoing, hs.incoming⟩
  edges := h.edges
  vacantNodes := h.vacantNodes
  vacantEdges := h.vacantEdges

theorem mapNodes (h : SameShape R T g g') {f f' : α → α}
    (hf : ∀ {a a'}, R a a' → R' (f a) (f' a')) :
    SameShape R' T (g.mapNodes f) (g'.mapNodes f') where
  slots := h.slots.map fun hs => ⟨hs.weight.map hf, hs.outgoing, hs.incoming⟩
  edges := h.edges
  vacantNodes := h.vacantNodes
  vacantEdges := h.vacantEdges

end SameShape

/-- New contents of the nodes change nothing about the edges. -/
theorem Sound.mapNodes {g : SlotGraph α β} (h : g.Sound) (f : α → α) : (g.mapNodes f).Sound where
  mem_outgoing n e := by rw [outgoingIds_mapNodes]; exact h.mem_outgoing n e
  mem_incoming n e := by rw [incomingIds_mapNodes]; exact h.mem_incoming n e
  nodup_outgoing n := by rw [outgoingIds_mapNodes]; exact h.nodup_outgoing n
  nodup_incoming n := by rw [incomingIds_mapNodes]; exact h.nodup_incoming n
  vacant_node n hn := by
    obtain ⟨hlt, hnone⟩ := h.vacant_node n hn
    rw [node?_mapNodes, hnone]
    simpa [SlotGraph.mapNodes] using hlt
  nodup_vacantNodes := h.nodup_vacantNodes
  vacant_edge := h.vacant_edge
  nodup_vacantEdges := h.nodup_vacantEdges

end SlotGraph

end GraphLang
