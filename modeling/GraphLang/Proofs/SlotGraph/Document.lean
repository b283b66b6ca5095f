import GraphLang.SlotGraph.Document
import GraphLang.Proofs.Json.Reading
import GraphLang.Proofs.SlotGraph.Sound
import Mathlib.Data.List.Nodup

/-!
# Graphs from documents

A graph that was read has the nodes and edges of its document at their places. Its edge lists are
made anew, so they are those of its edges unless an edge starts or ends at a vacant slot. A graph
that is written can be read if its nodes can and if no edge starts or ends at a vacant slot behind
all nodes, since those are not written. A sound graph has then the same nodes and edges under the
same numbers, but the edges of a node may stand in another order.
-/

namespace GraphLang.SlotGraph

variable {α β : Type} {g : SlotGraph α β}

/-! ### Linking the edges of a list -/

/-- The numbers, counted from `e`, of the edges that have the node on the given side, the last one
first. -/
def numbersAt (side : Edge β → Nat) (m : Nat) : Nat → List (Option (Edge β)) → List Nat
  | _, [] => []
  | e, none :: rest => numbersAt side m (e + 1) rest
  | e, some edge :: rest => numbersAt side m (e + 1) rest ++ if side edge = m then [e] else []

theorem mem_numbersAt {side : Edge β → Nat} {m e i : Nat} {edges : List (Option (Edge β))} :
    i ∈ numbersAt side m e edges ↔
      e ≤ i ∧ ∃ edge, edges[i - e]?.join = some edge ∧ side edge = m := by
  induction edges generalizing e with
  | nil => simp [numbersAt]
  | cons x edges ih =>
    have hstep : (e + 1 ≤ i ∧ ∃ edge, edges[i - (e + 1)]?.join = some edge ∧ side edge = m) ↔
        e ≠ i ∧ e ≤ i ∧ ∃ edge, (x :: edges)[i - e]?.join = some edge ∧ side edge = m := by
      by_cases hlt : e < i
      · have hsub : i - e = i - (e + 1) + 1 := by omega
        rw [hsub, List.getElem?_cons_succ]
        exact ⟨fun h => ⟨by omega, by omega, h.2⟩, fun h => ⟨hlt, h.2.2⟩⟩
      · exact ⟨fun h => absurd h.1 hlt, fun h => by omega⟩
    cases x with
    | none =>
      rw [numbersAt, ih, hstep]
      refine ⟨fun h => h.2, fun h => ⟨?_, h⟩⟩
      rintro rfl
      simp at h
    | some edge =>
      rw [numbersAt, List.mem_append, ih, hstep]
      by_cases hi : e = i
      · subst hi
        by_cases hside : side edge = m <;> simp [hside]
      · have hnot : i ∉ if side edge = m then [e] else [] := by
          split <;> simp [Ne.symm hi]
        simp [hi, hnot]

theorem nodup_numbersAt (side : Edge β → Nat) (m e : Nat) (edges : List (Option (Edge β))) :
    (numbersAt side m e edges).Nodup := by
  induction edges generalizing e with
  | nil => exact List.nodup_nil
  | cons x edges ih =>
    cases x with
    | none => exact ih (e + 1)
    | some edge =>
      refine List.nodup_append.2 ⟨ih (e + 1), by split <;> simp, ?_⟩
      rintro i hi j hj rfl
      have hlt := (mem_numbersAt.1 hi).1
      have heq : i = e := by
        split at hj
        · exact List.mem_singleton.1 hj
        · cases hj
      omega

/-- Linking puts the numbers of the edges at a node in front of its lists. -/
theorem linkAll_eq {edges : List (Option (Edge β))} {e : Nat} {slots slots' : Array (Slot α)}
    (h : linkAll e edges slots = some slots') :
    slots'.size = slots.size ∧ ∀ m : Nat, slots'[m]? = slots[m]?.map fun slot =>
      { slot with
        outgoing := numbersAt (·.source) m e edges ++ slot.outgoing
        incoming := numbersAt (·.target) m e edges ++ slot.incoming } := by
  induction edges generalizing e slots with
  | nil =>
    cases h
    exact ⟨rfl, fun m => by simp [numbersAt]⟩
  | cons x edges ih =>
    cases x with
    | none => exact ih h
    | some edge =>
      rw [linkAll] at h
      split at h
      · obtain ⟨hsize, hslots⟩ := ih h
        refine ⟨hsize.trans (by simp [linkEnds]), fun m => ?_⟩
        rw [hslots, getElem?_linkEnds, Option.map_map]
        congr 1
        funext slot
        by_cases hs : edge.source = m <;> by_cases ht : edge.target = m <;>
          simp [numbersAt, hs, ht, eq_comm (a := m)]
      · cases h

/-- Edges are linked exactly if all their ends are slots. -/
theorem linkAll_isSome_iff {edges : List (Option (Edge β))} (e : Nat) (slots : Array (Slot α)) :
    (linkAll e edges slots).isSome ↔
      ∀ edge, some edge ∈ edges → edge.source < slots.size ∧ edge.target < slots.size := by
  induction edges generalizing e slots with
  | nil => simp [linkAll]
  | cons x edges ih =>
    cases x with
    | none => simp [linkAll, ih]
    | some edge =>
      rw [linkAll]
      by_cases hends : edge.source < slots.size ∧ edge.target < slots.size
      · have hsize : (linkEnds slots e edge.source edge.target).size = slots.size := by
          simp [linkEnds]
        simp [hends, ih, hsize]
      · have hnot : (edge.source < slots.size && edge.target < slots.size) = false := by
          simpa using hends
        simp [hnot, hends]

/-! ### A graph with given slots -/

theorem mem_vacancies {γ : Type} {slots : List (Option γ)} {i : Nat} :
    i ∈ vacancies slots ↔ i < slots.length ∧ slots[i]?.join = none := by
  rw [vacancies, List.mem_reverse, List.mem_filter, List.mem_range]
  refine and_congr_right fun hi => ?_
  rw [List.getElem?_eq_getElem hi]
  simp

theorem nodup_vacancies {γ : Type} (slots : List (Option γ)) : (vacancies slots).Nodup :=
  List.nodup_reverse.2 (List.nodup_range.filter _)

section OfSlots

variable {nodes : List (Option α)} {edges : List (Option (Edge β))}

theorem ofSlots_eq (h : ofSlots nodes edges = some g) :
    g.slots.size = nodes.length ∧ g.edges = edges.toArray ∧ g.vacantNodes = vacancies nodes ∧
      g.vacantEdges = vacancies edges ∧ ∀ m : Nat, g.slots[m]? = nodes[m]?.map fun a =>
        ⟨a, numbersAt (·.source) m 0 edges, numbersAt (·.target) m 0 edges⟩ := by
  obtain ⟨slots, hlink, rfl⟩ := Option.map_eq_some_iff.1 h
  obtain ⟨hsize, hslots⟩ := linkAll_eq hlink
  refine ⟨by simpa using hsize, rfl, rfl, rfl, fun m => ?_⟩
  rw [hslots, List.getElem?_toArray, List.getElem?_map, Option.map_map]
  simp [Function.comp_def]

theorem node?_ofSlots (h : ofSlots nodes edges = some g) (n : Nat) :
    g.node? n = nodes[n]?.join := by
  rw [node?_eq, (ofSlots_eq h).2.2.2.2]
  cases nodes[n]? <;> rfl

theorem edge?_ofSlots (h : ofSlots nodes edges = some g) (e : Nat) :
    g.edge? e = edges[e]?.join := by
  rw [edge?_eq, (ofSlots_eq h).2.1, List.getElem?_toArray]

/-- An end of an edge that was read is a slot, perhaps a vacant one. -/
theorem ends_ofSlots (h : ofSlots nodes edges = some g) {e : Nat} {edge : Edge β}
    (hedge : g.edge? e = some edge) :
    edge.source < g.slots.size ∧ edge.target < g.slots.size := by
  obtain ⟨slots, hlink, -⟩ := Option.map_eq_some_iff.1 h
  rw [edge?_ofSlots h, Option.join_eq_some_iff] at hedge
  have hends := (linkAll_isSome_iff 0 _).1 (Option.isSome_of_eq_some hlink) edge
    (List.mem_of_getElem? hedge)
  rw [(ofSlots_eq h).1]
  simpa using hends

theorem exists_ofSlots (nodes : List (Option α)) (edges : List (Option (Edge β)))
    (h : ∀ edge, some edge ∈ edges → edge.source < nodes.length ∧ edge.target < nodes.length) :
    ∃ g, ofSlots nodes edges = some g := by
  have hlink := (linkAll_isSome_iff 0
    (nodes.map fun w => (⟨w, [], []⟩ : Slot α)).toArray).2 (by simpa using h)
  obtain ⟨slots, hslots⟩ := Option.isSome_iff_exists.1 hlink
  exact ⟨_, Option.map_eq_some_iff.2 ⟨slots, hslots, rfl⟩⟩

/-- A node that was read lists its edges, those with the highest number first. -/
theorem ids_ofSlots (h : ofSlots nodes edges = some g) {n : Nat} (hn : g.hasNode n = true) :
    g.outgoingIds n = numbersAt (·.source) n 0 edges ∧
      g.incomingIds n = numbersAt (·.target) n 0 edges := by
  obtain ⟨a, ha⟩ := hasNode_iff.1 hn
  rw [node?_ofSlots h, Option.join_eq_some_iff] at ha
  rw [outgoingIds_eq, incomingIds_eq, (ofSlots_eq h).2.2.2.2, ha]
  exact ⟨rfl, rfl⟩

/-- A graph that was read is sound if no edge starts or ends at a vacant slot. -/
theorem sound_ofSlots (h : ofSlots nodes edges = some g)
    (hends : ∀ e edge, g.edge? e = some edge →
      g.hasNode edge.source = true ∧ g.hasNode edge.target = true) : g.Sound := by
  have hmem (side : Edge β → Nat) (n e : Nat) :
      e ∈ numbersAt side n 0 edges ↔ ∃ edge, g.edge? e = some edge ∧ side edge = n := by
    simp [mem_numbersAt, edge?_ofSlots h]
  obtain ⟨hsize, hedges, hnodes, hvacant, -⟩ := ofSlots_eq h
  constructor
  case mem_outgoing =>
    intro n e
    by_cases hn : g.hasNode n = true
    · rw [(ids_ofSlots h hn).1, hmem]
    · have hnone : g.node? n = none := by simpa [hasNode] using hn
      rw [outgoingIds_of_vacant hnone]
      refine ⟨fun he => absurd he List.not_mem_nil, ?_⟩
      rintro ⟨edge, hedge, rfl⟩
      exact absurd (hends e edge hedge).1 hn
  case mem_incoming =>
    intro n e
    by_cases hn : g.hasNode n = true
    · rw [(ids_ofSlots h hn).2, hmem]
    · have hnone : g.node? n = none := by simpa [hasNode] using hn
      rw [incomingIds_of_vacant hnone]
      refine ⟨fun he => absurd he List.not_mem_nil, ?_⟩
      rintro ⟨edge, hedge, rfl⟩
      exact absurd (hends e edge hedge).2 hn
  case nodup_outgoing =>
    intro n
    by_cases hn : g.hasNode n = true
    · rw [(ids_ofSlots h hn).1]
      exact nodup_numbersAt ..
    · rw [outgoingIds_of_vacant (by simpa [hasNode] using hn)]
      exact List.nodup_nil
  case nodup_incoming =>
    intro n
    by_cases hn : g.hasNode n = true
    · rw [(ids_ofSlots h hn).2]
      exact nodup_numbersAt ..
    · rw [incomingIds_of_vacant (by simpa [hasNode] using hn)]
      exact List.nodup_nil
  case vacant_node =>
    intro n hn
    rw [hnodes, mem_vacancies] at hn
    rwa [hsize, node?_ofSlots h]
  case nodup_vacantNodes => exact hnodes ▸ nodup_vacancies nodes
  case vacant_edge =>
    intro e he
    rw [hvacant, mem_vacancies] at he
    rw [edge?_ofSlots h, hedges]
    exact he
  case nodup_vacantEdges => exact hvacant ▸ nodup_vacancies edges

end OfSlots

/-! ### Places of nodes -/

/-- A content in front takes the first place, unless that is a hole. -/
theorem placeNodes_cons {total n : Nat} (a : α) (contents : List α) {holes : List Nat}
    (h : ∀ i ∈ holes, n < i) :
    placeNodes total n (a :: contents) holes =
      (placeNodes total (n + 1) contents holes).map (some a :: ·) := by
  cases holes with
  | nil => rfl
  | cons i holes =>
    have hi : n < i := h i List.mem_cons_self
    have hsub : i - n = i - (n + 1) + 1 := by omega
    by_cases htotal : i < total
    · have hhere : (decide (n ≤ i) && decide (i < total)) = true := by simp [htotal]; omega
      have hnext : (decide (n + 1 ≤ i) && decide (i < total)) = true := by simp [htotal]; omega
      rw [placeNodes, placeNodes, if_pos hhere, if_pos hnext, hsub, List.take_succ_cons,
        List.drop_succ_cons]
      cases placeNodes total (i + 1) (contents.drop (i - (n + 1))) holes <;> rfl
    · rw [placeNodes, placeNodes, if_neg (by simp [htotal]), if_neg (by simp [htotal])]
      rfl

/-- The contents of places in a row, and the holes among them, give back the places. -/
theorem placeNodes_range (f : Nat → Option α) (total n k : Nat) (h : n + k ≤ total) :
    placeNodes total n ((List.range' n k).filterMap f)
      ((List.range' n k).filter fun i => (f i).isNone) = some ((List.range' n k).map f) := by
  induction k generalizing n with
  | zero => rfl
  | succ k ih =>
    have hrest := ih (n + 1) (by omega)
    rw [List.range'_succ]
    cases hf : f n with
    | some a =>
      rw [List.filterMap_cons_some hf, List.filter_cons_of_neg (by simp [hf]), placeNodes_cons,
        hrest, List.map_cons, hf]
      · rfl
      · intro i hi
        have := List.left_le_of_mem_range' (List.mem_of_mem_filter hi)
        omega
    | none =>
      rw [List.filterMap_cons_none hf, List.filter_cons_of_pos (by simp [hf]), placeNodes,
        if_pos (by simp; omega), Nat.sub_self, List.take_zero, List.drop_zero, hrest,
        List.map_cons, hf]
      rfl

theorem length_places (f : Nat → Option α) (l : List Nat) :
    (l.filterMap f).length + (l.filter fun i => (f i).isNone).length = l.length := by
  induction l with
  | nil => rfl
  | cons n l ih =>
    cases hf : f n with
    | some a =>
      rw [List.filterMap_cons_some hf, List.filter_cons_of_neg (by simp [hf])]
      simp only [List.length_cons]
      omega
    | none =>
      rw [List.filterMap_cons_none hf, List.filter_cons_of_pos (by simp [hf])]
      simp only [List.length_cons]
      omega

/-- The contents of places come from the list. -/
theorem mem_of_placeNodes {total n : Nat} {contents : List α} {holes : List Nat}
    {slots : List (Option α)} (h : placeNodes total n contents holes = some slots) {a : α}
    (ha : some a ∈ slots) : a ∈ contents := by
  induction holes generalizing n contents slots with
  | nil =>
    cases h
    simpa using ha
  | cons i holes ih =>
    rw [placeNodes] at h
    split_ifs at h
    obtain ⟨rest, hrest, h⟩ := Option.bind_eq_some_iff.1 h
    cases h
    rcases List.mem_append.1 ha with ha | ha
    · obtain ⟨b, hb, heq⟩ := List.mem_map.1 ha
      cases heq
      exact List.mem_of_mem_take hb
    · exact List.mem_of_mem_drop (ih hrest (by simpa using ha))

open Json in
/-- A graph that is read is made of slots, and what is in them was read. -/
theorem ensures_decode {node : Json → Option α} {edge : Json → Option β} {P : α → Prop}
    {Q : β → Prop} (hnode : ∀ d, Ensures P (node d)) (hedge : ∀ d, Ensures Q (edge d)) (d : Json) :
    Ensures (fun g => ∃ nodes edges, ofSlots nodes edges = some g ∧ (∀ a, some a ∈ nodes → P a) ∧
      ∀ found, some found ∈ edges → Q found.weight) (decode node edge d) := by
  have hslot (d : Json) : Ensures (fun found => ∀ e, found = some e → Q e.weight)
      (decodeEdge edge d) := by
    unfold decodeEdge
    split
    · exact ensures_some nofun
    · refine ensures_bind fun _ _ => ensures_bind fun _ _ => ensures_bind fun w hw => ensures_some ?_
      rintro _ ⟨⟩
      exact hedge _ w hw
    · exact ensures_none
  unfold decode
  refine ensures_bind fun fields _ => ?_
  split
  · refine ensures_bind fun nodes hnodes => ensures_bind fun holes _ => ensures_bind fun _ _ => ?_
    dsimp only
    split
    · split
      · refine ensures_bind fun edges hedges => ensures_bind fun slots hslots => ?_
        refine fun g hg => ⟨slots, edges, hg, fun a ha => ?_, fun found hfound => ?_⟩
        · exact ensures_list hnode _ nodes hnodes a (mem_of_placeNodes hslots ha)
        · exact ensures_list hslot _ edges hedges _ hfound found rfl
      · exact ensures_none
    · exact ensures_none
  · exact ensures_none

/-! ### Bounds -/

theorem edgeBound_eq : g.edgeBound =
    ((((List.range g.edges.size).filter fun e => (g.edge? e).isSome).getLast?).map (· + 1)).getD 0 := by
  rw [edgeBound, edgeList, ← map_fst_edgesOf, List.getLast?_map, Option.map_map]
  rfl

theorem lt_edgeBound {e : Nat} {edge : Edge β} (h : g.edge? e = some edge) : e < g.edgeBound := by
  rw [edgeBound_eq]
  exact lt_last_succ (edge?_lt h) (by simp [h])

/-- Beyond a bound there is nothing to find. -/
theorem filterMap_range_eq {f : Nat → Option α} {k b : Nat} (hb : b ≤ k)
    (hf : ∀ n a, f n = some a → n < b) :
    (List.range k).filterMap f = (List.range' 0 b).filterMap f := by
  obtain ⟨j, rfl⟩ := Nat.exists_eq_add_of_le hb
  have hrest : (List.range' (0 + b) j).filterMap f = [] := by
    refine List.filterMap_eq_nil_iff.2 fun n hn => ?_
    cases hfn : f n with
    | none => rfl
    | some a =>
      have hlt := hf n a hfn
      have hle := List.left_le_of_mem_range' hn
      omega
  rw [List.range_eq_range', ← List.range'_append_1, List.filterMap_append, hrest,
    List.append_nil]

/-! ### Writing and reading -/

theorem Sound.ends_lt_nodeBound (h : g.Sound) {e : Nat} {edge : Edge β}
    (hedge : g.edge? e = some edge) : edge.source < g.nodeBound ∧ edge.target < g.nodeBound := by
  obtain ⟨a, ha⟩ := hasNode_iff.1 (h.hasNode_source hedge)
  obtain ⟨b, hb⟩ := hasNode_iff.1 (h.hasNode_target hedge)
  exact ⟨lt_nodeBound ha, lt_nodeBound hb⟩

/-- A sound graph is made anew from its slots. -/
theorem Sound.exists_ofSlots (hsound : g.Sound) :
    ∃ h, ofSlots ((List.range' 0 g.nodeBound).map g.node?) ((List.range g.edgeBound).map g.edge?) =
        some h ∧
      h.Sound ∧ (∀ n, h.node? n = g.node? n) ∧ ∀ e, h.edge? e = g.edge? e := by
  obtain ⟨h, hslots⟩ := SlotGraph.exists_ofSlots ((List.range' 0 g.nodeBound).map g.node?)
    ((List.range g.edgeBound).map g.edge?) (by
      intro edge hmem
      obtain ⟨e, -, he⟩ := List.mem_map.1 hmem
      simpa using hsound.ends_lt_nodeBound he)
  have hnode? (n : Nat) : h.node? n = g.node? n := by
    rw [node?_ofSlots hslots, List.getElem?_map]
    by_cases hn : n < g.nodeBound
    · simp [hn]
    · have hnone : g.node? n = none := by
        cases hfound : g.node? n with
        | none => rfl
        | some a => exact absurd (lt_nodeBound hfound) hn
      simp [hn, hnone]
  have hedge? (e : Nat) : h.edge? e = g.edge? e := by
    rw [edge?_ofSlots hslots, List.getElem?_map]
    by_cases he : e < g.edgeBound
    · simp [he]
    · have hnone : g.edge? e = none := by
        cases hfound : g.edge? e with
        | none => rfl
        | some edge => exact absurd (lt_edgeBound hfound) he
      simp [he, hnone]
  refine ⟨h, hslots, sound_ofSlots hslots fun e edge he => ?_, hnode?, hedge?⟩
  rw [hedge?] at he
  simp only [hasNode, hnode?]
  exact ⟨hsound.hasNode_source he, hsound.hasNode_target he⟩

section RoundTrip

variable {writeNode : α → Json} {readNode : Json → Option α} {writeEdge : β → Json}
  {readEdge : Json → Option β} {again : α → Option α} {k : Nat}

open Json in
theorem readsAs_nodes
    (hnode : ∀ n a, g.node? n = some a → ReadsAs readNode k (writeNode a) (again a)) :
    ReadsAs (toList? readNode) (k + 1) (.arr (g.nodes.map fun n => writeNode n.2))
      (((List.range' 0 g.nodeBound).filterMap g.node?).mapM again) := by
  have hcontents : (g.nodes.map fun n => writeNode n.2) =
      ((List.range' 0 g.nodeBound).filterMap g.node?).map writeNode := by
    rw [← filterMap_range_eq nodeBound_le fun n a => lt_nodeBound, nodes, List.map_filterMap,
      List.map_filterMap]
    simp [Function.comp_def]
  rw [hcontents]
  refine readsAs_list fun a ha => ?_
  obtain ⟨n, -, hn⟩ := List.mem_filterMap.1 ha
  exact hnode n a hn

open Json in
theorem readsAs_holes (hsize : g.slots.size ≤ UInt32.size) :
    ReadsAs (toList? toNat32?) (k + 2)
      (.arr (((List.range g.nodeBound).filter fun n => !g.hasNode n).map Json.nat))
      (some ((List.range' 0 g.nodeBound).filter fun n => (g.node? n).isNone)) := by
  have hvacant : (fun n => !g.hasNode n) = fun n => (g.node? n).isNone := by
    funext n
    cases hn : g.node? n <;> simp [hasNode, hn]
  rw [hvacant, ← List.range_eq_range', ← mapM_eq_self fun _ _ => rfl]
  refine readsAs_list fun n hn => readsAs_nat32 ?_
  have hlt := List.mem_range.1 (List.mem_of_mem_filter hn)
  exact Nat.lt_of_lt_of_le hlt (Nat.le_trans nodeBound_le hsize)

/-- What an edge slot is written as. -/
def writtenEdge (writeEdge : β → Json) : Option (Edge β) → Json
  | some edge => .arr [.nat edge.source, .nat edge.target, writeEdge edge.weight]
  | none => .null

open Json in
theorem readsAs_writtenEdge {found : Option (Edge β)}
    (h : ∀ edge, found = some edge → edge.source < UInt32.size ∧ edge.target < UInt32.size ∧
      ReadsAs readEdge (k + 1) (writeEdge edge.weight) (some edge.weight)) :
    ReadsAs (decodeEdge readEdge) (k + 2) (writtenEdge writeEdge found) (some found) := by
  cases found with
  | none => exact ⟨rfl, shallow_null⟩
  | some edge =>
    obtain ⟨hsource, htarget, hweight⟩ := h edge rfl
    have hsource : ReadsAs toNat32? (k + 1) _ _ := readsAs_nat32 hsource
    have htarget : ReadsAs toNat32? (k + 1) _ _ := readsAs_nat32 htarget
    refine ⟨?_, ?_⟩
    · simp only [writtenEdge, reread, rereadItems, decodeEdge]
      rw [hsource.read, htarget.read, hweight.read]
      rfl
    · simp [writtenEdge, hsource.shallow, htarget.shallow, hweight.shallow]

open Json in
theorem readsAs_edges
    (hedge : ∀ e edge, g.edge? e = some edge → edge.source < UInt32.size ∧
      edge.target < UInt32.size ∧
      ReadsAs readEdge (k + 1) (writeEdge edge.weight) (some edge.weight)) :
    ReadsAs (toList? (decodeEdge readEdge)) (k + 3)
      (.arr (((List.range g.edgeBound).map g.edge?).map (writtenEdge writeEdge)))
      (some ((List.range g.edgeBound).map g.edge?)) := by
  rw [← mapM_eq_self fun _ _ => rfl]
  refine readsAs_list fun found hfound => readsAs_writtenEdge fun edge heq => ?_
  obtain ⟨e, -, he⟩ := List.mem_map.1 hfound
  exact hedge e edge (he.trans heq)

/-- The numbers of the graph fit into words, and its nodes and edges may be written; the text of a
node reads as the node again if it is read at all. -/
structure Writable (writeNode : α → Json) (readNode : Json → Option α) (writeEdge : β → Json)
    (readEdge : Json → Option β) (again : α → Option α) (k : Nat) (g : SlotGraph α β) : Prop where
  /-- The numbers of slots fit. -/
  size : g.slots.size ≤ UInt32.size
  /-- The nodes may be written. -/
  node : ∀ n a, g.node? n = some a → Json.ReadsAs readNode (k + 2) (writeNode a) (again a)
  /-- The ends of edges fit, and what edges carry reads back. -/
  edge : ∀ e edge, g.edge? e = some edge → edge.source < UInt32.size ∧
    edge.target < UInt32.size ∧
    Json.ReadsAs readEdge (k + 1) (writeEdge edge.weight) (some edge.weight)

namespace Writable

variable (h : Writable writeNode readNode writeEdge readEdge again k g)

include h

open Json in
/-- The text of a graph is read part by part. -/
theorem readsAs : ReadsAs (SlotGraph.decode readNode readEdge) (k + 4)
    (g.encode writeNode writeEdge)
    ((((List.range' 0 g.nodeBound).filterMap g.node?).mapM again).bind fun contents =>
      (placeNodes (contents.length +
          ((List.range' 0 g.nodeBound).filter fun n => (g.node? n).isNone).length) 0 contents
        ((List.range' 0 g.nodeBound).filter fun n => (g.node? n).isNone)).bind fun slots =>
      ofSlots slots ((List.range g.edgeBound).map g.edge?)) := by
  have hnodes := readsAs_nodes h.node
  have hholes : ReadsAs _ (k + 3) _ _ := readsAs_holes h.size
  have hedges := readsAs_edges h.edge
  have hencode : g.encode writeNode writeEdge = .obj
      [("nodes", .arr (g.nodes.map fun n => writeNode n.2)),
        ("node_holes", .arr (((List.range g.nodeBound).filter fun n => !g.hasNode n).map Json.nat)),
        ("edge_property", .str "directed"),
        ("edges", .arr (((List.range g.edgeBound).map g.edge?).map (writtenEdge writeEdge)))] := by
    rw [List.map_map]
    rfl
  rw [hencode]
  refine ⟨?_, ?_⟩
  · have hfields (nodes holes edges : Json) : (Json.obj [("nodes", nodes),
        ("node_holes", holes), ("edge_property", .str "directed"), ("edges", edges)]).reread.fields?
          [⟨"nodes", false⟩, ⟨"node_holes", true⟩, ⟨"edge_property", false⟩, ⟨"edges", false⟩] =
        some [some nodes.reread, some holes.reread, some (.str "directed"), some edges.reread] := rfl
    unfold SlotGraph.decode
    dsimp only
    rw [hfields]
    simp only [Option.bind_eq_bind, Option.bind_some, Option.getD_some, hnodes.read, hholes.read,
      hedges.read, variant?, isUnit, if_true]
  · simp only [shallow_obj, List.forall_mem_cons]
    exact ⟨hnodes.shallow, hholes.shallow, shallow_str _, hedges.shallow, List.forall_mem_nil _⟩

/-- If every node can be read, the graph is made anew from what the nodes read as. -/
theorem decode_of_all {f : α → α} (hall : ∀ n a, g.node? n = some a → again a = some (f a)) :
    SlotGraph.decode readNode readEdge (g.encode writeNode writeEdge).reread =
      ofSlots ((List.range' 0 g.nodeBound).map fun n => (g.node? n).map f)
        ((List.range g.edgeBound).map g.edge?) := by
  have hcontents : ((List.range' 0 g.nodeBound).filterMap g.node?).mapM again =
      some ((List.range' 0 g.nodeBound).filterMap fun n => (g.node? n).map f) := by
    rw [← List.map_filterMap]
    refine Json.mapM_eq_map fun a ha => ?_
    obtain ⟨n, -, hn⟩ := List.mem_filterMap.1 ha
    exact hall n a hn
  have hholes : (fun n => (g.node? n).isNone) = fun n => ((g.node? n).map f).isNone := by
    simp
  have hlength := length_places (fun n => (g.node? n).map f) (List.range' 0 g.nodeBound)
  rw [List.length_range'] at hlength
  have hplace := placeNodes_range (fun n => (g.node? n).map f) g.nodeBound 0 g.nodeBound (by omega)
  rw [h.readsAs.read, hcontents, hholes, Option.bind_some, hlength, hplace, Option.bind_some]

/-- The text of a graph can be read exactly if all its nodes can and no edge starts or ends behind
all nodes. -/
theorem isSome_decode :
    (SlotGraph.decode readNode readEdge (g.encode writeNode writeEdge).reread).isSome ↔
      (∀ n a, g.node? n = some a → (again a).isSome) ∧
        ∀ e edge, g.edge? e = some edge → edge.source < g.nodeBound ∧ edge.target < g.nodeBound := by
  have hends : (ofSlots ((List.range' 0 g.nodeBound).map fun n =>
      (g.node? n).map fun a => (again a).getD a) ((List.range g.edgeBound).map g.edge?)).isSome ↔
        ∀ e edge, g.edge? e = some edge → edge.source < g.nodeBound ∧ edge.target < g.nodeBound := by
    rw [ofSlots, Option.isSome_map, linkAll_isSome_iff]
    simp only [List.mem_map, List.mem_range, List.size_toArray, List.length_map, List.length_range']
    constructor
    · intro hall e edge he
      exact hall edge ⟨e, lt_edgeBound he, he⟩
    · rintro hall edge ⟨e, -, he⟩
      exact hall e edge he
  have hdecode (hall : ∀ n a, g.node? n = some a → (again a).isSome) :=
    h.decode_of_all (f := fun a => (again a).getD a) fun n a ha => by
      obtain ⟨b, hb⟩ := Option.isSome_iff_exists.1 (hall n a ha)
      rw [hb, Option.getD_some]
  constructor
  · intro hsome
    have hall : ∀ n a, g.node? n = some a → (again a).isSome := by
      intro n a ha
      rw [h.readsAs.read] at hsome
      refine Json.isSome_mapM_iff.1 (Option.isSome_of_isSome_bind hsome) a
        (List.mem_filterMap.2 ⟨n, ?_, ha⟩)
      simpa using lt_nodeBound ha
    rw [hdecode hall, hends] at hsome
    exact ⟨hall, hsome⟩
  · rintro ⟨hall, hbounds⟩
    rw [hdecode hall, hends]
    exact hbounds

end Writable

end RoundTrip

end GraphLang.SlotGraph
