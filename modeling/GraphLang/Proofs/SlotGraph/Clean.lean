import GraphLang.Proofs.SlotGraph.Removal
import GraphLang.SlotGraph.Dangling

/-!
# Graphs without loose ends

Where edges were only ever added between nodes, a vacant slot keeps no edge numbers. The chain of
vacant slots is then as the list says, and a new node takes the first of them.
-/

namespace GraphLang.SlotGraph

variable {α β : Type} {g : SlotGraph α β}

/-- Vacant slots keep no edge numbers. -/
def Clean (g : SlotGraph α β) : Prop :=
  ∀ (n : Nat) (slot : Slot α), g.slots[n]? = some slot → slot.weight = none →
    slot = ⟨none, [], []⟩

theorem clean_empty : (empty : SlotGraph α β).Clean := by
  intro n slot hslot
  simp [empty] at hslot

/-! ### The operations -/

theorem Clean.addNode (h : g.Clean) (hsound : g.Sound) (a : α) : (g.addNode a).2.Clean := by
  intro n slot hslot hvacant
  rw [hsound.getElem?_addNode] at hslot
  split at hslot
  · cases hslot
    cases hvacant
  · exact h n slot hslot hvacant

theorem Clean.addEdge (h : g.Clean) {s t : Nat} (hs : g.hasNode s = true)
    (ht : g.hasNode t = true) (b : β) : (g.addEdge s t b).2.Clean := by
  have hlive {n : Nat} (hn : g.hasNode n = true) {slot : Slot α} (hslot : g.slots[n]? = some slot) :
      slot.weight ≠ none := by
    obtain ⟨a, ha⟩ := hasNode_iff.1 hn
    rw [node?_eq, hslot, Option.bind_some] at ha
    simp [ha]
  intro n slot hslot hvacant
  rw [addEdge_slots, getElem?_linkEnds] at hslot
  obtain ⟨old, hold, rfl⟩ := Option.map_eq_some_iff.1 hslot
  have hns : n ≠ s := by
    rintro rfl
    exact hlive hs hold hvacant
  have hnt : n ≠ t := by
    rintro rfl
    exact hlive ht hold hvacant
  rw [if_neg hns, if_neg hnt]
  exact h n old hold hvacant

theorem Clean.removeEdge (h : g.Clean) (e : Nat) : (g.removeEdge e).Clean := by
  unfold SlotGraph.removeEdge
  split
  · exact h
  · intro n slot hslot hvacant
    rw [getElem?_unlinkEnds] at hslot
    obtain ⟨old, hold, rfl⟩ := Option.map_eq_some_iff.1 hslot
    rw [h n old hold hvacant]
    simp

theorem Clean.removeEdges (h : g.Clean) (es : List Nat) :
    (es.foldl SlotGraph.removeEdge g).Clean := by
  induction es generalizing g with
  | nil => exact h
  | cons e es ih => exact ih (h.removeEdge e)

theorem Clean.removeNode (h : g.Clean) (n : Nat) : (g.removeNode n).Clean := by
  cases hn : g.node? n with
  | none => rwa [removeNode_of_vacant hn]
  | some a =>
    intro m slot hslot hvacant
    rw [getElem?_removeNode hn] at hslot
    split at hslot
    · cases hslot
      rfl
    · exact h.removeEdges _ m slot hslot hvacant

theorem Clean.modifyNode (h : g.Clean) (n : Nat) (f : α → α) : (g.modifyNode n f).Clean := by
  intro m slot hslot hvacant
  unfold SlotGraph.modifyNode at hslot
  rw [Array.getElem?_modify] at hslot
  split at hslot
  · obtain ⟨old, hold, rfl⟩ := Option.map_eq_some_iff.1 hslot
    rw [h m old hold (Option.map_eq_none_iff.1 hvacant)]
    rfl
  · exact h m slot hslot hvacant

/-! ### New nodes -/

/-- The chain of vacant slots is in order as it is. -/
theorem Clean.closeChain (h : g.Clean) (hsound : g.Sound) : g.closeChain = g := by
  have hslot {n : Nat} (hn : n ∈ g.vacantNodes) : g.slots[n]? = some ⟨none, [], []⟩ := by
    obtain ⟨hlt, hnone⟩ := hsound.vacant_node n hn
    rw [node?_eq, Array.getElem?_eq_getElem hlt, Option.bind_some] at hnone
    rw [Array.getElem?_eq_getElem hlt, h n _ (Array.getElem?_eq_getElem hlt) hnone]
  unfold SlotGraph.closeChain
  cases hvacant : g.vacantNodes with
  | nil => rfl
  | cons n rest =>
    have hfirst := hslot (hvacant ▸ List.mem_cons_self : n ∈ g.vacantNodes)
    dsimp only
    rw [hfirst]
    cases hrest : rest with
    | nil =>
      subst hrest
      change { g with vacantNodes := [n] } = g
      rw [← hvacant]
    | cons after rest' =>
      have hnext : after ∈ g.vacantNodes := by simp [hvacant, hrest]
      have hsame : g.slots.modify after (fun s => { s with incoming := [] }) = g.slots := by
        refine Array.ext_getElem? fun m => ?_
        rw [Array.getElem?_modify]
        split
        · rename_i heq
          rw [← heq, hslot hnext]
          rfl
        · rfl
      subst hrest
      change { g with
        slots := g.slots.modify after fun s => { s with incoming := [] }
        vacantNodes := n :: after :: rest' } = g
      rw [hsame, ← hvacant]

theorem Clean.occupy (h : g.Clean) (hsound : g.Sound) (a : α) : g.occupy a = g.addNode a := by
  rw [SlotGraph.occupy, h.closeChain hsound]

/-! ### How many slots there are -/

theorem size_addEdge (s t : Nat) (b : β) : (g.addEdge s t b).2.slots.size = g.slots.size := by
  rw [addEdge_slots, linkEnds, Array.size_modify, Array.size_modify]

theorem size_modifyNode (n : Nat) (f : α → α) :
    (g.modifyNode n f).slots.size = g.slots.size := by
  rw [modifyNode, Array.size_modify]

/-- A new node gets a number below the number of slots, which grows for no other number. -/
theorem Sound.size_addNode (h : g.Sound) (a : α) :
    (g.addNode a).2.slots.size = max g.slots.size ((g.addNode a).1 + 1) := by
  unfold SlotGraph.addNode
  split
  · rename_i n rest hvacant
    have hlt := (h.vacant_node n (by simp [hvacant])).1
    simp only [Array.size_setIfInBounds]
    omega
  · simp only [Array.size_push]
    omega

end GraphLang.SlotGraph
