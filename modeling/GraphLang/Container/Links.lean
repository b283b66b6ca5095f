import GraphLang.Container.Basic
import GraphLang.Search
import Std.Data.HashMap.Lemmas
import Std.Data.HashSet.Lemmas

/-!
# Searching the links of a container

Which members can be reached along links, and whether the links form a cycle. Both searches keep a
stack of nodes to visit. A node that is visited for the first time puts what its links lead to on
the stack, so the links of nodes that are not visited yet bound what may still come.
-/

namespace GraphLang.Container

/-- The nodes that links from this one lead to, newest link first. -/
def linkTargets (c : Container) (node : Nat) : List Nat :=
  (c.graph.outgoing node).filterMap fun (_, edge) =>
    if edge.weight.label.isLink then some edge.target else none

/-- How many links start at nodes that have not been visited. -/
def openLinks (c : Container) (visited : Nat → Bool) : Nat :=
  ((List.range c.graph.slots.size).flatMap fun n =>
    if visited n then [] else c.linkTargets n).length

theorem linkTargets_of_size_le {c : Container} {n : Nat} (h : c.graph.slots.size ≤ n) :
    c.linkTargets n = [] := by
  have hslot : c.graph.slots[n]? = none := Array.getElem?_eq_none h
  simp [linkTargets, SlotGraph.outgoing, SlotGraph.outgoingIds, SlotGraph.occupied?,
    SlotGraph.edgesOf, hslot]

/-- Joined lists lose what one of them loses. -/
theorem length_flatMap_range_without {f g : Nat → List Nat} {n : Nat} (hn : g n = [])
    (hg : ∀ m, m ≠ n → g m = f m) (k : Nat) :
    ((List.range k).flatMap g).length + (if n < k then (f n).length else 0) =
      ((List.range k).flatMap f).length := by
  induction k with
  | zero => rfl
  | succ k ih =>
    rw [List.range_succ, List.flatMap_append, List.flatMap_append, List.length_append,
      List.length_append, ← ih, List.flatMap_singleton, List.flatMap_singleton]
    by_cases hk : n = k
    · subst hk
      simp [hn]
    · have hlt : n < k + 1 ↔ n < k := by omega
      simp only [hg k (Ne.symm hk), hlt]
      omega

/-- Visiting a node closes its links. -/
theorem openLinks_visit (c : Container) {visited : Nat → Bool} (visited' : Nat → Bool) {n : Nat}
    (hn : visited n = false) (hvisited : ∀ m, visited' m = (n == m || visited m)) :
    c.openLinks visited' + (c.linkTargets n).length = c.openLinks visited := by
  have hother (m : Nat) (hm : m ≠ n) : visited' m = visited m := by
    rw [hvisited, beq_eq_false_iff_ne.2 (Ne.symm hm), Bool.false_or]
  have hlength := length_flatMap_range_without
    (f := fun m => if visited m then [] else c.linkTargets m)
    (g := fun m => if visited' m then [] else c.linkTargets m) (n := n)
    (by simp [hvisited]) (fun m hm => by simp [hother m hm]) c.graph.slots.size
  rw [openLinks, openLinks, ← hlength]
  by_cases hlt : n < c.graph.slots.size
  · simp [hlt, hn]
  · simp [hlt, linkTargets_of_size_le (Nat.le_of_not_lt hlt)]

/-! ### Paths -/

/-- How far a search for a path has come. -/
structure PathState where
  /-- The nodes to visit, the next one first. -/
  stack : List Nat
  /-- The nodes visited. -/
  seen : Std.HashSet Nat

/-- Takes a node off the stack. The search is over if that is the target. What the links of a node
lead to is put on the stack when the node is visited for the first time. -/
def PathState.turn (c : Container) (target : Nat) (s : PathState) : Turn PathState :=
  match s.stack with
  | [] => .over false
  | n :: stack =>
    if n == target then .over true
    else if s.seen.contains n then .on { s with stack := stack }
    else .on ⟨(c.linkTargets n).reverse ++ stack, s.seen.insert n⟩

/-- The nodes on the stack and the links that may yet be put there. -/
def PathState.budget (c : Container) (s : PathState) : Nat :=
  s.stack.length + c.openLinks s.seen.contains

theorem PathState.budget_turn {c : Container} {target : Nat} {s t : PathState}
    (h : s.turn c target = .on t) : t.budget c < s.budget c := by
  obtain ⟨stack, seen⟩ := s
  cases stack with
  | nil => cases h
  | cons n stack =>
    unfold turn at h
    dsimp only at h
    split at h
    · cases h
    · split at h
      · cases h
        simp only [budget, List.length_cons]
        omega
      · next hn =>
        cases h
        have hopen := c.openLinks_visit (seen.insert n).contains
          (Bool.eq_false_iff.2 hn) fun m => Std.HashSet.contains_insert
        simp only [budget, List.length_append, List.length_reverse, List.length_cons]
        omega

/-- Only the source is to be visited. -/
def PathState.start (source : Nat) : PathState := ⟨[source], ∅⟩

/-- The search for a path to a node. -/
def pathSearch (c : Container) (target : Nat) : Search PathState where
  turn := PathState.turn c target
  budget := PathState.budget c
  spends := PathState.budget_turn

/-- Whether a path of links, perhaps an empty one, leads from one node to another. -/
def linkPath (c : Container) (source target : Nat) : Bool :=
  (c.pathSearch target).run (.start source)

/-! ### Cycles -/

/-- What a search for a cycle knows about a node that it has visited. -/
inductive Mark where
  /-- What can be reached from the node is being searched. -/
  | active
  /-- That search is over. -/
  | done
deriving DecidableEq

/-- How far a search for a cycle has come. -/
structure CycleState where
  /-- The members to start from. -/
  starts : List Nat
  /-- The nodes to visit, and those whose search is over when they come up again, the next one
  first. -/
  stack : List (Nat × Bool)
  /-- The marks of the nodes visited. -/
  marks : Std.HashMap Nat Mark

/-- Puts the nodes without a mark on the stack, one after the other. Gives nothing if one of the
nodes is active. -/
def pushUnmarked (marks : Std.HashMap Nat Mark) :
    List Nat → List (Nat × Bool) → Option (List (Nat × Bool))
  | [], stack => some stack
  | n :: rest, stack =>
    match marks[n]? with
    | some .active => none
    | some .done => pushUnmarked marks rest stack
    | none => pushUnmarked marks rest ((n, false) :: stack)

/-- Takes a node off the stack, or the next member where it is empty. -/
def CycleState.turn (c : Container) (s : CycleState) : Turn CycleState :=
  match s.stack with
  | [] =>
    match s.starts with
    | [] => .over false
    | n :: starts =>
      if s.marks.contains n then .on { s with starts := starts }
      else .on { s with starts := starts, stack := [(n, false)] }
  | (n, true) :: stack => .on { s with stack := stack, marks := s.marks.insert n .done }
  | (n, false) :: stack =>
    if s.marks.contains n then .on { s with stack := stack }
    else
      let marks := s.marks.insert n .active
      match pushUnmarked marks (c.linkTargets n) ((n, true) :: stack) with
      | none => .over true
      | some stack => .on { s with stack := stack, marks := marks }

/-- Turns that entries of the stack are good for: one more where a node is yet to be visited. -/
def turnsFor : List (Nat × Bool) → Nat
  | [] => 0
  | (_, true) :: stack => turnsFor stack + 1
  | (_, false) :: stack => turnsFor stack + 2

theorem turnsFor_pushUnmarked {marks : Std.HashMap Nat Mark} {targets : List Nat}
    {stack stack' : List (Nat × Bool)} (h : pushUnmarked marks targets stack = some stack') :
    turnsFor stack' ≤ turnsFor stack + 2 * targets.length := by
  induction targets generalizing stack with
  | nil =>
    cases h
    exact Nat.le_add_right _ _
  | cons n targets ih =>
    unfold pushUnmarked at h
    rw [List.length_cons]
    split at h
    · cases h
    · have := ih h
      omega
    · have := ih h
      rw [turnsFor] at this
      omega

/-- Marking a node opens no links. -/
theorem openLinks_insert_le (c : Container) (marks : Std.HashMap Nat Mark) (n : Nat) (mark : Mark) :
    c.openLinks (marks.insert n mark).contains ≤ c.openLinks marks.contains := by
  cases hn : marks.contains n with
  | false =>
    have hopen := c.openLinks_visit (marks.insert n mark).contains hn fun m =>
      Std.HashMap.contains_insert
    omega
  | true =>
    have hsame : (marks.insert n mark).contains = marks.contains := by
      funext m
      rw [Std.HashMap.contains_insert]
      by_cases hm : n = m
      · rw [← hm, hn, Bool.or_true]
      · rw [beq_eq_false_iff_ne.2 hm, Bool.false_or]
    exact Nat.le_of_eq (congrArg c.openLinks hsame)

/-- The turns that are left at most: for members, for the stack, and for what may yet go there. -/
def CycleState.budget (c : Container) (s : CycleState) : Nat :=
  3 * s.starts.length + turnsFor s.stack + 2 * c.openLinks s.marks.contains

theorem CycleState.budget_turn {c : Container} {s t : CycleState} (h : s.turn c = .on t) :
    t.budget c < s.budget c := by
  obtain ⟨starts, stack, marks⟩ := s
  unfold turn at h
  dsimp only at h
  split at h
  · split at h
    · cases h
    · split at h
      · cases h
        simp only [budget, List.length_cons]
        omega
      · cases h
        simp only [budget, turnsFor, List.length_cons]
        omega
  · next n stack =>
    cases h
    have hopen := c.openLinks_insert_le marks n .done
    simp only [budget, turnsFor]
    omega
  · next n stack =>
    split at h
    · cases h
      simp [budget, turnsFor]
    · next hn =>
      split at h
      · cases h
      · next stack' hpush =>
        cases h
        have hopen := c.openLinks_visit (marks.insert n .active).contains
          (Bool.eq_false_iff.2 hn) fun m => Std.HashMap.contains_insert
        have hstack := turnsFor_pushUnmarked hpush
        simp only [budget, turnsFor] at hstack ⊢
        omega

/-- No member has been started from. -/
def CycleState.start (c : Container) : CycleState := ⟨c.members, [], ∅⟩

/-- The search for a cycle of links. -/
def cycleSearch (c : Container) : Search CycleState where
  turn := CycleState.turn c
  budget := CycleState.budget c
  spends := CycleState.budget_turn

/-- Whether a node that links reach from some member lies on a cycle of links. -/
def hasLinkCycle (c : Container) : Bool := c.cycleSearch.run (.start c)

end GraphLang.Container
