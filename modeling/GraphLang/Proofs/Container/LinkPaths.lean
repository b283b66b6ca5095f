import GraphLang.Container.Links
import GraphLang.Proofs.Container.Model
import GraphLang.Proofs.Search
import Mathlib.Logic.Relation

/-!
# Paths along links

The searches along the links of a container find exactly what paths of links lead to, whatever
nodes and edges the container has: `linkPath` decides whether there is a path, and `hasLinkCycle`
whether a path from some member comes to a cycle.

That follows from what each turn keeps. The search for a path has visited nodes that the source
leads to, and what comes after them is visited or on the stack. The search for a cycle has the nodes
of one path active, each of them below the ones that come after it, although other entries of the
stack may be about the same node.
-/

namespace GraphLang.Container

open Relation (ReflTransGen TransGen)

variable {c : Container} {source target n m : Nat}

/-- The search looks from the first node to the second one. -/
def Next (c : Container) (n m : Nat) : Prop := m ∈ c.linkTargets n

/-! ### The search for a path -/

/-- A search for a path is under way. -/
structure PathState.Underway (c : Container) (source target : Nat) (s : PathState) : Prop where
  /-- The search starts at the source. -/
  started : source ∈ s.seen ∨ source ∈ s.stack
  /-- The nodes on the stack can be reached from it. -/
  reached : ∀ n ∈ s.stack, ReflTransGen c.Next source n
  /-- What comes after a visited node is visited or on the stack. -/
  closed : ∀ n ∈ s.seen, ∀ m, c.Next n m → m ∈ s.seen ∨ m ∈ s.stack
  /-- The target has not been visited. -/
  missed : target ∉ s.seen

/-- Nothing has been visited yet. -/
theorem PathState.Underway.start (source target : Nat) :
    (PathState.start source).Underway c source target where
  started := Or.inr (List.mem_singleton_self source)
  reached n hn := by rw [List.mem_singleton.1 hn]
  closed n hn := absurd hn Std.HashSet.not_mem_empty
  missed := Std.HashSet.not_mem_empty

theorem PathState.Underway.turn {s t : PathState} (h : s.Underway c source target)
    (hturn : s.turn c target = .on t) : t.Underway c source target := by
  obtain ⟨stack, seen⟩ := s
  unfold PathState.turn at hturn
  cases stack with
  | nil => cases hturn
  | cons n stack =>
    dsimp only at hturn
    split at hturn
    · cases hturn
    · next htarget =>
      rw [beq_iff_eq] at htarget
      split at hturn
      · next hseen =>
        -- the node was visited before
        cases hturn
        have hpassed {m : Nat} (hm : m ∈ seen ∨ m ∈ n :: stack) : m ∈ seen ∨ m ∈ stack := by
          obtain hm | hm := hm
          · exact Or.inl hm
          · obtain rfl | hm := List.mem_cons.1 hm
            · exact Or.inl hseen
            · exact Or.inr hm
        exact ⟨hpassed h.started, fun m hm => h.reached m (List.mem_cons_of_mem n hm),
          fun m hm k hk => hpassed (h.closed m hm k hk), h.missed⟩
      · cases hturn
        have hpassed {m : Nat} (hm : m ∈ seen ∨ m ∈ n :: stack) :
            m ∈ seen.insert n ∨ m ∈ (c.linkTargets n).reverse ++ stack := by
          rw [Std.HashSet.mem_insert, beq_iff_eq, List.mem_append]
          obtain hm | hm := hm
          · exact Or.inl (Or.inr hm)
          · obtain rfl | hm := List.mem_cons.1 hm
            · exact Or.inl (Or.inl rfl)
            · exact Or.inr (Or.inr hm)
        refine ⟨hpassed h.started, fun m hm => ?_, fun m hm k hk => ?_, fun hmem => ?_⟩
        · obtain hm | hm := List.mem_append.1 hm
          · exact (h.reached n List.mem_cons_self).tail (List.mem_reverse.1 hm)
          · exact h.reached m (List.mem_cons_of_mem n hm)
        · obtain heq | hm := Std.HashSet.mem_insert.1 hm
          · rw [← beq_iff_eq.1 heq] at hk
            exact Or.inr (List.mem_append_left _ (List.mem_reverse.2 hk))
          · exact hpassed (h.closed m hm k hk)
        · obtain heq | hmem := Std.HashSet.mem_insert.1 hmem
          · exact htarget (beq_iff_eq.1 heq)
          · exact h.missed hmem

theorem PathState.Underway.answer {s : PathState} {found : Bool} (h : s.Underway c source target)
    (hturn : s.turn c target = .over found) :
    found = true ↔ ReflTransGen c.Next source target := by
  obtain ⟨stack, seen⟩ := s
  unfold PathState.turn at hturn
  cases stack with
  | nil =>
    cases hturn
    have hall (n : Nat) (hpath : ReflTransGen c.Next source n) : n ∈ seen := by
      induction hpath with
      | refl => exact h.started.resolve_right List.not_mem_nil
      | tail _ hnext ih => exact (h.closed _ ih _ hnext).resolve_right List.not_mem_nil
    exact iff_of_false Bool.false_ne_true fun hpath => h.missed (hall target hpath)
  | cons n stack =>
    dsimp only at hturn
    split at hturn
    · next htarget =>
      cases hturn
      rw [beq_iff_eq] at htarget
      exact iff_of_true rfl (htarget ▸ h.reached n List.mem_cons_self)
    · split at hturn <;> cases hturn

/-- The search for a path finds exactly the nodes that can be reached. -/
theorem linkPath_iff_next :
    c.linkPath source target = true ↔ ReflTransGen c.Next source target := by
  exact Search.run_induction (P := PathState.Underway c source target)
    (A := fun found => found = true ↔ ReflTransGen c.Next source target)
    (fun _ _ h => h.turn) (fun _ _ h => h.answer) (.start source target)

/-! ### The search for a cycle -/

theorem pushUnmarked_eq_none_iff {marks : Std.HashMap Nat Mark} {targets : List Nat}
    {stack : List (Nat × Bool)} :
    pushUnmarked marks targets stack = none ↔ ∃ n ∈ targets, marks[n]? = some .active := by
  induction targets generalizing stack with
  | nil => simp [pushUnmarked]
  | cons n targets ih =>
    unfold pushUnmarked
    split
    · next hmark => exact iff_of_true rfl ⟨n, List.mem_cons_self, hmark⟩
    · next hmark => simp [ih, hmark]
    · next hmark => simp [ih, hmark]

/-- What is put on the stack are nodes without a mark, and no such node is left out. -/
theorem exists_of_pushUnmarked {marks : Std.HashMap Nat Mark} {targets : List Nat}
    {stack stack' : List (Nat × Bool)} (h : pushUnmarked marks targets stack = some stack') :
    ∃ pushed : List Nat, stack' = pushed.map (·, false) ++ stack ∧
      (∀ n ∈ pushed, n ∈ targets ∧ marks[n]? = none) ∧
      ∀ n ∈ targets, marks[n]? = some .done ∨ n ∈ pushed := by
  induction targets generalizing stack with
  | nil =>
    cases h
    exact ⟨[], rfl, List.forall_mem_nil _, List.forall_mem_nil _⟩
  | cons n targets ih =>
    unfold pushUnmarked at h
    split at h
    · cases h
    · next hmark =>
      obtain ⟨pushed, hstack, hpushed, htargets⟩ := ih h
      refine ⟨pushed, hstack, fun m hm => ?_, fun m hm => ?_⟩
      · exact ⟨List.mem_cons_of_mem n (hpushed m hm).1, (hpushed m hm).2⟩
      · obtain rfl | hm := List.mem_cons.1 hm
        · exact Or.inl hmark
        · exact htargets m hm
    · next hmark =>
      obtain ⟨pushed, hstack, hpushed, htargets⟩ := ih h
      refine ⟨pushed ++ [n], ?_, fun m hm => ?_, fun m hm => ?_⟩
      · rw [hstack, List.map_append, List.append_assoc]
        rfl
      · obtain hm | hm := List.mem_append.1 hm
        · exact ⟨List.mem_cons_of_mem n (hpushed m hm).1, (hpushed m hm).2⟩
        · rw [List.mem_singleton.1 hm]
          exact ⟨List.mem_cons_self, hmark⟩
      · obtain rfl | hm := List.mem_cons.1 hm
        · exact Or.inr (List.mem_append_right _ (List.mem_singleton_self m))
        · exact (htargets m hm).imp_right (List.mem_append_left _)

/-- An entry of a stack on top of another one that is not in the upper one is the first one of the
lower one, or deeper in it. -/
theorem split_below {α : Type} {above below upper lower : List α} {x y : α} (hy : y ∉ above)
    (h : above ++ x :: below = upper ++ y :: lower) :
    (x = y ∧ upper = above) ∨ ∃ between, upper = above ++ x :: between ∧
      below = between ++ y :: lower := by
  obtain ⟨rest, hupper, hrest⟩ | ⟨rest, habove, hrest⟩ := List.append_eq_append_iff.1 h
  · cases rest with
    | nil =>
      rw [List.nil_append, List.cons.injEq] at hrest
      exact Or.inl ⟨hrest.1, by rw [hupper, List.append_nil]⟩
    | cons z between =>
      rw [List.cons_append, List.cons.injEq] at hrest
      exact Or.inr ⟨between, by rw [hupper, hrest.1], hrest.2⟩
  · cases rest with
    | nil =>
      rw [List.nil_append, List.cons.injEq] at hrest
      exact Or.inl ⟨hrest.1.symm, by rw [habove, List.append_nil]⟩
    | cons z rest =>
      rw [List.cons_append, List.cons.injEq] at hrest
      refine absurd ?_ hy
      rw [habove, hrest.1]
      exact List.mem_append_right _ List.mem_cons_self

/-- A search for a cycle is under way and has not found one. The nodes that are marked active are
those on the path that the search is at the end of: each leads to what is above it on the stack. -/
structure CycleState.Underway (c : Container) (s : CycleState) : Prop where
  /-- The active nodes are on the stack until their search is over. -/
  active : ∀ n, s.marks[n]? = some .active ↔ (n, true) ∈ s.stack
  /-- An active node leads to what is above it, and does not come up again there. -/
  order : s.stack.Pairwise fun x y => y.2 = true → y.1 ≠ x.1 ∧ TransGen c.Next y.1 x.1
  /-- What comes after an active node is done or above it. -/
  above : ∀ upper n lower, s.stack = upper ++ (n, true) :: lower →
    ∀ m, c.Next n m → s.marks[m]? = some .done ∨ m ∈ upper.map Prod.fst
  /-- What comes after a node that is done is done. -/
  closed : ∀ n, s.marks[n]? = some .done → ∀ m, c.Next n m → s.marks[m]? = some .done
  /-- A node that is done is on no cycle. -/
  acyclic : ∀ n, s.marks[n]? = some .done → ¬TransGen c.Next n n
  /-- What is on the stack can be reached from a member. -/
  reached : ∀ x ∈ s.stack, ∃ n ∈ c.members, ReflTransGen c.Next n x.1
  /-- The search starts at members. -/
  starts : ∀ n ∈ s.starts, n ∈ c.members
  /-- A member is yet to start from, on the stack, or done. -/
  members : ∀ n ∈ c.members,
    n ∈ s.starts ∨ n ∈ s.stack.map Prod.fst ∨ s.marks[n]? = some .done

/-- Nothing has been searched yet. -/
theorem CycleState.Underway.start (c : Container) : (CycleState.start c).Underway c where
  active n := by simp [CycleState.start]
  order := List.Pairwise.nil
  above upper n lower h := by
    cases upper <;> cases h
  closed n hn := by simp [CycleState.start] at hn
  acyclic n hn := by simp [CycleState.start] at hn
  reached x hx := nomatch hx
  starts n hn := hn
  members n hn := Or.inl hn

namespace CycleState.Underway

variable {starts : List Nat} {stack : List (Nat × Bool)} {marks : Std.HashMap Nat Mark}

/-- What can be reached from a node that is done is done. -/
theorem done_of_path {s : CycleState} (h : s.Underway c) (hpath : ReflTransGen c.Next n m)
    (hn : s.marks[n]? = some .done) : s.marks[m]? = some .done := by
  induction hpath with
  | refl => exact hn
  | tail _ hk ih => exact h.closed _ ih _ hk

/-- A marked node that comes up to be visited is done: were it active, it would be below. -/
theorem done_of_contains (h : Underway c ⟨starts, (n, false) :: stack, marks⟩)
    (hn : marks.contains n = true) : marks[n]? = some .done := by
  obtain ⟨mark, hmark⟩ := Option.isSome_iff_exists.1
    (Std.HashMap.isSome_getElem?_eq_contains.trans hn)
  cases mark with
  | done => exact hmark
  | active =>
    have hmem := (h.active n).1 hmark
    have hbelow : (n, true) ∈ stack := by simpa using hmem
    exact absurd rfl ((List.pairwise_cons.1 h.order).1 _ hbelow rfl).1

/-- A member that is marked when it is its turn is not started from. -/
theorem skipMember (h : Underway c ⟨n :: starts, [], marks⟩) (hn : marks.contains n = true) :
    Underway c ⟨starts, [], marks⟩ := by
  obtain ⟨mark, hmark⟩ := Option.isSome_iff_exists.1
    (Std.HashMap.isSome_getElem?_eq_contains.trans hn)
  have hdone : marks[n]? = some .done := by
    cases mark with
    | done => exact hmark
    | active => exact absurd ((h.active n).1 hmark) List.not_mem_nil
  refine { h with starts := fun m hm => h.starts m (List.mem_cons_of_mem n hm), members := ?_ }
  intro m hm
  obtain hm | hm := h.members m hm
  · obtain rfl | hm := List.mem_cons.1 hm
    · exact Or.inr (Or.inr hdone)
    · exact Or.inl hm
  · exact Or.inr hm

/-- A member to start from goes on the stack. -/
theorem pushMember (h : Underway c ⟨n :: starts, [], marks⟩) :
    Underway c ⟨starts, [(n, false)], marks⟩ where
  active m := by simpa using h.active m
  order := List.pairwise_singleton _ _
  above upper m lower heq := by
    have hmem : (m, true) ∈ [(n, false)] := by
      rw [show [(n, false)] = upper ++ (m, true) :: lower from heq]
      exact List.mem_append_right _ List.mem_cons_self
    simp at hmem
  closed := h.closed
  acyclic := h.acyclic
  reached x hx := by
    rw [List.mem_singleton.1 hx]
    exact ⟨n, h.starts n List.mem_cons_self, .refl⟩
  starts m hm := h.starts m (List.mem_cons_of_mem n hm)
  members m hm := by
    obtain hm | hm | hm := h.members m hm
    · obtain rfl | hm := List.mem_cons.1 hm
      · exact Or.inr (Or.inl List.mem_cons_self)
      · exact Or.inl hm
    · cases hm
    · exact Or.inr (Or.inr hm)

/-- A node that is done is not visited again. -/
theorem skip (h : Underway c ⟨starts, (n, false) :: stack, marks⟩)
    (hn : marks.contains n = true) : Underway c ⟨starts, stack, marks⟩ := by
  have hdone := h.done_of_contains hn
  refine ⟨fun m => ?_, (List.pairwise_cons.1 h.order).2, fun upper m lower heq k hk => ?_, h.closed,
    h.acyclic, fun x hx => h.reached x (List.mem_cons_of_mem _ hx), h.starts, fun m hm => ?_⟩
  · simpa using h.active m
  · obtain hk | hk := h.above ((n, false) :: upper) m lower (congrArg _ heq) k hk
    · exact Or.inl hk
    · obtain rfl | hk := List.mem_cons.1 hk
      · exact Or.inl hdone
      · exact Or.inr hk
  · obtain hm | hm | hm := h.members m hm
    · exact Or.inl hm
    · obtain rfl | hm := List.mem_cons.1 hm
      · exact Or.inr (Or.inr hdone)
      · exact Or.inr (Or.inl hm)
    · exact Or.inr (Or.inr hm)

/-- The search from a node is over: it leads to nodes that are done only, so it is on no cycle. -/
theorem close (h : Underway c ⟨starts, (n, true) :: stack, marks⟩) :
    Underway c ⟨starts, stack, marks.insert n .done⟩ := by
  have hactive : marks[n]? = some .active := (h.active n).2 List.mem_cons_self
  have hdone (m : Nat) :
      (marks.insert n .done)[m]? = some .done ↔ m = n ∨ marks[m]? = some .done := by
    rw [Std.HashMap.getElem?_insert]
    split
    · next heq => exact iff_of_true rfl (Or.inl (beq_iff_eq.1 heq).symm)
    · next heq =>
      exact (or_iff_right fun hm => heq (beq_iff_eq.2 hm.symm)).symm
  have hnext (m : Nat) (hm : c.Next n m) : marks[m]? = some .done :=
    (h.above [] n stack rfl m hm).resolve_right List.not_mem_nil
  have hbelow : (n, true) ∉ stack := fun hmem =>
    ((List.pairwise_cons.1 h.order).1 _ hmem rfl).1 rfl
  refine ⟨fun m => ?_, (List.pairwise_cons.1 h.order).2, fun upper m lower heq k hk => ?_,
    fun m hm k hk => ?_, fun m hm hcycle => ?_,
    fun x hx => h.reached x (List.mem_cons_of_mem _ hx), h.starts, fun m hm => ?_⟩
  · dsimp only
    rw [Std.HashMap.getElem?_insert]
    split
    · next heq =>
      rw [← beq_iff_eq.1 heq]
      exact iff_of_false (by simp) hbelow
    · next heq =>
      rw [h.active m, List.mem_cons, or_iff_right]
      exact fun hm => heq (beq_iff_eq.2 (Prod.mk.inj hm).1.symm)
  · rw [hdone]
    obtain hk | hk := h.above ((n, true) :: upper) m lower (congrArg _ heq) k hk
    · exact Or.inl (Or.inr hk)
    · exact (List.mem_cons.1 hk).imp_left Or.inl
  · obtain rfl | hm := (hdone m).1 hm
    · exact (hdone k).2 (Or.inr (hnext k hk))
    · exact (hdone k).2 (Or.inr (h.closed m hm k hk))
  · obtain rfl | hm := (hdone m).1 hm
    · -- the cycle would be among nodes that are done
      obtain ⟨k, hk, hpath⟩ := TransGen.head'_iff.1 hcycle
      cases hactive.symm.trans (h.done_of_path hpath (hnext k hk))
    · exact h.acyclic m hm hcycle
  · rw [hdone]
    obtain hm | hm | hm := h.members m hm
    · exact Or.inl hm
    · obtain rfl | hm := List.mem_cons.1 hm
      · exact Or.inr (Or.inr (Or.inl rfl))
      · exact Or.inr (Or.inl hm)
    · exact Or.inr (Or.inr (Or.inr hm))

/-- A node is visited for the first time. -/
theorem visit {stack' : List (Nat × Bool)} (h : Underway c ⟨starts, (n, false) :: stack, marks⟩)
    (hn : marks.contains n = false)
    (hpush : pushUnmarked (marks.insert n .active) (c.linkTargets n) ((n, true) :: stack) =
      some stack') : Underway c ⟨starts, stack', marks.insert n .active⟩ := by
  obtain ⟨pushed, rfl, hpushed, htargets⟩ := exists_of_pushUnmarked hpush
  have hunmarked : marks[n]? = none := by
    rw [← Option.not_isSome_iff_eq_none, Std.HashMap.isSome_getElem?_eq_contains, hn]
    exact Bool.false_ne_true
  have hactive (m : Nat) :
      (marks.insert n .active)[m]? = some .active ↔ m = n ∨ (m, true) ∈ stack := by
    rw [Std.HashMap.getElem?_insert]
    split
    · next heq => exact iff_of_true rfl (Or.inl (beq_iff_eq.1 heq).symm)
    · next heq =>
      rw [h.active m, or_iff_right fun hm => heq (beq_iff_eq.2 hm.symm)]
      simp
  have hdone (m : Nat) : (marks.insert n .active)[m]? = some .done ↔ marks[m]? = some .done := by
    rw [Std.HashMap.getElem?_insert]
    split
    · next heq =>
      rw [← beq_iff_eq.1 heq, hunmarked]
      simp
    · rfl
  obtain ⟨habove, horder⟩ := List.pairwise_cons.1 h.order
  have hplain {m : Nat} : (m, true) ∉ pushed.map (·, false) := by simp
  have hreached : ∃ m ∈ c.members, ReflTransGen c.Next m n := h.reached _ List.mem_cons_self
  refine ⟨fun m => ?_, List.pairwise_append.2 ⟨?_, List.pairwise_cons.2 ⟨habove, horder⟩, ?_⟩,
    fun upper m lower hsplit k hk => ?_, fun m hm k hk => ?_,
    fun m hm => h.acyclic m ((hdone m).1 hm), fun x hx => ?_, h.starts, fun m hm => ?_⟩
  · rw [hactive m, List.mem_append, or_iff_right hplain, List.mem_cons, Prod.mk.injEq,
      and_iff_left rfl]
  · refine List.pairwise_map.2 (List.pairwise_of_forall fun _ _ h => ?_)
    cases h
  · intro x hx y hy hstays
    obtain ⟨k, hk, rfl⟩ := List.mem_map.1 hx
    obtain ⟨hk, hnone⟩ := hpushed k hk
    obtain rfl | hy := List.mem_cons.1 hy
    · refine ⟨?_, .single hk⟩
      rintro rfl
      cases hnone.symm.trans ((hactive n).2 (Or.inl rfl))
    · have hyactive := (hactive y.1).2 (Or.inr (by rw [← hstays]; exact hy))
      refine ⟨?_, (habove y hy hstays).2.tail hk⟩
      rintro heq
      rw [heq] at hyactive
      cases hnone.symm.trans hyactive
  · rw [hdone]
    obtain ⟨heq, rfl⟩ | ⟨between, rfl, hbelow⟩ := split_below hplain hsplit
    · rw [← (Prod.mk.inj heq).1] at hk
      refine (htargets k hk).imp (hdone k).1 fun hk => ?_
      exact List.mem_map.2 ⟨_, List.mem_map.2 ⟨k, hk, rfl⟩, rfl⟩
    · have hold := h.above ((n, false) :: between) m lower (congrArg _ hbelow) k hk
      refine hold.imp_right fun hk => ?_
      rw [List.map_append]
      exact List.mem_append_right _ hk
  · exact (hdone k).2 (h.closed m ((hdone m).1 hm) k hk)
  · obtain hx | hx := List.mem_append.1 hx
    · obtain ⟨k, hk, rfl⟩ := List.mem_map.1 hx
      obtain ⟨m, hm, hpath⟩ := hreached
      exact ⟨m, hm, hpath.tail (hpushed k hk).1⟩
    · obtain rfl | hx := List.mem_cons.1 hx
      · exact hreached
      · exact h.reached x (List.mem_cons_of_mem _ hx)
  · rw [hdone]
    refine (h.members m hm).imp_right (Or.imp_left fun hm => ?_)
    rw [List.map_append]
    exact List.mem_append_right _ hm

theorem turn {s t : CycleState} (h : s.Underway c) (hturn : s.turn c = .on t) : t.Underway c := by
  obtain ⟨starts, stack, marks⟩ := s
  unfold CycleState.turn at hturn
  dsimp only at hturn
  split at hturn
  · split at hturn
    · cases hturn
    · split at hturn
      · next hn =>
        cases hturn
        exact h.skipMember hn
      · cases hturn
        exact h.pushMember
  · cases hturn
    exact h.close
  · split at hturn
    · next hn =>
      cases hturn
      exact h.skip hn
    · next hn =>
      split at hturn
      · cases hturn
      · next hpush =>
        cases hturn
        exact h.visit (Bool.eq_false_iff.2 hn) hpush

theorem answer {s : CycleState} {found : Bool} (h : s.Underway c) (hturn : s.turn c = .over found) :
    found = true ↔ ∃ n ∈ c.members, ∃ m, ReflTransGen c.Next n m ∧ TransGen c.Next m m := by
  obtain ⟨starts, stack, marks⟩ := s
  unfold CycleState.turn at hturn
  dsimp only at hturn
  split at hturn
  · split at hturn
    · cases hturn
      refine iff_of_false Bool.false_ne_true ?_
      rintro ⟨n, hn, m, hpath, hcycle⟩
      have hdone : marks[n]? = some .done := by simpa using h.members n hn
      exact h.acyclic m (h.done_of_path hpath hdone) hcycle
    · split at hturn <;> cases hturn
  · cases hturn
  · next n stack =>
    split at hturn
    · cases hturn
    · split at hturn
      · next hpush =>
        cases hturn
        obtain ⟨m, hm, hpath⟩ := h.reached _ List.mem_cons_self
        refine iff_of_true rfl ⟨m, hm, n, hpath, ?_⟩
        obtain ⟨k, hk, hactive⟩ := pushUnmarked_eq_none_iff.1 hpush
        rw [Std.HashMap.getElem?_insert] at hactive
        split at hactive
        · next heq =>
          rw [← beq_iff_eq.1 heq] at hk
          exact .single hk
        · have hbelow : (k, true) ∈ stack := by simpa using (h.active k).1 hactive
          exact .head hk ((List.pairwise_cons.1 h.order).1 _ hbelow rfl).2
      · cases hturn

end CycleState.Underway

/-- The search for a cycle finds one exactly if a member leads to one. -/
theorem hasLinkCycle_iff_next : c.hasLinkCycle = true ↔
    ∃ n ∈ c.members, ∃ m, ReflTransGen c.Next n m ∧ TransGen c.Next m m :=
  Search.run_induction (P := CycleState.Underway c)
    (A := fun found => found = true ↔
      ∃ n ∈ c.members, ∃ m, ReflTransGen c.Next n m ∧ TransGen c.Next m m)
    (fun _ _ h => h.turn) (fun _ _ h => h.answer) (CycleState.Underway.start c)

/-! ### Links -/

/-- A link leads from the first node to the second one. -/
def Links (c : Container) (n m : Nat) : Prop :=
  ∃ e edge, c.graph.edge? e = some edge ∧ edge.weight.label.isLink = true ∧
    edge.source = n ∧ edge.target = m

theorem mem_linkTargets (h : c.graph.Sound) : m ∈ c.linkTargets n ↔ c.Links n m := by
  unfold linkTargets Links
  rw [List.mem_filterMap]
  constructor
  · rintro ⟨⟨e, edge⟩, hmem, htarget⟩
    obtain ⟨hedge, hsource⟩ := h.mem_outgoing_iff.1 hmem
    dsimp only at htarget
    by_cases hlink : edge.weight.label.isLink = true
    · rw [if_pos hlink, Option.some.injEq] at htarget
      exact ⟨e, edge, hedge, hlink, hsource, htarget⟩
    · rw [if_neg hlink] at htarget
      cases htarget
  · rintro ⟨e, edge, hedge, hlink, hsource, htarget⟩
    refine ⟨(e, edge), h.mem_outgoing_iff.2 ⟨hedge, hsource⟩, ?_⟩
    dsimp only
    rw [if_pos hlink, htarget]

theorem next_eq_links (h : c.graph.Sound) : c.Next = c.Links := by
  funext n m
  exact propext (mem_linkTargets h)

/-- There is a path of links, perhaps an empty one. -/
theorem linkPath_iff (h : c.graph.Sound) :
    c.linkPath n m = true ↔ ReflTransGen c.Links n m := by
  rw [linkPath_iff_next, next_eq_links h]

/-- A path of links from some member comes to a cycle of links. -/
theorem hasLinkCycle_iff (h : c.graph.Sound) : c.hasLinkCycle = true ↔
    ∃ n ∈ c.members, ∃ m, ReflTransGen c.Links n m ∧ TransGen c.Links m m := by
  rw [hasLinkCycle_iff_next, next_eq_links h]

/-- What the nodes list as outgoing are the edges there are. -/
theorem outgoing_perm (h : c.graph.Sound) :
    ((List.range c.graph.slots.size).flatMap c.graph.outgoing).Perm c.graph.edgeList := by
  refine (List.perm_ext_iff_of_nodup ?_ ?_).2 fun ⟨e, edge⟩ => ?_
  · refine List.nodup_flatMap.2 ⟨fun n _ => h.nodup_outgoing_pairs n, ?_⟩
    refine List.nodup_range.imp fun {n m} hne x hn hm => hne ?_
    exact (h.mem_outgoing_iff.1 hn).2.symm.trans (h.mem_outgoing_iff.1 hm).2
  · refine List.nodup_range.filterMap fun e e' x hx hx' => ?_
    obtain ⟨edge, -, rfl⟩ := Option.map_eq_some_iff.1 hx
    obtain ⟨edge', -, heq⟩ := Option.map_eq_some_iff.1 hx'
    exact (congrArg Prod.fst heq).symm
  · rw [List.mem_flatMap, SlotGraph.edgeList, SlotGraph.mem_edgesOf, List.mem_range]
    constructor
    · rintro ⟨n, -, hedge⟩
      have hedge := (h.mem_outgoing_iff.1 hedge).1
      exact ⟨SlotGraph.edge?_lt hedge, hedge⟩
    · rintro ⟨-, hedge⟩
      obtain ⟨member, hmember⟩ := SlotGraph.hasNode_iff.1 (h.hasNode_source hedge)
      exact ⟨edge.source, List.mem_range.2 (SlotGraph.node?_lt hmember),
        h.mem_outgoing_iff.2 ⟨hedge, rfl⟩⟩

/-- Before a search, all links are open. -/
theorem openLinks_unvisited (h : c.graph.Sound) :
    c.openLinks (fun _ => false) = c.links.length := by
  have hopen : c.openLinks (fun _ => false) =
      ((List.range c.graph.slots.size).flatMap c.graph.outgoing).countP fun x =>
        x.2.weight.label.isLink := by
    simp only [openLinks, Bool.false_eq_true, if_false, linkTargets]
    rw [← List.filterMap_flatMap, List.length_filterMap_eq_countP]
    refine List.countP_congr fun x _ => ?_
    cases x.2.weight.label.isLink <;> simp
  have hlinks : c.links.length = c.graph.edgeList.countP fun x => x.2.weight.label.isLink := by
    rw [links, List.length_map, List.length_mergeSort, List.length_filterMap_eq_countP]
    refine List.countP_congr fun x _ => ?_
    cases hlabel : x.2.weight.label <;> simp [Label.isLink, hlabel]
  rw [hopen, hlinks, (outgoing_perm h).countP_eq]

/-- The roots are the members that no link leads to. -/
theorem mem_linkRoots (h : c.graph.Sound) :
    n ∈ c.linkRoots ↔ n ∈ c.members ∧ ∀ m, ¬c.Links m n := by
  unfold linkRoots
  rw [List.mem_filter, List.all_eq_true]
  refine and_congr_right fun _ => ⟨fun hall m hlinks => ?_, fun hno p hp => ?_⟩
  · obtain ⟨e, edge, hedge, hlink, -, htarget⟩ := hlinks
    have hnot := hall (e, edge) (h.mem_incoming_iff.2 ⟨hedge, htarget⟩)
    dsimp only at hnot
    rw [hlink] at hnot
    cases hnot
  · obtain ⟨hedge, htarget⟩ := h.mem_incoming_iff.1 hp
    rw [Bool.not_eq_true', ← Bool.not_eq_true]
    exact fun hlink => hno p.2.source ⟨p.1, p.2, hedge, hlink, rfl, htarget⟩

/-- The links of a container are those that its list of links shows. -/
theorem links_iff : c.Links n m ↔ ∃ l ∈ c.linkage, l.source = n ∧ l.target = m := by
  constructor
  · rintro ⟨e, ⟨source, target, tie⟩, hedge, hlink, rfl, rfl⟩
    cases hlabel : tie.label with
    | link name =>
      refine ⟨⟨source, target, name, tie.data⟩, List.mem_filterMap.2 ⟨⟨e, source, target, tie⟩,
        mem_timeline.2 hedge, ?_⟩, rfl, rfl⟩
      unfold EdgeView.link?
      dsimp only
      rw [hlabel]
    | _ =>
      dsimp only at hlink
      rw [hlabel] at hlink
      cases hlink
  · rintro ⟨l, hl, rfl, rfl⟩
    obtain ⟨view, hview, hlink⟩ := List.mem_filterMap.1 hl
    refine ⟨view.id, view.edge, mem_timeline.1 hview, ?_⟩
    unfold EdgeView.link? at hlink
    split at hlink
    · rename_i name hlabel
      cases hlink
      exact ⟨by rw [EdgeView.edge, hlabel]; rfl, rfl, rfl⟩
    · cases hlink

/-- The roots are the members that are no target of a listed link. -/
theorem Formed.linkRoots_eq (h : c.Formed) :
    c.linkRoots = (c.roster.map (·.node)).filter fun n => c.linkage.all (·.target != n) := by
  rw [← h.members_eq]
  refine List.filter_congr fun n hn => ?_
  have hroot := mem_linkRoots h.timed.sound (n := n)
  rw [linkRoots, List.mem_filter, and_congr_right_iff] at hroot
  rw [Bool.eq_iff_iff, hroot hn, List.all_eq_true]
  simp only [links_iff, bne_iff_ne]
  exact ⟨fun hno l hl heq => hno l.source ⟨l, hl, rfl, heq⟩,
    fun hno m ⟨l, hl, _, htarget⟩ => hno l hl htarget⟩

/-- A member all of whose incoming links come from one node is counted among those that lose their
last link with that node. -/
theorem Formed.mem_orphans (h : c.Formed) (hlinks : c.Links n m)
    (honly : ∀ x, c.Links x m → x = n) :
    m ∈ ((c.edgesFrom n).filter fun view => view.tie.label.isLink &&
      (c.edgesTo view.target).all fun incoming =>
        !incoming.tie.label.isLink || incoming.source == n).map (·.target) := by
  obtain ⟨e, edge, hedge, hlink, hsource, htarget⟩ := hlinks
  refine List.mem_map.2 ⟨⟨e, edge.source, edge.target, edge.weight⟩, ?_, htarget⟩
  rw [List.mem_filter, h.timed.edgesFrom_eq, List.mem_filter, mem_timeline]
  refine ⟨⟨hedge, by simpa using hsource⟩, ?_⟩
  rw [Bool.and_eq_true, List.all_eq_true]
  refine ⟨hlink, fun view hview => ?_⟩
  dsimp only at hview
  rw [htarget] at hview
  unfold edgesTo at hview
  split at hview
  · obtain ⟨hedge', htarget'⟩ := h.timed.sound.mem_incoming_iff.1 (mem_viewed.1 hview)
    by_cases hlink' : view.tie.label.isLink = true
    · have honly' := honly view.source ⟨view.id, view.edge, hedge', hlink', rfl, htarget'⟩
      simp [honly']
    · simp [hlink']
  · cases hview

end GraphLang.Container
