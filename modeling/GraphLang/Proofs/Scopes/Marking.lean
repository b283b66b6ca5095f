import GraphLang.Proofs.Scopes.Retention
import GraphLang.Proofs.Search
import GraphLang.Proofs.SlotGraph.Acyclic

/-!
# Marking and sweeping

A walk through a value goes into the containers that no walk has seen before. So it comes across
every closure that can be found in the value, except for those in containers that were seen: these
are marked already, or wait on the stack. Every node that is marked for the first time puts what it
leads to on the stack, and when the stack is empty, exactly the nodes that are retained are marked.
-/

namespace GraphLang

namespace Scopes

open SlotGraph

variable {s : Scopes} {store : Store} {roots : List Nat} {v w : Value} {g : GraphId}
  {seen seen' : Std.HashSet GraphId} {C C' : ClosureId → Prop}

/-! ### Walks through values -/

/-- The closure of the function, or the container, that the value leads to through payloads is one
of the given closures, or was seen. -/
def Met (C : ClosureId → Prop) (seen : Std.HashSet GraphId) : Value → Prop
  | .function f => C f.closure
  | .exception _ _ _ payload _ => Met C seen payload
  | .graph g => g ∈ seen
  | _ => True

theorem Met.mono (h : Met C seen v) (hC : ∀ c, C c → C' c) (hseen : ∀ g ∈ seen, g ∈ seen') :
    Met C' seen' v := by
  induction v with
  | function f => exact hC _ h
  | graph g => exact hseen g h
  | exception _ _ _ _ _ ih => exact ih h
  | _ => trivial

/-- Where everything is met that a seen container holds, everything is met that is found in a value
that is met. -/
theorem Met.within (h : Met C seen v)
    (hheld : ∀ g ∈ seen, ∀ u ∈ (store.get g).heldValues, Met C seen u) (hw : store.Within v w) :
    Met C seen w :=
  hw.rec_held h (fun hpayload => hpayload) fun hu hg => hheld _ hg _ hu

/-- What a walk adds to the findings: containers and closures of functions with a property, and with
a container everything that it holds. -/
structure Walks (store : Store) (P : Value → Prop) (before after : Findings) : Prop where
  /-- No container is forgotten. -/
  seen : ∀ g ∈ before.seen, g ∈ after.seen
  /-- No closure is forgotten. -/
  closures : ∀ c ∈ before.closures, c ∈ after.closures
  /-- New containers have the property. -/
  container : ∀ g ∈ after.seen, g ∈ before.seen ∨ P (.graph g)
  /-- New closures are those of functions with the property. -/
  closure : ∀ c ∈ after.closures, c ∈ before.closures ∨ ∃ f, P (.function f) ∧ f.closure = c
  /-- What a new container holds is met. -/
  held : ∀ g ∈ after.seen, g ∈ before.seen ∨
    ∀ u ∈ (store.get g).heldValues, Met (· ∈ after.closures) after.seen u

namespace Walks

variable {P Q : Value → Prop} {found found' found'' : Findings}

theorem refl : Walks store P found found :=
  ⟨fun _ h => h, fun _ h => h, fun _ h => Or.inl h, fun _ h => Or.inl h, fun _ h => Or.inl h⟩

theorem mono (h : Walks store P found found') (hPQ : ∀ v, P v → Q v) :
    Walks store Q found found' where
  seen := h.seen
  closures := h.closures
  container g hg := (h.container g hg).imp_right (hPQ _)
  closure c hc := (h.closure c hc).imp_right fun ⟨f, hf, heq⟩ => ⟨f, hPQ _ hf, heq⟩
  held := h.held

theorem met (h : Walks store P found found') (hv : Met (· ∈ found.closures) found.seen v) :
    Met (· ∈ found'.closures) found'.seen v := hv.mono h.closures h.seen

theorem trans (h : Walks store P found found') (h' : Walks store P found' found'') :
    Walks store P found found'' where
  seen g hg := h'.seen g (h.seen g hg)
  closures c hc := h'.closures c (h.closures c hc)
  container g hg := (h'.container g hg).elim (h.container g) Or.inr
  closure c hc := (h'.closure c hc).elim (h.closure c) Or.inr
  held g hg := (h'.held g hg).elim
    (fun hg => (h.held g hg).imp_right fun hheld u hu => h'.met (hheld u hu)) Or.inr

/-- There are no more containers left to see than before. -/
theorem unseen_le (h : Walks store P found found') (points : List GraphId) :
    unseen points found'.seen ≤ unseen points found.seen := by
  unfold unseen
  simp only [← List.countP_eq_length_filter]
  refine List.countP_mono_left fun g _ hg => ?_
  simp only [Bool.not_eq_true', Std.HashSet.contains_eq_false_iff_not_mem] at hg ⊢
  exact fun hseen => hg (h.seen g hseen)

end Walks

/-- A walk through a value adds what is found in it, if going into a container does. -/
theorem walks_closuresIn {enter : GraphId → Findings → Findings} {found : Findings}
    (henter : ∀ g, Walks store (store.Within (.graph g)) found (enter g found) ∧
      g ∈ (enter g found).seen) (v : Value) :
    let found' := closuresIn enter v found
    Walks store (store.Within v) found found' ∧ Met (· ∈ found'.closures) found'.seen v := by
  induction v with
  | function f =>
    refine ⟨⟨fun _ h => h, fun _ h => List.mem_cons_of_mem _ h, fun _ h => Or.inl h, fun c hc => ?_,
      fun _ h => Or.inl h⟩, List.mem_cons_self⟩
    rcases List.mem_cons.1 hc with rfl | hc
    · exact Or.inr ⟨f, .self _, rfl⟩
    · exact Or.inl hc
  | exception _ _ _ payload _ ih => exact ⟨ih.1.mono fun _ h => .payload h, ih.2⟩
  | graph g => exact henter g
  | _ => exact ⟨.refl, trivial⟩

/-- So do walks through several values, one after the other. -/
theorem walks_foldl {walk : Findings → Value → Findings} {points : List GraphId} {fuel : Nat}
    (hwalk : ∀ v found, unseen points found.seen < fuel →
      Walks store (store.Within v) found (walk found v) ∧
        Met (· ∈ (walk found v).closures) (walk found v).seen v)
    (values : List Value) {found : Findings} (hfuel : unseen points found.seen < fuel) :
    let found' := values.foldl walk found
    Walks store (fun w => ∃ v ∈ values, store.Within v w) found found' ∧
      ∀ v ∈ values, Met (· ∈ found'.closures) found'.seen v := by
  induction values generalizing found with
  | nil => exact ⟨.refl, by simp⟩
  | cons v values ih =>
    obtain ⟨hfirst, hmet⟩ := hwalk v found hfuel
    obtain ⟨hrest, hall⟩ := ih (Nat.lt_of_le_of_lt (hfirst.unseen_le points) hfuel)
    refine ⟨(hfirst.mono fun w hw => ⟨v, List.mem_cons_self, hw⟩).trans
      (hrest.mono fun w ⟨u, hu, hw⟩ => ⟨u, List.mem_cons_of_mem v hu, hw⟩), ?_⟩
    exact List.forall_mem_cons.2 ⟨hrest.met hmet, hall⟩

/-- A walk through what a new container holds pays for the container with one unit of fuel. -/
theorem walks_heldValues {enter : GraphId → Findings → Findings} {fuel : Nat}
    (henter : ∀ g found, unseen (List.range store.graphs.size) found.seen < fuel →
      Walks store (store.Within (.graph g)) found (enter g found) ∧ g ∈ (enter g found).seen)
    {found : Findings} (hnew : g ∉ found.seen)
    (hfuel : unseen (List.range store.graphs.size) found.seen < fuel + 1) :
    let start : Findings := { found with seen := found.seen.insert g }
    let found' := (store.get g).heldValues.foldl (fun found v => closuresIn enter v found) start
    Walks store (store.Within (.graph g)) start found' ∧
      ∀ v ∈ (store.get g).heldValues, Met (· ∈ found'.closures) found'.seen v := by
  intro start found'
  by_cases hlt : g < store.graphs.size
  · have hpaid : unseen (List.range store.graphs.size) start.seen < fuel :=
      Nat.lt_of_lt_of_le (unseen_insert_lt (List.mem_range.2 hlt) hnew) (Nat.le_of_lt_succ hfuel)
    obtain ⟨hwalks, hmet⟩ := walks_foldl
      (fun v found hfound => walks_closuresIn (fun g => henter g found hfound) v)
      (store.get g).heldValues hpaid
    exact ⟨hwalks.mono fun w ⟨v, hv, hw⟩ => .held hv hw, hmet⟩
  · have hnone := Store.heldValues_get_of_le (Nat.le_of_not_lt hlt)
    have hfound : found' = start := by
      dsimp only [found']
      rw [hnone, List.foldl_nil]
    rw [hfound, hnone]
    exact ⟨.refl, by simp⟩

/-- With more fuel than there are containers left to see, a walk goes into all of them that it
comes to. -/
theorem walks_closuresHeld (store : Store) {fuel : Nat} (g : GraphId) (found : Findings)
    (hfuel : unseen (List.range store.graphs.size) found.seen < fuel) :
    Walks store (store.Within (.graph g)) found (closuresHeld store fuel g found) ∧
      g ∈ (closuresHeld store fuel g found).seen := by
  induction fuel generalizing g found with
  | zero => omega
  | succ fuel ih =>
    rw [closuresHeld]
    by_cases hg : found.seen.contains g = true
    · rw [if_pos hg]
      exact ⟨.refl, hg⟩
    rw [if_neg hg]
    obtain ⟨hwalks, hmet⟩ := walks_heldValues ih hg hfuel
    have hcases {h : GraphId} (hh : h ∈ found.seen.insert g) : h ∈ found.seen ∨ h = g := by
      rcases Std.HashSet.mem_insert.1 hh with heq | hh
      · exact Or.inr (beq_iff_eq.1 heq).symm
      · exact Or.inl hh
    refine ⟨⟨fun h hh => hwalks.seen h (Std.HashSet.mem_insert.2 (Or.inr hh)), hwalks.closures,
      fun h hh => ?_, hwalks.closure, fun h hh => ?_⟩, hwalks.seen g Std.HashSet.mem_insert_self⟩
    · refine (hwalks.container h hh).elim (fun hh => (hcases hh).imp_right ?_) Or.inr
      rintro rfl
      exact .self _
    · refine (hwalks.held h hh).elim (fun hh => (hcases hh).imp_right ?_) Or.inr
      rintro rfl
      exact hmet

/-- What is found in a node starts with the containers that were seen before. -/
theorem walks_findings (s : Scopes) (store : Store) (seen : Std.HashSet GraphId) (n : Nat) :
    Walks store (fun w => ∃ v, s.graph.node? n = some (.binding v) ∧ store.Within v w) ⟨seen, []⟩
        (s.findings store seen n) ∧
      ∀ v, s.graph.node? n = some (.binding v) →
        Met (· ∈ (s.findings store seen n).closures) (s.findings store seen n).seen v := by
  unfold findings
  split
  · rename_i v hv
    have hfuel : unseen (List.range store.graphs.size) seen < store.graphs.size + 1 := by
      have hle := List.length_filter_le (fun g => !seen.contains g) (List.range store.graphs.size)
      rw [List.length_range] at hle
      exact Nat.lt_succ_of_le hle
    obtain ⟨hwalks, hmet⟩ :=
      walks_closuresIn (fun g => walks_closuresHeld store g ⟨seen, []⟩ hfuel) v
    refine ⟨hwalks.mono fun w hw => ⟨v, hv, hw⟩, fun v' hv' => ?_⟩
    cases hv.symm.trans hv'
    exact hmet
  · rename_i hnone
    exact ⟨.refl, fun v hv => absurd hv (hnone v)⟩

/-! ### The stack -/

/-- The closure is marked or waits on the stack, if it is there. -/
def Pending (s : Scopes) (marked : Std.HashSet Nat) (stack : List Nat) (n : Nat) : Prop :=
  s.graph.hasNode n = true → n ∈ marked ∨ n ∈ stack

/-- What is pending stays so when the first on the stack is marked. -/
theorem Pending.turn {marked : Std.HashSet Nat} {rest : List Nat} {n m : Nat}
    (h : s.Pending marked (n :: rest) m) (more : List Nat) :
    s.Pending (marked.insert n) (more ++ rest) m := by
  intro hnode
  rcases h hnode with hmarked | hstack
  · exact Or.inl (Std.HashSet.mem_insert.2 (Or.inr hmarked))
  · rcases List.mem_cons.1 hstack with rfl | hrest
    · exact Or.inl Std.HashSet.mem_insert_self
    · exact Or.inr (List.mem_append_right _ hrest)

/-- What holds between two turns of the marking. -/
structure Marking (s : Scopes) (store : Store) (roots : List Nat) (marked : Std.HashSet Nat)
    (stack : List Nat) (seen : Std.HashSet GraphId) : Prop where
  /-- What is marked is there. -/
  node : ∀ n ∈ marked, s.graph.hasNode n = true
  /-- What is marked or waits is retained. -/
  retained : ∀ n, n ∈ marked ∨ n ∈ stack → s.graph.hasNode n = true → s.Retained store roots n
  /-- What was seen is found in a retained value. -/
  found : ∀ g ∈ seen, s.Holds store roots (.graph g)
  /-- What edges from marked nodes lead to is pending. -/
  successor : ∀ n ∈ marked, ∀ t ∈ s.graph.successors n, s.Pending marked stack t
  /-- What the value of a marked node leads to is pending, or was seen. -/
  value : ∀ n ∈ marked, ∀ v, s.graph.node? n = some (.binding v) →
    Met (s.Pending marked stack) seen v
  /-- So is what the values lead to that a seen container holds. -/
  held : ∀ g ∈ seen, ∀ v ∈ (store.get g).heldValues, Met (s.Pending marked stack) seen v

namespace Marking

variable {marked : Std.HashSet Nat} {stack stack' rest : List Nat} {n : Nat}

/-- Nodes that wait can leave the stack if they are marked or not there. -/
theorem restack (h : s.Marking store roots marked stack seen)
    (hsub : ∀ n ∈ stack', n ∈ stack)
    (hkept : ∀ n ∈ stack, n ∈ stack' ∨ n ∈ marked ∨ s.graph.hasNode n = false) :
    s.Marking store roots marked stack' seen := by
  have hpending (n : Nat) (hn : s.Pending marked stack n) : s.Pending marked stack' n := by
    intro hnode
    rcases hn hnode with hmarked | hstack
    · exact Or.inl hmarked
    · rcases hkept n hstack with hstack' | hmarked | hgone
      · exact Or.inr hstack'
      · exact Or.inl hmarked
      · rw [hgone] at hnode
        cases hnode
  exact ⟨h.node, fun n hn => h.retained n (hn.imp_right (hsub n)), h.found,
    fun n hn t ht => hpending t (h.successor n hn t ht),
    fun n hn v hv => (h.value n hn v hv).mono hpending fun _ hg => hg,
    fun g hg v hv => (h.held g hg v hv).mono hpending fun _ hg => hg⟩

/-- What a retained node leads to is retained. -/
theorem retained_turn (h : s.Marking store roots marked (n :: rest) seen) (hsound : s.graph.Sound)
    (hn : s.graph.hasNode n = true) {m : Nat} (hnode : s.graph.hasNode m = true)
    (hm : m ∈ (s.findings store seen n).closures ++ (s.graph.successors n).reverse ++ rest) :
    s.Retained store roots m := by
  have hretained : s.Retained store roots n := h.retained n (Or.inr List.mem_cons_self) hn
  rw [List.append_assoc] at hm
  rcases List.mem_append.1 hm with hm | hm
  · obtain hold | ⟨f, ⟨v, hv, hf⟩, rfl⟩ := (walks_findings s store seen n).1.closure m hm
    · cases hold
    · exact .closure hretained hv hf hnode
  · rcases List.mem_append.1 hm with hm | hm
    · obtain ⟨e, edge, hedge, rfl, rfl⟩ := hsound.mem_successors.1 (List.mem_reverse.1 hm)
      exact .edge hretained hedge
    · exact h.retained m (Or.inr (List.mem_cons_of_mem n hm)) hnode

/-- One turn marks a node and puts what it leads to on the stack. -/
theorem step (h : s.Marking store roots marked (n :: rest) seen) (hsound : s.graph.Sound)
    (hn : s.graph.hasNode n = true) :
    s.Marking store roots (marked.insert n)
      ((s.findings store seen n).closures ++ (s.graph.successors n).reverse ++ rest)
      (s.findings store seen n).seen := by
  obtain ⟨hwalks, hmet⟩ := walks_findings s store seen n
  have hretained : s.Retained store roots n := h.retained n (Or.inr List.mem_cons_self) hn
  have hpending (m : Nat) (hm : s.Pending marked (n :: rest) m) : s.Pending (marked.insert n)
      ((s.findings store seen n).closures ++ (s.graph.successors n).reverse ++ rest) m := hm.turn _
  have hclosure (c : Nat) (hc : c ∈ (s.findings store seen n).closures) :
      s.Pending (marked.insert n)
        ((s.findings store seen n).closures ++ (s.graph.successors n).reverse ++ rest) c :=
    fun _ => Or.inr (List.mem_append_left _ (List.mem_append_left _ hc))
  refine ⟨fun m hm => ?_, fun m hm hnode => ?_, fun g hg => ?_, fun m hm t ht => ?_,
    fun m hm v hv => ?_, fun g hg v hv => ?_⟩
  · rcases Std.HashSet.mem_insert.1 hm with heq | hm
    · rwa [← beq_iff_eq.1 heq]
    · exact h.node m hm
  · rcases hm with hm | hm
    · rcases Std.HashSet.mem_insert.1 hm with heq | hm
      · rwa [← beq_iff_eq.1 heq]
      · exact h.retained m (Or.inl hm) hnode
    · exact h.retained_turn hsound hn hnode hm
  · obtain hg | ⟨v, hv, hw⟩ := hwalks.container g hg
    · exact h.found g hg
    · exact ⟨n, v, hretained, hv, hw⟩
  · rcases Std.HashSet.mem_insert.1 hm with heq | hm
    · rw [← beq_iff_eq.1 heq] at ht
      exact fun _ => Or.inr (List.mem_append_left _
        (List.mem_append_right _ (List.mem_reverse.2 ht)))
    · exact hpending t (h.successor m hm t ht)
  · rcases Std.HashSet.mem_insert.1 hm with heq | hm
    · rw [← beq_iff_eq.1 heq] at hv
      exact (hmet v hv).mono hclosure fun _ hg => hg
    · exact (h.value m hm v hv).mono hpending hwalks.seen
  · obtain hg | hheld := hwalks.held g hg
    · exact (h.held g hg v hv).mono hpending hwalks.seen
    · exact (hheld v hv).mono hclosure fun _ hg => hg

/-- A node that was dropped from the stack is marked, or not there. -/
theorem waits_or_passed (s : Scopes) (marked : Std.HashSet Nat) {n : Nat} (hn : n ∈ stack) :
    n ∈ stack.dropWhile (fun n => !s.graph.hasNode n || marked.contains n) ∨
      n ∈ marked ∨ s.graph.hasNode n = false := by
  refine (mem_dropWhile_or hn).symm.imp_right fun hpassed => ?_
  rw [Bool.or_eq_true, Bool.not_eq_true'] at hpassed
  exact hpassed.symm

/-- With more fuel than there are nodes to mark, all that waits is marked when the stack is
empty. -/
theorem run (hsound : s.graph.Sound) {fuel : Nat} (h : s.Marking store roots marked stack seen)
    (hfuel : unseen (List.range s.graph.slots.size) marked < fuel) :
    (∀ n ∈ marked, n ∈ s.mark store fuel stack marked seen) ∧
      (∀ n ∈ stack, s.graph.hasNode n = true → n ∈ s.mark store fuel stack marked seen) ∧
      ∃ seen', s.Marking store roots (s.mark store fuel stack marked seen) [] seen' := by
  induction fuel generalizing marked stack seen with
  | zero => omega
  | succ fuel ih =>
    rw [mark]
    have hdropped (n : Nat) (hn : n ∈ stack) := waits_or_passed s marked hn
    cases hdrop : stack.dropWhile fun n => !s.graph.hasNode n || marked.contains n with
    | nil =>
      rw [hdrop] at hdropped
      refine ⟨fun n hn => hn, fun n hn hnode => ?_, seen, h.restack (by simp) hdropped⟩
      rcases (hdropped n hn).resolve_left List.not_mem_nil with hmarked | hgone
      · exact hmarked
      · rw [hgone] at hnode
        cases hnode
    | cons n rest =>
      rw [hdrop] at hdropped
      have hfirst := not_of_dropWhile_eq_cons hdrop
      rw [Bool.or_eq_false_iff, Bool.not_eq_false'] at hfirst
      obtain ⟨hn, hnew⟩ := hfirst
      have hnew : n ∉ marked := Std.HashSet.contains_eq_false_iff_not_mem.1 hnew
      have hpopped : s.Marking store roots marked (n :: rest) seen :=
        h.restack (fun m hm => (List.dropWhile_sublist _).subset (hdrop ▸ hm)) hdropped
      obtain ⟨a, ha⟩ := hasNode_iff.1 hn
      have hpaid := unseen_insert_lt (List.mem_range.2 (node?_lt ha)) hnew
      obtain ⟨hmarked, hstack, hends⟩ := ih (hpopped.step hsound hn) (by omega)
      refine ⟨fun m hm => hmarked m (Std.HashSet.mem_insert.2 (Or.inr hm)),
        fun m hm hnode => ?_, hends⟩
      rcases hdropped m hm with hmem | hold | hgone
      · rcases List.mem_cons.1 hmem with rfl | hmem
        · exact hmarked m Std.HashSet.mem_insert_self
        · exact hstack m (List.mem_append_right _ hmem) hnode
      · exact hmarked m (Std.HashSet.mem_insert.2 (Or.inr hold))
      · rw [hgone] at hnode
        cases hnode

end Marking

/-! ### What is marked -/

/-- The marking ends with an empty stack, and everything that it starts from is marked. -/
theorem marking_reachable (hsound : s.graph.Sound) (store : Store) (roots : List Nat) :
    (∀ n ∈ roots ++ s.activeScopes, s.graph.hasNode n = true → n ∈ s.reachable store roots) ∧
      ∃ seen, s.Marking store roots (s.reachable store roots) [] seen := by
  have hstart : s.Marking store roots ∅ (roots ++ s.activeScopes).reverse ∅ := by
    refine ⟨by simp, fun n hn hnode => ?_, by simp, by simp, by simp, by simp⟩
    rcases List.mem_append.1 (List.mem_reverse.1 (hn.resolve_left (by simp))) with hn | hn
    · exact .root hn hnode
    · exact .active (List.mem_filter.1 hn).2
  have hfuel : unseen (List.range s.graph.slots.size) (∅ : Std.HashSet Nat) <
      s.graph.slots.size + 1 := by
    rw [unseen_empty, List.length_range]
    omega
  obtain ⟨-, hstack, hends⟩ := hstart.run hsound hfuel
  exact ⟨fun n hn => hstack n (List.mem_reverse.2 hn), hends⟩

/-- The marking marks exactly the nodes that are retained. -/
theorem mem_reachable_iff (hsound : s.graph.Sound) {n : Nat} :
    n ∈ s.reachable store roots ↔ s.Retained store roots n := by
  obtain ⟨hstart, seen, hends⟩ := marking_reachable hsound store roots
  have hmarked {n : Nat} (hn : s.Pending (s.reachable store roots) [] n)
      (hnode : s.graph.hasNode n = true) : n ∈ s.reachable store roots :=
    (hn hnode).resolve_right (by simp)
  refine ⟨fun hn => hends.retained n (Or.inl hn) (hends.node n hn), fun h => ?_⟩
  induction h with
  | root hn hnode => exact hstart _ (List.mem_append_left _ hn) hnode
  | @active n hn =>
    obtain ⟨kind, hactive⟩ := isActive_iff.1 hn
    have hnode : s.graph.hasNode n = true := hasNode_iff.2 ⟨_, hactive⟩
    exact hstart n (List.mem_append_right _ (List.mem_filter.2 ⟨mem_nodeIds.2 hnode, hn⟩)) hnode
  | @edge e edge _ hedge ih =>
    exact hmarked (hends.successor _ ih _ (hsound.mem_successors.2 ⟨e, edge, hedge, rfl, rfl⟩))
      (hsound.hasNode_target hedge)
  | closure _ hn hf hnode ih =>
    have hmet : Met (s.Pending (s.reachable store roots) []) seen _ :=
      (hends.value _ ih _ hn).within hends.held hf
    exact hmarked hmet hnode

/-! ### The sweep -/

/-- What is left after nodes were removed was there before. -/
theorem removeNodes_sub {g : SlotGraph ScopeNode ScopeEdge} (h : g.Sound) (dead : List Nat) :
    (dead.foldl SlotGraph.removeNode g).Sound ∧
      (∀ {n a}, (dead.foldl SlotGraph.removeNode g).node? n = some a → g.node? n = some a) ∧
      ∀ {n p}, p ∈ (dead.foldl SlotGraph.removeNode g).ties n → p ∈ g.ties n := by
  induction dead generalizing g with
  | nil => exact ⟨h, id, id⟩
  | cons m dead ih =>
    obtain ⟨hsound, hnode, hties⟩ := ih (h.removeNode m)
    refine ⟨hsound, fun hn => ?_, fun hp => ?_⟩
    · have hkept := hnode hn
      rw [node?_removeNode] at hkept
      split at hkept
      · cases hkept
      · exact hkept
    · rename_i n p
      have hkept := hties hp
      by_cases hn : n = m
      · have hgone : (g.removeNode m).node? n = none := by rw [node?_removeNode, if_pos hn]
        rw [ties_of_vacant hgone] at hkept
        cases hkept
      · rw [h.ties_removeNode hn] at hkept
        exact (List.mem_filter.1 hkept).1

theorem Tidy.collect (h : s.Tidy) (store : Store) (roots : List Nat) :
    (s.collect store roots).2.Tidy := by
  unfold Scopes.collect
  dsimp only
  generalize (s.graph.nodeIds.filter fun n => !(s.reachable store roots).contains n) = dead
  obtain ⟨hsound, hnode, hties⟩ := removeNodes_sub h.sound dead
  have hkept {n : Nat} {a : ScopeNode} (hn : s.graph.node? n = some a)
      (hhas : (dead.foldl SlotGraph.removeNode s.graph).hasNode n = true) :
      (dead.foldl SlotGraph.removeNode s.graph).node? n = some a := by
    obtain ⟨b, hb⟩ := hasNode_iff.1 hhas
    rw [hb, ← hn, hnode hb]
  refine ⟨hsound, ?_, ?_⟩
  · intro n t hmem
    obtain ⟨value, hvalue⟩ := h.bound (hties hmem)
    exact ⟨value, hkept hvalue (hsound.hasNode_of_mem_ties hmem).2⟩
  · intro scope name var hvar
    rw [Std.HashMap.getElem?_filter', Option.filter_eq_some_iff, Bool.and_eq_true] at hvar
    obtain ⟨hscope, hname⟩ := h.declared hvar.1
    obtain ⟨kind, active, hscope⟩ := isScope_iff.1 hscope
    obtain ⟨mutable, hname⟩ := variableName?_iff.1 hname
    exact ⟨isScope_iff.2 ⟨kind, active, hkept hscope hvar.2.1⟩,
      variableName?_iff.2 ⟨mutable, hkept hname hvar.2.2⟩⟩

theorem node?_removeNodes {g : SlotGraph ScopeNode ScopeEdge} (dead : List Nat) {n : Nat}
    (hn : n ∉ dead) :
    (dead.foldl SlotGraph.removeNode g).node? n = g.node? n := by
  induction dead generalizing g with
  | nil => rfl
  | cons m dead ih =>
    rw [List.mem_cons, not_or] at hn
    rw [List.foldl_cons, ih hn.2, node?_removeNode, if_neg hn.1]

/-- The nodes that go. -/
def dead (s : Scopes) (store : Store) (roots : List Nat) : List Nat :=
  s.graph.nodeIds.filter fun n => !(s.reachable store roots).contains n

theorem mem_dead (hsound : s.graph.Sound) {n : Nat} :
    n ∈ s.dead store roots ↔ s.graph.hasNode n = true ∧ ¬s.Retained store roots n := by
  rw [dead, List.mem_filter, mem_nodeIds, ← mem_reachable_iff hsound]
  simp

theorem Retained.not_mem_dead (hsound : s.graph.Sound) {n : Nat} (h : s.Retained store roots n) :
    n ∉ s.dead store roots := fun hdead => ((mem_dead hsound).1 hdead).2 h

theorem retained_of_not_mem_dead (hsound : s.graph.Sound) {n : Nat}
    (hn : s.graph.hasNode n = true) (h : n ∉ s.dead store roots) : s.Retained store roots n := by
  by_contra hnot
  exact h ((mem_dead hsound).2 ⟨hn, hnot⟩)

/-- A scope that collecting starts from stays. -/
theorem isScope_collect (h : s.graph.Sound) (store : Store) {roots : List Nat} {n : Nat}
    (hn : n ∈ roots) : (s.collect store roots).2.isScope n = s.isScope n := by
  refine isScope_congr (node?_removeNodes (s.dead store roots) fun hdead => ?_)
  obtain ⟨hnode, hnot⟩ := (mem_dead h).1 hdead
  exact hnot (.root hn hnode)

end Scopes

end GraphLang
