import GraphLang.Proofs.Optimize.Branches

/-!
# Pruning statements keeps the meaning

The statements of a block after one that never goes on are not evaluated, so they may go.
-/

namespace GraphLang

open Program

variable {p q : Program} {block n : Nat} {role : Role}

/-! ### A child that goes -/

namespace Program

/-- The ties of a node without one of its edges. -/
theorem Treelike.ties_removeEdge (h : p.Treelike) {e : Nat}
    (hedge : p.graph.edge? e = some ⟨block, n, role⟩) :
    (p.graph.removeEdge e).ties block = (p.graph.ties block).filter fun t => t.1 != role := by
  rw [SlotGraph.ties, h.sound.outgoing_removeEdge, SlotGraph.ties, List.filter_map]
  congr 1
  refine List.filter_congr ?_
  rintro ⟨e', edge'⟩ hmem
  obtain ⟨hedge', hsource⟩ := h.sound.mem_outgoing_iff.1 hmem
  dsimp only [Function.comp]
  by_cases he : e' = e
  · subst he
    rw [hedge] at hedge'
    cases hedge'
    simp
  · have hrole : edge'.weight ≠ role := fun hrole => he (h.roles _ _ _ _ hedge hedge' hsource hrole)
    rw [bne_iff_ne.2 he, bne_iff_ne.2 hrole]

/-- The children of a node without one of its edges. -/
theorem Treelike.indexed_removeEdge (h : p.Treelike) {e : Nat}
    (hedge : p.graph.edge? e = some ⟨block, n, role⟩) (family : Role) :
    indexed { p with graph := p.graph.removeEdge e } block family =
      (p.indexed block family).filter fun t => t.1 != role := by
  have hties : (({ p with graph := p.graph.removeEdge e } : Program).graph.ties block) =
      (p.graph.ties block).filter fun t => t.1 != role := h.ties_removeEdge hedge
  have hdiffer : RolesDiffer { p with graph := p.graph.removeEdge e } block := by
    rw [RolesDiffer, hties]
    exact (h.differ block).sublist (List.Sublist.map _ List.filter_sublist)
  have hchildren : children { p with graph := p.graph.removeEdge e } block =
      (p.children block).filter fun t => t.1 != role := by
    refine hdiffer.children_eq ((p.pairwise_children block).filter _) ?_
    rw [hties]
    exact (List.mergeSort_perm _ _).filter _
  rw [indexed, hchildren, indexed, List.filter_filter, List.filter_filter]
  exact List.filter_congr fun t _ => Bool.and_comm _ _

/-- No two children of a node in one family have one role. -/
theorem Treelike.nodup_indexed (h : p.Treelike) (n : Nat) (family : Role) :
    ((p.indexed n family).map (·.1)).Nodup := by
  have hperm : (p.children n).Perm (p.graph.ties n) := List.mergeSort_perm _ _
  have hnodup : ((p.children n).map (·.1)).Nodup := (hperm.map _).nodup_iff.2 (h.differ n)
  exact hnodup.sublist (List.Sublist.map _ List.filter_sublist)

/-- Filtering out the role of one child takes away this child. -/
theorem filter_role {xs ys : List (Role × Nat)} {t : Role × Nat}
    (hnodup : ((xs ++ t :: ys).map (·.1)).Nodup) :
    (xs ++ t :: ys).filter (fun u => u.1 != t.1) = xs ++ ys := by
  rw [List.map_append, List.map_cons, List.nodup_append] at hnodup
  obtain ⟨-, hys, hdisjoint⟩ := hnodup
  have hxs : ∀ u ∈ xs, (u.1 != t.1) = true := by
    intro u hu
    rw [bne_iff_ne]
    exact hdisjoint u.1 (List.mem_map.2 ⟨u, hu, rfl⟩) t.1 List.mem_cons_self
  have hys : ∀ u ∈ ys, (u.1 != t.1) = true := by
    intro u hu
    rw [bne_iff_ne]
    intro heq
    exact (List.nodup_cons.1 hys).1 (List.mem_map.2 ⟨u, hu, heq⟩)
  rw [List.filter_append, List.filter_eq_self.2 hxs, List.filter_cons_of_neg (by simp),
    List.filter_eq_self.2 hys]

end Program

/-! ### Statements that cannot run -/

/-- Statements that stay the same up to one that never goes on. -/
theorem until_of_append {xs ys zs : List (Role × Nat)} {t : Role × Nat}
    (hkept : ∀ u ∈ xs ++ [t], Kept q u.2 u.2) (hp : DeadCode.diverges p t.2 = true)
    (hq : DeadCode.diverges q t.2 = true) :
    Until p q (Kept q) (xs ++ t :: ys) (xs ++ t :: zs) := by
  induction xs with
  | nil => exact .cut (hkept t (by simp)) hp hq
  | cons x xs ih =>
    refine .cons (hkept x (by simp)) (ih fun u hu => hkept u ?_)
    exact List.mem_cons_of_mem x hu

namespace DeadCode

variable {d : Draft} {rest : List (Role × Nat)}

/-- The block has statements up to one that never goes on, and then the given ones. -/
structure Stops (p : Program) (block : Nat) (rest : List (Role × Nat)) : Prop where
  op : p.op? block = some .block
  statements : ∃ xs t, p.indexed block (.statement 0) = xs ++ t :: rest ∧
    diverges p t.2 = true

section Statement

variable (h : p.Treelike) {e : Nat} (hedge : p.graph.edge? e = some ⟨block, n, role⟩)

include h hedge in
/-- A block never is among the nodes below one of its children. -/
theorem not_mem_subtree :
    let q : Program := { p with graph := p.graph.removeEdge e }
    block ∉ q.subtree n := by
  intro q hmem
  obtain ⟨rank, hrank⟩ := h.ranked
  have hbelow : ∀ m ∈ q.subtree n, rank block < rank m := by
    refine preorder_induction (fun m hm _ => ?_) fun m hm c hc _ => ?_
    · rw [List.mem_singleton] at hm
      subst hm
      exact hrank _ _ hedge
    · obtain ⟨e', role', hedge'⟩ := (mem_children_iff (h.sound.removeEdge e)).1 hc
      exact hm.trans (hrank _ _ (SlotGraph.of_edge?_removeEdge hedge').2)
  exact absurd (hbelow block hmem) (Nat.lt_irrefl _)

include h hedge in
/-- The other children of a block are not below the statement either. -/
theorem not_mem_subtree_of_ties :
    let q : Program := { p with graph := p.graph.removeEdge e }
    ∀ t ∈ q.graph.ties block, t.2 ∉ q.subtree n := by
  rintro q ⟨role', c⟩ ht hc
  have hsound : q.graph.Sound := h.sound.removeEdge e
  obtain ⟨e', hedge'⟩ := hsound.mem_ties.1 ht
  obtain ⟨-, -, hroot | ⟨y, hy, hfrom⟩⟩ := mem_preorder hc
  · exact h.target_ne_of_removeEdge hedge hedge' (List.mem_singleton.1 hroot)
  · obtain ⟨e'', role'', hedge''⟩ := (mem_children_iff hsound).1 hfrom
    obtain ⟨-, hfirst⟩ := SlotGraph.of_edge?_removeEdge hedge'
    obtain ⟨-, hsecond⟩ := SlotGraph.of_edge?_removeEdge hedge''
    obtain ⟨-, heq⟩ := h.single.edge_eq hfirst hsecond rfl
    cases heq
    exact not_mem_subtree h hedge hy

include h hedge in
/-- A statement that cannot run is taken away from its block. -/
theorem stops_removeEdge (hstops : Stops p block ((role, n) :: rest)) :
    let q : Program := { p with graph := p.graph.removeEdge e }
    (q.Treelike ∧ Equivalent p q) ∧ q.Idle [] n ∧ Stops q block rest ∧
      ∀ kept, p.indexed block (.statement 0) = kept ++ (role, n) :: rest →
        q.indexed block (.statement 0) = kept ++ rest := by
  intro q
  obtain ⟨hop, xs, t, hstatements, hdiverges⟩ := hstops
  have hopq : ∀ m, q.op? m = p.op? m := p.op?_removeEdge e
  have hdrop : ∀ kept, p.indexed block (.statement 0) = kept ++ (role, n) :: rest →
      q.indexed block (.statement 0) = kept ++ rest := by
    intro kept hkept
    have hnodup := h.nodup_indexed block (.statement 0)
    rw [hkept] at hnodup
    refine (h.indexed_removeEdge hedge _).trans ?_
    rw [hkept]
    exact filter_role hnodup
  have hindexed : q.indexed block (.statement 0) = xs ++ t :: rest := by
    rw [hdrop (xs ++ [t]) (by rw [hstatements]; simp)]
    simp
  have hchild : ∀ u ∈ q.indexed block (.statement 0), ∃ e', q.graph.edge? e' =
      some ⟨block, u.2, u.1⟩ := by
    intro u hu
    have htie : (u.1, u.2) ∈ q.graph.ties block := mem_ties_of_indexed hu
    exact (h.sound.removeEdge e).mem_ties.1 htie
  have hdiverges' : diverges q t.2 = true := by
    rw [diverges, hopq]
    exact hdiverges
  have hchanged : Changed p q block := by
    refine .block hop ((hopq block).trans hop) ?_
    rw [hstatements, hindexed]
    refine until_of_append (fun u hu => ?_) hdiverges hdiverges'
    have hu : u ∈ q.indexed block (.statement 0) := by
      rw [hindexed]
      rcases List.mem_append.1 hu with hu | hu
      · exact List.mem_append_left _ hu
      · rw [List.mem_singleton] at hu
        exact List.mem_append_right _ (hu ▸ List.mem_cons_self)
    obtain ⟨e', hedge'⟩ := hchild u hu
    exact ⟨rfl, (h.sound.removeEdge e).hasNode_target hedge'⟩
  exact ⟨h.removeEdge hedge hchanged, ⟨fun hroot => h.loose hroot hedge rfl,
    fun hedge' htarget => absurd htarget (h.target_ne_of_removeEdge hedge hedge')⟩,
    ⟨(hopq block).trans hop, xs, t, hindexed, hdiverges'⟩, hdrop⟩

include h hedge in
/-- One statement that cannot run goes. -/
theorem stops_drop (hstops : Stops p block ((role, n) :: rest)) :
    let q : Program := { p with graph := p.graph.removeEdge e }
    Faithful p (q.removeNodes (q.subtree n)) ∧ Stops (q.removeNodes (q.subtree n)) block rest ∧
      Fold.Spares p (q.removeNodes (q.subtree n)) block := by
  intro q
  obtain ⟨⟨hq, hequivalent⟩, hidle, ⟨hop, xs, t, hstatements, hdiverges⟩, -⟩ :=
    stops_removeEdge h hedge hstops
  obtain ⟨hq', hequivalent'⟩ := faithful_removeSubtree hidle hq
  have hself : block ∉ q.subtree n := not_mem_subtree h hedge
  have hothers : ∀ t ∈ q.graph.ties block, t.2 ∉ q.subtree n := not_mem_subtree_of_ties h hedge
  have hties := ties_removeNodes hq.sound hself hothers
  refine ⟨fun _ => ⟨hq', hequivalent.trans hequivalent'⟩, ⟨?_, xs, t, ?_, ?_⟩, ?_⟩
  · rw [op?_removeNodes hself, hop]
  · rw [indexed, children_congr hties]
    exact hstatements
  · have ht : t.2 ∉ q.subtree n := by
      refine hothers t (mem_ties_of_indexed (?_ : t ∈ q.indexed block (.statement 0)))
      rw [hstatements]
      exact List.mem_append_right _ List.mem_cons_self
    rw [diverges, op?_removeNodes ht]
    exact hdiverges
  · exact Fold.Spares.removeNodes (fun m _ => Or.inl (p.op?_removeEdge e m)) _

end Statement

/-! ### The pass -/

theorem spares_trans {s : Program} (h : Fold.Spares p q n) (h' : Fold.Spares q s n) :
    Fold.Spares p s n := by
  intro m hm
  rcases h' m hm with hsame | hgone
  · rw [hsame]
    exact h m hm
  · exact Or.inr hgone

/-- The first of the statements goes, and then the others. -/
theorem run_dropStatements (h : d.program.Treelike) {e : Nat}
    (hedge : d.program.graph.edge? e = some ⟨block, n, role⟩) :
    let q : Program := { d.program with graph := d.program.graph.removeEdge e }
    ((dropStatements block ((role, n) :: rest)).run d).2 =
      ((dropStatements block rest).run { d with program := q.removeNodes (q.subtree n) }).2 := by
  change ((Pass.removeSubtree n >>= fun _ => dropStatements block rest >>= fun others =>
    pure (1 + others) : Pass Nat).run ((Pass.disconnect block role).run d).2).2 = _
  rw [Fold.run_disconnect, h.disconnect_eq hedge]
  rfl

/-- The first of the statements that cannot run is a child of the block. -/
theorem Stops.edge (hstops : Stops p block ((role, n) :: rest)) (hsound : p.graph.Sound) :
    ∃ e, p.graph.edge? e = some ⟨block, n, role⟩ := by
  obtain ⟨-, xs, t, hstatements, -⟩ := hstops
  have hmem : (role, n) ∈ p.indexed block (.statement 0) := by
    rw [hstatements]
    simp
  exact hsound.mem_ties.1 (mem_ties_of_indexed hmem)

theorem faithful_dropStatements (h : d.program.Treelike) (hstops : Stops d.program block rest) :
    Fold.Folded d.program ((dropStatements block rest).run d).2.program block := by
  induction rest generalizing d with
  | nil => exact .refl d.program block
  | cons x rest ih =>
    obtain ⟨role, n⟩ := x
    obtain ⟨e, hedge⟩ := hstops.edge h.sound
    obtain ⟨hfaithful, hnext, hspares⟩ := stops_drop h hedge hstops
    let q : Program := { d.program with graph := d.program.graph.removeEdge e }
    rw [run_dropStatements h hedge]
    obtain ⟨hrest, hspares'⟩ :=
      ih (d := { d with program := q.removeNodes (q.subtree n) }) (hfaithful h).1 hnext
    exact ⟨hfaithful.trans hrest, spares_trans hspares hspares'⟩

theorem indexed_of_vacant (hop : p.op? block = none) (family : Role) :
    p.indexed block family = [] := by
  have hvacant : p.graph.node? block = none := Option.map_eq_none_iff.1 hop
  rw [List.eq_nil_iff_forall_not_mem]
  intro t ht
  have htie := mem_ties_of_indexed ht
  rw [SlotGraph.ties_of_vacant hvacant] at htie
  cases htie

/-- The statements of a block that cannot run come after one that never goes on. -/
theorem unreachable_cases (hop : p.op? block = some .block ∨ p.op? block = none) :
    unreachableStatements p block = [] ∨ Stops p block (unreachableStatements p block) := by
  unfold unreachableStatements
  rcases hop with hop | hop
  · cases hdrop : (p.indexed block (.statement 0)).dropWhile fun x => !diverges p x.2 with
    | nil => exact Or.inl rfl
    | cons t rest =>
      have hsplit := List.takeWhile_append_dropWhile (l := p.indexed block (.statement 0))
        (p := fun x => !diverges p x.2)
      rw [hdrop] at hsplit
      refine Or.inr ⟨hop, _, t, hsplit.symm, ?_⟩
      have hfails := not_of_dropWhile_eq_cons hdrop
      simpa using hfails
  · rw [indexed_of_vacant hop]
    exact Or.inl rfl

theorem pruneBlocks_eq (blocks : List Nat) : pruneBlocks blocks =
    Pass.total (fun block => do dropStatements block (unreachableStatements (← Pass.program) block))
      blocks := by
  induction blocks with
  | nil => rfl
  | cons block blocks ih =>
    rw [pruneBlocks, ih]
    rfl

/-- What the pass keeps: what holds on when a block has no statements that cannot run, and when they
are dropped. -/
theorem prune_induction {P : List Nat → Nat → Program → Prop}
    (htree : ∀ {blocks k p}, P blocks k p → p.Treelike)
    (hidle : ∀ {block blocks k p}, P (block :: blocks) k p → unreachableStatements p block = [] →
      P blocks k p)
    (hdrop : ∀ {block blocks k d}, P (block :: blocks) k d.program →
      Stops d.program block (unreachableStatements d.program block) →
      let r := (dropStatements block (unreachableStatements d.program block)).run d
      P blocks (k + r.1) r.2.program)
    (h : P (d.program.nodeIds.filter (Fold.isBlock d.program)) 0 d.program) :
    P [] (prune.run d).1 (prune.run d).2.program := by
  have hall := Fold.total_induction (o := .block) (P := P)
    (fun block => do dropStatements block (unreachableStatements (← Pass.program) block))
    (fun {block blocks k d} h hop => ?_) (List.Nodup.filter _ (SlotGraph.nodup_nodeIds _))
    (fun n hn => Or.inl (Fold.isBlock_iff.1 (List.mem_filter.1 hn).2)) h
  · rw [Nat.zero_add, ← pruneBlocks_eq] at hall
    exact hall
  · rw [Pass.run_bind, Pass.run_program]
    dsimp only
    rcases unreachable_cases hop with hnone | hstops
    · rw [hnone]
      exact ⟨hidle h hnone, fun _ _ => Or.inl rfl⟩
    · exact ⟨hdrop h hstops, (faithful_dropStatements (htree h) hstops).spares⟩

theorem keeps_prune : Pass.Keeps prune := by
  intro d h
  refine prune_induction (P := fun _ _ q => q.Treelike ∧ Equivalent d.program q)
    (fun h => h.1) (fun h _ => h) (fun {block blocks k d'} hd' hstops => ?_) ⟨h, .refl d.program⟩
  obtain ⟨htree, hequivalent⟩ := hd'
  obtain ⟨htree', hequivalent'⟩ := (faithful_dropStatements htree hstops).faithful htree
  exact ⟨htree', hequivalent.trans hequivalent'⟩

end DeadCode

end GraphLang
