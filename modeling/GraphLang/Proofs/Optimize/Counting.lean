import GraphLang.Proofs.Optimize.Remains

/-!
# What the passes count

Every node folded, branch folded and statement dropped costs the program a node, and a pass that
counts nothing leaves the program as it is. So folding constants has enough rounds, and a run of all
passes changes something exactly if it removes a node.
-/

namespace GraphLang

variable {p q s : Program} {n : Nat}

/-! ### Fewer nodes -/

namespace SlotGraph

variable {α β : Type} {g g' : SlotGraph α β}

theorem nodeCount_le (h : ∀ n, g'.hasNode n = true → g.hasNode n = true) :
    g'.nodeCount ≤ g.nodeCount := by
  rw [nodeCount_eq, nodeCount_eq]
  refine (List.subperm_of_subset (nodup_nodeIds g') fun n hn => ?_).length_le
  exact mem_nodeIds.2 (h n (mem_nodeIds.1 hn))

theorem nodeCount_lt (h : ∀ n, g'.hasNode n = true → g.hasNode n = true)
    (hn : g.hasNode n = true) (hgone : g'.hasNode n ≠ true) : g'.nodeCount < g.nodeCount := by
  rw [nodeCount_eq, nodeCount_eq]
  have hnew : n ∉ g'.nodeIds := fun hmem => hgone (mem_nodeIds.1 hmem)
  have hnodup : (n :: g'.nodeIds).Nodup := List.nodup_cons.2 ⟨hnew, nodup_nodeIds g'⟩
  refine (List.subperm_of_subset hnodup fun m hm => ?_).length_le
  rcases List.mem_cons.1 hm with rfl | hm
  · exact mem_nodeIds.2 hn
  · exact mem_nodeIds.2 (h m (mem_nodeIds.1 hm))

end SlotGraph

/-- The second program has at least so many nodes less, and is the first one if nothing was
counted. -/
structure Pays (p q : Program) (count : Nat) : Prop where
  cost : count + q.graph.nodeCount ≤ p.graph.nodeCount
  same : count = 0 → q = p

namespace Pays

theorem refl (p : Program) : Pays p p 0 := ⟨by omega, fun _ => rfl⟩

theorem trans {j k : Nat} (h : Pays p q j) (h' : Pays q s k) : Pays p s (j + k) := by
  refine ⟨?_, fun hzero => ?_⟩
  · have hcost := h.cost
    have hcost' := h'.cost
    omega
  · rw [h'.same (by omega), h.same (by omega)]

theorem one (h : q.graph.nodeCount < p.graph.nodeCount) : Pays p q 1 :=
  ⟨by omega, fun hzero => absurd hzero (by omega)⟩

end Pays

/-- Every node that is left was there before. -/
theorem Fold.Spares.hasNode (h : Fold.Spares p q n) (hn : p.graph.hasNode n = true) {m : Nat}
    (hm : q.graph.hasNode m = true) : p.graph.hasNode m = true := by
  by_cases hmn : m = n
  · exact hmn ▸ hn
  · obtain ⟨o, ho⟩ := Program.exists_op? hm
    exact Program.hasNode_of_op? (h.op? hmn ho)

/-! ### Folding constants -/

namespace Fold

open Program

variable {d : Draft}

/-- What is folded has an operand. -/
theorem exists_operand {l : Literal} {operands : List Nat}
    (h : folded? p n = some (l, operands)) : ∃ c ∈ operands, ∃ role, p.child? n role = some c := by
  obtain ⟨-, hchildren, -⟩ := constant_of_folded? h
  unfold folded? at h
  obtain ⟨o, -, h⟩ := Option.bind_eq_some_iff.1 h
  obtain ⟨found, -, h⟩ := Option.bind_eq_some_iff.1 h
  obtain ⟨l', hresult, h⟩ := Option.bind_eq_some_iff.1 h
  cases h
  cases found with
  | nil => cases o <;> cases hresult
  | cons x found => exact ⟨x.1, List.mem_cons_self, hchildren x.1 List.mem_cons_self⟩

theorem nodeCount_folded (h : p.Treelike) {l : Literal} {operands : List Nat} {o : Op}
    (hfolded : folded? p n = some (l, operands))
    (hreplace : p.replaceOp n (.literal l) = .ok (o, q)) :
    (q.removeNodes operands).graph.nodeCount < p.graph.nodeCount := by
  obtain ⟨hl, -⟩ := constant_of_folded? hfolded
  obtain ⟨-, -, hothers, -⟩ := faithful_replaceOp hl hreplace
  obtain ⟨c, hc, role, hchild⟩ := exists_operand hfolded
  obtain ⟨hn, hlive⟩ := h.sound.hasNode_of_mem_ties (mem_ties_of_child? hchild)
  have hspares : Spares p (q.removeNodes operands) n :=
    Spares.removeNodes (fun m hm => Or.inl (hothers m hm)) operands
  exact SlotGraph.nodeCount_lt (fun _ => hspares.hasNode hn) hlive
    fun hleft => (hasNode_removeNodes.1 hleft).2 hc

/-- One round costs a node for every fold, and folds nothing only where there is nothing to fold. -/
theorem pays_foldOnce (h : d.program.Treelike) :
    let r := (foldOnce d.program.nodeIds).run d
    (r.2.program.Treelike ∧ Pays d.program r.2.program r.1) ∧
      (r.1 = 0 → ∀ n, folded? d.program n = none) := by
  have hround := foldOnce_induction (d := d) (k := 0)
    (P := fun ns k q => (q.Treelike ∧ Pays d.program q k) ∧
      (k = 0 → ∀ n, folded? d.program n ≠ none → n ∈ ns))
    (fun {n ns k q} hq hnone => ⟨hq.1, fun hzero m hm => ?_⟩)
    (fun {n ns k q l operands o q'} hq hfolded hreplace => ⟨⟨?_, ?_⟩, fun hzero => ?_⟩)
    d.program.nodeIds ⟨⟨h, .refl d.program⟩, fun _ n hn => ?_⟩
  · rw [Nat.zero_add] at hround
    refine ⟨hround.1, fun hzero n => ?_⟩
    by_contra hn
    cases hround.2 hzero n hn
  · rcases List.mem_cons.1 (hq.2 hzero m hm) with rfl | hmem
    · rw [hq.1.2.same hzero] at hnone
      exact absurd hnone hm
    · exact hmem
  · exact (faithful_folded hfolded hreplace hq.1.1).1
  · exact hq.1.2.trans (.one (nodeCount_folded hq.1.1 hfolded hreplace))
  · omega
  · rw [ne_eq, Option.eq_none_iff_forall_ne_some, not_forall_not] at hn
    obtain ⟨x, hx⟩ := hn
    obtain ⟨o, ho, -⟩ := Option.bind_eq_some_iff.1 hx
    exact SlotGraph.mem_nodeIds.2 (hasNode_of_op? ho)

/-- With more rounds than nodes, nothing is left to fold. -/
theorem folded?_foldRounds {fuel : Nat} (h : d.program.Treelike)
    (hfuel : d.program.graph.nodeCount < fuel) (n : Nat) :
    folded? ((foldRounds fuel).run d).2.program n = none := by
  induction fuel generalizing d with
  | zero => omega
  | succ fuel ih =>
    obtain ⟨⟨htree, hpays⟩, hnone⟩ := pays_foldOnce h
    unfold foldRounds
    rw [Pass.run_bind, Pass.run_program, Pass.run_bind]
    dsimp only
    split
    · next hzero =>
      rw [beq_iff_eq] at hzero
      have hsame := hpays.same hzero
      change folded? ((foldOnce d.program.nodeIds).run d).2.program n = none
      rw [hsame]
      exact hnone hzero n
    · next hcount =>
      refine ih (d := ((foldOnce d.program.nodeIds).run d).2) htree ?_
      have hcost := hpays.cost
      rw [beq_iff_eq] at hcount
      omega

/-- The pass leaves nothing to fold. -/
theorem folded?_constants (h : d.program.Treelike) (n : Nat) :
    folded? (constants.run d).2.program n = none :=
  folded?_foldRounds h (Nat.lt_succ_self _) n

theorem pays_constants (h : d.program.Treelike) :
    Pays d.program (constants.run d).2.program (constants.run d).1 :=
  (constants_induction (P := fun k q => q.Treelike ∧ Pays d.program q k)
    (fun hq hfolded hreplace => ⟨(faithful_folded hfolded hreplace hq.1).1,
      hq.2.trans (.one (nodeCount_folded hq.1 hfolded hreplace))⟩) ⟨h, .refl d.program⟩).2

/-- Where there is nothing to fold, the pass does nothing. -/
theorem constants_idle (h : ∀ n, folded? d.program n = none) :
    (constants.run d).1 = 0 ∧ (constants.run d).2.program = d.program :=
  constants_induction (P := fun k q => k = 0 ∧ q = d.program)
    (fun {k q n l operands o q'} hq hfolded _ => by
      rw [hq.2, h] at hfolded
      cases hfolded) ⟨rfl, rfl⟩

/-! ### Folding branches -/

theorem Outcome.nodeCount_lt (h : Outcome p n q) (hp : p.Treelike) :
    q.graph.nodeCount < p.graph.nodeCount := by
  have hspares := (h.folded hp).spares
  have hswept : ∀ {s condition dropped m}, (swept s condition dropped).graph.hasNode m = true →
      s.graph.hasNode m = true ∧ m ≠ condition := by
    intro s condition dropped m hm
    have hfirst : (s.removeNodes [condition]).graph.hasNode m = true := by
      cases dropped with
      | none => exact hm
      | some c => exact (hasNode_removeNodes.1 hm).1
    obtain ⟨hleft, hne⟩ := hasNode_removeNodes.1 hfirst
    exact ⟨hleft, fun heq => hne (List.mem_singleton.2 heq)⟩
  cases h with
  | @taken s branch e condition role dropped hedge hskips hredirected =>
    -- The branch itself is gone.
    have hn := hp.sound.hasNode_source hedge
    refine SlotGraph.nodeCount_lt (fun _ => hspares.hasNode hn) hn fun hleft => ?_
    exact (hredirected.hasNode_iff.1 (hswept hleft).1).1 rfl
  | @settled q e c condition _ _ _ hcondition =>
    -- The literal that decided the branch is gone.
    obtain ⟨hn, hlive⟩ := hp.sound.hasNode_of_mem_ties (mem_ties_of_child? hcondition)
    exact SlotGraph.nodeCount_lt (fun _ => hspares.hasNode hn) hlive
      fun hleft => (hswept hleft).2 rfl

/-- Every branch folded costs a node, and none is folded only where none can be. -/
theorem pays_branches (h : d.program.Treelike) :
    Pays d.program (branches.run d).2.program (branches.run d).1 ∧
      ((branches.run d).1 = 0 → ∀ n, ¬Foldable d.program n) := by
  have hall := branches_induction (d := d)
    (P := fun ns k q => (q.Treelike ∧ Pays d.program q k) ∧
      (k = 0 → ∀ n, Foldable d.program n → n ∈ ns))
    (fun hq => hq.1.1) (fun {n ns k q} hq hnot => ⟨hq.1, fun hzero m hm => ?_⟩)
    (fun {n ns k q q'} hq _ houtcome => ⟨⟨?_, ?_⟩, fun hzero => ?_⟩)
    ⟨⟨h, .refl d.program⟩, fun _ n hn => ?_⟩
  · refine ⟨hall.1.2, fun hzero n hn => ?_⟩
    cases hall.2 hzero n hn
  · rcases List.mem_cons.1 (hq.2 hzero m hm) with rfl | hmem
    · rw [hq.1.2.same hzero] at hnot
      exact absurd hm hnot
    · exact hmem
  · exact ((houtcome.folded hq.1.1).faithful hq.1.1).1
  · exact hq.1.2.trans (.one (houtcome.nodeCount_lt hq.1.1))
  · omega
  · exact List.mem_filter.2 ⟨SlotGraph.mem_nodeIds.2 (hasNode_of_op? hn.1), isBranch_iff.2 hn.1⟩

theorem branches_idle (h : d.program.Treelike) (hnot : ∀ n, ¬Foldable d.program n) :
    (branches.run d).1 = 0 ∧ (branches.run d).2.program = d.program :=
  branches_induction (P := fun _ k q => k = 0 ∧ q = d.program) (fun hq => hq.2.symm ▸ h)
    (fun hq _ => hq) (fun hq hfoldable _ => absurd (hq.2 ▸ hfoldable) (hnot _)) ⟨rfl, rfl⟩

end Fold

/-! ### Dead code -/

namespace DeadCode

open Program

variable {d : Draft} {block : Nat} {rest : List (Role × Nat)}

/-- Every statement that is dropped is counted and costs a node. -/
theorem pays_dropStatements (h : d.program.Treelike) (hstops : Stops d.program block rest) :
    let r := (dropStatements block rest).run d
    r.1 = rest.length ∧ Pays d.program r.2.program rest.length := by
  induction rest generalizing d with
  | nil => exact ⟨rfl, .refl d.program⟩
  | cons x rest ih =>
    obtain ⟨role, n⟩ := x
    obtain ⟨e, hedge⟩ := hstops.edge h.sound
    obtain ⟨hfaithful, hnext, hspares⟩ := stops_drop h hedge hstops
    let q : Program := { d.program with graph := d.program.graph.removeEdge e }
    let d' : Draft := { d with program := q.removeNodes (q.subtree n) }
    obtain ⟨hcount, hpays⟩ := ih (d := d') (hfaithful h).1 hnext
    have hrun : (dropStatements block ((role, n) :: rest)).run d =
        (1 + ((dropStatements block rest).run d').1, ((dropStatements block rest).run d').2) := by
      change ((Pass.removeSubtree n >>= fun _ => dropStatements block rest >>= fun others =>
        pure (1 + others) : Pass Nat).run ((Pass.disconnect block role).run d).2) = _
      rw [Fold.run_disconnect, h.disconnect_eq hedge]
      rfl
    have hlive : q.graph.hasNode n = true :=
      (SlotGraph.hasNode_removeEdge e n).trans (h.sound.hasNode_target hedge)
    have hlt : d'.program.graph.nodeCount < d.program.graph.nodeCount :=
      SlotGraph.nodeCount_lt (fun _ => hspares.hasNode (h.sound.hasNode_source hedge))
        (h.sound.hasNode_target hedge)
        fun hleft => (hasNode_removeNodes.1 hleft).2 (root_mem_subtree hlive)
    rw [hrun, List.length_cons, Nat.add_comm rest.length 1, hcount]
    exact ⟨rfl, (Pays.one hlt).trans hpays⟩

theorem pays_prune (h : d.program.Treelike) :
    Pays d.program (prune.run d).2.program (prune.run d).1 := by
  refine (prune_induction (P := fun _ k q => q.Treelike ∧ Pays d.program q k) (fun hq => hq.1)
    (fun hq _ => hq) (fun {block blocks k d'} hd' hstops => ?_) ⟨h, .refl d.program⟩).2
  obtain ⟨htree, hpays⟩ := hd'
  obtain ⟨hcount, hcost⟩ := pays_dropStatements htree hstops
  dsimp only
  rw [hcount]
  exact ⟨((faithful_dropStatements htree hstops).faithful htree).1, hpays.trans hcost⟩

theorem prune_idle (h : d.program.Treelike)
    (hnone : ∀ b, d.program.op? b = some .block → unreachableStatements d.program b = []) :
    (prune.run d).1 = 0 ∧ (prune.run d).2.program = d.program := by
  refine prune_induction (P := fun _ k q => k = 0 ∧ q = d.program) (fun hq => hq.2.symm ▸ h)
    (fun hq _ => hq) (fun {block blocks k d'} hd' hstops => ?_) ⟨rfl, rfl⟩
  obtain ⟨rfl, hsame⟩ := hd'
  have hop := hstops.op
  rw [hsame] at hop
  rw [hsame, hnone block hop]
  exact ⟨rfl, hsame⟩

/-- Removing dead code adds no node, and with a function its body goes. -/
theorem cost_eliminate (h : d.program.Housed) :
    let r := eliminate.run d
    r.2.program.graph.nodeCount ≤ d.program.graph.nodeCount ∧
      (0 < r.1.2 → r.2.program.graph.nodeCount < d.program.graph.nodeCount) := by
  intro r
  have hreduced : Reduced d.program r.2.program := reduced_eliminate h
  have hsub : ∀ n, r.2.program.graph.hasNode n = true → d.program.graph.hasNode n = true :=
    fun _ hn => (hreduced.live hn).hasNode
  refine ⟨SlotGraph.nodeCount_le hsub, fun hcount => ?_⟩
  have hcount : 0 < ((d.program.functionDefs.map (·.id)).filter fun f =>
      !d.program.liveFunctions.contains f).length := hcount
  obtain ⟨f, hf⟩ := List.exists_mem_of_length_pos hcount
  obtain ⟨hf, hdead⟩ := List.mem_filter.1 hf
  obtain ⟨d', hd', rfl⟩ := List.mem_map.1 hf
  obtain ⟨⟨f, d'⟩, hmem, rfl⟩ := List.mem_map.1 hd'
  obtain ⟨root, a, hbody, ha, howner⟩ := h.rooted hmem
  refine SlotGraph.nodeCount_lt hsub (SlotGraph.hasNode_iff.2 ⟨a, ha⟩) fun hleft => ?_
  -- A root that is left belongs to a live function, which is the one that was dead.
  obtain ⟨g, d'', root', hg, hd'', hbody', hroot⟩ := hreduced.live hleft
  obtain ⟨b, hb, howner'⟩ := h.owner_subtree (FunctionTable.mem_of_get? hd'') hbody' hroot
  rw [ha] at hb
  cases hb
  rw [h.keys hmem, ← howner, howner'] at hdead
  have hlive : d.program.liveFunctions.contains g = true := hg
  rw [hlive] at hdead
  cases hdead

end DeadCode

end GraphLang
