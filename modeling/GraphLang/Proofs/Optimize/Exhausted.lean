import GraphLang.Proofs.Optimize.Untouched
import GraphLang.Proofs.Program.Building

/-!
# What the passes leave to do

Where children have lower numbers than their parents, as a builder numbers them, folding branches
goes from the inside out and leaves none that can be folded. Pruning leaves no statement that cannot
run, and removing dead code leaves nothing dead. The last two passes give the ones before them
nothing to do again.
-/

namespace GraphLang

open Program

variable {p q s : Program} {n m : Nat}

/-! ### Numbers that fall -/

/-- Children have lower numbers than their parents. -/
def Sinks (p : Program) : Prop := ∀ m, ∀ t ∈ p.graph.ties m, t.2 < m

/-- What a builder has made sinks, if it is a tree. -/
theorem Program.BuiltUp.sinks (h : p.BuiltUp) (hp : p.Treelike) : Sinks p := by
  rintro m ⟨role, c⟩ ht
  refine Nat.lt_of_le_of_ne (h.stacked.downward m _ ht) ?_
  rintro rfl
  obtain ⟨e, hedge⟩ := hp.sound.mem_ties.1 ht
  obtain ⟨rank, hrank⟩ := hp.ranked
  exact Nat.lt_irrefl _ (hrank _ _ hedge)

namespace Sinks

theorem of_ties (h : Sinks p) (hties : ∀ m, ∀ t ∈ q.graph.ties m, t ∈ p.graph.ties m) : Sinks q :=
  fun m t ht => h m t (hties m t ht)

theorem removeNodes (h : Sinks p) (hsound : p.graph.Sound) (gone : List Nat) :
    Sinks (p.removeNodes gone) :=
  h.of_ties fun _ _ ht => mem_ties_of_removeNodes hsound ht

theorem removeEdge (h : Sinks p) (hsound : p.graph.Sound) (e : Nat) :
    Sinks { p with graph := p.graph.removeEdge e } := by
  refine h.of_ties fun m ⟨role, c⟩ ht => ?_
  obtain ⟨e', hedge⟩ := (hsound.removeEdge e).mem_ties.1 ht
  exact hsound.mem_ties.2 ⟨e', (SlotGraph.of_edge?_removeEdge hedge).2⟩

theorem swept (h : Sinks s) (hsound : s.graph.Sound) (condition : Nat) (dropped : Option Nat) :
    Sinks (Fold.swept s condition dropped) := by
  cases dropped with
  | none => exact h.removeNodes hsound _
  | some c => exact (h.removeNodes hsound _).removeNodes (sound_removeNodes hsound _) _

theorem folded (h : Sinks p) (hp : p.Treelike) {l : Literal} {operands : List Nat} {o : Op}
    (hfolded : Fold.folded? p n = some (l, operands))
    (hreplace : p.replaceOp n (.literal l) = .ok (o, q)) : Sinks (q.removeNodes operands) := by
  obtain ⟨hl, -⟩ := constant_of_folded? hfolded
  obtain ⟨hfaithful, -, -, hties, -⟩ := faithful_replaceOp hl hreplace
  exact (h.of_ties fun m t ht => hties m ▸ ht).removeNodes (hfaithful hp).1.sound _

/-- What takes the place of a node has a lower number than the node. -/
theorem redirected {branch e : Nat} {role : Role} (h : Sinks p) (hsound : p.graph.Sound)
    (hs : Redirected p s n branch) (hedge : p.graph.edge? e = some ⟨n, branch, role⟩) :
    Sinks s := by
  intro m t ht
  have hmn : m ≠ n := by
    rintro rfl
    obtain ⟨e', hedge'⟩ := hs.sound.mem_ties.1 (show (t.1, t.2) ∈ s.graph.ties m from ht)
    exact (hs.edge hsound hedge').1 rfl
  obtain ⟨⟨role', c⟩, hc, rfl⟩ := List.mem_map.1 ((hs.ties m hmn).subset ht)
  have hlt := h m _ hc
  dsimp only at hlt ⊢
  by_cases hcn : c = n
  · rw [hcn, redirect_self]
    exact (h n _ (hsound.mem_ties.2 ⟨e, hedge⟩)).trans (hcn ▸ hlt)
  · rwa [redirect_of_ne hcn]

theorem outcome (h : Sinks p) (hp : p.Treelike) (hq : Fold.Outcome p n q) : Sinks q := by
  cases hq with
  | taken hedge hskips hredirected =>
    exact (h.redirected hp.sound hredirected hedge).swept hredirected.sound _ _
  | @settled s e c condition hself hconstant hreplace =>
    obtain ⟨hfaithful, -, -, hties, -⟩ := faithful_replaceOp hconstant hreplace
    have hsound := (hfaithful hp).1.sound
    have hs : Sinks s := h.of_ties fun m t ht => hties m ▸ ht
    exact ((hs.removeEdge hsound e).removeNodes (hsound.removeEdge e) _).swept
      (sound_removeNodes (hsound.removeEdge e) _) _ _

end Sinks

namespace Fold

variable {d : Draft}

theorem sinks_constants (h : d.program.Treelike) (hsinks : Sinks d.program) :
    Sinks (constants.run d).2.program :=
  (constants_induction (P := fun _ q => q.Treelike ∧ Sinks q)
    (fun hq hfolded hreplace => ⟨(faithful_folded hfolded hreplace hq.1).1,
      hq.2.folded hq.1 hfolded hreplace⟩) ⟨h, hsinks⟩).2

/-- From the inside out, every branch that can be folded is. A fold touches the parent of the
branch, which has a higher number and is still to come. -/
theorem not_foldable_branches (h : d.program.Treelike) (hsinks : Sinks d.program) (n : Nat) :
    ¬Foldable (branches.run d).2.program n := by
  have hall := branches_induction (d := d)
    (P := fun ns _ q => (q.Treelike ∧ Sinks q) ∧ ns.Pairwise (· < ·) ∧ ∀ m, q.op? m = some .branch →
      m ∈ ns ∨ (¬Foldable q m ∧ ∀ n ∈ ns, m < n))
    (fun hq => hq.1.1) (fun {n ns k q} hq hnot => ?_) (fun {n ns k q q'} hq _ houtcome => ?_)
    ⟨⟨h, hsinks⟩, ?_, fun m hm => Or.inl ?_⟩
  · intro hn
    rcases hall.2.2 n hn.1 with hmem | ⟨hnot, -⟩
    · cases hmem
    · exact hnot hn
  · obtain ⟨hq, hsorted, hdone⟩ := hq
    obtain ⟨hfirst, hsorted⟩ := List.pairwise_cons.1 hsorted
    refine ⟨hq, hsorted, fun m hm => ?_⟩
    rcases hdone m hm with hmem | ⟨hnotm, hbelow⟩
    · rcases List.mem_cons.1 hmem with rfl | hmem
      · exact Or.inr ⟨hnot, hfirst⟩
      · exact Or.inl hmem
    · exact Or.inr ⟨hnotm, fun n' hn' => hbelow n' (List.mem_cons_of_mem n hn')⟩
  · obtain ⟨⟨htree, hsinks⟩, hsorted, hdone⟩ := hq
    obtain ⟨hfirst, hsorted⟩ := List.pairwise_cons.1 hsorted
    have htree' := ((houtcome.folded htree).faithful htree).1
    refine ⟨⟨htree', hsinks.outcome htree houtcome⟩, hsorted, fun m hm => ?_⟩
    have hmn : m ≠ n := by
      rintro rfl
      cases houtcome.op?_self hm
    have hop : q.op? m = some .branch := (houtcome.folded htree).spares.op? hmn hm
    rcases hdone m hop with hmem | ⟨hnotm, hbelow⟩
    · exact Or.inl ((List.mem_cons.1 hmem).resolve_left hmn)
    · refine Or.inr ⟨fun hfoldable => hnotm ?_, fun n' hn' =>
        hbelow n' (List.mem_cons_of_mem n hn')⟩
      have hlt := hbelow n List.mem_cons_self
      have huntouched : Untouched q q' m :=
        houtcome.untouched htree hmn (hasNode_of_op? hm)
          (fun t ht heq => absurd (hsinks m t ht) (by omega)) fun l hl => by
            rw [hop] at hl
            cases hl
      exact huntouched.foldable htree htree' (houtcome.isRoot hmn) hfoldable
  · exact (SlotGraph.pairwise_nodeIds _).filter _
  · exact List.mem_filter.2 ⟨SlotGraph.mem_nodeIds.2 (hasNode_of_op? hm), isBranch_iff.2 hm⟩

end Fold

/-! ### Passes that only take away -/

/-- Nodes are gone, and of the ones left only blocks and literals may have been touched. Roots of
bodies that are left are still roots. -/
structure Trims (p q : Program) : Prop where
  untouched : ∀ {m o}, q.op? m = some o → o ≠ .block → (∀ l, o ≠ .literal l) → Untouched p q m
  root : ∀ {m}, q.graph.hasNode m = true → p.IsRoot m → q.IsRoot m

namespace Trims

theorem refl (p : Program) : Trims p p := ⟨fun _ _ _ => .refl p _, fun _ hm => hm⟩

theorem foldable (h : Trims p q) (hp : p.Treelike) (hq : q.Treelike) (hm : Fold.Foldable q m) :
    Fold.Foldable p m :=
  (h.untouched hm.1 (by rintro ⟨⟩) (by rintro l ⟨⟩)).foldable hp hq
    (h.root (hasNode_of_op? hm.1)) hm

end Trims

/-- Only an operator is folded. -/
theorem Fold.operator_of_folded? {l : Literal} {operands : List Nat}
    (h : Fold.folded? p m = some (l, operands)) :
    ∃ o, p.op? m = some o ∧ Fold.operandRoles o ≠ [] := by
  obtain ⟨o, ho, h⟩ := Option.bind_eq_some_iff.1 h
  obtain ⟨found, hfound, h⟩ := Option.bind_eq_some_iff.1 h
  obtain ⟨l', hresult, -⟩ := Option.bind_eq_some_iff.1 h
  refine ⟨o, ho, fun hnone => ?_⟩
  rw [hnone] at hfound
  cases hfound
  cases o <;> cases hresult

/-- Where operators are untouched, nothing can be folded that could not be folded before. -/
theorem Fold.folded?_of_untouched (hp : p.Treelike) (hq : q.Treelike)
    (huntouched : ∀ {m o}, q.op? m = some o → Fold.operandRoles o ≠ [] → Untouched p q m)
    (h : ∀ m, Fold.folded? p m = none) (m : Nat) : Fold.folded? q m = none := by
  cases hfolded : Fold.folded? q m with
  | none => rfl
  | some x =>
    obtain ⟨o, ho, hroles⟩ := Fold.operator_of_folded? hfolded
    rw [(huntouched ho hroles).folded? hp hq, h] at hfolded
    cases hfolded

theorem Trims.folded? (h : Trims p q) (hp : p.Treelike) (hq : q.Treelike)
    (hnone : ∀ m, Fold.folded? p m = none) (m : Nat) : Fold.folded? q m = none := by
  refine Fold.folded?_of_untouched hp hq (fun ho hroles => h.untouched ho ?_ ?_) hnone m
  · rintro rfl
    exact hroles rfl
  · rintro l rfl
    exact hroles rfl

theorem Trims.trans (h : Trims p q) (h' : Trims q s)
    (hnodes : ∀ {m}, s.graph.hasNode m = true → q.graph.hasNode m = true) : Trims p s := by
  refine ⟨fun {m o} ho hblock hliteral => ?_, fun hm hroot => h'.root hm (h.root (hnodes hm) hroot)⟩
  have hsecond := h'.untouched ho hblock hliteral
  exact (h.untouched (hsecond.op ▸ ho) hblock hliteral).trans hsecond

/-! ### Pruning -/

namespace DeadCode

variable {d : Draft} {block : Nat} {rest : List (Role × Nat)}

/-- Dropping statements of a block touches the block, and literals. -/
theorem untouched_dropStatements (h : d.program.Treelike) (hstops : Stops d.program block rest) :
    let q := ((dropStatements block rest).run d).2.program
    q.functions = d.program.functions ∧ ∀ {m}, q.graph.hasNode m = true → m ≠ block →
      (∀ l, d.program.op? m ≠ some (.literal l)) → Untouched d.program q m := by
  induction rest generalizing d with
  | nil => exact ⟨rfl, fun _ _ _ => .refl d.program _⟩
  | cons x rest ih =>
    obtain ⟨role, c⟩ := x
    obtain ⟨e, hedge⟩ := hstops.edge h.sound
    obtain ⟨⟨htree, -⟩, hidle, -, -⟩ := stops_removeEdge h hedge hstops
    obtain ⟨hfaithful, hnext, -⟩ := stops_drop h hedge hstops
    let q : Program := { d.program with graph := d.program.graph.removeEdge e }
    let d' : Draft := { d with program := q.removeNodes (q.subtree c) }
    have htree' : d'.program.Treelike := (hfaithful h).1
    obtain ⟨hfunctions, hrest⟩ := ih (d := d') htree' hnext
    rw [run_dropStatements h hedge]
    refine ⟨hfunctions, fun {m} hm hne hop => ?_⟩
    have hm' : d'.program.graph.hasNode m = true :=
      (faithful_dropStatements htree' hnext).spares.hasNode (hasNode_of_op? hnext.op) hm
    have hfirst : Untouched d.program q m := untouched_removeEdge h.sound hedge hne
    have hsecond : Untouched d.program d'.program m :=
      hfirst.trans (untouched_removeSubtree htree hidle hm' (by rwa [hfirst.op]))
    exact hsecond.trans (hrest hm hne (by rwa [hsecond.op]))

/-- Up to the first statement that never goes on, there is nothing after it. -/
theorem drop_dropWhile {α : Type} (f : α → Bool) (xs : List α) :
    ((xs.takeWhile f ++ (xs.dropWhile f).take 1).dropWhile f).drop 1 = [] := by
  induction xs with
  | nil => rfl
  | cons x xs ih =>
    by_cases hx : f x = true
    · rw [List.takeWhile_cons_of_pos hx, List.dropWhile_cons_of_pos hx, List.cons_append,
        List.dropWhile_cons_of_pos hx, ih]
    · rw [List.takeWhile_cons_of_neg hx, List.dropWhile_cons_of_neg hx, List.nil_append,
        List.take_succ_cons, List.take_zero, List.dropWhile_cons_of_neg hx]
      rfl

/-- A block without its statements that cannot run has no others. -/
theorem unreachable_dropStatements (h : d.program.Regular)
    (hstops : Stops d.program block (unreachableStatements d.program block)) :
    let q := ((dropStatements block (unreachableStatements d.program block)).run d).2.program
    q.op? block = some .block ∧ unreachableStatements q block = [] := by
  let f : Role × Nat → Bool := fun x => !diverges d.program x.2
  let kept := (d.program.indexed block (.statement 0)).takeWhile f ++
    ((d.program.indexed block (.statement 0)).dropWhile f).take 1
  have hsplit : d.program.indexed block (.statement 0) =
      kept ++ unreachableStatements d.program block := by
    rw [unreachableStatements, List.append_assoc, List.take_append_drop,
      List.takeWhile_append_dropWhile]
  obtain ⟨hq, hop, hkept, -⟩ := regular_dropStatements (h.but [block]) hstops hsplit
  have hspares := (faithful_dropStatements h.treelike hstops).spares
  generalize ((dropStatements block (unreachableStatements d.program block)).run d).2.program = q
    at hq hop hkept hspares
  refine ⟨hop, ?_⟩
  have hsame : ∀ t ∈ kept, (!diverges q t.2) = f t := by
    intro t ht
    have htie : (t.1, t.2) ∈ q.graph.ties block := mem_ties_of_indexed (hkept ▸ ht)
    obtain ⟨e, hedge⟩ := hq.treelike.sound.mem_ties.1 htie
    obtain ⟨o, ho⟩ := exists_op? (hq.treelike.sound.hasNode_of_mem_ties htie).2
    have hne : t.2 ≠ block := by
      obtain ⟨rank, hrank⟩ := hq.treelike.ranked
      intro heq
      have hlt := hrank _ _ hedge
      dsimp only at hlt
      rw [heq] at hlt
      exact Nat.lt_irrefl _ hlt
    rw [diverges, ho, ← hspares.op? hne ho]
    rfl
  rw [unreachableStatements, hkept, dropWhile_congr hsame]
  exact drop_dropWhile f _

/-- What a block without its statements that cannot run leaves of the other nodes. -/
theorem trims_dropStatements (h : d.program.Regular)
    (hstops : Stops d.program block (unreachableStatements d.program block)) :
    let q := ((dropStatements block (unreachableStatements d.program block)).run d).2.program
    Trims d.program q ∧ ∀ {b}, b ≠ block → q.op? b = some .block →
      d.program.op? b = some .block ∧
        unreachableStatements q b = unreachableStatements d.program b := by
  have hregular := regular_unreachable h hstops
  have hspares := (faithful_dropStatements h.treelike hstops).spares
  have hblock := (unreachable_dropStatements h hstops).1
  obtain ⟨hfunctions, huntouched⟩ := untouched_dropStatements h.treelike hstops
  dsimp only at hblock hfunctions huntouched ⊢
  generalize ((dropStatements block (unreachableStatements d.program block)).run d).2.program = q
    at hregular hspares hblock hfunctions huntouched ⊢
  have hkept : ∀ {m o}, m ≠ block → q.op? m = some o → (∀ l, o ≠ .literal l) →
      Untouched d.program q m := by
    intro m o hm ho hliteral
    refine huntouched (hasNode_of_op? ho) hm fun l hl => ?_
    rw [hspares.op? hm ho] at hl
    exact hliteral l (Option.some.inj hl)
  refine ⟨⟨fun {m o} ho ho' hliteral => hkept ?_ ho hliteral, ?_⟩, fun {b} hb hop => ?_⟩
  · rintro rfl
    rw [hblock] at ho
    exact ho' (Option.some.inj ho).symm
  · rintro m - ⟨f, def₀, hd, hbody⟩
    exact ⟨f, def₀, hfunctions ▸ hd, hbody⟩
  · exact ⟨hspares.op? hb hop,
      (hkept hb hop (by rintro l ⟨⟩)).unreachableStatements hregular.treelike⟩

/-- The pass leaves no statement that cannot run, and touches blocks and literals only. -/
theorem pruned (h : d.program.Regular) :
    let q := (prune.run d).2.program
    Trims d.program q ∧ ∀ b, q.op? b = some .block → unreachableStatements q b = [] := by
  have hall := prune_induction (d := d) (P := fun blocks _ q => q.Regular ∧ Trims d.program q ∧
      ∀ b, q.op? b = some .block → b ∈ blocks ∨ unreachableStatements q b = [])
    (fun hq => hq.1.treelike) (fun {block blocks k q} hq hnone => ⟨hq.1, hq.2.1, fun b hb => ?_⟩)
    (fun {block blocks k d'} hd' hstops => ?_)
    ⟨h, .refl _, fun b hb => Or.inl (List.mem_filter.2
      ⟨SlotGraph.mem_nodeIds.2 (hasNode_of_op? hb), Fold.isBlock_iff.2 hb⟩)⟩
  · exact ⟨hall.2.1, fun b hb => (hall.2.2 b hb).resolve_left List.not_mem_nil⟩
  · rcases hq.2.2 b hb with hmem | hdone
    · rcases List.mem_cons.1 hmem with rfl | hmem
      · exact Or.inr hnone
      · exact Or.inl hmem
    · exact Or.inr hdone
  · obtain ⟨hregular, htrims, hdone⟩ := hd'
    have hspares := (faithful_dropStatements hregular.treelike hstops).spares
    obtain ⟨hstep, hothers⟩ := trims_dropStatements hregular hstops
    refine ⟨regular_unreachable hregular hstops,
      htrims.trans hstep (hspares.hasNode (hasNode_of_op? hstops.op)), fun b hb => ?_⟩
    by_cases hbb : b = block
    · exact Or.inr (hbb ▸ (unreachable_dropStatements hregular hstops).2)
    · obtain ⟨hb', hsame⟩ := hothers hbb hb
      rcases hdone b hb' with hmem | hdone
      · exact Or.inl ((List.mem_cons.1 hmem).resolve_left hbb)
      · exact Or.inr (hsame.trans hdone)

/-! ### Removing dead code -/

namespace Reduced

variable (h : Reduced p q)

include h in
theorem untouched (hsound : p.graph.Sound) (hm : q.graph.hasNode m = true) : Untouched p q m where
  op := by rw [Program.op?, h.node? (h.live hm), Program.op?]
  ties := .of_eq (h.ties hsound (h.live hm))
  children t ht := by
    have hlive : p.Live t.2 := (h.live hm).child hsound (show (t.1, t.2) ∈ p.graph.ties m from ht)
    rw [Program.op?, h.node? hlive, Program.op?]

include h in
/-- A root that is left belongs to a function that is left. -/
theorem isRoot (hp : p.Housed) (hm : q.graph.hasNode m = true) (hroot : p.IsRoot m) :
    q.IsRoot m := by
  obtain ⟨f, d, hd, hbody⟩ := hroot
  obtain ⟨root, a, hbody', ha, howner⟩ := hp.rooted hd
  rw [hbody] at hbody'
  cases hbody'
  obtain ⟨g, d', root', hg, hd', hroot', hbelow⟩ := h.live hm
  obtain ⟨b, hb, howner'⟩ := hp.owner_subtree (FunctionTable.mem_of_get? hd') hroot' hbelow
  rw [ha] at hb
  cases hb
  refine ⟨f, d, ?_, hbody⟩
  rw [h.functions]
  refine List.mem_filter.2 ⟨hd, ?_⟩
  rw [← howner, howner']
  exact hg

include h in
theorem trims (hp : p.Housed) : Trims p q :=
  ⟨fun ho _ _ => h.untouched hp.sound (hasNode_of_op? ho), h.isRoot hp⟩

include h in
/-- The bodies of live functions have the nodes they had. -/
theorem mem_subtree (hp : p.Housed) {f : FunctionId} {d : FunctionDef} {root : Nat}
    (hf : f ∈ p.liveFunctions) (hd : p.function? f = some d) (hbody : d.body = some root)
    (hn : n ∈ p.subtree root) : n ∈ q.subtree root := by
  refine mem_subtree_of_ties (fun m hm => ?_) hp.sound hn
  have hlive : p.Live m := ⟨f, d, root, hf, hd, hbody, hm⟩
  exact ⟨h.hasNode_iff.2 hlive, h.ties hp.sound hlive⟩

include h in
/-- What was live still is. -/
theorem live_functions (hp : p.Housed) (hq : q.Housed) {f : FunctionId}
    (hf : f ∈ p.liveFunctions) : f ∈ q.liveFunctions := by
  obtain ⟨hmain, hclosed⟩ := hp.live_closed
  obtain ⟨hmain', hclosed'⟩ := hq.live_closed
  refine (reach_induction (P := fun f => f ∈ p.liveFunctions ∧ f ∈ q.liveFunctions)
    (fun f hf => ?_) (fun f hf => ?_) (fun f hf g hg => ?_) f hf).2
  · simp at hf
  · rw [List.mem_singleton] at hf
    exact hf ▸ ⟨hmain, hmain'⟩
  · refine ⟨hclosed f hf.1 g hg, hclosed' f hf.2 g ?_⟩
    obtain ⟨d, root, n, hd, hbody, hn, hop⟩ := mem_nestedFunctions.1 hg
    have hlive : p.Live n := ⟨f, d, root, hf.1, hd, hbody, hn⟩
    refine mem_nestedFunctions.2 ⟨d, root, n, (h.function? hf.1).trans hd, hbody,
      h.mem_subtree hp hf.1 hd hbody hn, ?_⟩
    rwa [(h.untouched hp.sound (h.hasNode_iff.2 hlive)).op]

include h in
theorem live_again (hp : p.Housed) (hq : q.Housed) (hn : q.graph.hasNode n = true) : q.Live n := by
  obtain ⟨f, d, root, hf, hd, hbody, hn⟩ := h.live hn
  exact ⟨f, d, root, h.live_functions hp hq hf, (h.function? hf).trans hd, hbody,
    h.mem_subtree hp hf hd hbody hn⟩

end Reduced

/-- Where everything is live, the pass does nothing. -/
theorem eliminate_idle (hp : d.program.Housed)
    (hfunctions : ∀ x ∈ d.program.functions, x.1 ∈ d.program.liveFunctions)
    (hnodes : ∀ n, d.program.graph.hasNode n = true → d.program.Live n) :
    (eliminate.run d).1 = (0, 0) ∧ (eliminate.run d).2.program = d.program := by
  have hdead : ((d.program.functionDefs.map (·.id)).filter fun f =>
      !d.program.liveFunctions.contains f) = [] := by
    refine List.filter_eq_nil_iff.2 fun f hf => ?_
    obtain ⟨d', hd', rfl⟩ := List.mem_map.1 hf
    obtain ⟨⟨f, d'⟩, hmem, rfl⟩ := List.mem_map.1 hd'
    have hlive : d.program.liveFunctions.contains f = true := hfunctions _ hmem
    rw [hp.keys hmem, hlive]
    simp
  have horphans : orphans d.program = [] := by
    rw [orphans_eq]
    refine List.filter_eq_nil_iff.2 fun n hn => ?_
    obtain ⟨f, d', root, -, hd', hbody, hbelow⟩ := hnodes n (SlotGraph.mem_nodeIds.1 hn)
    have hd' : d' ∈ d.program.functionDefs :=
      List.mem_map.2 ⟨_, FunctionTable.mem_of_get? hd', rfl⟩
    have hfound : n ∈ bodyNodes d.program :=
      List.mem_flatMap.2 ⟨root, List.mem_filterMap.2 ⟨d', hd', hbody⟩, hbelow⟩
    simp [hfound]
  have hrun : eliminate.run d = ((d.program.graph.nodeCount - d.program.graph.nodeCount, 0),
      { d with program := d.program.removeNodes [] }) := by
    unfold eliminate
    rw [Pass.run_bind, Pass.run_program]
    dsimp only
    rw [hdead]
    change ((d.program.graph.nodeCount -
      (d.program.removeNodes (orphans d.program)).graph.nodeCount, 0),
      { d with program := d.program.removeNodes (orphans d.program) }) = _
    rw [horphans]
    rfl
  rw [hrun, Nat.sub_self]
  exact ⟨rfl, rfl⟩

end DeadCode

end GraphLang
