import GraphLang.Proofs.Optimize.Exhausted
import GraphLang.Proofs.Program.Construction

/-!
# Optimizing a program again

The passes run once each, in one order, apart from the folding of constants, which runs again after
branches were folded. An optimized program has nothing left to do for any pass but the folding of
branches, for which constants folded again may have decided a branch. So a second run does nothing
exactly if no branch can be folded, and every run that does something removes a node.
-/

namespace GraphLang

open Program

variable {p q : Program} {n : Nat}

/-! ### One run -/

namespace Optimize

variable (h : p.Regular)

include h

theorem regular_first : (first p).2.program.Regular := by
  unfold first
  exact Fold.regular_constants ⟨p, #[]⟩ h

theorem regular_branched : (branched p).2.program.Regular := by
  unfold branched
  exact Fold.regular_branches _ (regular_first h)

theorem regular_again : (again p).2.program.Regular := by
  obtain ⟨-, hagain⟩ | ⟨-, -, hsame⟩ := again_cases p
  · rw [hagain]
    exact Fold.regular_constants _ (regular_branched h)
  · rw [hsame]
    exact regular_branched h

theorem regular_pruned : (pruned p).2.program.Regular := by
  unfold pruned
  exact DeadCode.regular_prune _ (regular_again h)

theorem reduced_eliminated :
    DeadCode.Reduced (pruned p).2.program (eliminated p).2.program := by
  unfold eliminated
  exact DeadCode.reduced_eliminate (regular_pruned h).treelike.housed

theorem regular_optimize : p.optimize.2.1.Regular := by
  rw [(optimize_eq p).2]
  unfold eliminated
  exact DeadCode.regular_eliminate _ (regular_pruned h)

/-- The last two passes only take away. -/
theorem trims_eliminated : Trims (again p).2.program (eliminated p).2.program := by
  have hreduced := reduced_eliminated h
  have hfirst : Trims (again p).2.program (pruned p).2.program := by
    unfold pruned
    exact (DeadCode.pruned (regular_again h)).1
  exact hfirst.trans (hreduced.trims (regular_pruned h).treelike.housed)
    fun hm => (hreduced.live hm).hasNode

theorem pays_first : Pays p (first p).2.program (first p).1 := by
  unfold first
  exact Fold.pays_constants (d := ⟨p, #[]⟩) h.treelike

theorem pays_branched : Pays (first p).2.program (branched p).2.program (branched p).1 := by
  unfold branched
  exact (Fold.pays_branches (regular_first h).treelike).1

theorem pays_again : Pays (branched p).2.program (again p).2.program (again p).1 := by
  obtain ⟨-, hagain⟩ | ⟨-, hnone, hsame⟩ := again_cases p
  · rw [hagain]
    exact Fold.pays_constants (regular_branched h).treelike
  · rw [hnone, hsame]
    exact .refl _

theorem pays_pruned : Pays (again p).2.program (pruned p).2.program (pruned p).1 := by
  unfold pruned
  exact DeadCode.pays_prune (regular_again h).treelike

/-- After the constants were folded again, or no branch was folded, no constant is left to fold. -/
theorem folded?_again (n : Nat) : Fold.folded? (again p).2.program n = none := by
  obtain ⟨-, hagain⟩ | ⟨hnone, -, hsame⟩ := again_cases p
  · rw [hagain]
    exact Fold.folded?_constants (regular_branched h).treelike n
  · rw [hsame, (pays_branched h).same hnone]
    unfold first
    exact Fold.folded?_constants (d := ⟨p, #[]⟩) h.treelike n

/-- A run that changes something removes a node. -/
theorem unchanged_or_smaller : p.optimize.1.isUnchanged = true ∨
    p.optimize.2.1.graph.nodeCount < p.graph.nodeCount := by
  obtain ⟨hreport, hprogram⟩ := optimize_eq p
  have hfolding := ((pays_first h).trans (pays_branched h)).trans (pays_again h)
  have hpays := hfolding.trans (pays_pruned h)
  have hcost := hpays.cost
  obtain ⟨hle, hlt⟩ :
      (eliminated p).2.program.graph.nodeCount ≤ (pruned p).2.program.graph.nodeCount ∧
      (0 < (eliminated p).1.2 →
        (eliminated p).2.program.graph.nodeCount < (pruned p).2.program.graph.nodeCount) := by
    unfold eliminated
    exact DeadCode.cost_eliminate (regular_pruned h).treelike.housed
  rw [hprogram]
  by_cases hsmaller : (eliminated p).2.program.graph.nodeCount < p.graph.nodeCount
  · exact Or.inr hsmaller
  · refine Or.inl ?_
    have hfunctions : (eliminated p).1.2 = 0 := by
      by_contra hne
      have := hlt (Nat.pos_of_ne_zero hne)
      omega
    have hnone : (first p).1 + (branched p).1 + (again p).1 + (pruned p).1 = 0 := by omega
    simp only [Nat.add_eq_zero_iff] at hnone
    obtain ⟨⟨⟨hfirst, hbranched⟩, hagain⟩, hpruned⟩ := hnone
    rw [hreport, OptimizeReport.isUnchanged, beq_iff_eq, hfunctions, hfirst, hbranched, hagain,
      hpruned, Nat.sub_eq_zero_of_le (Nat.le_of_not_lt hsmaller)]

end Optimize

/-! ### What one run leaves to the next one -/

/-- There is nothing to do for any pass but the folding of branches. -/
structure Settled (p : Program) : Prop where
  /-- No operator can be folded. -/
  folded : ∀ n, Fold.folded? p n = none
  /-- No block has a statement that cannot run. -/
  unreachable : ∀ b, p.op? b = some .block → DeadCode.unreachableStatements p b = []
  /-- Every function is live. -/
  functions : ∀ x ∈ p.functions, x.1 ∈ p.liveFunctions
  /-- Every node is in the body of a live function. -/
  nodes : ∀ n, p.graph.hasNode n = true → p.Live n

/-- An optimized program is settled. -/
theorem settled_optimize (h : p.Regular) : Settled p.optimize.2.1 := by
  have hpruned := (Optimize.regular_pruned h).treelike
  have hleft : p.optimize.2.1.Treelike := (Optimize.regular_optimize h).treelike
  have hreduced := Optimize.reduced_eliminated h
  have htrims := Optimize.trims_eliminated h
  rw [← (Optimize.optimize_eq p).2] at hreduced htrims
  have hnone : ∀ b, (Optimize.pruned p).2.program.op? b = some .block →
      DeadCode.unreachableStatements (Optimize.pruned p).2.program b = [] := by
    unfold Optimize.pruned
    exact (DeadCode.pruned (Optimize.regular_again h)).2
  refine ⟨htrims.folded? (Optimize.regular_again h).treelike hleft (Optimize.folded?_again h),
    fun b hb => ?_, fun x hx => ?_, fun n hn => hreduced.live_again hpruned.housed hleft.housed hn⟩
  · have huntouched := hreduced.untouched hpruned.sound (hasNode_of_op? hb)
    rw [huntouched.unreachableStatements hleft]
    exact hnone b (huntouched.op ▸ hb)
  · exact hreduced.live_functions hpruned.housed hleft.housed (hreduced.mem_functions hx).2

/-- A settled program in which no branch can be folded is left as it is. -/
theorem Settled.optimize (hp : Settled p) (h : p.Regular) (hnone : ∀ n, ¬Fold.Foldable p n) :
    p.optimize.1.isUnchanged = true ∧ p.optimize.2.1 = p := by
  obtain ⟨hfirst, hsame₁⟩ : (Optimize.first p).1 = 0 ∧ (Optimize.first p).2.program = p := by
    unfold Optimize.first
    exact Fold.constants_idle (d := ⟨p, #[]⟩) hp.folded
  obtain ⟨hbranched, hsame₂⟩ : (Optimize.branched p).1 = 0 ∧
      (Optimize.branched p).2.program = p := by
    have hidle := Fold.branches_idle (d := (Optimize.first p).2) (hsame₁.symm ▸ h.treelike)
      (hsame₁.symm ▸ hnone)
    unfold Optimize.branched
    exact ⟨hidle.1, hidle.2.trans hsame₁⟩
  obtain ⟨hagain, hsame₃⟩ : (Optimize.again p).1 = 0 ∧ (Optimize.again p).2.program = p := by
    obtain ⟨hpos, -⟩ | ⟨-, hnone, hsame⟩ := Optimize.again_cases p
    · omega
    · rw [hsame]
      exact ⟨hnone, hsame₂⟩
  obtain ⟨hpruned, hsame₄⟩ : (Optimize.pruned p).1 = 0 ∧ (Optimize.pruned p).2.program = p := by
    have hidle := DeadCode.prune_idle (d := (Optimize.again p).2) (hsame₃.symm ▸ h.treelike)
      (hsame₃.symm ▸ hp.unreachable)
    unfold Optimize.pruned
    exact ⟨hidle.1, hidle.2.trans hsame₃⟩
  obtain ⟨heliminated, hsame₅⟩ : (Optimize.eliminated p).1 = (0, 0) ∧
      (Optimize.eliminated p).2.program = p := by
    have hidle := DeadCode.eliminate_idle (d := (Optimize.pruned p).2)
      (hsame₄.symm ▸ h.treelike.housed) (hsame₄.symm ▸ hp.functions) (hsame₄.symm ▸ hp.nodes)
    unfold Optimize.eliminated
    exact ⟨hidle.1, hidle.2.trans hsame₄⟩
  obtain ⟨hreport, hprogram⟩ := Optimize.optimize_eq p
  refine ⟨?_, hprogram.trans hsame₅⟩
  rw [hreport, hfirst, hbranched, hagain, hpruned, heliminated, hsame₅, Nat.sub_self,
    OptimizeReport.isUnchanged, beq_iff_eq]

/-- Where a run reports no change, no branch could be folded. -/
theorem not_foldable_of_unchanged (h : p.Regular) (hsame : p.optimize.1.isUnchanged = true)
    (n : Nat) : ¬Fold.Foldable p n := by
  rw [(Optimize.optimize_eq p).1, OptimizeReport.isUnchanged, beq_iff_eq,
    OptimizeReport.mk.injEq, Nat.add_eq_zero_iff] at hsame
  obtain ⟨⟨hfirst, -⟩, hbranched, -⟩ := hsame
  have hnone := (Fold.pays_branches (d := (Optimize.first p).2)
    (Optimize.regular_first h).treelike).2 hbranched n
  rwa [(Optimize.pays_first h).same hfirst] at hnone

/-! ### Branches that constants decide -/

/-- No operator has a branch as an operand. -/
def PlainOperands (p : Program) : Prop :=
  ∀ m o, p.op? m = some o → Fold.operandRoles o ≠ [] → ∀ t ∈ p.graph.ties m,
    p.op? t.2 ≠ some .branch

namespace PlainOperands

theorem folded (h : PlainOperands p) (hp : p.Treelike) {l : Literal} {operands : List Nat} {o : Op}
    (hfolded : Fold.folded? p n = some (l, operands))
    (hreplace : p.replaceOp n (.literal l) = .ok (o, q)) :
    PlainOperands (q.removeNodes operands) := by
  obtain ⟨hl, -⟩ := constant_of_folded? hfolded
  obtain ⟨hfaithful, hself, hothers, hties, -⟩ := faithful_replaceOp hl hreplace
  have hsound := (hfaithful hp).1.sound
  have hop : ∀ {m o}, (q.removeNodes operands).op? m = some o → (∀ l, o ≠ .literal l) →
      p.op? m = some o := by
    intro m o ho hliteral
    rw [op?_removeNodes (hasNode_removeNodes.1 (hasNode_of_op? ho)).2] at ho
    by_cases hm : m = n
    · subst hm
      rw [hself] at ho
      exact absurd (Option.some.inj ho).symm (hliteral l)
    · rwa [← hothers m hm]
  intro m o ho hroles t ht hbranch
  have htie := mem_ties_of_removeNodes hsound ht
  rw [hties] at htie
  refine h m o (hop ho ?_) hroles _ htie (hop hbranch (by rintro l ⟨⟩))
  rintro l rfl
  exact hroles rfl

theorem first (h : PlainOperands p) (hp : p.Treelike) :
    PlainOperands (Optimize.first p).2.program :=
  (Fold.constants_induction (P := fun _ q => q.Treelike ∧ PlainOperands q)
    (fun hq hfolded hreplace => ⟨(Fold.faithful_folded hfolded hreplace hq.1).1,
      hq.2.folded hq.1 hfolded hreplace⟩) ⟨hp, h⟩).2

/-- Folding a branch leaves operators as they are if none has the branch as an operand. -/
theorem outcome (h : PlainOperands p) (hp : p.Treelike) (hop : p.op? n = some .branch)
    (hq : Fold.Outcome p n q) {m : Nat} {o : Op} (ho : q.op? m = some o)
    (hroles : Fold.operandRoles o ≠ []) : Untouched p q m := by
  have hmn : m ≠ n := by
    rintro rfl
    rw [hq.op?_self ho] at hroles
    exact hroles rfl
  have hm : p.op? m = some o := (hq.folded hp).spares.op? hmn ho
  refine hq.untouched hp hmn (hasNode_of_op? ho) (fun t ht heq => h m o hm hroles t ht (heq ▸ hop))
    fun l hl => ?_
  rw [hm] at hl
  cases hl
  exact hroles rfl

/-- Then folding branches decides no constant. -/
theorem branched (h : PlainOperands p) (hp : p.Regular) (m : Nat) :
    Fold.folded? (Optimize.branched p).2.program m = none := by
  have hfirst : (Optimize.first p).2.program.Treelike := (Optimize.regular_first hp).treelike
  have hnone : ∀ m, Fold.folded? (Optimize.first p).2.program m = none := by
    unfold Optimize.first
    exact Fold.folded?_constants (d := ⟨p, #[]⟩) hp.treelike
  unfold Optimize.branched
  refine (Fold.branches_induction (P := fun _ _ q => q.Treelike ∧ PlainOperands q ∧
    ∀ m, Fold.folded? q m = none) (fun hq => hq.1) (fun hq _ => hq)
    (fun {n ns k q q'} hq hfoldable houtcome => ?_)
    ⟨hfirst, h.first hp.treelike, hnone⟩).2.2 m
  obtain ⟨htree, hplain, hnone⟩ := hq
  have htree' := ((houtcome.folded htree).faithful htree).1
  refine ⟨htree', fun m o ho hroles t ht => ?_, Fold.folded?_of_untouched htree htree'
    (hplain.outcome htree hfoldable.1 houtcome) hnone⟩
  have huntouched := hplain.outcome htree hfoldable.1 houtcome ho hroles
  have ht := huntouched.ties.subset ht
  rw [huntouched.children t ht]
  exact hplain m o (huntouched.op ▸ ho) hroles t ht

theorem again (h : PlainOperands p) (hp : p.Regular) : (Optimize.again p).1 = 0 := by
  obtain ⟨-, hagain⟩ | ⟨-, hnone, -⟩ := Optimize.again_cases p
  · rw [hagain]
    exact (Fold.constants_idle (h.branched hp)).1
  · exact hnone

end PlainOperands

/-- Where constants folded again decided nothing, no branch is left that can be folded. -/
theorem not_foldable_optimize (h : p.Regular) (hup : p.BuiltUp) (hagain : (Optimize.again p).1 = 0)
    (n : Nat) : ¬Fold.Foldable p.optimize.2.1 n := by
  intro hfoldable
  rw [(Optimize.optimize_eq p).2] at hfoldable
  have hleft : (Optimize.eliminated p).2.program.Treelike := by
    rw [← (Optimize.optimize_eq p).2]
    exact (Optimize.regular_optimize h).treelike
  have hbefore := (Optimize.trims_eliminated h).foldable (Optimize.regular_again h).treelike hleft
    hfoldable
  rw [(Optimize.pays_again h).same hagain] at hbefore
  have hsinks : Sinks (Optimize.first p).2.program := by
    unfold Optimize.first
    exact Fold.sinks_constants (d := ⟨p, #[]⟩) h.treelike (hup.sinks h.treelike)
  unfold Optimize.branched at hbefore
  exact Fold.not_foldable_branches (Optimize.regular_first h).treelike hsinks n hbefore

/-! ### Programs of a builder -/

/-- The root of every body belongs to the function and is no child of a node. -/
def Program.RootsApart (p : Program) : Prop :=
  ∀ x ∈ p.functions, ∀ root, x.2.body = some root →
    (p.node? root).map (·.owner) = some x.1 ∧ p.parents root = []

/-- The functions stand under their numbers, in ascending order, and there is a main one. -/
structure Program.Numbered (p : Program) : Prop where
  ascending : p.functions.Ascending
  keys : ∀ x ∈ p.functions, x.2.id = x.1
  main : (p.function? mainId).isSome = true

theorem Program.Numbered.grows (h : p.Numbered) (hstep : Grows p q) : q.Numbered := by
  cases hstep with
  | node o f location children => exact ⟨h.ascending, h.keys, h.main⟩
  | function name params parent =>
    refine ⟨h.ascending.insert _ _, fun x hx => ?_, ?_⟩
    · rcases FunctionTable.mem_insert hx with rfl | hx
      · rfl
      · exact h.keys x hx
    · have hmain := h.main
      unfold function? at hmain ⊢
      dsimp only [pushFunction]
      rw [FunctionTable.get?_insert]
      split
      · rfl
      · exact hmain
  | @body _ f root hset =>
    have hfunctions : q.functions = p.functions.modify f fun d => { d with body := some root } := by
      unfold setBody at hset
      split at hset
      · cases hset
      · split at hset <;> cases hset
        rfl
    refine ⟨?_, fun x hx => ?_, ?_⟩
    · rw [hfunctions]
      exact h.ascending.modify f _
    · rw [hfunctions] at hx
      obtain ⟨d, hd, heq | heq⟩ := FunctionTable.mem_modify hx <;> rw [heq] <;> exact h.keys _ hd
    · rw [function?, hfunctions, FunctionTable.get?_modify, Option.isSome_map]
      exact h.main

theorem Program.BuiltUp.numbered (h : p.BuiltUp) : p.Numbered := by
  obtain ⟨name, hextends⟩ := h
  induction hextends with
  | refl => exact ⟨List.pairwise_singleton _ _, by simp [Program.new], rfl⟩
  | tail _ hstep ih => exact ih.grows hstep

/-- What a builder has made is of the right shape if the roots of bodies are. -/
theorem Program.BuiltUp.built (h : p.BuiltUp) (hroots : p.RootsApart) : p.Built where
  sound := h.stacked.sound
  distinct := (List.pairwise_map.2 h.numbered.ascending).imp fun hlt => hlt.ne
  keys := h.numbered.keys
  main := h.numbered.main
  roots := hroots

/-! ### Runs one after the other -/

/-- There are no more runs that change something than there are nodes. -/
theorem exists_unchanged (h : p.Regular) : ∃ k ≤ p.graph.nodeCount,
    ((fun p : Program => p.optimize.2.1)^[k] p).optimize.1.isUnchanged = true := by
  induction hcount : p.graph.nodeCount using Nat.strong_induction_on generalizing p with
  | _ count ih =>
    obtain hsame | hsmaller := Optimize.unchanged_or_smaller h
    · exact ⟨0, Nat.zero_le _, hsame⟩
    · obtain ⟨k, hk, hsame⟩ := ih _ (hcount ▸ hsmaller) (Optimize.regular_optimize h) rfl
      refine ⟨k + 1, by omega, ?_⟩
      rwa [Function.iterate_succ_apply]

/-- Of a valid program that a builder has made, with the roots of its bodies where building puts
them, an optimized program is left as it is by a second run exactly if none of its branches can be
folded. That is so where the constants that were folded again decided nothing, and in particular
where no operator has a branch as an operand. In any case runs come to an end with as many nodes. -/
theorem optimize_again (hvalid : p.validate = .ok []) (hup : p.BuiltUp) (hroots : p.RootsApart) :
    let q := p.optimize.2.1
    (q.optimize.1.isUnchanged = true ↔ ∀ n, ¬Fold.Foldable q n) ∧
      (q.optimize.1.isUnchanged = true → q.optimize.2.1 = q) ∧
      ((Optimize.again p).1 = 0 → ∀ n, ¬Fold.Foldable q n) ∧
      (PlainOperands p → ∀ n, ¬Fold.Foldable q n) ∧
      ∃ k ≤ p.graph.nodeCount,
        ((fun p : Program => p.optimize.2.1)^[k] p).optimize.1.isUnchanged = true := by
  intro q
  have h := regular_iff.2 ⟨hvalid, hup.built hroots⟩
  have hq : q.Regular := Optimize.regular_optimize h
  have hsettled : Settled q := settled_optimize h
  have hnone := not_foldable_of_unchanged hq
  refine ⟨⟨hnone, fun hn => (hsettled.optimize hq hn).1⟩,
    fun hsame => (hsettled.optimize hq (hnone hsame)).2, not_foldable_optimize h hup,
    fun hplain => not_foldable_optimize h hup (hplain.again h), exists_unchanged h⟩

/-! ### Branches that are left -/

/-- The steps that build `if left == 1 then 3 else 4`. -/
def Build.comparison (left : Build Nat) : Build Nat := do
  let test ← binary .eq (← left) (← literal (.int 1))
  branch test (← literal (.int 3)) (some (← literal (.int 4)))

/-- The steps that build `if true then 1 else 2`. -/
def Build.choice : Build Nat := do
  branch (← literal (.bool true)) (← literal (.int 1)) (some (← literal (.int 2)))

/-- The steps that build `{ if true then {}; return; fn f }`, where the branch is the body of `f` as
well. -/
def Build.lending : Build Nat := do
  let choice ← branch (← literal (.bool true)) (← block []) none
  block [choice, ← leave none, ← function "f" [] (pure choice)]

theorem Build.adds_comparison {left : Build Nat} (hleft : left.Adds) : (comparison left).Adds :=
  hleft.bind fun _ => .bind (adds_node _ _) fun _ => .bind (adds_node _ _) fun _ =>
    .bind (adds_node _ _) fun _ => .bind (adds_node _ _) fun _ => adds_node _ _

theorem Build.adds_choice : choice.Adds :=
  .bind (adds_node _ _) fun _ => .bind (adds_node _ _) fun _ => .bind (adds_node _ _) fun _ =>
    adds_node _ _

theorem Build.adds_lending : lending.Adds :=
  .bind (adds_node _ _) fun _ => .bind (adds_node _ _) fun _ => .bind (adds_node _ _) fun choice =>
    .bind (adds_node _ _) fun _ => .bind (adds_function "f" [] (adds_pure choice)) fun _ =>
      adds_node _ _

/-- A program with the main function only. -/
theorem Program.rootsApart_of_main (root : Nat)
    (hfunctions : p.functions = [(mainId, ⟨mainId, mainName, [], some root, none⟩)])
    (hroot : (p.node? root).map (·.owner) = some mainId ∧ p.parents root = []) : p.RootsApart := by
  intro x hx root' hbody
  rw [hfunctions] at hx
  cases List.mem_singleton.1 hx
  cases hbody
  exact hroot

/-- The program `if 1 == 1 then 3 else 4`. -/
def Program.decidedEarly : Program := made "early" (Build.comparison (Build.literal (.int 1)))

/-- The program `if (if true then 1 else 2) == 1 then 3 else 4`. -/
def Program.decidedLate : Program := made "late" (Build.comparison Build.choice)

/-- The program `{ if true then {}; return; fn f }`, where the branch is the body of `f` as well. -/
def Program.lent : Program := made "lent" Build.lending

theorem Program.builtUp_decidedEarly : decidedEarly.BuiltUp :=
  builtUp_made "early" (Build.adds_comparison (Build.adds_node _ _))

theorem Program.builtUp_decidedLate : decidedLate.BuiltUp :=
  builtUp_made "late" (Build.adds_comparison Build.adds_choice)

theorem Program.rootsApart_decidedEarly : decidedEarly.RootsApart :=
  rootsApart_of_main 5 (by decide +kernel) ⟨by cbv, by cbv⟩

theorem Program.rootsApart_decidedLate : decidedLate.RootsApart :=
  rootsApart_of_main 8 (by decide +kernel) ⟨by cbv, by cbv⟩

/-- One run folds the comparison and the branch, and a second one leaves the literal as it is. -/
theorem decided_at_once : Program.decidedEarly.validate = .ok [] ∧ Program.decidedEarly.BuiltUp ∧
    Program.decidedEarly.RootsApart ∧ Program.decidedEarly.optimize.1.isUnchanged = false ∧
    Program.decidedEarly.optimize.2.1.optimize.1.isUnchanged = true := by
  have hvalid : Program.decidedEarly.validate = .ok [] := by cbv
  have hreport : Program.decidedEarly.optimize.1.isUnchanged = false := by
    unfold Program.optimize Optimize.passes DeadCode.eliminate
    simp only [DeadCode.orphans_eq]
    cbv
  obtain ⟨hunchanged, -, hagain, -⟩ :=
    optimize_again hvalid Program.builtUp_decidedEarly Program.rootsApart_decidedEarly
  exact ⟨hvalid, Program.builtUp_decidedEarly, Program.rootsApart_decidedEarly, hreport,
    hunchanged.2 (hagain (by cbv))⟩

/-- Two programs that a second run changes. In the first one the comparison is folded after the
branches were, and so a second run folds the outer branch. In the second one no constant is folded,
but as long as there is the function with the branch as its body, the block does not take the place
of the branch. The first run removes the function, and a second run folds the branch. -/
theorem decided_late :
    (Program.decidedLate.validate = .ok [] ∧ Program.decidedLate.BuiltUp ∧
      Program.decidedLate.RootsApart ∧
      Program.decidedLate.optimize.2.1.optimize.1.isUnchanged = false) ∧
    Program.lent.validate = .ok [] ∧ Program.lent.BuiltUp ∧
      Program.lent.functions.map (fun x => (x.1, x.2.body)) = [(0, some 5), (1, some 2)] ∧
      Program.lent.parents 2 = [(5, .statement 0)] ∧ (Optimize.again Program.lent).1 = 0 ∧
      Program.lent.optimize.2.1.optimize.1.isUnchanged = false := by
  refine ⟨⟨by cbv, Program.builtUp_decidedLate, Program.rootsApart_decidedLate, ?_⟩, by cbv,
    Program.builtUp_made "lent" Build.adds_lending, by cbv, by cbv, by cbv, ?_⟩
  all_goals
    unfold Program.optimize Optimize.passes DeadCode.eliminate
    simp only [DeadCode.orphans_eq]
    cbv

end GraphLang
