import GraphLang.Proofs.Optimize.Steps

/-!
# Folding constants keeps the meaning

Operators on literals become literals, and their operands go.
-/

namespace GraphLang

variable {p q : Program} {n c : Nat}

theorem Pass.run_bind {α β : Type} (a : Pass α) (f : α → Pass β) (d : Draft) :
    (a >>= f).run d = (f (a.run d).1).run (a.run d).2 := rfl

theorem Pass.run_program (d : Draft) : Pass.program.run d = (d.program, d) := rfl

/-- A pass that takes treelike programs to treelike ones that mean the same. -/
def Pass.Keeps {α : Type} (pass : Pass α) : Prop :=
  ∀ d : Draft, Faithful d.program (pass.run d).2.program

theorem Pass.Keeps.pure {α : Type} (a : α) : Keeps (Pure.pure a : Pass α) := fun d =>
  .refl d.program

namespace Program

/-! ### Subtrees -/

theorem mem_children_iff (hsound : p.graph.Sound) {m : Nat} :
    m ∈ (p.children n).map (·.2) ↔ ∃ e role, p.graph.edge? e = some ⟨n, m, role⟩ := by
  rw [List.mem_map]
  constructor
  · rintro ⟨⟨role, m⟩, hmem, rfl⟩
    obtain ⟨e, hedge⟩ := hsound.mem_ties.1 (mem_children.1 hmem)
    exact ⟨e, role, hedge⟩
  · rintro ⟨e, role, hedge⟩
    exact ⟨(role, m), mem_children.2 (hsound.mem_ties.2 ⟨e, hedge⟩), rfl⟩

/-- If nobody looks at a node, nobody looks at the nodes below it from elsewhere. -/
theorem Treelike.idle_subtree (h : p.Treelike) (hidle : p.Idle [] c) :
    ∀ n ∈ p.subtree c, p.Idle (p.subtree c) n := by
  intro n hn
  obtain ⟨-, -, hfrom⟩ := mem_preorder hn
  rcases hfrom with hroot | ⟨y, hy, hchild⟩
  · rw [List.mem_singleton] at hroot
    subst hroot
    refine ⟨hidle.1, fun hedge htarget => Or.inr ?_⟩
    exact (hidle.2 hedge htarget).resolve_left List.not_mem_nil
  · obtain ⟨e, role, hedge⟩ := (mem_children_iff h.sound).1 hchild
    refine ⟨fun hroot => h.loose hroot hedge rfl, fun {e'} edge' hedge' htarget => Or.inl ?_⟩
    obtain ⟨-, rfl⟩ := h.single.edge_eq hedge hedge' htarget
    exact hy

theorem faithful_removeSubtree (hidle : p.Idle [] c) :
    Faithful p (p.removeNodes (p.subtree c)) :=
  fun h => faithful_removeNodes (h.idle_subtree hidle) h

/-! ### Operands -/

/-- The nodes that a list of nodes leaves. -/
theorem run_removeNodes (ns : List Nat) (d : Draft) :
    ((ns.forM Pass.removeNode).run d).2.program = d.program.removeNodes ns := by
  induction ns generalizing d with
  | nil => rfl
  | cons n ns ih => exact ih { d with program := (d.program.removeNode n).2 }

/-- A literal child has one parent only. -/
theorem literalChild?_iff {role : Role} {l : Literal}
    (h : Fold.literalChild? p n role = some (c, l)) :
    p.child? n role = some c ∧ p.op? c = some (.literal l) := by
  unfold Fold.literalChild? at h
  obtain ⟨child, hchild, h⟩ := Option.bind_eq_some_iff.1 h
  split at h
  · cases h
  obtain ⟨o, ho, h⟩ := Option.bind_eq_some_iff.1 h
  cases o <;> cases h
  exact ⟨hchild, ho⟩

theorem literals_of_mapM {roles : List Role} {operands : List (Nat × Literal)}
    (h : roles.mapM (Fold.literalChild? p n) = some operands) :
    List.Forall₂ (p.LiteralAt n) roles (operands.map (·.2)) ∧
      (∀ c ∈ operands.map (·.1), ∃ role, p.child? n role = some c) ∧
        ∀ role ∈ roles, ∃ c ∈ operands.map (·.1), p.child? n role = some c := by
  induction roles generalizing operands with
  | nil =>
    cases h
    exact ⟨.nil, by simp, by simp⟩
  | cons role roles ih =>
    rw [List.mapM_cons] at h
    obtain ⟨⟨c, l⟩, hfirst, h⟩ := Option.bind_eq_some_iff.1 h
    obtain ⟨others, hrest, h⟩ := Option.bind_eq_some_iff.1 h
    cases h
    obtain ⟨hchild, hl⟩ := literalChild?_iff hfirst
    obtain ⟨hliterals, hchildren, hroles⟩ := ih hrest
    refine ⟨.cons ⟨c, hchild, hl⟩ hliterals, fun c' hc' => ?_, fun role' hrole' => ?_⟩
    · rcases List.mem_cons.1 hc' with rfl | hc'
      · exact ⟨role, hchild⟩
      · exact hchildren c' hc'
    · rcases List.mem_cons.1 hrole' with rfl | hrole'
      · exact ⟨c, List.mem_cons_self, hchild⟩
      · obtain ⟨c', hc', hchild'⟩ := hroles role' hrole'
        exact ⟨c', List.mem_cons_of_mem c hc', hchild'⟩

/-- What the folder finds is a constant, with all children that the operator takes. -/
theorem constant_of_folded? {l : Literal} {operands : List Nat}
    (h : Fold.folded? p n = some (l, operands)) :
    p.Constant n l ∧ (∀ c ∈ operands, ∃ role, p.child? n role = some c) ∧
      ∃ o, p.op? n = some o ∧ ∀ role, o.shape.accepts role = true →
        ∃ c ∈ operands, p.child? n role = some c := by
  unfold Fold.folded? at h
  obtain ⟨o, ho, h⟩ := Option.bind_eq_some_iff.1 h
  obtain ⟨found, hfound, h⟩ := Option.bind_eq_some_iff.1 h
  obtain ⟨l', hl', h⟩ := Option.bind_eq_some_iff.1 h
  cases h
  obtain ⟨hliterals, hchildren, hroles⟩ := literals_of_mapM hfound
  refine ⟨.operator ho hliterals hl', hchildren, o, ho, fun role hrole => hroles role ?_⟩
  -- Only operators come to a literal, and they take their operands only.
  cases o <;> first | cases hl' | simpa [Shape.accepts, Op.shape, Fold.operandRoles] using hrole

/-- Nobody looks at the children of a literal. -/
theorem Treelike.idle_of_literal (h : p.Treelike) {l : Literal} {role : Role}
    (hl : p.op? n = some (.literal l)) (hc : (role, c) ∈ p.graph.ties n) : p.Idle [] c := by
  obtain ⟨e, hedge⟩ := h.sound.mem_ties.1 hc
  refine ⟨fun hroot => h.loose hroot hedge rfl, fun {e'} edge' hedge' htarget => Or.inr ⟨l, ?_⟩⟩
  obtain ⟨-, rfl⟩ := h.single.edge_eq hedge hedge' htarget
  exact hl

/-- Nobody looks at the children of a node that became a literal. -/
theorem Treelike.idle_of_replaceOp {o : Op} {l : Literal} {role : Role} (h : p.Treelike)
    (hl : p.Constant n l) (hreplace : p.replaceOp n (.literal l) = .ok (o, q))
    (hchild : p.child? n role = some c) : q.Idle [] c := by
  obtain ⟨hfaithful, hself, -, hties, -⟩ := faithful_replaceOp hl hreplace
  have htie := mem_ties_of_child? hchild
  rw [← hties] at htie
  exact (hfaithful h).1.idle_of_literal hself htie

/-- Nodes that nobody looks at may go one after the other. -/
theorem faithful_removeIdle {ns : List Nat} (h : ∀ c ∈ ns, p.Idle [] c) :
    Faithful p (p.removeNodes ns) :=
  faithful_removeNodes fun c hc => (h c hc).among ns

end Program

/-! ### The passes -/

namespace Pass

variable {α : Type}

/-- Runs a step for everything in a list, and adds up what the steps count. -/
def total (step : α → Pass Nat) : List α → Pass Nat
  | [] => return 0
  | x :: xs => do
    let count ← step x
    let others ← total step xs
    return count + others

/-- What every step keeps, for what is left of the list and what was counted so far, all steps
together keep. -/
theorem total_induction (step : α → Pass Nat) {P : List α → Nat → Program → Prop}
    (hstep : ∀ {x xs k d}, P (x :: xs) k d.program →
      P xs (k + ((step x).run d).1) ((step x).run d).2.program) {xs : List α} {k : Nat} {d : Draft}
    (h : P xs k d.program) :
    P [] (k + ((total step xs).run d).1) ((total step xs).run d).2.program := by
  induction xs generalizing k d with
  | nil => exact h
  | cons x xs ih =>
    have hrest := ih (d := ((step x).run d).2) (hstep h)
    rwa [Nat.add_assoc] at hrest

end Pass

namespace Fold

open Program

variable {d : Draft}

/-- Folding a node leaves everything as it is, or the node becomes the literal that it comes to and
its operands go. -/
theorem foldNode_cases (n : Nat) (d : Draft) :
    (folded? d.program n = none ∧ (foldNode n).run d = (false, d)) ∨
    ∃ l operands o q, folded? d.program n = some (l, operands) ∧
      d.program.replaceOp n (.literal l) = .ok (o, q) ∧
      ((foldNode n).run d).1 = true ∧
      ((foldNode n).run d).2.program = q.removeNodes operands := by
  unfold foldNode
  rw [Pass.run_bind, Pass.run_program]
  dsimp only
  cases hfolded : folded? d.program n with
  | none => exact Or.inl ⟨rfl, rfl⟩
  | some x =>
    obtain ⟨l, operands⟩ := x
    obtain ⟨o, ho, -⟩ := Option.bind_eq_some_iff.1 hfolded
    have hreplace := replaceOp_eq ho (.literal l)
    dsimp only
    rw [Pass.run_bind, Pass.run_program]
    dsimp only
    rw [hreplace]
    exact Or.inr ⟨l, operands, o, _, rfl, hreplace, rfl, run_removeNodes operands _⟩

theorem foldOnce_eq (ns : List Nat) : foldOnce ns =
    Pass.total (fun n => do return if ← foldNode n then 1 else 0) ns := by
  induction ns with
  | nil => rfl
  | cons n ns ih =>
    rw [foldOnce, ih]
    rfl

/-- A round passes over a node that has nothing to fold. -/
theorem run_foldOnce_idle {n : Nat} {ns : List Nat} (h : folded? d.program n = none) :
    (foldOnce (n :: ns)).run d = (foldOnce ns).run d := by
  rcases foldNode_cases n d with ⟨-, hrun⟩ | ⟨l, operands, o, q, hfolded, -⟩
  · rw [foldOnce, Pass.run_bind, hrun, Pass.run_bind]
    exact Prod.ext (Nat.zero_add _) rfl
  · rw [h] at hfolded
    cases hfolded

/-- A round counts a node that is folded, and goes on with what is left. -/
theorem run_foldOnce_folded {n : Nat} {ns : List Nat} {l : Literal} {operands : List Nat} {o : Op}
    {q : Program} (h : folded? d.program n = some (l, operands))
    (hreplace : d.program.replaceOp n (.literal l) = .ok (o, q)) :
    ∃ events, (foldOnce (n :: ns)).run d =
      (1 + ((foldOnce ns).run ⟨q.removeNodes operands, events⟩).1,
        ((foldOnce ns).run ⟨q.removeNodes operands, events⟩).2) := by
  rcases foldNode_cases n d with ⟨hnone, -⟩ | ⟨l', operands', o', q', hfolded, hreplace', hdone, hrun⟩
  · rw [h] at hnone
    cases hnone
  · rw [h] at hfolded
    cases hfolded
    rw [hreplace] at hreplace'
    cases hreplace'
    refine ⟨((foldNode n).run d).2.events, ?_⟩
    rw [foldOnce, Pass.run_bind, hdone, Pass.run_bind, ← hrun]
    rfl

/-- What a round keeps: what holds on when a node has nothing to fold, and when one is folded. -/
theorem foldOnce_induction {P : List Nat → Nat → Program → Prop}
    (hidle : ∀ {n ns k p}, P (n :: ns) k p → folded? p n = none → P ns k p)
    (hfold : ∀ {n ns k p l operands o q}, P (n :: ns) k p → folded? p n = some (l, operands) →
      p.replaceOp n (.literal l) = .ok (o, q) → P ns (k + 1) (q.removeNodes operands))
    (ns : List Nat) {k : Nat} (h : P ns k d.program) :
    P [] (k + ((foldOnce ns).run d).1) ((foldOnce ns).run d).2.program := by
  rw [foldOnce_eq]
  refine Pass.total_induction _ (P := P) (fun {n ns k d} h => ?_) h
  rw [Pass.run_bind]
  obtain ⟨hnone, hrun⟩ | ⟨l, operands, o, q, hfolded, hreplace, hdone, hrun⟩ := foldNode_cases n d
  · rw [hrun]
    exact hidle h hnone
  · have hnext := hfold h hfolded hreplace
    rw [← hrun] at hnext
    rw [hdone]
    exact hnext

theorem foldRounds_induction {P : Nat → Program → Prop}
    (hfold : ∀ {k p n l operands o q}, P k p → folded? p n = some (l, operands) →
      p.replaceOp n (.literal l) = .ok (o, q) → P (k + 1) (q.removeNodes operands))
    (fuel : Nat) {k : Nat} (h : P k d.program) :
    P (k + ((foldRounds fuel).run d).1) ((foldRounds fuel).run d).2.program := by
  induction fuel generalizing k d with
  | zero => exact h
  | succ fuel ih =>
    have hround := foldOnce_induction (P := fun _ => P) (fun h _ => h) hfold d.program.nodeIds h
    unfold foldRounds
    rw [Pass.run_bind, Pass.run_program, Pass.run_bind]
    dsimp only
    split
    · next hzero =>
      rw [beq_iff_eq] at hzero
      rwa [hzero] at hround
    · have hrest := ih (d := ((foldOnce d.program.nodeIds).run d).2) hround
      rwa [Nat.add_assoc] at hrest

/-- What every fold of a node keeps, with the number of nodes folded, the pass keeps. -/
theorem constants_induction {P : Nat → Program → Prop}
    (hfold : ∀ {k p n l operands o q}, P k p → folded? p n = some (l, operands) →
      p.replaceOp n (.literal l) = .ok (o, q) → P (k + 1) (q.removeNodes operands))
    (h : P 0 d.program) : P (constants.run d).1 (constants.run d).2.program := by
  have hall := foldRounds_induction (P := P) hfold (d.program.graph.nodeCount + 1) h
  rwa [Nat.zero_add] at hall

theorem faithful_folded {p q : Program} {n : Nat} {l : Literal} {operands : List Nat} {o : Op}
    (hfolded : folded? p n = some (l, operands))
    (hreplace : p.replaceOp n (.literal l) = .ok (o, q)) : Faithful p (q.removeNodes operands) := by
  obtain ⟨hl, hoperands, -⟩ := constant_of_folded? hfolded
  intro h
  have hleft : Faithful q (q.removeNodes operands) := by
    refine faithful_removeIdle fun c hc => ?_
    obtain ⟨role, hchild⟩ := hoperands c hc
    exact h.idle_of_replaceOp hl hreplace hchild
  exact (faithful_replaceOp hl hreplace).1.trans hleft h

theorem keeps_constants : Pass.Keeps constants := fun d =>
  constants_induction (P := fun _ => Faithful d.program)
    (fun h hfolded hreplace => h.trans (faithful_folded hfolded hreplace)) (.refl d.program)

end Fold

end GraphLang
