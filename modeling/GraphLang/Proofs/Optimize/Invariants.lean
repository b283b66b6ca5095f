import GraphLang.Proofs.Optimize.Meaning

/-!
# What every single change keeps

The passes change a program by a few single changes only: nodes and functions go, children are taken
away from their parents and given to others, nodes become literals, and functions get other bodies.
What each of these changes keeps, the passes keep, whatever the program looks like.
-/

namespace GraphLang

open Program

variable {P : Program → Prop} {R : Role → Prop} {p q : Program}

/-- Each single change keeps the property, and the roles of edges have theirs. -/
structure Invariant (P : Program → Prop) (R : Role → Prop) : Prop where
  /-- The roles of edges have their property. -/
  role {p : Program} {e : Nat} {edge : Edge Role} : P p → p.graph.edge? e = some edge →
    R edge.weight
  /-- A node goes. -/
  removeNode {p : Program} (n : Nat) : P p → P { p with graph := p.graph.removeNode n }
  /-- A child is taken away from its parent. -/
  removeEdge {p : Program} (e : Nat) : P p → P { p with graph := p.graph.removeEdge e }
  /-- A parent gets a child. -/
  addEdge {p : Program} {n c : Nat} {role : Role} : P p → p.graph.hasNode n = true →
    p.graph.hasNode c = true → R role → P { p with graph := (p.graph.addEdge n c role).2 }
  /-- A node becomes a literal. -/
  literal {p : Program} (n : Nat) (l : Literal) : P p →
    P { p with graph := p.graph.modifyNode n fun node => { node with op := .literal l } }
  /-- A function gets a body. -/
  modify {p : Program} {root : Nat} (f : FunctionId) : P p → p.graph.hasNode root = true →
    P { p with functions := p.functions.modify f fun d => { d with body := some root } }
  /-- A function goes. -/
  erase {p : Program} (f : FunctionId) : P p → P { p with functions := p.functions.erase f }

namespace Pass

variable {α β : Type}

/-- The pass keeps the property. -/
def Preserves (P : Program → Prop) (pass : Pass α) : Prop :=
  ∀ d : Draft, P d.program → P (pass.run d).2.program

theorem Preserves.pure (a : α) : Preserves P (Pure.pure a : Pass α) := fun _ h => h

theorem Preserves.bind {pass : Pass α} {f : α → Pass β} (hpass : Preserves P pass)
    (hf : ∀ a, Preserves P (f a)) : Preserves P (pass >>= f) :=
  fun d h => hf _ _ (hpass d h)

/-- What follows may rely on the property of the program that was read. -/
theorem Preserves.program {f : Program → Pass β} (hf : ∀ p, P p → Preserves P (f p)) :
    Preserves P (Pass.program >>= f) := fun d h => hf d.program h d h

theorem Preserves.setProgram {p : Program} (h : P p) : Preserves P (setProgram p) := fun _ _ => h

theorem Preserves.report (level : Level) (target message : String)
    (fields : List (String × String)) : Preserves P (report level target message fields) :=
  fun _ h => h

/-- What every step keeps, all steps together keep. -/
theorem Preserves.total {step : α → Pass Nat} (hstep : ∀ x, Preserves P (step x)) (xs : List α) :
    Preserves P (total step xs) := fun _ h =>
  total_induction step (P := fun _ _ p => P p) (k := 0) (fun {x _ _ d} h => hstep x d h) h

end Pass

namespace Invariant

open Pass

variable (hP : Invariant P R)

include hP

theorem removeNodes (h : P p) (ns : List Nat) : P (p.removeNodes ns) := by
  induction ns generalizing p with
  | nil => exact h
  | cons n ns ih => exact ih (hP.removeNode n h)

theorem disconnect (h : P p) (n : Nat) (role : Role) : P (p.disconnect n role).2 := by
  unfold Program.disconnect
  split
  · exact h
  · exact hP.removeEdge _ h

theorem connect (h : P p) {n c : Nat} {role : Role} (hrole : R role)
    (hconnect : p.connect n c role = .ok q) : P q := by
  unfold Program.connect at hconnect
  split_ifs at hconnect with hsource htarget
  cases hconnect
  exact hP.addEdge h (by simpa using hsource) (by simpa using htarget) hrole

theorem replaceOp (h : P p) {n : Nat} {l : Literal} {r : Op × Program}
    (hreplace : p.replaceOp n (.literal l) = .ok r) : P r.2 := by
  unfold Program.replaceOp at hreplace
  split at hreplace <;> cases hreplace
  exact hP.literal n l h

theorem setBody (h : P p) {f : FunctionId} {root : Nat} (hset : p.setBody f root = .ok q) : P q := by
  unfold Program.setBody at hset
  split_ifs at hset with hlive
  split at hset <;> cases hset
  exact hP.modify f h (by simpa using hlive)

theorem removeFunction (h : P p) (f : FunctionId) : P (p.removeFunction f).2 := by
  unfold Program.removeFunction
  split_ifs
  · exact h
  · exact hP.erase f (hP.removeNodes h _)

theorem preserves_removeNode (n : Nat) : Preserves P (Pass.removeNode n) := fun _ h => hP.removeNode n h

theorem preserves_removeSubtree (n : Nat) : Preserves P (Pass.removeSubtree n) :=
  fun d h => hP.removeNodes h (d.program.subtree n)

theorem preserves_disconnect (n : Nat) (role : Role) : Preserves P (Pass.disconnect n role) :=
  fun _ h => hP.disconnect h n role

/-! ### Folding -/

theorem preserves_constants : Preserves P Fold.constants := fun _ h =>
  Fold.constants_induction (P := fun _ => P)
    (fun h _ hreplace => hP.removeNodes (hP.replaceOp h hreplace) _) h

theorem preserves_replaceUnder (branch : Nat) {parents : List (Nat × Role)}
    (hroles : ∀ x ∈ parents, R x.2) : Preserves P (Fold.replaceUnder branch parents) := by
  induction parents with
  | nil => exact .pure true
  | cons x parents ih =>
    obtain ⟨parent, role⟩ := x
    unfold Fold.replaceUnder
    refine .bind (.bind (hP.preserves_disconnect parent role) fun _ => .pure _) fun _ =>
      .program fun p h => ?_
    cases hconnect : p.connect parent branch role with
    | error _ => exact .pure false
    | ok q =>
      have hq := hP.connect h (hroles (parent, role) List.mem_cons_self) hconnect
      exact .bind (.setProgram hq) fun _ => ih fun x hx => hroles x (List.mem_cons_of_mem _ hx)

theorem preserves_replaceBody (branch : Nat) (f : Option FunctionId) :
    Preserves P (Fold.replaceBody branch f) := by
  cases f with
  | none => exact .pure true
  | some f =>
    refine .program fun p h => ?_
    cases hset : p.setBody f branch with
    | error _ => exact .pure false
    | ok q => exact .bind (.setProgram (hP.setBody h hset)) fun _ => .pure true

/-- The roles of the edges that end at a node have their property. -/
theorem role_parents (h : P p) {n : Nat} : ∀ x ∈ p.parents n, R x.2 := by
  intro x hx
  obtain ⟨⟨e, edge⟩, hmem, rfl⟩ := List.mem_map.1 hx
  exact hP.role h (SlotGraph.mem_edgesOf.1 hmem).2

theorem preserves_takeBranch (n : Nat) (branch : Option Nat) :
    Preserves P (Fold.takeBranch n branch) := by
  cases branch with
  | some branch =>
    unfold Fold.takeBranch
    refine .program fun p h => ?_
    dsimp only
    split
    · exact .pure false
    refine .bind (hP.preserves_replaceUnder branch (hP.role_parents h)) fun done => ?_
    split
    · exact .pure false
    refine .bind (hP.preserves_replaceBody branch _) fun done => ?_
    split
    · exact .pure false
    exact .bind (hP.preserves_removeNode n) fun _ => .pure true
  | none =>
    unfold Fold.takeBranch
    refine .program fun p h => ?_
    cases hreplace : p.replaceOp n (.literal .nil) with
    | error _ => exact .pure false
    | ok r =>
      refine .bind (.setProgram (hP.replaceOp h hreplace)) fun _ =>
        .bind (hP.preserves_disconnect n .whenTrue) fun child => ?_
      cases child with
      | some c => exact .bind (hP.preserves_removeSubtree c) fun _ => .pure true
      | none => exact .pure true

theorem preserves_foldBranch (n : Nat) : Preserves P (Fold.foldBranch n) := by
  unfold Fold.foldBranch
  refine .program fun p _ => ?_
  cases Fold.literalChild? p n .condition with
  | none => exact .pure false
  | some x =>
    dsimp only
    refine .bind (hP.preserves_takeBranch n _) fun done => ?_
    split
    · exact .pure false
    refine .bind (hP.preserves_removeNode x.1) fun _ => ?_
    generalize Prod.snd _ = dropped
    cases dropped with
    | some c =>
      exact .bind (hP.preserves_removeSubtree c) fun _ => .bind (.report _ _ _ _) fun _ => .pure true
    | none => exact .bind (.report _ _ _ _) fun _ => .pure true

theorem preserves_branches : Preserves P Fold.branches := by
  refine .program fun p _ => ?_
  rw [Fold.foldBranches_eq]
  exact .total (fun n => .bind (hP.preserves_foldBranch n) fun _ => .pure _) _

/-! ### Removing dead code -/

theorem preserves_dropStatements (block : Nat) (rest : List (Role × Nat)) :
    Preserves P (DeadCode.dropStatements block rest) := by
  induction rest with
  | nil => exact .pure 0
  | cons x rest ih =>
    obtain ⟨role, n⟩ := x
    exact .bind (.bind (hP.preserves_disconnect block role) fun _ => .pure _) fun _ =>
      .bind (hP.preserves_removeSubtree n) fun _ => .bind ih fun _ => .pure _

theorem preserves_prune : Preserves P DeadCode.prune := by
  refine .program fun p _ => ?_
  rw [DeadCode.pruneBlocks_eq]
  exact .total (fun block => .program fun _ _ => hP.preserves_dropStatements block _) _

theorem preserves_removeFunctions (dead : List FunctionId) :
    Preserves P (DeadCode.removeFunctions dead) := by
  induction dead with
  | nil => exact .pure ()
  | cons f dead ih =>
    exact .bind (.report _ _ _ _) fun _ => .bind (fun _ h => hP.removeFunction h f) fun _ => ih

theorem preserves_eliminate : Preserves P DeadCode.eliminate := by
  refine .program fun p _ => ?_
  exact .bind (hP.preserves_removeFunctions _) fun _ =>
    .bind (fun _ h => hP.removeNodes h _) fun _ => .program fun _ _ => .pure _

/-! ### All passes -/

theorem optimize (h : P p) : P p.optimize.2.1 := by
  obtain ⟨again, d, rfl, hoptimize⟩ := program_optimize p
  have hagain : Preserves P (if 0 < again then Fold.constants else pure 0) := by
    split
    · exact hP.preserves_constants
    · exact .pure 0
  rw [hoptimize]
  exact hP.preserves_eliminate _ (hP.preserves_prune _ (hagain _ (hP.preserves_branches _
    (hP.preserves_constants _ h))))

end Invariant

end GraphLang
