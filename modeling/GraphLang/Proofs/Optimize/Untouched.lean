import GraphLang.Proofs.Optimize.Counting

/-!
# Nodes that a pass does not touch

A node is untouched if it does what it did, with children that do what they did. Whether a pass has
something to do at a node depends on no more than that, and on whether the node is the root of a
body. Each change leaves all nodes that are still there untouched, apart from the one it acts on,
the parent of that one, and literals.
-/

namespace GraphLang

open Program

variable {p q s : Program} {n m c : Nat}

/-- The node does what it did, with children that do what they did. -/
structure Untouched (p q : Program) (m : Nat) : Prop where
  op : q.op? m = p.op? m
  ties : (q.graph.ties m).Perm (p.graph.ties m)
  children : ∀ t ∈ p.graph.ties m, q.op? t.2 = p.op? t.2

theorem dropWhile_congr {α : Type} {f g : α → Bool} {xs : List α} (h : ∀ x ∈ xs, f x = g x) :
    xs.dropWhile f = xs.dropWhile g := by
  induction xs with
  | nil => rfl
  | cons x xs ih =>
    rw [List.dropWhile_cons, List.dropWhile_cons, h x List.mem_cons_self,
      ih fun y hy => h y (List.mem_cons_of_mem x hy)]

namespace Untouched

theorem refl (p : Program) (m : Nat) : Untouched p p m := ⟨rfl, .refl _, fun _ _ => rfl⟩

theorem trans (h : Untouched p q m) (h' : Untouched q s m) : Untouched p s m where
  op := h'.op.trans h.op
  ties := h'.ties.trans h.ties
  children t ht := (h'.children t (h.ties.symm.subset ht)).trans (h.children t ht)

/-! ### What the passes look at -/

section

variable (h : Untouched p q m) (hp : p.Treelike) (hq : q.Treelike)

include h hp hq

theorem child? (role : Role) : q.child? m role = p.child? m role := by
  ext c
  rw [(hq.differ m).child?_iff, (hp.differ m).child?_iff, h.ties.mem_iff]

theorem literalChild? (role : Role) :
    Fold.literalChild? q m role = Fold.literalChild? p m role := by
  ext ⟨c, l⟩
  rw [hq.literalChild?_iff, hp.literalChild?_iff, h.child? hp hq]
  refine and_congr_right fun hc => ?_
  rw [h.children _ (mem_ties_of_child? hc)]

theorem folded? : Fold.folded? q m = Fold.folded? p m := by
  have hchildren : Fold.literalChild? q m = Fold.literalChild? p m :=
    funext fun role => h.literalChild? hp hq role
  unfold Fold.folded?
  rw [h.op, hchildren]

/-- A branch that can be folded could be folded before, if it was no other root. -/
theorem foldable (hroot : p.IsRoot m → q.IsRoot m) (hm : Fold.Foldable q m) :
    Fold.Foldable p m := by
  obtain ⟨hop, l, ⟨c, hc, hl⟩, hblock⟩ := hm
  rw [h.op] at hop
  rw [h.child? hp hq] at hc
  rw [h.children _ (mem_ties_of_child? hc)] at hl
  refine ⟨hop, l, ⟨c, hc, hl⟩, fun hr b hb => ?_⟩
  rw [← h.children _ (mem_ties_of_child? hb)]
  exact hblock (hroot hr) b ((h.child? hp hq _).trans hb)

omit hp in
theorem unreachableStatements :
    DeadCode.unreachableStatements q m = DeadCode.unreachableStatements p m := by
  have hchildren : q.children m = p.children m := by
    refine (hq.differ m).children_eq (p.pairwise_children m) ?_
    exact (List.mergeSort_perm _ _).trans h.ties.symm
  have hdiverges : ∀ t ∈ p.indexed m (.statement 0),
      (!DeadCode.diverges q t.2) = !DeadCode.diverges p t.2 := by
    intro t ht
    rw [DeadCode.diverges, h.children t (mem_ties_of_indexed ht), DeadCode.diverges]
  unfold DeadCode.unreachableStatements
  rw [indexed, hchildren, ← indexed, dropWhile_congr hdiverges]

end

end Untouched

/-! ### Nodes that go -/

namespace Program

theorem untouched_removeNodes (hsound : p.graph.Sound) {gone : List Nat} (hm : m ∉ gone)
    (hchildren : ∀ t ∈ p.graph.ties m, t.2 ∉ gone) : Untouched p (p.removeNodes gone) m where
  op := op?_removeNodes hm
  ties := .of_eq (ties_removeNodes hsound hm hchildren)
  children t ht := op?_removeNodes (hchildren t ht)

/-- Where nobody looks at the nodes that go, the others are untouched. -/
theorem untouched_removeIdle (hsound : p.graph.Sound) {gone : List Nat}
    (hgone : ∀ c ∈ gone, p.Idle gone c) (hm : (p.removeNodes gone).graph.hasNode m = true)
    (hop : ∀ l, p.op? m ≠ some (.literal l)) : Untouched p (p.removeNodes gone) m := by
  have hleft := (hasNode_removeNodes.1 hm).2
  refine untouched_removeNodes hsound hleft fun ⟨role, c⟩ ht hc => ?_
  obtain ⟨e, hedge⟩ := hsound.mem_ties.1 ht
  obtain hsource | ⟨l, hl⟩ := (hgone c hc).2 hedge rfl
  · exact hleft hsource
  · exact hop l hl

theorem untouched_removeSubtree (h : p.Treelike) (hidle : p.Idle [] c)
    (hm : (p.removeNodes (p.subtree c)).graph.hasNode m = true)
    (hop : ∀ l, p.op? m ≠ some (.literal l)) : Untouched p (p.removeNodes (p.subtree c)) m :=
  untouched_removeIdle h.sound (h.idle_subtree hidle) hm hop

/-- A node that loses no edge is untouched. -/
theorem untouched_removeEdge (hsound : p.graph.Sound) {e : Nat} {edge : Edge Role}
    (hedge : p.graph.edge? e = some edge) (hm : m ≠ edge.source) :
    Untouched p { p with graph := p.graph.removeEdge e } m where
  op := p.op?_removeEdge e m
  ties := .of_eq (ties_removeEdge_of_ne hsound hedge hm)
  children _ _ := p.op?_removeEdge e _

end Program

/-! ### Folding a branch -/

/-- Only the parent of the node that goes is touched. -/
theorem Redirected.untouched {branch : Nat} (h : Redirected p s n branch) (hmn : m ≠ n)
    (hchild : ∀ t ∈ p.graph.ties m, t.2 ≠ n) : Untouched p s m where
  op := h.op?_of_ne hmn
  ties := by
    refine (h.ties m hmn).trans (.of_eq ((List.map_congr_left fun t ht => ?_).trans
      (List.map_id _)))
    rw [redirect_of_ne (hchild t ht)]
    rfl
  children t ht := h.op?_of_ne (hchild t ht)

namespace Fold

theorem hasNode_of_swept {condition : Nat} {dropped : Option Nat}
    (hm : (swept s condition dropped).graph.hasNode m = true) :
    (s.removeNodes [condition]).graph.hasNode m = true := by
  cases dropped with
  | none => exact hm
  | some c => exact (hasNode_removeNodes.1 hm).1

theorem untouched_swept (hs : s.Treelike) {condition : Nat} {dropped : Option Nat}
    (hcondition : s.Idle [] condition) (hdropped : ∀ c, dropped = some c → s.Idle [] c)
    (hm : (swept s condition dropped).graph.hasNode m = true)
    (hop : ∀ l, s.op? m ≠ some (.literal l)) : Untouched s (swept s condition dropped) m := by
  have hidle : ∀ c ∈ [condition], s.Idle [condition] c := by
    intro c hc
    rw [List.mem_singleton] at hc
    exact hc ▸ hcondition.among [condition]
  have hfirst : Untouched s (s.removeNodes [condition]) m :=
    untouched_removeIdle hs.sound hidle (hasNode_of_swept hm) hop
  cases dropped with
  | none => exact hfirst
  | some c =>
    refine hfirst.trans (untouched_removeSubtree (faithful_removeNodes hidle hs).1
      ((hdropped c rfl).removeNodes hs.sound [condition]) hm ?_)
    rwa [hfirst.op]

/-- Folding a branch touches the branch and its parent, and literals. -/
theorem Outcome.untouched (h : Outcome p n q) (hp : p.Treelike) (hmn : m ≠ n)
    (hm : q.graph.hasNode m = true) (hchild : ∀ t ∈ p.graph.ties m, t.2 ≠ n)
    (hop : ∀ l, p.op? m ≠ some (.literal l)) : Untouched p q m := by
  cases h with
  | @taken s branch e condition role dropped hedge hskips hredirected hblock hcondition hdropped =>
    have hfirst := hredirected.untouched hmn hchild
    refine hfirst.trans (untouched_swept (hredirected.treelike hp hedge) hcondition hdropped hm ?_)
    rwa [hfirst.op]
  | @settled s e c condition hself hconstant hreplace hcondition hwhenTrue hnothing hedge =>
    obtain ⟨hfaithful, hliteral, hothers, hties, -⟩ := faithful_replaceOp hconstant hreplace
    obtain ⟨hs, -⟩ := hfaithful hp
    have hidle {role : Role} {c' : Nat} (hc' : p.child? n role = some c') : s.Idle [] c' :=
      hp.idle_of_replaceOp hconstant hreplace hc'
    let s₁ : Program := { s with graph := s.graph.removeEdge e }
    let s₂ : Program := s₁.removeNodes (s₁.subtree c)
    have hliteral₁ : s₁.op? n = some (.literal .nil) := (s.op?_removeEdge e n).trans hliteral
    obtain ⟨hs₁, -⟩ := hs.removeEdge hedge (.literal (.literal hliteral) hliteral₁)
    have hidle₁ : s₁.Idle [] c := (hidle hwhenTrue).removeEdge e
    obtain ⟨hs₂, -⟩ := faithful_removeSubtree hidle₁ hs₁
    have hm₂ : s₂.graph.hasNode m = true := (hasNode_removeNodes.1 (hasNode_of_swept hm)).1
    have hfirst : Untouched p s m := ⟨hothers m hmn, .of_eq (hties m), fun t ht =>
      hothers t.2 (hchild t ht)⟩
    have hsecond : Untouched p s₁ m := hfirst.trans (untouched_removeEdge hs.sound hedge hmn)
    have hthird : Untouched p s₂ m := hsecond.trans
      (untouched_removeSubtree hs₁ hidle₁ hm₂ (by rwa [hsecond.op]))
    refine hthird.trans (untouched_swept hs₂ ?_ ?_ hm (by rwa [hthird.op]))
    · exact ((hidle hcondition).removeEdge e).removeNodes hs₁.sound _
    · rintro c' ⟨⟩
      exact hidle₁.removeNodes hs₁.sound _

theorem functions_swept (s : Program) (condition : Nat) (dropped : Option Nat) :
    (swept s condition dropped).functions = s.functions := by
  cases dropped <;> rfl

/-- Every other root of a body stays one. -/
theorem Outcome.isRoot (h : Outcome p n q) (hmn : m ≠ n) (hm : p.IsRoot m) : q.IsRoot m := by
  obtain ⟨f, d, hd, hbody⟩ := hm
  cases h with
  | @taken s branch e condition role dropped hedge hskips hredirected =>
    refine ⟨f, { d with body := d.body.map (redirect n branch) }, ?_, ?_⟩
    · rw [functions_swept, hredirected.functions]
      exact List.mem_map.2 ⟨_, hd, rfl⟩
    · rw [hbody, Option.map_some, redirect_of_ne hmn]
  | @settled s e c condition hself hconstant hreplace =>
    obtain ⟨-, -, -, -, hfunctions⟩ := faithful_replaceOp hconstant hreplace
    refine ⟨f, d, ?_, hbody⟩
    rw [functions_swept]
    exact hfunctions ▸ hd

/-- What was folded is gone or became a literal. -/
theorem Outcome.op?_self (h : Outcome p n q) {o : Op} (ho : q.op? n = some o) :
    o = .literal .nil := by
  have hswept : ∀ {s : Program} {condition dropped},
      (swept s condition dropped).op? n = some o → s.op? n = some o := by
    intro s condition dropped hop
    have hfirst := hasNode_of_swept (hasNode_of_op? hop)
    have hkept := op?_removeNodes (p := s) (hasNode_removeNodes.1 hfirst).2
    cases dropped with
    | none => exact hkept.symm.trans hop
    | some c =>
      refine hkept.symm.trans (Eq.trans ?_ hop)
      exact (op?_removeNodes (hasNode_removeNodes.1 (hasNode_of_op? hop)).2).symm
  cases h with
  | taken hedge hskips hredirected =>
    exact absurd rfl (hredirected.hasNode_iff.1 (hasNode_of_op? (hswept ho))).1
  | @settled s e c condition hself hconstant hreplace =>
    obtain ⟨-, hliteral, -⟩ := faithful_replaceOp hconstant hreplace
    have hop := hswept ho
    have hleft := (hasNode_removeNodes.1 (hasNode_of_op? hop)).2
    rw [op?_removeNodes hleft, op?_removeEdge, hliteral] at hop
    exact (Option.some.inj hop).symm

end Fold

end GraphLang
