import GraphLang.Proofs.Optimize.Meaning
import GraphLang.Proofs.Optimize.Twins

/-!
# Optimizing twins

A pass looks at a program through look-ups only, so on twins it does the same, step by step, and
leaves twins. The optimized programs are twins again.
-/

namespace GraphLang

open Program

variable {p q : Program} {n branch : Nat} {role : Role}

/-! ### Children put in the place of others -/

/-- What a tie of a node becomes if the branch is put in the place of its child. -/
def moved (branch : Nat) (places : List (Nat × Role)) (a : Nat) (t : Role × Nat) : Role × Nat :=
  if (a, t.1) ∈ places then (t.1, branch) else t

theorem moved_fst (branch : Nat) (places : List (Nat × Role)) (a : Nat) (t : Role × Nat) :
    (moved branch places a t).1 = t.1 := by
  unfold moved
  split <;> rfl

/-- Places are filled one after the other. -/
theorem moved_moved (branch : Nat) (place : Nat × Role) (places : List (Nat × Role)) (a : Nat)
    (t : Role × Nat) :
    moved branch places a (moved branch [place] a t) = moved branch (place :: places) a t := by
  by_cases hfirst : (a, t.1) = place
  · have hone : moved branch [place] a t = (t.1, branch) := if_pos (List.mem_singleton.2 hfirst)
    have hall : moved branch (place :: places) a t = (t.1, branch) :=
      if_pos (hfirst ▸ List.mem_cons_self)
    rw [hone, hall, moved]
    split <;> rfl
  · have hone : moved branch [place] a t = t := if_neg (mt List.mem_singleton.1 hfirst)
    rw [hone]
    simp only [moved, List.mem_cons, hfirst, false_or]

/-- The branch was put into the places, and nothing else was changed. -/
structure Moved (p q : Program) (branch : Nat) (places : List (Nat × Role)) : Prop where
  /-- Edges join nodes. -/
  sound : q.graph.Sound
  /-- The functions are the same. -/
  functions : q.functions = p.functions
  /-- The nodes are the same. -/
  node : q.node? = p.node?
  /-- The ties in the places lead to the branch. -/
  ties : ∀ a, (q.graph.ties a).Perm ((p.graph.ties a).map (moved branch places a))

namespace Moved

variable {places : List (Nat × Role)} {a : Nat}

theorem refl (hsound : p.graph.Sound) : Moved p p branch [] :=
  ⟨hsound, rfl, rfl, fun _ => List.Perm.of_eq (List.map_id _).symm⟩

theorem roles (h : Moved p q branch places) (hroles : ∀ n, p.RolesDiffer n) (n : Nat) :
    q.RolesDiffer n := by
  have hfst : Prod.fst ∘ moved branch places n = Prod.fst := funext (moved_fst branch places n)
  have hperm := (h.ties n).map Prod.fst
  rw [List.map_map, hfst] at hperm
  exact hperm.nodup_iff.2 (hroles n)

theorem trans {s : Program} (h : Moved p q branch [(a, role)]) (h' : Moved q s branch places) :
    Moved p s branch ((a, role) :: places) := by
  refine ⟨h'.sound, h'.functions.trans h.functions, h'.node.trans h.node, fun b => ?_⟩
  have hboth : moved branch places b ∘ moved branch [(a, role)] b =
      moved branch ((a, role) :: places) b := funext (moved_moved branch (a, role) places b)
  have hperm := (h'.ties b).trans ((h.ties b).map _)
  rwa [List.map_map, hboth] at hperm

/-- Of children with different roles, the one that is taken away and replaced is the only one that
changes. -/
theorem perm_replace {ts : List (Role × Nat)} {c : Nat} (hnodup : (ts.map (·.1)).Nodup)
    (hmem : (role, c) ∈ ts) : ((role, branch) :: ts.filter fun t => !(t.1 == role)).Perm
      (ts.map (moved branch [(a, role)] a)) := by
  have hmoved (t : Role × Nat) : moved branch [(a, role)] a t =
      if t.1 = role then (t.1, branch) else t := by simp [moved]
  rw [funext hmoved]
  induction ts with
  | nil => cases hmem
  | cons t ts ih =>
    obtain ⟨hnew, hnodup⟩ := List.nodup_cons.1 hnodup
    by_cases ht : t.1 = role
    · have hothers : ∀ t' ∈ ts, t'.1 ≠ role := by
        intro t' ht' heq
        exact hnew (List.mem_map.2 ⟨t', ht', heq.trans ht.symm⟩)
      have hkept : ts.filter (fun t => !(t.1 == role)) = ts :=
        List.filter_eq_self.2 fun t' ht' => by simpa using hothers t' ht'
      have hsame : ts.map (fun t => if t.1 = role then (t.1, branch) else t) = ts := by
        refine (List.map_congr_left fun t' ht' => if_neg (hothers t' ht')).trans (List.map_id ts)
      rw [List.filter_cons_of_neg (by simp [ht]), List.map_cons, if_pos ht, hkept, hsame, ht]
    · rw [List.filter_cons_of_pos (by simpa using ht), List.map_cons, if_neg ht]
      have hmem : (role, c) ∈ ts := by
        rcases List.mem_cons.1 hmem with rfl | hmem
        · exact (ht rfl).elim
        · exact hmem
      exact (List.Perm.swap t _ _).trans ((ih hnodup hmem).cons t)

/-- A child is taken away, and the branch becomes a child with that role. -/
theorem exists_connect (hsound : p.graph.Sound) (hroles : ∀ n, p.RolesDiffer n)
    (hbranch : p.graph.hasNode branch = true) {c : Nat} (htie : (role, c) ∈ p.graph.ties a) :
    ∃ q, (p.disconnect a role).2.connect a branch role = .ok q ∧ Moved p q branch [(a, role)] := by
  obtain ⟨hfunctions, hnode, hkept⟩ := disconnect_snd p a role
  have hlive {m : Nat} (hm : p.graph.hasNode m = true) :
      (p.disconnect a role).2.graph.hasNode m = true := by
    have hm' : (p.node? m).isSome = true := hm
    rwa [← hnode] at hm'
  have hsource := hlive (hsound.hasNode_of_mem_ties htie).1
  unfold connect
  rw [hsource, hlive hbranch]
  refine ⟨_, rfl, (hkept hsound).addEdge hsource (hlive hbranch) role, hfunctions, ?_, fun b => ?_⟩
  · rw [← hnode]
    exact funext fun m => SlotGraph.node?_addEdge ..
  · dsimp only
    rw [(hkept hsound).ties_addEdge hsource, ties_disconnect hsound hroles]
    by_cases hb : b = a
    · subst hb
      simpa using perm_replace (hroles b) htie
    · have hall : (p.graph.ties b).map (moved branch [(a, role)] b) = p.graph.ties b :=
        (List.map_congr_left fun t _ => by simp [moved, hb]).trans (List.map_id _)
      rw [if_neg hb, hall, List.filter_eq_self.2 fun t _ => by simp [hb]]

end Moved

namespace Fold

variable {d : Draft}

/-- A branch is put into any places that are taken. -/
theorem exists_replaceUnder {places : List (Nat × Role)} (hsound : d.program.graph.Sound)
    (hroles : ∀ n, d.program.RolesDiffer n) (hbranch : d.program.graph.hasNode branch = true)
    (hplaces : ∀ x ∈ places, ∃ c, (x.2, c) ∈ d.program.graph.ties x.1) :
    ∃ q, (replaceUnder branch places).run d = (true, { d with program := q }) ∧
      Moved d.program q branch places := by
  induction places generalizing d with
  | nil => exact ⟨d.program, rfl, .refl hsound⟩
  | cons x places ih =>
    obtain ⟨a, role⟩ := x
    obtain ⟨c, htie⟩ := hplaces _ List.mem_cons_self
    obtain ⟨q, hconnect, hmoved⟩ := Moved.exists_connect hsound hroles hbranch htie
    have hnext : ∀ x ∈ places, ∃ c, (x.2, c) ∈ q.graph.ties x.1 := by
      intro x hx
      obtain ⟨c, hc⟩ := hplaces x (List.mem_cons_of_mem _ hx)
      refine ⟨(moved branch [(a, role)] x.1 (x.2, c)).2, (hmoved.ties x.1).mem_iff.2 ?_⟩
      refine List.mem_map.2 ⟨_, hc, Prod.ext (moved_fst ..) rfl⟩
    have hlive : q.graph.hasNode branch = true := by
      have hbranch : (d.program.node? branch).isSome = true := hbranch
      rwa [← hmoved.node] at hbranch
    obtain ⟨s, hrun, hrest⟩ := ih (d := { d with program := q }) hmoved.sound
      (hmoved.roles hroles) hlive hnext
    refine ⟨s, ?_, hmoved.trans hrest⟩
    have hfirst : (Pass.disconnect a role).run d = ((d.program.disconnect a role).1,
        { d with program := (d.program.disconnect a role).2 }) := rfl
    unfold replaceUnder
    rw [Pass.run_bind]
    change (Pass.program >>= _ : Pass Bool).run ((Pass.disconnect a role).run d).2 = _
    rw [run_disconnect, Pass.run_bind, Pass.run_program]
    dsimp only
    rw [hconnect]
    exact hrun

end Fold

/-! ### Passes side by side -/

/-- Two passes come to the same on two drafts, and leave twins. -/
structure Pass.Concur {α : Type} (f g : Pass α) (d d' : Draft) : Prop where
  /-- They come to the same. -/
  same : (g.run d').1 = (f.run d).1
  /-- They leave twins. -/
  twin : Twin (f.run d).2.program (g.run d').2.program

/-- The pass comes to the same on twins, and leaves twins. -/
def Pass.Parallel {α : Type} (f : Pass α) : Prop :=
  ∀ {d d' : Draft}, Twin d.program d'.program → Pass.Concur f f d d'

namespace Pass

variable {α β : Type} {d d' : Draft}

theorem Concur.bind {f g : Pass α} {k l : α → Pass β} (h : Concur f g d d')
    (hk : ∀ {e e'}, Twin e.program e'.program → Concur (k (f.run d).1) (l (f.run d).1) e e') :
    Concur (f >>= k) (g >>= l) d d' := by
  obtain ⟨hsame, htwin⟩ := h
  have hrest := hk htwin
  refine ⟨?_, ?_⟩
  · rw [run_bind, run_bind, hsame]
    exact hrest.same
  · rw [run_bind, run_bind, hsame]
    exact hrest.twin

/-- What a pass does with the program may depend on the program. -/
theorem Concur.look {k l : Program → Pass β} (h : Concur (k d.program) (l d'.program) d d') :
    Concur (Pass.program >>= k) (Pass.program >>= l) d d' := ⟨h.same, h.twin⟩

theorem Concur.pure (h : Twin d.program d'.program) (a : α) :
    Concur (Pure.pure a : Pass α) (Pure.pure a) d d' := ⟨rfl, h⟩

/-- Events may differ. -/
theorem Concur.report (h : Twin d.program d'.program) (level : Level) (target message : String)
    (fields fields' : List (String × String)) :
    Concur (Pass.report level target message fields) (Pass.report level target message fields')
      d d' := ⟨rfl, h⟩

theorem Concur.setProgram (h : Twin p q) : Concur (Pass.setProgram p) (Pass.setProgram q) d d' :=
  ⟨rfl, h⟩

/-- A change that takes twins to twins. -/
theorem parallel_modify (change : Program → Program)
    (hchange : ∀ {p q}, Twin p q → Twin (change p) (change q)) :
    Parallel (modify fun r => { r with program := change r.program }) :=
  fun h => ⟨rfl, hchange h⟩

theorem parallel_removeNode (n : Nat) : Parallel (Pass.removeNode n) :=
  parallel_modify (fun p => (p.removeNode n).2) fun h => h.removeNode n

theorem parallel_removeNodes (ns : List Nat) : Parallel (ns.forM Pass.removeNode) := by
  induction ns with
  | nil => exact fun h => .pure h ()
  | cons n ns ih => exact fun h => .bind (parallel_removeNode n h) fun h => ih h

theorem parallel_removeSubtree (n : Nat) : Parallel (Pass.removeSubtree n) :=
  parallel_modify (fun p => p.removeNodes (p.subtree n)) fun {p q} h => by
    rw [h.subtree]
    exact h.removeNodes _

theorem parallel_disconnect (a : Nat) (role : Role) : Parallel (Pass.disconnect a role) := by
  intro d d' h
  refine ⟨?_, h.disconnect a role⟩
  change (d'.program.disconnect a role).1 = (d.program.disconnect a role).1
  rw [disconnect_fst, disconnect_fst, h.child]

/-- A node becomes a literal in both programs, or it is in neither of them. -/
theorem Concur.replaceOp (h : Twin d.program d'.program) (n : Nat) (o : Op) {k l : Program → Pass β}
    {a : β} (hk : ∀ {p q : Program} {e e' : Draft}, Twin p q → e.program = d.program →
      e'.program = d'.program → Concur (k p) (l q) e e') :
    Concur
      (match d.program.replaceOp n o with
      | .error _ => Pure.pure a
      | .ok (_, p) => k p)
      (match d'.program.replaceOp n o with
      | .error _ => Pure.pure a
      | .ok (_, q) => l q) d d' := by
  cases hop : d.program.op? n with
  | none =>
    have hop' : d'.program.op? n = none := by rw [h.op, hop]
    unfold Program.replaceOp
    rw [hop, hop']
    exact ⟨rfl, h⟩
  | some old =>
    rw [replaceOp_eq hop, replaceOp_eq (show d'.program.op? n = some old by rw [h.op, hop])]
    exact hk (h.modifyNode n _) rfl rfl

end Pass

/-! ### Constants -/

namespace Fold

open Pass

variable {d d' : Draft}

theorem literalChild?_congr (h : Twin p q) (n : Nat) (role : Role) :
    literalChild? q n role = literalChild? p n role := by
  have hparents (c : Nat) : (q.parents c).length = (p.parents c).length := (h.parents c).length_eq
  unfold literalChild?
  simp only [h.child, h.op, hparents]

theorem folded?_congr (h : Twin p q) (n : Nat) : folded? q n = folded? p n := by
  unfold folded?
  rw [h.op, funext (literalChild?_congr h n)]

theorem parallel_foldNode (n : Nat) : Parallel (foldNode n) := by
  intro d d' h
  refine .look ?_
  rw [folded?_congr h]
  cases folded? d.program n with
  | none => exact .pure h false
  | some x =>
    obtain ⟨l, operands⟩ := x
    refine .look (.replaceOp h n (.literal l) fun hpq _ _ => ?_)
    refine .bind (.setProgram hpq) fun h => .bind (parallel_removeNodes operands h) fun h => ?_
    exact .bind (.report h ..) fun h => .pure h true

theorem parallel_foldOnce (ns : List Nat) : Parallel (foldOnce ns) := by
  induction ns with
  | nil => exact fun h => .pure h 0
  | cons n ns ih =>
    exact fun h => .bind (parallel_foldNode n h) fun h => .bind (ih h) fun h => .pure h _

theorem parallel_foldRounds (fuel : Nat) : Parallel (foldRounds fuel) := by
  induction fuel with
  | zero => exact fun h => .pure h 0
  | succ fuel ih =>
    intro d d' h
    refine .look ?_
    rw [h.nodeIds]
    refine .bind (parallel_foldOnce _ h) fun h => ?_
    split
    · exact .pure h 0
    · exact .bind (ih h) fun h => .pure h _

theorem parallel_constants : Parallel constants := by
  intro d d' h
  refine .look ?_
  rw [h.nodeCount]
  exact parallel_foldRounds _ h

/-! ### Branches -/

theorem isBlock_congr (h : Twin p q) : isBlock q = isBlock p := by
  funext n
  rw [isBlock, isBlock, h.op]

theorem isBranch_congr (h : Twin p q) : isBranch q = isBranch p := by
  funext n
  rw [isBranch, isBranch, h.op]

/-- A branch that is a node takes the place of another node under all parents. -/
theorem concur_replaceUnder (h : Twin d.program d'.program)
    (hbranch : d.program.graph.hasNode branch = true) (n : Nat) :
    Concur (replaceUnder branch (d.program.parents n)) (replaceUnder branch (d'.program.parents n))
      d d' := by
  have hplaces {p : Program} (hsound : p.graph.Sound) (x : Nat × Role) (hx : x ∈ p.parents n) :
      ∃ c, (x.2, c) ∈ p.graph.ties x.1 := ⟨n, (Twin.mem_parents hsound).1 hx⟩
  have hbranch' : d'.program.graph.hasNode branch = true := by rwa [h.hasNode]
  obtain ⟨q, hrun, hmoved⟩ := exists_replaceUnder h.sound h.roles hbranch (hplaces h.sound)
  obtain ⟨q', hrun', hmoved'⟩ := exists_replaceUnder h.sound' h.roles' hbranch' (hplaces h.sound')
  have hsame : moved branch (d'.program.parents n) = moved branch (d.program.parents n) := by
    funext a t
    unfold moved
    simp only [(h.parents n).mem_iff]
  have htwin : Twin q q' := by
    refine ⟨hmoved.sound, hmoved'.sound, hmoved.roles h.roles, ?_, ?_, fun a => ?_⟩
    · rw [hmoved'.functions, hmoved.functions, h.functions]
    · rw [hmoved'.node, hmoved.node, h.node]
    · have hties := (hmoved'.ties a).trans ((h.ties a).map _)
      rw [hsame] at hties
      exact hties.trans (hmoved.ties a).symm
  refine ⟨?_, ?_⟩
  · rw [hrun, hrun']
  · rw [hrun, hrun']
    exact htwin

theorem parallel_replaceBody (branch : Nat) (f : Option FunctionId) :
    Parallel (replaceBody branch f) := by
  cases f with
  | none => exact fun h => .pure h true
  | some f =>
    intro d d' h
    refine .look ?_
    unfold setBody
    rw [h.hasNode, h.function]
    by_cases hlive : (!d.program.graph.hasNode branch) = true
    · rw [if_pos hlive, if_pos hlive]
      exact .pure h false
    · rw [if_neg hlive, if_neg hlive]
      cases d.program.function? f with
      | none => exact .pure h false
      | some def₀ =>
        dsimp only
        rw [h.functions]
        exact .bind (.setProgram (h.withFunctions _)) fun h => .pure h true

theorem parallel_takeBranch {taken : Option Nat} (n : Nat) (h : Twin d.program d'.program)
    (hlive : ∀ branch, taken = some branch → d.program.graph.hasNode branch = true) :
    Concur (takeBranch n taken) (takeBranch n taken) d d' := by
  cases taken with
  | some branch =>
    refine .look ?_
    rw [h.functionDefs, isBlock_congr h]
    dsimp only
    split
    · exact .pure h false
    · refine .bind (concur_replaceUnder h (hlive branch rfl) n) fun h => ?_
      split
      · exact .pure h false
      · refine .bind (parallel_replaceBody branch _ h) fun h => ?_
        split
        · exact .pure h false
        · exact .bind (parallel_removeNode n h) fun h => .pure h true
  | none =>
    refine .look (.replaceOp h n (.literal .nil) fun hpq _ _ => ?_)
    refine .bind (.setProgram hpq) fun h => .bind (parallel_disconnect n .whenTrue h) fun h => ?_
    split
    · exact .bind (parallel_removeSubtree _ h) fun h => .pure h true
    · exact .pure h true

theorem parallel_foldBranch (n : Nat) : Parallel (foldBranch n) := by
  intro d d' h
  refine .look ?_
  rw [literalChild?_congr h, h.child]
  cases literalChild? d.program n .condition with
  | none => exact .pure h false
  | some x =>
    obtain ⟨condition, l⟩ := x
    have hlive {role : Role} {c : Nat} (hc : d.program.child? n role = some c) :
        d.program.graph.hasNode c = true :=
      (h.sound.hasNode_of_mem_ties (mem_ties_of_child? hc)).2
    dsimp only
    generalize htaken : (if Store.empty.isTruthy l.toValue = true then
        (d.program.child? n .whenTrue, d.program.child? n .whenFalse)
      else (d.program.child? n .whenFalse, d.program.child? n .whenTrue)) = parts
    obtain ⟨taken, dropped⟩ := parts
    have htakenLive : ∀ branch, taken = some branch → d.program.graph.hasNode branch = true := by
      rintro branch rfl
      split at htaken <;> exact hlive (Prod.mk.inj htaken).1
    refine .bind (parallel_takeBranch n h htakenLive) fun h => ?_
    split
    · exact .pure h false
    · refine .bind (parallel_removeNode condition h) fun h => ?_
      cases dropped with
      | none => exact .bind (.report h ..) fun h => .pure h true
      | some c =>
        refine .bind (parallel_removeSubtree c h) fun h => ?_
        exact .bind (.report h ..) fun h => .pure h true

theorem parallel_foldBranches (ns : List Nat) : Parallel (foldBranches ns) := by
  induction ns with
  | nil => exact fun h => .pure h 0
  | cons n ns ih =>
    exact fun h => .bind (parallel_foldBranch n h) fun h => .bind (ih h) fun h => .pure h _

theorem parallel_branches : Parallel branches := by
  intro d d' h
  refine .look ?_
  rw [h.nodeIds, isBranch_congr h]
  exact parallel_foldBranches _ h

end Fold

/-! ### Dead code -/

namespace DeadCode

open Pass

variable {d d' : Draft}

theorem unreachableStatements_congr (h : Twin p q) :
    unreachableStatements q = unreachableStatements p := by
  funext block
  unfold unreachableStatements diverges
  rw [h.indexed, h.op]

theorem parallel_dropStatements (block : Nat) (ts : List (Role × Nat)) :
    Parallel (dropStatements block ts) := by
  induction ts with
  | nil => exact fun h => .pure h 0
  | cons t ts ih =>
    obtain ⟨role, n⟩ := t
    intro d d' h
    refine .bind ⟨rfl, h.disconnect block role⟩ fun h => ?_
    refine .bind (parallel_removeSubtree n h) fun h => ?_
    exact .bind (ih h) fun h => .pure h _

theorem parallel_pruneBlocks (blocks : List Nat) : Parallel (pruneBlocks blocks) := by
  induction blocks with
  | nil => exact fun h => .pure h 0
  | cons block blocks ih =>
    intro d d' h
    refine .look ?_
    rw [unreachableStatements_congr h]
    refine .bind (parallel_dropStatements block _ h) fun h => ?_
    exact .bind (ih h) fun h => .pure h _

theorem parallel_prune : Parallel prune := by
  intro d d' h
  refine .look ?_
  rw [h.nodeIds, Fold.isBlock_congr h]
  exact parallel_pruneBlocks _ h

theorem parallel_removeFunctions (dead : List FunctionId) : Parallel (removeFunctions dead) := by
  induction dead with
  | nil => exact fun h => .pure h ()
  | cons f dead ih =>
    intro d d' h
    refine .bind (.report h ..) fun {e e'} h => ?_
    exact .bind (parallel_modify (fun p => (p.removeFunction f).2) (fun h => h.removeFunction f) h)
      fun h => ih h

theorem orphans_congr (h : Twin p q) : orphans q = orphans p := by
  unfold orphans bodyNodes
  rw [h.functionDefs, h.subtree, h.nodeIds]

theorem parallel_removeOrphans : Parallel
    (modify fun r => { r with program := r.program.removeNodes (orphans r.program) }) :=
  parallel_modify (fun p => p.removeNodes (orphans p)) fun {p q} h => by
    rw [orphans_congr h]
    exact h.removeNodes _

theorem parallel_eliminate : Parallel eliminate := by
  intro d d' h
  refine .look ?_
  rw [h.liveFunctions, h.functionDefs, h.nodeCount]
  refine .bind (parallel_removeFunctions _ h) fun {e e'} h => ?_
  refine .bind (parallel_removeOrphans h) fun h => .look ?_
  rw [h.nodeCount]
  exact .pure h _

end DeadCode

/-! ### All passes -/

/-- The optimized programs of twins are twins. -/
theorem Twin.optimize (h : Twin p q) : Twin p.optimize.2.1 q.optimize.2.1 := by
  have hagain (again : Nat) : Pass.Parallel (if 0 < again then Fold.constants else pure 0) := by
    split
    · exact Fold.parallel_constants
    · exact fun h => .pure h 0
  have hrest : Pass.Parallel (DeadCode.prune >>= fun _ => DeadCode.eliminate) := fun h =>
    .bind (DeadCode.parallel_prune h) fun h => DeadCode.parallel_eliminate h
  rw [program_optimize_eq, program_optimize_eq]
  refine Pass.Concur.twin (.bind (Fold.parallel_constants h) fun h => ?_)
  exact .bind (Fold.parallel_branches h) fun h => .bind (hagain _ h) fun h => hrest h

end GraphLang
