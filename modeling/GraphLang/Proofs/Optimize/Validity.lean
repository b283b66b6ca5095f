import GraphLang.Proofs.Optimize.Meaning
import GraphLang.Proofs.Program.WellFormed

/-!
# Regular programs

A program of the shape that building gives passes all checks exactly if it is regular: it is
treelike, its nodes have the children that they take, and no loop is left outside of loops. This is
what single changes of a program keep, up to the children of nodes that are still to be dealt with.
-/

namespace GraphLang

namespace Program

variable {p q : Program} {n : Nat} {rough : List Nat}

/-- The program is regular, up to the children of some nodes. -/
structure RegularBut (p : Program) (rough : List Nat) : Prop where
  /-- The bodies are trees. -/
  treelike : p.Treelike
  /-- The nodes have the children that they take. -/
  shaped : ∀ {m o}, m ∉ rough → p.op? m = some o → p.Shaped m o
  /-- No loop is left outside of loops. -/
  loops : ∀ {m o}, p.Inside m false → p.op? m = some o → loopKeyword? o = none

/-- The program is regular. -/
abbrev Regular (p : Program) : Prop := p.RegularBut []

theorem Regular.but (h : p.Regular) (rough : List Nat) : p.RegularBut rough :=
  ⟨h.treelike, fun _ => h.shaped List.not_mem_nil, h.loops⟩

/-! ### Regular programs are the valid ones -/

theorem Treelike.acyclic (h : p.Treelike) : p.graph.Acyclic := by
  obtain ⟨rank, hrank⟩ := h.ranked
  have hlt : ∀ {n m}, Relation.TransGen p.graph.Leads n m → rank n < rank m := by
    intro n m hway
    induction hway with
    | single hstep =>
      obtain ⟨e, edge, hedge, rfl, rfl⟩ := hstep
      exact hrank e edge hedge
    | tail _ hstep ih =>
      obtain ⟨e, edge, hedge, rfl, rfl⟩ := hstep
      exact ih.trans (hrank e edge hedge)
  exact fun n hway => Nat.lt_irrefl _ (hlt hway)

theorem Regular.wellFormed (h : p.Regular) : p.WellFormed where
  body d hd := by
    obtain ⟨⟨f, d⟩, hmem, rfl⟩ := List.mem_map.1 hd
    obtain ⟨root, a, hroot, ha, -⟩ := h.treelike.rooted hmem
    exact ⟨root, hroot, SlotGraph.hasNode_iff.2 ⟨a, ha⟩⟩
  registered _ _ hop := h.treelike.registered hop
  owner _ _ _ _ hedge ha hb := h.treelike.owner hedge ha hb
  parent := h.treelike.single
  shaped _ _ hop := h.shaped List.not_mem_nil hop
  acyclic := h.treelike.acyclic
  loops d hd root hroot n hbelow hop := by
    obtain ⟨⟨f, d⟩, hmem, rfl⟩ := List.mem_map.1 hd
    obtain ⟨inLoop, hway, -⟩ := exists_nests h.treelike.sound hbelow false
    cases inLoop with
    | true => exact inLoop_of_nests h.treelike.sound hway
    | false =>
      have hinside : p.Inside n false :=
        ⟨f, d, root, FunctionTable.get?_of_mem h.treelike.distinct hmem, hroot, hway⟩
      obtain hop | hop := hop <;> cases h.loops hinside hop

theorem Treelike.built (h : p.Treelike) : p.Built where
  sound := h.sound
  distinct := h.distinct
  keys _ hx := h.keys hx
  main := Option.isSome_iff_exists.2 h.main
  roots := by
    rintro ⟨f, d⟩ hd root hroot
    obtain ⟨root', a, hroot', ha, howner⟩ := h.rooted hd
    obtain rfl : root = root' := Option.some.inj (hroot.symm.trans hroot')
    refine ⟨by rw [ha, Option.map_some, howner], ?_⟩
    rw [parents, List.map_eq_nil_iff, List.eq_nil_iff_forall_not_mem]
    rintro ⟨e, edge⟩ hmem
    obtain ⟨hedge, htarget⟩ := h.sound.mem_incoming_iff.1 hmem
    exact h.loose ⟨f, d, hd, hroot⟩ hedge htarget

/-- A program is regular exactly if it passes all checks and has the shape that building gives. -/
theorem regular_iff : p.Regular ↔ p.validate = .ok [] ∧ p.Built := by
  constructor
  · intro h
    exact ⟨(validate_iff_wellFormed h.treelike.sound).2 h.wellFormed, h.treelike.built⟩
  · rintro ⟨hvalid, hbuilt⟩
    exact ⟨hbuilt.treelike hvalid,
      fun _ hop => ((validate_iff_wellFormed hbuilt.sound).1 hvalid).shaped _ _ hop,
      (checked_of_validate hbuilt.sound hvalid).loops⟩

/-! ### The children of a node -/

theorem fills_iff (hsound : p.graph.Sound) {role : Role} :
    p.Fills n role ↔ ∃ c, (role, c) ∈ p.graph.ties n := by
  simp only [Fills, Joins, hsound.mem_ties]

theorem RolesOnce.distinct (h : p.RolesOnce) (e e' : Nat) (edge edge' : Edge Role)
    (hedge : p.graph.edge? e = some edge) (hedge' : p.graph.edge? e' = some edge')
    (hsource : edge.source = n) (hsource' : edge'.source = n)
    (hrole : edge.weight = edge'.weight) : e = e' :=
  (h e e' edge edge' hedge hedge' (hsource'.trans hsource.symm) hrole.symm).symm

/-- What an operation takes depends on the roles of the children only. -/
theorem Shaped.congr {o : Op} (h : p.Shaped n o) (hroles : q.RolesOnce)
    (hfills : ∀ role, q.Fills n role ↔ p.Fills n role) : q.Shaped n o where
  distinct := hroles.distinct
  accepted role hrole := h.accepted role ((hfills role).1 hrole)
  required role hrole := (hfills role).2 (h.required role hrole)
  guarded name ho := (h.guarded name ho).imp (hfills _).2 (hfills _).2
  positions family hfamily := by
    obtain ⟨k, hk, hcount⟩ := h.positions family hfamily
    exact ⟨k, fun i => (hfills _).trans (hk i), hcount⟩
  specs := h.specs

/-- A literal takes no children. -/
theorem shaped_literal_iff (hroles : p.RolesOnce) {l : Literal} :
    p.Shaped n (.literal l) ↔ ∀ role, ¬p.Fills n role := by
  constructor
  · intro h role hrole
    cases h.accepted role hrole
  · intro h
    refine ⟨hroles.distinct, fun role hrole => absurd hrole (h role), ?_, ?_, ?_, ?_⟩
    · rintro role ⟨⟩
    · rintro name ⟨⟩
    · rintro family ⟨⟩
    · rintro spec ⟨⟩

/-! ### Outside of loops -/

/-- What is outside of loops in one program is outside of loops in another one if all roots are, and
with each node the children that are no bodies of loops. -/
theorem Inside.transfer (h : q.Inside n false)
    (hroot : ∀ {f d root}, q.function? f = some d → d.body = some root → p.Inside root false)
    (hchild : ∀ {a c o role}, q.op? a = some o → (role, c) ∈ q.graph.ties a →
      (o.isLoop && role == .body) = false → p.Inside a false → p.Inside c false) :
    p.Inside n false := by
  obtain ⟨f, d, root, hd, hbody, hway⟩ := h
  have hall : ∀ {x : Nat × Bool}, Relation.ReflTransGen q.Nests (root, false) x → x.2 = false →
      p.Inside x.1 false := by
    intro x hway
    induction hway with
    | refl => exact fun _ => hroot hd hbody
    | tail _ hstep ih =>
      intro hout
      obtain ⟨o, role, ho, hrole, hflag⟩ := hstep
      rw [hflag, Bool.or_eq_false_iff] at hout
      exact hchild ho hrole hout.2 (ih hout.1)
  exact hall hway rfl

end Program

/-! ### Optimizing keeps programs valid

A pass takes a regular program to a regular one. While a node becomes a literal, or a block loses
statements, the children of this node are still to be dealt with; once they are gone, the program is
regular again. -/

variable {p q s : Program} {n : Nat} {rough : List Nat}

namespace Program

/-! ### Single changes -/

/-- The children of one of the nodes are dealt with. -/
theorem RegularBut.settle (h : p.RegularBut (n :: rough))
    (hshaped : ∀ o, p.op? n = some o → p.Shaped n o) : p.RegularBut rough where
  treelike := h.treelike
  shaped {m o} hm ho := by
    by_cases hn : m = n
    · subst hn
      exact hshaped o ho
    · exact h.shaped (List.not_mem_cons_of_ne_of_not_mem hn hm) ho
  loops := h.loops

/-- With fewer nodes and edges, the nodes that keep their children are as before. -/
theorem RegularBut.sub (h : p.RegularBut rough) (hq : q.Treelike)
    (hfunctions : q.functions = p.functions)
    (hops : ∀ {m o}, q.op? m = some o → p.op? m = some o)
    (hedges : ∀ {e edge}, q.graph.edge? e = some edge → p.graph.edge? e = some edge)
    (hfills : ∀ {m o role}, m ∉ rough → q.op? m = some o → p.Fills m role → q.Fills m role) :
    q.RegularBut rough where
  treelike := hq
  shaped {m o} hm ho := by
    refine (h.shaped hm (hops ho)).congr hq.roles fun role => ⟨?_, hfills hm ho⟩
    rintro ⟨c, e, hedge⟩
    exact ⟨c, e, hedges hedge⟩
  loops hm ho := by
    refine h.loops (hm.transfer (fun hd hbody => ?_) fun ha hc hout hinside => ?_) (hops ho)
    · rw [function?, hfunctions] at hd
      exact ⟨_, _, _, hd, hbody, .refl⟩
    · obtain ⟨e, hedge⟩ := hq.sound.mem_ties.1 hc
      have hchild := hinside.child (hops ha) (h.treelike.sound.mem_ties.2 ⟨e, hedges hedge⟩)
      rwa [hout] at hchild

/-- Nodes that nobody looks at may go. -/
theorem RegularBut.removeNodes {gone : List Nat} (h : p.RegularBut rough)
    (hgone : ∀ c ∈ gone, p.Idle gone c) : (p.removeNodes gone).RegularBut rough := by
  have hleft : ∀ {m o}, (p.removeNodes gone).op? m = some o → m ∉ gone := fun ho =>
    (hasNode_removeNodes.1 (hasNode_of_op? ho)).2
  have hops : ∀ {m o}, (p.removeNodes gone).op? m = some o → p.op? m = some o := by
    intro m o ho
    rwa [op?_removeNodes (hleft ho)] at ho
  refine h.sub (faithful_removeNodes hgone h.treelike).1 rfl hops
    (fun hedge => ((edge?_removeNodes h.treelike.sound gone).1 hedge).1) ?_
  rintro m o role hm ho ⟨c, e, hedge⟩
  refine ⟨c, e, (edge?_removeNodes h.treelike.sound gone).2 ⟨hedge, hleft ho, fun hc => ?_⟩⟩
  obtain hsource | ⟨l, hl⟩ := (hgone c hc).2 hedge rfl
  · exact hleft ho hsource
  · exact (shaped_literal_iff h.treelike.roles).1 (h.shaped hm hl) role ⟨c, e, hedge⟩

theorem RegularBut.removeIdle {gone : List Nat} (h : p.RegularBut rough)
    (hgone : ∀ c ∈ gone, p.Idle [] c) : (p.removeNodes gone).RegularBut rough :=
  h.removeNodes fun c hc => (hgone c hc).among gone

theorem RegularBut.removeSubtree {c : Nat} (h : p.RegularBut rough) (hidle : p.Idle [] c) :
    (p.removeNodes (p.subtree c)).RegularBut rough :=
  h.removeNodes (h.treelike.idle_subtree hidle)

/-- A node that is settled may become its literal. -/
theorem Regular.replaceOp {l : Literal} {o : Op} (h : p.Regular) (hl : p.Constant n l)
    (hreplace : p.replaceOp n (.literal l) = .ok (o, q)) : q.RegularBut [n] := by
  obtain ⟨hfaithful, hself, hothers, hties, hfunctions⟩ := faithful_replaceOp hl hreplace
  have hq := (hfaithful h.treelike).1
  have hloop : ∃ o', p.op? n = some o' ∧ o'.isLoop = false := by
    cases hl with
    | literal ho => exact ⟨_, ho, rfl⟩
    | branch ho => exact ⟨_, ho, rfl⟩
    | @operator o' ls _ ho _ hresult =>
      refine ⟨o', ho, ?_⟩
      cases o' <;> first | rfl | cases hresult
  obtain ⟨o', ho', hloop⟩ := hloop
  refine ⟨hq, fun {m o} hm ho => ?_, fun {m o} hm ho => ?_⟩
  · rw [List.mem_singleton] at hm
    rw [hothers m hm] at ho
    refine (h.shaped List.not_mem_nil ho).congr hq.roles fun role => ?_
    rw [fills_iff hq.sound, fills_iff h.treelike.sound, hties]
  · by_cases hn : m = n
    · subst hn
      rw [hself] at ho
      cases ho
      rfl
    · refine h.loops (hm.transfer (fun hd hbody => ?_) fun {a c o role} ha hc hout hinside => ?_)
        (hothers m hn ▸ ho)
      · rw [function?, hfunctions] at hd
        exact ⟨_, _, _, hd, hbody, .refl⟩
      · rw [hties] at hc
        by_cases han : a = n
        · subst han
          have hchild := hinside.child ho' hc
          rwa [hloop] at hchild
        · rw [hothers a han] at ha
          have hchild := hinside.child ha hc
          rwa [hout] at hchild

/-- An edge from a node whose children are still to be dealt with may go. -/
theorem RegularBut.removeEdge (h : p.RegularBut rough) {e : Nat} {edge : Edge Role}
    (hedge : p.graph.edge? e = some edge) (hsource : edge.source ∈ rough)
    (hq : Treelike { p with graph := p.graph.removeEdge e }) :
    RegularBut { p with graph := p.graph.removeEdge e } rough := by
  refine h.sub hq rfl (fun {m o} ho => ?_)
    (fun hedge' => (SlotGraph.of_edge?_removeEdge hedge').2) ?_
  · rwa [op?_removeEdge] at ho
  · rintro m o role hm - ⟨c, e', hedge'⟩
    refine ⟨c, e', (SlotGraph.edge?_removeEdge ..).trans ?_⟩
    rw [if_neg, hedge']
    rintro rfl
    rw [hedge] at hedge'
    cases hedge'
    exact hm hsource

end Program

open Program

/-- A branch that is settled may go. -/
theorem Redirected.regular {branch e : Nat} {role : Role} (h : Redirected p s n branch)
    (hp : p.Regular) (hedge : p.graph.edge? e = some ⟨n, branch, role⟩)
    (hskips : p.Skips n branch) : s.Regular := by
  have htree := h.treelike hp.treelike hedge
  have hops : ∀ {m o}, s.op? m = some o → m ≠ n ∧ p.op? m = some o := by
    intro m o ho
    have hm := (h.hasNode_iff.1 (hasNode_of_op? ho)).1
    exact ⟨hm, h.op?_of_ne hm ▸ ho⟩
  -- The branch is no loop, so what takes its place stands outside of loops if the branch does.
  have hinside : ∀ {m}, p.Inside m false → p.Inside (redirect n branch m) false := by
    intro m hm
    by_cases hn : m = n
    · subst hn
      obtain ⟨l, ho, -⟩ := hskips
      rw [redirect_self]
      exact hm.child ho (hp.treelike.sound.mem_ties.2 ⟨e, hedge⟩)
    · rwa [redirect_of_ne hn]
  refine ⟨htree, fun {m o} _ ho => ?_, fun {m o} hm ho => ?_⟩
  · obtain ⟨hm, ho⟩ := hops ho
    refine (hp.shaped List.not_mem_nil ho).congr htree.roles fun role => ?_
    rw [fills_iff h.sound, fills_iff hp.treelike.sound]
    constructor
    · rintro ⟨c, hc⟩
      obtain ⟨⟨role', c'⟩, hc', heq⟩ := List.mem_map.1 ((h.ties m hm).subset hc)
      cases heq
      exact ⟨c', hc'⟩
    · rintro ⟨c, hc⟩
      exact ⟨_, (h.ties m hm).symm.subset (List.mem_map.2 ⟨_, hc, rfl⟩)⟩
  · refine hp.loops (hm.transfer (fun {f d root} hd hbody => ?_) ?_) (hops ho).2
    · obtain ⟨d', hd', rfl⟩ := Option.map_eq_some_iff.1 ((h.function? f).symm.trans hd)
      obtain ⟨root', hroot', rfl⟩ := Option.map_eq_some_iff.1 hbody
      exact hinside ⟨f, d', root', hd', hroot', .refl⟩
    · intro a c o role ha hc hout hin
      obtain ⟨hne, ha⟩ := hops ha
      obtain ⟨⟨role', c'⟩, hc', heq⟩ := List.mem_map.1 ((h.ties a hne).subset hc)
      cases heq
      have hchild := hin.child ha hc'
      rw [hout] at hchild
      exact hinside hchild

/-! ### Passes -/

/-- A pass that takes regular programs to regular ones. -/
def Pass.Regular {α : Type} (pass : Pass α) : Prop :=
  ∀ d : Draft, d.program.Regular → (pass.run d).2.program.Regular

theorem Pass.Regular.pure {α : Type} (a : α) : Regular (Pure.pure a : Pass α) := fun _ h => h

namespace Fold

/-! ### Folding -/

/-- A node that became a literal is settled once it has no children. -/
theorem settle_literal {l : Literal} (h : q.RegularBut [n])
    (hop : q.op? n = some (.literal l) ∨ q.op? n = none) (hnone : ∀ role, ¬q.Fills n role) :
    q.Regular := by
  refine h.settle fun o ho => ?_
  obtain hliteral | hvacant := hop
  · rw [hliteral] at ho
    cases ho
    exact (shaped_literal_iff h.treelike.roles).2 hnone
  · rw [hvacant] at ho
    cases ho

/-- The children of a node that became a literal are those that its operation took. -/
theorem child_of_replaceOp {o o' : Op} {l : Literal} {e c : Nat} {role : Role} (h : p.Regular)
    (hl : p.Constant n l) (hreplace : p.replaceOp n (.literal l) = .ok (o, q))
    (ho : p.op? n = some o') (hedge : q.graph.edge? e = some ⟨n, c, role⟩) :
    p.child? n role = some c ∧ o'.shape.accepts role = true := by
  obtain ⟨hfaithful, -, -, hties, -⟩ := faithful_replaceOp hl hreplace
  have htie := (hfaithful h.treelike).1.sound.mem_ties.2 ⟨e, hedge⟩
  rw [hties] at htie
  exact ⟨(h.treelike.differ n).child?_iff.2 htie, (h.shaped List.not_mem_nil ho).accepted role
    ((fills_iff h.treelike.sound).2 ⟨c, htie⟩)⟩

theorem regular_folded {l : Literal} {operands : List Nat} {o : Op} (h : p.Regular)
    (hfolded : folded? p n = some (l, operands))
    (hreplace : p.replaceOp n (.literal l) = .ok (o, q)) : (q.removeNodes operands).Regular := by
  obtain ⟨hl, hoperands, o', ho', htaken⟩ := constant_of_folded? hfolded
  have hq := h.replaceOp hl hreplace
  have hleft : (q.removeNodes operands).RegularBut [n] := by
    refine hq.removeIdle fun c hc => ?_
    obtain ⟨role, hchild⟩ := hoperands c hc
    exact h.treelike.idle_of_replaceOp hl hreplace hchild
  refine settle_literal hleft
    (op?_removeNodes_or (Or.inl (faithful_replaceOp hl hreplace).2.1) operands) ?_
  rintro role ⟨c, e, hedge⟩
  obtain ⟨hedge, -, hc⟩ := (edge?_removeNodes hq.treelike.sound operands).1 hedge
  obtain ⟨hchild, haccepted⟩ := child_of_replaceOp h hl hreplace ho' hedge
  obtain ⟨c', hc', hchild'⟩ := htaken role haccepted
  rw [Option.some.inj (hchild.symm.trans hchild')] at hc
  exact hc hc'

theorem regular_constants : Pass.Regular constants := fun _ h =>
  constants_induction (P := fun _ => Program.Regular) regular_folded h

/-! ### Branches -/

theorem regular_swept {condition : Nat} {dropped : Option Nat} (h : s.RegularBut rough)
    (hcondition : s.Idle [] condition) (hdropped : ∀ c, dropped = some c → s.Idle [] c) :
    (swept s condition dropped).RegularBut rough := by
  have hfirst : (s.removeNodes [condition]).RegularBut rough := by
    refine h.removeIdle fun c hc => ?_
    rw [List.mem_singleton] at hc
    exact hc ▸ hcondition
  cases dropped with
  | none => exact hfirst
  | some c =>
    exact hfirst.removeSubtree ((hdropped c rfl).removeNodes h.treelike.sound [condition])

theorem Outcome.regular (h : Outcome p n q) (hp : p.Regular) : q.Regular := by
  cases h with
  | taken hedge hskips hredirected _ hcondition hdropped =>
    exact regular_swept (hredirected.regular hp hedge hskips) hcondition hdropped
  | @settled q e c condition hop hconstant hreplace hcondition hchild hnothing hedge =>
    obtain ⟨-, hself, -⟩ := faithful_replaceOp hconstant hreplace
    have hq := hp.replaceOp hconstant hreplace
    let q₁ : Program := { q with graph := q.graph.removeEdge e }
    let q₂ : Program := q₁.removeNodes (q₁.subtree c)
    have hself₁ : q₁.op? n = some (.literal .nil) := (q.op?_removeEdge e n).trans hself
    obtain ⟨htree₁, -⟩ := hq.treelike.removeEdge hedge (.literal (.literal hself) hself₁)
    have hq₁ : q₁.RegularBut [n] := hq.removeEdge hedge List.mem_cons_self htree₁
    have hidle {role : Role} {c' : Nat} (hc' : p.child? n role = some c') : q₁.Idle [] c' :=
      (hp.treelike.idle_of_replaceOp hconstant hreplace hc').removeEdge e
    have hq₂ : q₂.RegularBut [n] := hq₁.removeSubtree (hidle hchild)
    have hq₃ : (swept q₂ condition (some c)).RegularBut [n] := by
      refine regular_swept hq₂ ((hidle hcondition).removeNodes htree₁.sound _) ?_
      rintro c' ⟨⟩
      exact (hidle hchild).removeNodes htree₁.sound _
    have hop₃ : (swept q₂ condition (some c)).op? n = some (.literal .nil) ∨
        (swept q₂ condition (some c)).op? n = none :=
      op?_removeNodes_or (op?_removeNodes_or (op?_removeNodes_or (Or.inl hself₁) _) _) _
    refine settle_literal hq₃ hop₃ ?_
    rintro role ⟨c', e', hedge₃⟩
    obtain ⟨hedge₃, -⟩ := (edge?_removeNodes (sound_removeNodes hq₂.treelike.sound _) _).1 hedge₃
    obtain ⟨hedge₂, -, hne⟩ := (edge?_removeNodes hq₂.treelike.sound _).1 hedge₃
    obtain ⟨hedge₁, -⟩ := (edge?_removeNodes htree₁.sound _).1 hedge₂
    have htarget : c' ≠ c := hq.treelike.target_ne_of_removeEdge hedge hedge₁
    obtain ⟨-, hedge₀⟩ := SlotGraph.of_edge?_removeEdge hedge₁
    obtain ⟨hchild', haccepted⟩ := child_of_replaceOp hp hconstant hreplace hop hedge₀
    -- A branch takes three children, of which this one had two. Both are gone.
    have hrole : role = .condition ∨ role = .whenTrue ∨ role = .whenFalse := by
      simpa [Shape.accepts, Op.shape, or_assoc] using haccepted
    obtain rfl | rfl | rfl := hrole
    · rw [Option.some.inj (hcondition.symm.trans hchild')] at hne
      exact hne List.mem_cons_self
    · exact htarget (Option.some.inj (hchild'.symm.trans hchild))
    · rw [hnothing] at hchild'
      cases hchild'

theorem regular_branches : Pass.Regular branches := fun _ h =>
  branches_induction (P := fun _ _ => Program.Regular) (fun h => h.treelike) (fun h _ => h)
    (fun h _ houtcome => houtcome.regular h) h

end Fold

/-! ### Pruning -/

namespace Program

theorem mem_indexed_iff (hsound : p.graph.Sound) {i : Nat} :
    Role.statement i ∈ (p.indexed n (.statement 0)).map (·.1) ↔ p.Fills n (.statement i) := by
  rw [fills_iff hsound, List.mem_map]
  constructor
  · rintro ⟨⟨_, c⟩, hc, rfl⟩
    exact ⟨c, mem_ties_of_indexed hc⟩
  · rintro ⟨c, hc⟩
    exact ⟨_, List.mem_filter.2 ⟨mem_children.2 hc, by simp [Role.sameFamily, Role.rank]⟩, rfl⟩

/-- A block takes statements only, and their positions, in their order, are the numbers below some
number. -/
theorem Treelike.shaped_block_iff (h : p.Treelike) : p.Shaped n .block ↔
    (∀ role, p.Fills n role → Op.block.shape.accepts role = true) ∧
      ∃ k, (p.indexed n (.statement 0)).map (·.1) = (List.range k).map .statement := by
  constructor
  · intro hshaped
    obtain ⟨k, hk, -⟩ := hshaped.positions (.statement 0) rfl
    have hsorted : ((p.indexed n (.statement 0)).map (·.1)).Pairwise fun a b => a.le b = true := by
      rw [List.pairwise_map]
      exact (p.pairwise_children n).filter _
    have hrange : ((List.range k).map Role.statement).Pairwise fun a b => a.le b = true := by
      rw [List.pairwise_map]
      refine List.pairwise_lt_range.imp fun hlt => ?_
      simp [Role.le, Role.rank, Role.position?, Nat.le_of_lt hlt]
    have hperm : ((p.indexed n (.statement 0)).map (·.1)).Perm ((List.range k).map .statement) := by
      refine (List.perm_ext_iff_of_nodup (h.nodup_indexed n _)
        (List.nodup_range.map fun _ _ hsame => Role.statement.inj hsame)).2 fun role => ?_
      constructor
      · intro hrole
        obtain ⟨⟨role, c⟩, ht, rfl⟩ := List.mem_map.1 hrole
        have hfamily := (List.mem_filter.1 ht).2
        obtain ⟨i, rfl⟩ : ∃ i, role = .statement i := by
          cases role <;> simp [Role.sameFamily, Role.rank] at hfamily
          exact ⟨_, rfl⟩
        have hi := (hk i).1 ((mem_indexed_iff h.sound).1 hrole)
        exact List.mem_map.2 ⟨i, List.mem_range.2 hi, rfl⟩
      · intro hrole
        obtain ⟨i, hi, rfl⟩ := List.mem_map.1 hrole
        exact (mem_indexed_iff h.sound).2 ((hk i).2 (List.mem_range.1 hi))
    exact ⟨hshaped.accepted, k,
      hperm.eq_of_pairwise (fun _ _ _ _ => Role.le_antisymm) hsorted hrange⟩
  · rintro ⟨haccepted, k, hk⟩
    refine ⟨h.roles.distinct, haccepted, ?_, ?_, ?_, ?_⟩
    · rintro role ⟨⟩
    · rintro name ⟨⟩
    · rintro family ⟨⟩
      refine ⟨k, fun i => ?_, by rintro count ⟨⟩⟩
      change p.Fills n (.statement i) ↔ i < k
      rw [← mem_indexed_iff h.sound, hk]
      simp
    · rintro spec ⟨⟩

end Program

namespace DeadCode

variable {d : Draft} {block : Nat} {rest : List (Role × Nat)}

/-- A block that loses statements from the end on keeps the ones before them. -/
theorem regular_dropStatements {kept : List (Role × Nat)} (h : d.program.RegularBut [block])
    (hstops : Stops d.program block rest)
    (hkept : d.program.indexed block (.statement 0) = kept ++ rest) :
    let q := ((dropStatements block rest).run d).2.program
    q.RegularBut [block] ∧ q.op? block = some .block ∧ q.indexed block (.statement 0) = kept ∧
      ∀ role, q.Fills block role → d.program.Fills block role := by
  induction rest generalizing d with
  | nil => exact ⟨h, hstops.op, hkept.trans (List.append_nil kept), fun _ => id⟩
  | cons x rest ih =>
    obtain ⟨role, n⟩ := x
    obtain ⟨e, hedge⟩ := hstops.edge h.treelike.sound
    obtain ⟨⟨htree, -⟩, hidle, -, hdrop⟩ := stops_removeEdge h.treelike hedge hstops
    let q₁ : Program := { d.program with graph := d.program.graph.removeEdge e }
    let q₂ : Program := q₁.removeNodes (q₁.subtree n)
    have hq₂ : q₂.RegularBut [block] :=
      (h.removeEdge hedge List.mem_cons_self htree).removeSubtree hidle
    have hties : q₂.graph.ties block = q₁.graph.ties block :=
      ties_removeNodes htree.sound (not_mem_subtree h.treelike hedge)
        (not_mem_subtree_of_ties h.treelike hedge)
    have hindexed : q₂.indexed block (.statement 0) = kept ++ rest := by
      rw [indexed, children_congr hties]
      exact hdrop kept hkept
    rw [run_dropStatements h.treelike hedge]
    obtain ⟨hq, hop, hq', hfills⟩ := ih (d := { d with program := q₂ }) hq₂
      (stops_drop h.treelike hedge hstops).2.1 hindexed
    refine ⟨hq, hop, hq', fun role hrole => ?_⟩
    obtain ⟨c, e', hedge'⟩ := hfills role hrole
    obtain ⟨hedge', -⟩ := (edge?_removeNodes htree.sound _).1 hedge'
    exact ⟨c, e', (SlotGraph.of_edge?_removeEdge hedge').2⟩

/-- A block without its statements that cannot run. -/
theorem regular_unreachable (hd : d.program.Regular)
    (hstops : Stops d.program block (unreachableStatements d.program block)) :
    Program.Regular ((dropStatements block
      (unreachableStatements d.program block)).run d).2.program := by
  obtain ⟨-, xs, t, hstatements, -⟩ := id hstops
  have hsplit : d.program.indexed block (.statement 0) =
      (xs ++ [t]) ++ unreachableStatements d.program block := by
    rw [hstatements]
    simp
  obtain ⟨hq, hblock, hindexed, hfills⟩ := regular_dropStatements (hd.but [block]) hstops hsplit
  refine hq.settle fun o ho => ?_
  rw [hblock] at ho
  cases ho
  obtain ⟨haccepted, k, hk⟩ :=
    hd.treelike.shaped_block_iff.1 (hd.shaped List.not_mem_nil hstops.op)
  refine hq.treelike.shaped_block_iff.2 ⟨fun role hrole => haccepted role (hfills role hrole), ?_⟩
  -- What is left is the first part of the statements, so their positions have no gap.
  rw [hsplit, List.map_append] at hk
  have htake := congrArg (List.take ((xs ++ [t]).map (·.1)).length) hk
  rw [List.take_left, ← List.map_take, List.take_range] at htake
  rw [hindexed]
  exact ⟨_, htake⟩

theorem regular_prune : Pass.Regular prune := fun _ h =>
  prune_induction (P := fun _ _ => Program.Regular) (fun h => h.treelike) (fun h _ => h)
    regular_unreachable h

/-! ### Removing dead code -/

namespace Reduced

variable (h : Reduced p q)

include h in
theorem node? {m : Nat} (hm : p.Live m) : q.node? m = p.node? m := by
  obtain ⟨gone, hgone, hgraph⟩ := h.graph
  rw [Program.node?, hgraph]
  exact (p.node?_removeNodes gone m).trans (if_neg fun hmem => hgone m hmem hm)

include h in
theorem op? {m : Nat} {o : Op} (ho : q.op? m = some o) : p.Live m ∧ p.op? m = some o := by
  have hm := h.live (hasNode_of_op? ho)
  rw [Program.op?, h.node? hm] at ho
  exact ⟨hm, ho⟩

include h in
theorem ties (hsound : p.graph.Sound) {m : Nat} (hm : p.Live m) :
    q.graph.ties m = p.graph.ties m := by
  obtain ⟨gone, hgone, hgraph⟩ := h.graph
  rw [hgraph]
  exact hm.ties_removeNodes hsound hgone

include h in
theorem sound (hsound : p.graph.Sound) : q.graph.Sound := by
  obtain ⟨gone, -, hgraph⟩ := h.graph
  exact hgraph ▸ sound_removeNodes hsound gone

include h in
theorem edge (hsound : p.graph.Sound) {e : Nat} {edge : Edge Role}
    (hedge : q.graph.edge? e = some edge) : p.graph.edge? e = some edge := by
  obtain ⟨gone, -, hgraph⟩ := h.graph
  rw [hgraph] at hedge
  exact ((edge?_removeNodes hsound gone).1 hedge).1

include h in
theorem mem_functions {f : FunctionId} {d : FunctionDef} (hd : (f, d) ∈ q.functions) :
    (f, d) ∈ p.functions ∧ f ∈ p.liveFunctions := by
  rw [h.functions] at hd
  exact ⟨(List.mem_filter.1 hd).1, (List.mem_filter.1 hd).2⟩

include h in
theorem function? {f : FunctionId} (hf : f ∈ p.liveFunctions) : q.function? f = p.function? f := by
  rw [Program.function?, h.functions]
  exact p.functions.get?_filter hf

include h in
/-- What is left of a treelike program is treelike. -/
theorem treelike (hp : p.Treelike) : q.Treelike := by
  have hedges : ∀ {e edge}, q.graph.edge? e = some edge → p.graph.edge? e = some edge :=
    fun he => h.edge hp.sound he
  have hnodes : ∀ {m a}, q.node? m = some a → p.node? m = some a := by
    intro m a ha
    exact (h.node? (h.live (SlotGraph.hasNode_iff.2 ⟨a, ha⟩))).symm.trans ha
  have hroots : ∀ {m}, q.IsRoot m → p.IsRoot m := by
    rintro m ⟨f, d, hd, hbody⟩
    exact ⟨f, d, (h.mem_functions hd).1, hbody⟩
  refine ⟨h.sound hp.sound, fun _ _ _ _ he he' => hp.single _ _ _ _ (hedges he) (hedges he'), ?_,
    fun _ _ _ _ he he' => hp.roles _ _ _ _ (hedges he) (hedges he'),
    fun he ha hb => hp.owner (hedges he) (hnodes ha) (hnodes hb),
    fun hd => hp.keys (h.mem_functions hd).1, ?_, fun {f d} hd => ?_,
    fun hm he => hp.loose (hroots hm) (hedges he), fun {m f} ho => ?_, fun {m} ho => ?_, ?_⟩
  · obtain ⟨rank, hrank⟩ := hp.ranked
    exact ⟨rank, fun e edge he => hrank e edge (hedges he)⟩
  · rw [h.functions]
    exact hp.distinct.sublist (List.Sublist.map _ List.filter_sublist)
  · obtain ⟨hd, hf⟩ := h.mem_functions hd
    obtain ⟨root, a, hbody, ha, howner⟩ := hp.rooted hd
    have hroot : p.Live root := ⟨f, d, root, hf, FunctionTable.get?_of_mem hp.distinct hd, hbody,
      root_mem_subtree (SlotGraph.hasNode_iff.2 ⟨a, ha⟩)⟩
    exact ⟨root, a, hbody, (h.node? hroot).trans ha, howner⟩
  · obtain ⟨hm, ho⟩ := h.op? ho
    rw [h.function? (hm.makes hp.housed ho)]
    exact hp.registered ho
  · obtain ⟨hm, ho⟩ := h.op? ho
    rw [h.ties hp.sound hm]
    exact hp.branch ho
  · rw [h.function? hp.housed.live_closed.1]
    exact hp.main

include h in
/-- What is left of a regular program is regular. -/
theorem regular (hp : p.Regular) : q.Regular := by
  have hq := h.treelike hp.treelike
  refine ⟨hq, fun {m o} _ ho => ?_, fun {m o} hm ho => ?_⟩
  · obtain ⟨hm, ho⟩ := h.op? ho
    refine (hp.shaped List.not_mem_nil ho).congr hq.roles fun role => ?_
    rw [fills_iff hq.sound, fills_iff hp.treelike.sound, h.ties hp.treelike.sound hm]
  · refine hp.loops (hm.transfer (fun {f d root} hd hbody => ?_)
      fun {a c o role} ha hc hout hin => ?_) (h.op? ho).2
    · obtain ⟨hd, -⟩ := h.mem_functions (FunctionTable.mem_of_get? hd)
      exact ⟨f, d, root, FunctionTable.get?_of_mem hp.treelike.distinct hd, hbody, .refl⟩
    · obtain ⟨ha', ha⟩ := h.op? ha
      rw [h.ties hp.treelike.sound ha'] at hc
      have hchild := hin.child ha hc
      rwa [hout] at hchild

end Reduced

theorem regular_eliminate : Pass.Regular eliminate := fun _ h =>
  (reduced_eliminate h.treelike.housed).regular h

end DeadCode

/-! ### All passes -/

/-- An optimized program passes all checks if the program does and has the shape that building
gives: in particular, the roots of its bodies are no children of nodes. It has that shape again. -/
theorem optimize_valid (hvalid : p.validate = .ok []) (hbuilt : p.Built) :
    p.optimize.2.1.validate = .ok [] ∧ p.optimize.2.1.Built := by
  obtain ⟨again, d, rfl, hoptimize⟩ := program_optimize p
  have hagain : Pass.Regular (if 0 < again then Fold.constants else pure 0) := by
    split
    · exact Fold.regular_constants
    · exact .pure 0
  have hregular := regular_iff.2 ⟨hvalid, hbuilt⟩
  rw [hoptimize]
  exact regular_iff.1 (DeadCode.regular_eliminate _ (DeadCode.regular_prune _ (hagain _
    (Fold.regular_branches _ (Fold.regular_constants ⟨p, #[]⟩ hregular)))))

/-- Every pass acts on this program, and it stays valid. -/
theorem foldable_stays_valid : Program.foldable.validate = .ok [] ∧ Program.foldable.Built ∧
    Program.foldable.optimize.2.1.validate = .ok [] := by
  have hvalid : Program.foldable.validate = .ok [] := by cbv
  exact ⟨hvalid, Program.built_foldable, (optimize_valid hvalid Program.built_foldable).1⟩

/-- A program that comes to `1 + 2` and then leaves with a function. The body of the function is the
first operand. -/
def Program.operandBody : Program :=
  let nodes : List Node := [⟨.literal (.int 1), 0, none⟩, ⟨.literal (.int 2), 0, none⟩,
    ⟨.binary .add, 0, none⟩, ⟨.function 1, 0, none⟩, ⟨.leave, 0, none⟩, ⟨.block, 0, none⟩]
  let edges : List (Nat × Nat × Role) := [(2, 0, .left), (2, 1, .right), (4, 3, .value),
    (5, 2, .statement 0), (5, 4, .statement 1)]
  ⟨"operand", edges.foldl (fun g e => (g.addEdge e.1 e.2.1 e.2.2).2)
      (nodes.foldl (fun g a => (g.addNode a).2) .empty),
    [(0, ⟨0, mainName, [], some 5, none⟩), (1, ⟨1, "f", [], some 0, some 0⟩)], 2⟩

/-- A root of a body that is a child of a node may be taken for an operand of this node alone. With
the operation folded, the function that is still made has no body. -/
theorem operand_body_lost : Program.operandBody.graph.Sound ∧ Program.operandBody.validate = .ok [] ∧
    Program.operandBody.optimize.2.1.validate = .ok [.unknownNode 0] := by
  refine ⟨(SlotGraph.sound_empty.addNodes _).addEdges (by decide +kernel), by cbv, ?_⟩
  unfold Program.optimize Optimize.passes DeadCode.eliminate
  simp only [DeadCode.orphans_eq]
  cbv

end GraphLang
