import GraphLang.Proofs.Optimize.Redirection

/-!
# Folding branches keeps the meaning

A branch on a literal is replaced by the part that would run, and the literal and the other part
go. Where there is nothing to run, the branch becomes the literal that it comes to.
-/

namespace GraphLang

namespace SlotGraph

variable {α β : Type} {g : SlotGraph α β} {n : Nat}

theorem Sound.nodup_incoming_pairs (h : g.Sound) (n : Nat) : (g.incoming n).Nodup := by
  refine (h.nodup_incoming n).filterMap fun e e' x hx hx' => ?_
  obtain ⟨edge, -, rfl⟩ := Option.map_eq_some_iff.1 hx
  obtain ⟨edge', -, heq⟩ := Option.map_eq_some_iff.1 hx'
  exact (congrArg Prod.fst heq).symm

/-- A node with at most one parent. -/
theorem SingleParents.incoming_cases (h : g.SingleParents) (hsound : g.Sound) (n : Nat) :
    (g.incoming n = [] ∧ ∀ e edge, g.edge? e = some edge → edge.target ≠ n) ∨
      ∃ e a b, g.incoming n = [(e, ⟨a, n, b⟩)] ∧ g.edge? e = some ⟨a, n, b⟩ := by
  have hnodup := hsound.nodup_incoming_pairs n
  cases hin : g.incoming n with
  | nil =>
    refine Or.inl ⟨rfl, fun e edge hedge htarget => ?_⟩
    have hmem := hsound.mem_incoming_iff.2 ⟨hedge, htarget⟩
    rw [hin] at hmem
    cases hmem
  | cons x rest =>
    obtain ⟨e, a, m, b⟩ := x
    have hx : (e, (⟨a, m, b⟩ : Edge β)) ∈ g.incoming n := hin ▸ List.mem_cons_self
    obtain ⟨hedge, rfl⟩ := hsound.mem_incoming_iff.1 hx
    dsimp only at hin hnodup ⊢
    refine Or.inr ⟨e, a, b, ?_, hedge⟩
    cases rest with
    | nil => rfl
    | cons y rest =>
      have hy : y ∈ g.incoming m := hin ▸ List.mem_cons_of_mem _ List.mem_cons_self
      obtain ⟨hedge', htarget⟩ := hsound.mem_incoming_iff.1 hy
      obtain ⟨he, heq⟩ := h.edge_eq hedge hedge' htarget
      have hyx : y = (e, ⟨a, m, b⟩) := Prod.ext he heq
      rw [hin, hyx] at hnodup
      simp at hnodup

end SlotGraph

theorem FunctionTable.get?_of_mem {t : FunctionTable} (hdistinct : (t.map (·.1)).Nodup)
    {f : FunctionId} {d : FunctionDef} (h : (f, d) ∈ t) : t.get? f = some d := by
  induction t with
  | nil => cases h
  | cons x t ih =>
    obtain ⟨f', d'⟩ := x
    obtain ⟨hnew, hrest⟩ := List.nodup_cons.1 hdistinct
    rw [get?]
    rcases List.mem_cons.1 h with heq | hmem
    · cases heq
      rw [if_pos (beq_self_eq_true f)]
    · have hne : f' ≠ f := by
        rintro rfl
        exact hnew (List.mem_map.2 ⟨_, hmem, rfl⟩)
      rw [if_neg (by simpa using hne)]
      exact ih hrest hmem

namespace Program

variable {p : Program} {n branch a : Nat} {role : Role}

/-- The edge with a role is the one edge with that role. -/
theorem Treelike.roleEdge?_eq (h : p.Treelike) {e c : Nat}
    (hedge : p.graph.edge? e = some ⟨a, c, role⟩) :
    p.roleEdge? a role = some (e, ⟨a, c, role⟩) := by
  unfold roleEdge?
  have hmem : (e, (⟨a, c, role⟩ : Edge Role)) ∈ p.graph.outgoing a :=
    h.sound.mem_outgoing_iff.2 ⟨hedge, rfl⟩
  cases hfind : (p.graph.outgoing a).find? fun x => x.2.weight == role with
  | none => exact absurd (List.find?_eq_none.1 hfind _ hmem) (by simp)
  | some x =>
    obtain ⟨e', edge'⟩ := x
    have hrole := List.find?_some hfind
    rw [beq_iff_eq] at hrole
    obtain ⟨hedge', hsource⟩ := h.sound.mem_outgoing_iff.1 (List.mem_of_find?_eq_some hfind)
    have he := h.roles _ _ _ _ hedge hedge' hsource hrole
    subst he
    rw [hedge] at hedge'
    rw [Option.some.inj hedge']

theorem Treelike.disconnect_eq (h : p.Treelike) {e c : Nat}
    (hedge : p.graph.edge? e = some ⟨a, c, role⟩) :
    p.disconnect a role = (some c, { p with graph := p.graph.removeEdge e }) := by
  rw [disconnect, h.roleEdge?_eq hedge]

/-- In a treelike program no literal child is passed over, since it has no other parent. -/
theorem Treelike.literalChild?_iff (h : p.Treelike) {c : Nat} {l : Literal} :
    Fold.literalChild? p n role = some (c, l) ↔
      p.child? n role = some c ∧ p.op? c = some (.literal l) := by
  refine ⟨Program.literalChild?_iff, fun ⟨hchild, hl⟩ => ?_⟩
  obtain ⟨e, hedge⟩ := h.sound.mem_ties.1 (mem_ties_of_child? hchild)
  have hparents : (p.parents c).length = 1 := by
    obtain ⟨-, hno⟩ | ⟨_, _, _, hone, -⟩ := h.single.incoming_cases h.sound c
    · exact absurd rfl (hno e _ hedge)
    · rw [parents, hone]
      rfl
  unfold Fold.literalChild?
  simp [hchild, hparents, hl]

/-! ### The node without a parent -/

/-- Without an edge to the node, no ties lead to it. -/
theorem ties_redirect (branch : Nat) {m : Nat} (h : ∀ role, (role, n) ∉ p.graph.ties m) :
    (p.graph.ties m).filter (fun t => t.2 != n) = p.graph.ties m ∧
      (p.graph.ties m).map (fun t => (t.1, redirect n branch t.2)) = p.graph.ties m := by
  have hne : ∀ t ∈ p.graph.ties m, t.2 ≠ n := by
    rintro ⟨role, c⟩ ht rfl
    exact h role ht
  constructor
  · rw [List.filter_eq_self]
    intro t ht
    simpa using hne t ht
  · refine (List.map_congr_left fun t ht => ?_).trans (List.map_id _)
    rw [redirect_of_ne (hne t ht)]
    rfl

/-- The functions with the new body. -/
def redirected (p : Program) (n branch : Nat) : FunctionTable :=
  p.functions.map fun x => (x.1, { x.2 with body := x.2.body.map (redirect n branch) })

theorem redirected_of_not_root (h : ¬p.IsRoot n) : p.redirected n branch = p.functions := by
  refine (List.map_congr_left fun x hx => ?_).trans (List.map_id _)
  obtain ⟨f, d⟩ := x
  have hbody : d.body.map (redirect n branch) = d.body := by
    cases hroot : d.body with
    | none => rfl
    | some root =>
      have hne : root ≠ n := by
        rintro rfl
        exact h ⟨f, d, hx, hroot⟩
      rw [Option.map_some, redirect_of_ne hne]
  rw [hbody]
  rfl

theorem Treelike.redirected_of_root (h : p.Treelike) {f : FunctionId} {d : FunctionDef}
    (hd : (f, d) ∈ p.functions) (hbody : d.body = some n) :
    p.redirected n branch = p.functions.modify f fun d => { d with body := some branch } := by
  unfold redirected FunctionTable.modify
  refine List.map_congr_left fun x hx => ?_
  obtain ⟨f', d'⟩ := x
  obtain ⟨root, a, hroot, ha, howner⟩ := h.rooted hd
  rw [hbody] at hroot
  cases hroot
  dsimp only
  by_cases hf : f' = f
  · subst hf
    have hsame : d' = d := congrArg Prod.snd (List.inj_on_of_nodup_map h.distinct hx hd rfl)
    rw [if_pos (beq_self_eq_true f'), hsame, hbody, Option.map_some, redirect_self]
  · rw [if_neg (by simpa using hf)]
    obtain ⟨root', a', hroot', ha', howner'⟩ := h.rooted hx
    have hne : root' ≠ n := by
      rintro rfl
      rw [ha] at ha'
      cases ha'
      exact hf (howner'.symm.trans howner)
    rw [hroot', Option.map_some, redirect_of_ne hne, ← hroot']

theorem Treelike.redirected_removeNode (h : p.Treelike) (branch : Nat)
    (hno : ∀ e edge, p.graph.edge? e = some edge → edge.target ≠ n) :
    Redirected p { p with graph := p.graph.removeNode n, functions := p.redirected n branch } n
      branch where
  sound := h.sound.removeNode n
  node? m := SlotGraph.node?_removeNode n m
  ties m hm := by
    have hties : ∀ role, (role, n) ∉ p.graph.ties m := by
      intro role hmem
      obtain ⟨e, hedge⟩ := h.sound.mem_ties.1 hmem
      exact hno _ _ hedge rfl
    obtain ⟨hfilter, hmap⟩ := ties_redirect branch hties
    dsimp only
    rw [h.sound.ties_removeNode hm, hfilter, hmap]
  functions := rfl

/-! ### The node under its parent -/

/-- The one tie to a node, and the other ties. -/
theorem Treelike.ties_perm (h : p.Treelike) {e : Nat}
    (hedge : p.graph.edge? e = some ⟨a, n, role⟩) :
    (p.graph.ties a).Perm ((role, n) :: (p.graph.ties a).filter fun t => t.2 != n) := by
  have hmem : (role, n) ∈ p.graph.ties a := h.sound.mem_ties.2 ⟨e, hedge⟩
  have hnodup : (p.graph.ties a).Nodup := List.Nodup.of_map _ (h.differ a)
  have hfilter : (p.graph.ties a).filter (fun t => t.2 != n) =
      (p.graph.ties a).erase (role, n) := by
    rw [hnodup.erase_eq_filter]
    refine List.filter_congr fun t ht => ?_
    obtain ⟨role', c⟩ := t
    obtain ⟨e', hedge'⟩ := h.sound.mem_ties.1 ht
    by_cases hc : c = n
    · obtain ⟨-, heq⟩ := h.single.edge_eq hedge hedge' hc
      cases heq
      simp
    · have hpair : (role', c) ≠ (role, n) := fun heq => hc (congrArg Prod.snd heq)
      rw [bne_iff_ne.2 hc, bne_iff_ne.2 hpair]
  rw [hfilter]
  exact List.perm_cons_erase hmem

theorem Treelike.redirected_addEdge (h : p.Treelike) {e : Nat}
    (hedge : p.graph.edge? e = some ⟨a, n, role⟩) (hbranch : p.graph.hasNode branch = true)
    (hne : branch ≠ n) :
    Redirected p { p with
      graph := ((p.graph.removeEdge e).addEdge a branch role).2.removeNode n } n branch := by
  have hkept (m : Nat) (hm : p.graph.hasNode m = true) :
      (p.graph.removeEdge e).hasNode m = true := (SlotGraph.hasNode_removeEdge e m).trans hm
  have hsource := hkept a (h.sound.hasNode_source hedge)
  have hsound := (h.sound.removeEdge e).addEdge hsource (hkept branch hbranch) role
  refine ⟨hsound.removeNode n, fun m => ?_, fun m hm => ?_,
    (redirected_of_not_root fun hroot => h.loose hroot hedge rfl).symm⟩
  · refine (SlotGraph.node?_removeNode n m).trans ?_
    rw [SlotGraph.node?_addEdge, SlotGraph.node?_removeEdge]
    rfl
  · dsimp only
    have hrest := h.sound.ties_removeEdge_removeNode hedge rfl hm
    rw [(h.sound.removeEdge e).ties_removeNode hm] at hrest
    dsimp only at hrest
    rw [hsound.ties_removeNode hm, (h.sound.removeEdge e).ties_addEdge hsource]
    by_cases hma : m = a
    · subst hma
      rw [if_pos rfl, List.filter_cons_of_pos (by simpa using hne), hrest]
      refine List.Perm.trans ?_ ((h.ties_perm hedge).map _).symm
      rw [List.map_cons, redirect_self]
      refine List.Perm.cons _ (List.Perm.of_eq ((List.map_congr_left fun t ht => ?_).trans
        (List.map_id _)).symm)
      have hn : t.2 ≠ n := by simpa using (List.mem_filter.1 ht).2
      rw [redirect_of_ne hn]
      rfl
    · rw [if_neg hma, hrest]
      have hties : ∀ role', (role', n) ∉ p.graph.ties m := by
        intro role' hmem
        obtain ⟨e', hedge'⟩ := h.sound.mem_ties.1 hmem
        obtain ⟨-, heq⟩ := h.single.edge_eq hedge hedge' rfl
        cases heq
        exact hma rfl
      obtain ⟨hfilter, hmap⟩ := ties_redirect branch hties
      rw [hfilter, hmap]

end Program

/-! ### Edges that go -/

namespace Program

variable {p : Program} {n : Nat}

theorem op?_removeEdge (p : Program) (e m : Nat) :
    op? { p with graph := p.graph.removeEdge e } m = p.op? m := by
  rw [op?, node?, SlotGraph.node?_removeEdge]
  rfl

/-- A node that loses no edge keeps its children. -/
theorem ties_removeEdge_of_ne (hsound : p.graph.Sound) {e : Nat} {edge : Edge Role}
    (hedge : p.graph.edge? e = some edge) {m : Nat} (hm : m ≠ edge.source) :
    (p.graph.removeEdge e).ties m = p.graph.ties m := by
  rw [SlotGraph.ties, hsound.outgoing_removeEdge, SlotGraph.ties, List.filter_eq_self.2]
  rintro ⟨e', edge'⟩ hmem
  obtain ⟨hedge', hsource⟩ := hsound.mem_outgoing_iff.1 hmem
  rw [bne_iff_ne]
  rintro rfl
  rw [hedge] at hedge'
  cases hedge'
  exact hm hsource.symm

/-- An edge may go if its source is changed in one of the ways above. -/
theorem Treelike.removeEdge (h : p.Treelike) {e : Nat} {edge : Edge Role}
    (hedge : p.graph.edge? e = some edge)
    (hchanged : Changed p { p with graph := p.graph.removeEdge e } edge.source) :
    Treelike { p with graph := p.graph.removeEdge e } ∧
      Equivalent p { p with graph := p.graph.removeEdge e } := by
  have hnode : ∀ m, node? { p with graph := p.graph.removeEdge e } m = p.node? m :=
    SlotGraph.node?_removeEdge e
  refine h.change (h.sound.removeEdge e) rfl
    (fun hedge' => (SlotGraph.of_edge?_removeEdge hedge').2) ?_ ?_ ?_
  · intro m b hb
    rw [hnode] at hb
    exact ⟨b, hb, rfl, Or.inl rfl⟩
  · rintro m ⟨f, d, hd, hm⟩
    obtain ⟨root, a, hbody, ha, -⟩ := h.rooted hd
    rw [hm] at hbody
    cases hbody
    exact SlotGraph.hasNode_iff.2 ⟨a, (hnode m).trans ha⟩
  · intro m _
    by_cases hm : m = edge.source
    · exact hm ▸ hchanged
    · exact .same (p.op?_removeEdge e m) (ties_removeEdge_of_ne h.sound hedge hm)

/-- Nothing leads to a node that is taken away from its parent. -/
theorem Treelike.target_ne_of_removeEdge (h : p.Treelike) {e a : Nat} {role : Role}
    (hedge : p.graph.edge? e = some ⟨a, n, role⟩) {e' : Nat} {edge' : Edge Role}
    (hedge' : (p.graph.removeEdge e).edge? e' = some edge') : edge'.target ≠ n := by
  obtain ⟨hne, hedge'⟩ := SlotGraph.of_edge?_removeEdge hedge'
  exact fun htarget => hne (h.single.edge_eq hedge hedge' htarget).1

theorem Idle.removeEdge {c : Nat} (h : p.Idle [] c) (e : Nat) :
    Idle { p with graph := p.graph.removeEdge e } [] c := by
  refine ⟨h.1, fun {e'} edge' hedge' htarget => ?_⟩
  obtain ⟨-, hedge'⟩ := SlotGraph.of_edge?_removeEdge hedge'
  rw [op?_removeEdge]
  exact h.2 hedge' htarget

end Program

/-! ### The pass -/

namespace Fold

open Program

variable {d : Draft} {n branch : Nat}

theorem run_disconnect (a : Nat) (role : Role) (d : Draft) :
    (Pass.disconnect a role).run d =
      ((d.program.disconnect a role).1,
        { d with program := (d.program.disconnect a role).2 }) := rfl

/-- The parent of a node gets the branch in its place. -/
theorem run_replaceUnder (h : d.program.Treelike) {e a : Nat} {role : Role}
    (hedge : d.program.graph.edge? e = some ⟨a, n, role⟩)
    (hbranch : d.program.graph.hasNode branch = true) :
    (replaceUnder branch [(a, role)]).run d = (true, { d with program := { d.program with
      graph := ((d.program.graph.removeEdge e).addEdge a branch role).2 } }) := by
  have hkept (m : Nat) (hm : d.program.graph.hasNode m = true) :
      (d.program.graph.removeEdge e).hasNode m = true :=
    (SlotGraph.hasNode_removeEdge e m).trans hm
  have hsource := hkept a (h.sound.hasNode_source hedge)
  have hconnect : connect { d.program with graph := d.program.graph.removeEdge e } a branch role =
      .ok { d.program with graph := ((d.program.graph.removeEdge e).addEdge a branch role).2 } := by
    unfold connect
    dsimp only
    rw [hsource, hkept branch hbranch]
    rfl
  unfold replaceUnder
  rw [Pass.run_bind]
  change (Pass.program >>= _ : Pass Bool).run ((Pass.disconnect a role).run d).2 = _
  rw [run_disconnect, h.disconnect_eq hedge, Pass.run_bind, Pass.run_program]
  dsimp only
  rw [hconnect]
  rfl

/-- The function whose body starts at a node. -/
theorem find?_body_iff (p : Program) (n : Nat) :
    p.IsRoot n ↔ ∃ d, p.functionDefs.find? (·.body == some n) = some d := by
  rw [← Option.isSome_iff_exists, List.find?_isSome]
  unfold functionDefs
  constructor
  · rintro ⟨f, d, hd, hbody⟩
    exact ⟨d, List.mem_map.2 ⟨(f, d), hd, rfl⟩, by simp [hbody]⟩
  · rintro ⟨d, hd, hbody⟩
    obtain ⟨⟨f, d'⟩, hmem, rfl⟩ := List.mem_map.1 hd
    exact ⟨f, d', hmem, by simpa using hbody⟩

theorem isBlock_iff {p : Program} {n : Nat} : isBlock p n = true ↔ p.op? n = some .block := by
  unfold isBlock
  cases p.op? n with
  | none => simp
  | some o => cases o <;> simp

/-- What a settled branch chooses becomes the body of its function. -/
theorem run_replaceBody (h : d.program.Treelike) (hlive : d.program.graph.hasNode branch = true)
    {f : FunctionId} {def₀ : FunctionDef} (hd : (f, def₀) ∈ d.program.functions)
    (hbody : def₀.body = some n) :
    (replaceBody branch (some f)).run d =
      (true, { d with program := { d.program with
        functions := d.program.redirected n branch } }) := by
  have hset : d.program.setBody f branch =
      .ok { d.program with functions := d.program.redirected n branch } := by
    unfold setBody
    rw [hlive, show d.program.function? f = some def₀ from FunctionTable.get?_of_mem h.distinct hd,
      h.redirected_of_root hd hbody]
    rfl
  unfold replaceBody
  rw [Pass.run_bind, Pass.run_program]
  dsimp only
  rw [hset]
  rfl

/-- A settled branch is left alone where a block would become a body, or what it chooses takes its
place. -/
theorem run_takeBranch (h : d.program.Treelike) {e₀ : Nat} {role₀ : Role}
    (hbranch : d.program.graph.edge? e₀ = some ⟨n, branch, role₀⟩) :
    ((takeBranch n (some branch)).run d = (false, d) ∧ d.program.IsRoot n ∧
        d.program.op? branch = some .block) ∨
      ∃ s, (takeBranch n (some branch)).run d = (true, { d with program := s }) ∧
        Redirected d.program s n branch ∧
        (d.program.IsRoot n → d.program.op? branch ≠ some .block) := by
  have hlive := h.sound.hasNode_target hbranch
  have hne : branch ≠ n := by
    rintro rfl
    obtain ⟨rank, hrank⟩ := h.ranked
    exact absurd (hrank _ _ hbranch) (Nat.lt_irrefl _)
  unfold takeBranch
  rw [Pass.run_bind, Pass.run_program]
  dsimp only
  split
  · next hguard =>
    obtain ⟨hbody, hblock⟩ := Bool.and_eq_true_iff.1 hguard
    rw [Option.isSome_map, Option.isSome_iff_exists] at hbody
    exact Or.inl ⟨rfl, (find?_body_iff d.program n).2 hbody, isBlock_iff.1 hblock⟩
  next hguard =>
  refine Or.inr ?_
  have hblock : d.program.IsRoot n → d.program.op? branch ≠ some .block := by
    intro hroot hop
    obtain ⟨def₀, hfind⟩ := (find?_body_iff d.program n).1 hroot
    rw [hfind, isBlock_iff.2 hop] at hguard
    exact hguard rfl
  rw [Pass.run_bind]
  rcases h.single.incoming_cases h.sound n with ⟨hnone, hno⟩ | ⟨e, a, role, hone, hedge⟩
  · have hparents : d.program.parents n = [] := by rw [parents, hnone]; rfl
    have hredirected := h.redirected_removeNode branch hno
    rw [hparents]
    cases hfind : d.program.functionDefs.find? (·.body == some n) with
    | none =>
      have hroot : ¬d.program.IsRoot n := by
        rw [find?_body_iff, hfind]
        rintro ⟨_, ⟨⟩⟩
      rw [redirected_of_not_root hroot] at hredirected
      exact ⟨_, rfl, hredirected, hblock⟩
    | some def₀ =>
      obtain ⟨⟨f, def₁⟩, hd, rfl⟩ := List.mem_map.1 (List.mem_of_find?_eq_some hfind)
      have hbody := List.find?_some hfind
      rw [beq_iff_eq] at hbody
      change ∃ s, (replaceBody branch (some def₁.id) >>= _ : Pass Bool).run d = _ ∧ _
      rw [Pass.run_bind, h.keys hd, run_replaceBody h hlive hd hbody]
      exact ⟨_, rfl, hredirected, hblock⟩
  · have hparents : d.program.parents n = [(a, role)] := by rw [parents, hone]; rfl
    have hroot : ¬d.program.IsRoot n := fun hroot => h.loose hroot hedge rfl
    have hfind : d.program.functionDefs.find? (·.body == some n) = none := by
      rw [Option.eq_none_iff_forall_ne_some]
      exact fun def₀ hfind => hroot ((find?_body_iff _ _).2 ⟨def₀, hfind⟩)
    rw [hparents, run_replaceUnder h hedge hlive, hfind]
    exact ⟨_, rfl, h.redirected_addEdge hedge hlive hne, hblock⟩

/-! ### Folding a branch -/

/-- Every node but one does what it did, or is gone. -/
def Spares (p q : Program) (n : Nat) : Prop :=
  ∀ m, m ≠ n → q.op? m = p.op? m ∨ q.op? m = none

theorem Spares.removeNodes {p q : Program} {n : Nat} (h : Spares p q n) (gone : List Nat) :
    Spares p (q.removeNodes gone) n := fun m hm => op?_removeNodes_or (h m hm) gone

/-- What another node does, it did before. -/
theorem Spares.op? {p q : Program} {n m : Nat} {o : Op} (h : Spares p q n) (hm : m ≠ n)
    (ho : q.op? m = some o) : p.op? m = some o := by
  rcases h m hm with hsame | hgone
  · exact hsame ▸ ho
  · rw [hgone] at ho
    cases ho

/-- What one branch leaves. -/
structure Folded (p q : Program) (n : Nat) : Prop where
  faithful : Faithful p q
  spares : Spares p q n

theorem Folded.refl (p : Program) (n : Nat) : Folded p p n := ⟨.refl p, fun _ _ => Or.inl rfl⟩

/-- What is left after a branch was taken: the literal goes, and the other part with everything
below it. -/
def swept (s : Program) (condition : Nat) : Option Nat → Program
  | some c => (s.removeNodes [condition]).removeNodes ((s.removeNodes [condition]).subtree c)
  | none => s.removeNodes [condition]

theorem faithful_swept {s : Program} (hs : s.Treelike) {condition : Nat} {dropped : Option Nat}
    (hcondition : s.Idle [] condition) (hdropped : ∀ c, dropped = some c → s.Idle [] c) :
    Faithful s (swept s condition dropped) := by
  have hfirst : Faithful s (s.removeNodes [condition]) := by
    refine faithful_removeIdle fun c hc => ?_
    rw [List.mem_singleton] at hc
    exact hc ▸ hcondition
  cases dropped with
  | none => exact hfirst
  | some c =>
    exact hfirst.trans (faithful_removeSubtree ((hdropped c rfl).removeNodes hs.sound [condition]))

theorem Spares.swept {p s : Program} (h : Spares p s n) (condition : Nat) (dropped : Option Nat) :
    Spares p (swept s condition dropped) n := by
  cases dropped with
  | none => exact h.removeNodes _
  | some c => exact (h.removeNodes _).removeNodes _

/-- What folding a branch comes to once the branch was taken. -/
theorem run_foldBranch {l : Literal} {condition : Nat} {taken dropped : Option Nat} {ok : Bool}
    {d' : Draft} (hcondition : literalChild? d.program n .condition = some (condition, l))
    (hparts : (if Store.empty.isTruthy l.toValue = true then
        (d.program.child? n .whenTrue, d.program.child? n .whenFalse)
      else (d.program.child? n .whenFalse, d.program.child? n .whenTrue)) = (taken, dropped))
    (htake : (takeBranch n taken).run d = (ok, d')) :
    ∃ events, (foldBranch n).run d =
      (ok, if ok then ⟨swept d'.program condition dropped, events⟩ else d') := by
  unfold foldBranch
  rw [Pass.run_bind, Pass.run_program]
  dsimp only
  rw [hcondition]
  dsimp only
  rw [hparts]
  dsimp only
  rw [Pass.run_bind, htake]
  cases ok with
  | false => exact ⟨#[], rfl⟩
  | true => cases dropped <;> exact ⟨_, rfl⟩

/-- What folding a branch makes of a program: it puts a part in the place of the branch, or makes
the branch a literal. -/
inductive Outcome (p : Program) (n : Nat) : Program → Prop
  | taken {s : Program} {branch e condition : Nat} {role : Role} {dropped : Option Nat} :
    p.graph.edge? e = some ⟨n, branch, role⟩ → p.Skips n branch → Redirected p s n branch →
      (p.IsRoot n → p.op? branch ≠ some .block) → s.Idle [] condition →
      (∀ c, dropped = some c → s.Idle [] c) → Outcome p n (swept s condition dropped)
  | settled {q : Program} {e c condition : Nat} : p.op? n = some .branch → p.Constant n .nil →
      p.replaceOp n (.literal .nil) = .ok (.branch, q) → p.child? n .condition = some condition →
      p.child? n .whenTrue = some c → p.child? n .whenFalse = none →
      q.graph.edge? e = some ⟨n, c, .whenTrue⟩ →
      Outcome p n (swept (({ q with graph := q.graph.removeEdge e } : Program).removeNodes
        (({ q with graph := q.graph.removeEdge e } : Program).subtree c)) condition (some c))

/-- The node is a branch on a literal, and it is not a body that a block would become. -/
def Foldable (p : Program) (n : Nat) : Prop :=
  p.op? n = some .branch ∧ ∃ l, p.LiteralAt n .condition l ∧
    (p.IsRoot n → ∀ b, p.child? n (chosen l) = some b → p.op? b ≠ some .block)

/-- What can be folded is decided by one literal. -/
theorem foldable_iff {p : Program} {condition : Nat} {l : Literal}
    (hop : p.op? n = some .branch) (hcondition : p.child? n .condition = some condition)
    (hl : p.op? condition = some (.literal l)) : Foldable p n ↔
      (p.IsRoot n → ∀ b, p.child? n (chosen l) = some b → p.op? b ≠ some .block) := by
  constructor
  · rintro ⟨-, l', ⟨c, hc, hl'⟩, hroot⟩
    rw [hcondition] at hc
    cases hc
    rw [hl] at hl'
    cases hl'
    exact hroot
  · exact fun hroot => ⟨hop, l, ⟨condition, hcondition, hl⟩, hroot⟩

/-- A branch that can be folded is folded, and any other node is left as it is. -/
inductive Attempt (d : Draft) (n : Nat) : Bool × Draft → Prop
  | idle : ¬Foldable d.program n → Attempt d n (false, d)
  | folded {q : Program} {events : Array Event} : Foldable d.program n → Outcome d.program n q →
    Attempt d n (true, ⟨q, events⟩)

/-- A branch whose literal chooses a part. -/
theorem attempt_some (h : d.program.Treelike) (hop : d.program.op? n = some .branch) {l : Literal}
    {condition : Nat} (dropped : Option Nat)
    (hcondition : literalChild? d.program n .condition = some (condition, l))
    (hbranch : d.program.child? n (chosen l) = some branch)
    (hdropped : ∀ c, dropped = some c → ∃ role, role ≠ chosen l ∧
      d.program.child? n role = some c)
    (hparts : (if Store.empty.isTruthy l.toValue = true then
        (d.program.child? n .whenTrue, d.program.child? n .whenFalse)
      else (d.program.child? n .whenFalse, d.program.child? n .whenTrue)) =
        (some branch, dropped)) :
    Attempt d n ((foldBranch n).run d) := by
  obtain ⟨hchild, hliteral⟩ := literalChild?_iff hcondition
  obtain ⟨e₀, hedge₀⟩ := h.sound.mem_ties.1 (mem_ties_of_child? hbranch)
  have hother : ∀ {c role}, role ≠ chosen l → d.program.child? n role = some c →
      c ≠ branch ∧ ∃ e, d.program.graph.edge? e = some ⟨n, c, role⟩ := by
    intro c role hrole hc
    obtain ⟨e, hedge⟩ := h.sound.mem_ties.1 (mem_ties_of_child? hc)
    refine ⟨?_, e, hedge⟩
    rintro rfl
    obtain ⟨-, heq⟩ := h.single.edge_eq hedge₀ hedge rfl
    cases heq
    exact hrole rfl
  have hrole : Role.condition ≠ chosen l := by
    unfold chosen
    split <;> decide
  rcases run_takeBranch h hedge₀ with ⟨hrun, hroot, hblock⟩ | ⟨s, hrun, hredirected, hblock⟩
  · obtain ⟨events, hrun⟩ := run_foldBranch hcondition hparts hrun
    rw [hrun]
    exact .idle fun hfoldable =>
      (foldable_iff hop hchild hliteral).1 hfoldable hroot branch hbranch hblock
  · obtain ⟨events, hrun⟩ := run_foldBranch hcondition hparts hrun
    rw [hrun]
    refine .folded ((foldable_iff hop hchild hliteral).2 fun hroot b hb => ?_)
      (.taken hedge₀ ⟨l, hop, ⟨condition, hchild, hliteral⟩, hbranch⟩ hredirected hblock ?_ ?_)
    · rw [hbranch] at hb
      cases hb
      exact hblock hroot
    · obtain ⟨hne, e, hedge⟩ := hother hrole hchild
      exact hredirected.idle h hedge₀ hedge hne
    · intro c hc
      obtain ⟨role, hrole, hchild⟩ := hdropped c hc
      obtain ⟨hne, e, hedge⟩ := hother hrole hchild
      exact hredirected.idle h hedge₀ hedge hne

/-- A branch whose literal chooses nothing. -/
theorem attempt_none (h : d.program.Treelike) (hop : d.program.op? n = some .branch) {l : Literal}
    {condition c : Nat} (hcondition : literalChild? d.program n .condition = some (condition, l))
    (hfalse : Store.empty.isTruthy l.toValue = false)
    (hnothing : d.program.child? n .whenFalse = none)
    (hchild : d.program.child? n .whenTrue = some c) :
    Attempt d n ((foldBranch n).run d) := by
  obtain ⟨hcondition', hliteral⟩ := literalChild?_iff hcondition
  have hconstant : d.program.Constant n .nil :=
    .branch hop ⟨condition, hcondition', hliteral⟩ hfalse hnothing
  obtain ⟨q, hreplace⟩ : ∃ q, d.program.replaceOp n (.literal .nil) = .ok (.branch, q) :=
    ⟨_, replaceOp_eq hop _⟩
  obtain ⟨hfaithful, -, -, hties, -⟩ := faithful_replaceOp hconstant hreplace
  obtain ⟨hq, -⟩ := hfaithful h
  obtain ⟨e, hedge⟩ : ∃ e, q.graph.edge? e = some ⟨n, c, .whenTrue⟩ := by
    rw [← hq.sound.mem_ties, hties]
    exact mem_ties_of_child? hchild
  have hrun : (takeBranch n none).run d = (true, { d with
      program := ({ q with graph := q.graph.removeEdge e } : Program).removeNodes
        (({ q with graph := q.graph.removeEdge e } : Program).subtree c) }) := by
    unfold takeBranch
    rw [Pass.run_bind, Pass.run_program]
    dsimp only
    rw [hreplace]
    dsimp only
    rw [Pass.run_bind,
      show (Pass.setProgram q).run d = ((), { d with program := q }) from rfl]
    dsimp only
    rw [Pass.run_bind, run_disconnect]
    dsimp only
    rw [hq.disconnect_eq hedge]
    rfl
  have hparts : (if Store.empty.isTruthy l.toValue = true then
        (d.program.child? n .whenTrue, d.program.child? n .whenFalse)
      else (d.program.child? n .whenFalse, d.program.child? n .whenTrue)) = (none, some c) := by
    rw [hfalse, hnothing, hchild]
    rfl
  obtain ⟨events, hrun⟩ := run_foldBranch hcondition hparts hrun
  rw [hrun]
  refine .folded ((foldable_iff hop hcondition' hliteral).2 fun _ b hb => ?_)
    (.settled hop hconstant hreplace hcondition' hchild hnothing hedge)
  rw [chosen, hfalse] at hb
  cases hnothing.symm.trans hb

theorem attempt_foldBranch (h : d.program.Treelike)
    (hop : d.program.op? n = some .branch ∨ d.program.op? n = none) :
    Attempt d n ((foldBranch n).run d) := by
  cases hcondition : literalChild? d.program n .condition with
  | none =>
    have hrun : (foldBranch n).run d = (false, d) := by
      unfold foldBranch
      rw [Pass.run_bind, Pass.run_program]
      dsimp only
      rw [hcondition]
      rfl
    rw [hrun]
    refine .idle ?_
    rintro ⟨-, l, ⟨c, hc, hl⟩, -⟩
    rw [h.literalChild?_iff.2 ⟨hc, hl⟩] at hcondition
    cases hcondition
  | some x =>
    obtain ⟨condition, l⟩ := x
    obtain ⟨hchild, -⟩ := literalChild?_iff hcondition
    have hlive := (h.sound.hasNode_of_mem_ties (mem_ties_of_child? hchild)).1
    obtain ⟨o, ho⟩ := exists_op? hlive
    have hop : d.program.op? n = some .branch := by
      refine hop.resolve_right ?_
      rw [ho]
      exact Option.some_ne_none o
    obtain ⟨whenTrue, hwhenTrue⟩ := h.branch hop
    obtain ⟨c, hc⟩ := exists_child? hwhenTrue
    cases htruth : Store.empty.isTruthy l.toValue with
    | true =>
      have hchosen : chosen l = .whenTrue := by rw [chosen, htruth, if_pos rfl]
      refine attempt_some h hop (d.program.child? n .whenFalse) hcondition (hchosen ▸ hc)
        (fun c' hc' => ?_) ?_
      · exact ⟨.whenFalse, by rw [hchosen]; decide, hc'⟩
      · rw [htruth, if_pos rfl, hc]
    | false =>
      have hchosen : chosen l = .whenFalse := by
        rw [chosen, htruth]
        rfl
      cases hwhenFalse : d.program.child? n .whenFalse with
      | none => exact attempt_none h hop hcondition htruth hwhenFalse hc
      | some branch =>
        refine attempt_some h hop (d.program.child? n .whenTrue) hcondition (hchosen ▸ hwhenFalse)
          (fun c' hc' => ?_) ?_
        · exact ⟨.whenTrue, by rw [hchosen]; decide, hc'⟩
        · rw [htruth, hwhenFalse]
          rfl

/-- The other parts of a branch may go, and the children of a literal that a branch became. -/
theorem Outcome.folded {p q : Program} (h : Outcome p n q) (hp : p.Treelike) : Folded p q n := by
  cases h with
  | @taken s branch e condition role dropped hedge hskips hredirected hblock hcondition hdropped =>
    have hspares : Spares p s n := fun m hm => Or.inl (hredirected.op?_of_ne hm)
    obtain ⟨htree, hequivalent⟩ := hredirected.faithful hp hedge hskips hblock
    have hswept := faithful_swept htree hcondition hdropped
    exact ⟨Faithful.trans (fun _ => ⟨htree, hequivalent⟩) hswept, hspares.swept condition dropped⟩
  | @settled q e c condition hop hconstant hreplace hcondition hchild hnothing hedge =>
    obtain ⟨hfaithful, hself, hothers, -⟩ := faithful_replaceOp hconstant hreplace
    obtain ⟨hq, hequivalent⟩ := hfaithful hp
    have hidle {role : Role} {c' : Nat} (hc' : p.child? n role = some c') : q.Idle [] c' :=
      hp.idle_of_replaceOp hconstant hreplace hc'
    -- The part that does not run is taken away from the literal first, and then goes.
    let q₁ : Program := { q with graph := q.graph.removeEdge e }
    have hself₁ : q₁.op? n = some (.literal .nil) := (q.op?_removeEdge e n).trans hself
    obtain ⟨hq₁, hequivalent₁⟩ := hq.removeEdge hedge (.literal (.literal hself) hself₁)
    let q₂ : Program := q₁.removeNodes (q₁.subtree c)
    obtain ⟨hq₂, hequivalent₂⟩ := faithful_removeSubtree ((hidle hchild).removeEdge e) hq₁
    have hspares : Spares p q₂ n := Spares.removeNodes
      (fun m hm => Or.inl ((q.op?_removeEdge e m).trans (hothers m hm))) _
    refine ⟨Faithful.trans (fun _ => ⟨hq₂, hequivalent.trans (hequivalent₁.trans hequivalent₂)⟩)
      (faithful_swept hq₂ ?_ fun c' hc' => ?_), hspares.swept condition (some c)⟩
    · exact ((hidle hcondition).removeEdge e).removeNodes hq₁.sound _
    · cases hc'
      exact ((hidle hchild).removeEdge e).removeNodes hq₁.sound _

/-- Nodes that do one thing are dealt with one after the other. What is still to be dealt with does
that thing or is gone. -/
theorem total_induction {o : Op} (step : Nat → Pass Nat) {P : List Nat → Nat → Program → Prop}
    (hstep : ∀ {n ns k d}, P (n :: ns) k d.program →
      d.program.op? n = some o ∨ d.program.op? n = none →
      P ns (k + ((step n).run d).1) ((step n).run d).2.program ∧
        Spares d.program ((step n).run d).2.program n)
    {ns : List Nat} {k : Nat} (hnodup : ns.Nodup)
    (hns : ∀ n ∈ ns, d.program.op? n = some o ∨ d.program.op? n = none) (h : P ns k d.program) :
    P [] (k + ((Pass.total step ns).run d).1) ((Pass.total step ns).run d).2.program := by
  have hall := Pass.total_induction step
    (P := fun ns k p => ns.Nodup ∧ (∀ n ∈ ns, p.op? n = some o ∨ p.op? n = none) ∧ P ns k p)
    (fun {n ns k d} h => ?_) ⟨hnodup, hns, h⟩
  · exact hall.2.2
  · obtain ⟨hnodup, hns, h⟩ := h
    obtain ⟨hnew, hrest⟩ := List.nodup_cons.1 hnodup
    obtain ⟨hfirst, hspares⟩ := hstep h (hns n List.mem_cons_self)
    refine ⟨hrest, fun m hm => ?_, hfirst⟩
    have hne : m ≠ n := by
      rintro rfl
      exact hnew hm
    rcases hspares m hne with hsame | hgone
    · rw [hsame]
      exact hns m (List.mem_cons_of_mem n hm)
    · exact Or.inr hgone

theorem isBranch_iff {p : Program} {n : Nat} : isBranch p n = true ↔ p.op? n = some .branch := by
  unfold isBranch
  cases p.op? n with
  | none => simp
  | some o => cases o <;> simp

theorem foldBranches_eq (ns : List Nat) : foldBranches ns =
    Pass.total (fun n => do return if ← foldBranch n then 1 else 0) ns := by
  induction ns with
  | nil => rfl
  | cons n ns ih =>
    rw [foldBranches, ih]
    rfl

/-- What the pass keeps: what holds on when a node cannot be folded, and when one is folded. -/
theorem branches_induction {P : List Nat → Nat → Program → Prop}
    (htree : ∀ {ns k p}, P ns k p → p.Treelike)
    (hidle : ∀ {n ns k p}, P (n :: ns) k p → ¬Foldable p n → P ns k p)
    (hfold : ∀ {n ns k p q}, P (n :: ns) k p → Foldable p n → Outcome p n q → P ns (k + 1) q)
    (h : P (d.program.nodeIds.filter (isBranch d.program)) 0 d.program) :
    P [] (branches.run d).1 (branches.run d).2.program := by
  have hall := total_induction (o := .branch) (P := P)
    (fun n => do return if ← foldBranch n then 1 else 0)
    (fun {n ns k d} h hop => ?_) (List.Nodup.filter _ (SlotGraph.nodup_nodeIds _))
    (fun n hn => Or.inl (isBranch_iff.1 (List.mem_filter.1 hn).2)) h
  · rw [Nat.zero_add, ← foldBranches_eq] at hall
    exact hall
  · rw [Pass.run_bind]
    have hattempt := attempt_foldBranch (htree h) hop
    generalize (foldBranch n).run d = r at hattempt
    cases hattempt with
    | idle hnot => exact ⟨hidle h hnot, fun _ _ => Or.inl rfl⟩
    | folded hfoldable houtcome =>
      exact ⟨hfold h hfoldable houtcome, (houtcome.folded (htree h)).spares⟩

theorem keeps_branches : Pass.Keeps branches := by
  intro d h
  refine branches_induction (P := fun _ _ q => q.Treelike ∧ Equivalent d.program q)
    (fun h => h.1) (fun h _ => h) (fun {n ns k p q} hp _ houtcome => ?_) ⟨h, .refl d.program⟩
  obtain ⟨htree, hequivalent⟩ := hp
  obtain ⟨htree', hequivalent'⟩ := (houtcome.folded htree).faithful htree
  exact ⟨htree', hequivalent.trans hequivalent'⟩

end Fold

end GraphLang
