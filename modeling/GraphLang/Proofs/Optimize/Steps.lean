import GraphLang.Proofs.Optimize.Treelike
import GraphLang.Proofs.Search

/-!
# Single changes that keep the meaning

A node that is settled becomes its literal, the children of a literal go, and with a node that
nobody looks at everything below it goes. Each change takes a treelike program to a treelike one
that looks the same to the host.
-/

namespace GraphLang

variable {p q s : Program} {F : FunctionId → Prop} {n c : Nat}

/-- The second program is as treelike as the first one and looks the same to the host. -/
def Faithful (p q : Program) : Prop := p.Treelike → q.Treelike ∧ Equivalent p q

theorem Faithful.refl (p : Program) : Faithful p p := fun h => ⟨h, .refl p⟩

theorem Faithful.trans (h : Faithful p q) (h' : Faithful q s) : Faithful p s := by
  intro hp
  obtain ⟨hq, hpq⟩ := h hp
  obtain ⟨hs, hqs⟩ := h' hq
  exact ⟨hs, hpq.trans hqs⟩

/-- The nodes that are still there correspond to themselves. -/
def Kept (q : Program) (n n' : Nat) : Prop := n' = n ∧ q.graph.hasNode n = true

/-- A node with the same operation and the same ties. -/
theorem mates_of_ties (hsound : q.graph.Sound) {o : Op} (ho : p.op? n = some o)
    (ho' : q.op? n = some o) (hties : q.graph.ties n = p.graph.ties n)
    (hf : ∀ f, o = .function f → F f) : Mates p q (Kept q) F n := by
  have hkept : ∀ {role c}, (role, c) ∈ p.graph.ties n → Kept q c c := by
    intro role c hc
    rw [← hties] at hc
    exact ⟨rfl, (hsound.hasNode_of_mem_ties hc).2⟩
  refine .same ho ho' (fun role => ?_) ?_ hf
  · rw [Program.child?_congr hties]
    cases hc : p.child? n role with
    | none => exact .none
    | some c => exact .some (hkept (Program.mem_ties_of_child? hc))
  · rw [Program.children_congr hties]
    exact List.forall₂_same.2 fun t ht => ⟨rfl, hkept (Program.mem_children.1 ht)⟩

namespace Program

/-- How a node that is still there may have changed: not at all, into the literal that it comes to,
or as a block that lost statements which cannot run. -/
inductive Changed (p q : Program) (n : Nat) : Prop
  | same : q.op? n = p.op? n → q.graph.ties n = p.graph.ties n → Changed p q n
  | literal {l} : p.Constant n l → q.op? n = some (.literal l) → Changed p q n
  | block : p.op? n = some .block → q.op? n = some .block →
    Until p q (Kept q) (p.indexed n (.statement 0)) (q.indexed n (.statement 0)) → Changed p q n

/-- A program with fewer edges and nodes means the same if all nodes left have changed in one of
the ways above. -/
theorem Treelike.change (h : p.Treelike) (hsound : q.graph.Sound)
    (hfunctions : q.functions = p.functions)
    (hedges : ∀ {e edge}, q.graph.edge? e = some edge → p.graph.edge? e = some edge)
    (hnodes : ∀ {n b}, q.node? n = some b → ∃ a, p.node? n = some a ∧ b.owner = a.owner ∧
      (b.op = a.op ∨ ∃ l, b.op = .literal l))
    (hroots : ∀ {n}, p.IsRoot n → q.graph.hasNode n = true)
    (hchanged : ∀ {n}, q.graph.hasNode n = true → Changed p q n) :
    q.Treelike ∧ Equivalent p q := by
  refine ⟨h.sub hsound hfunctions hedges hnodes hroots fun {n} ho ho' => ?_, ?_⟩
  · cases hchanged (hasNode_of_op? ho) with
    | same _ hties =>
      rw [hties]
      exact h.branch ho'
    | literal _ hl =>
      rw [ho] at hl
      cases hl
    | block _ hblock =>
      rw [ho] at hblock
      cases hblock
  · refine Corresponds.equivalent (R := Kept q) (F := fun f => ∃ d, p.function? f = some d)
      ⟨h.main, ?_, ?_⟩
    · rintro f ⟨d, hd⟩
      have hd' : q.function? f = some d := by rwa [function?, hfunctions]
      have hmem := FunctionTable.mem_of_get? hd
      obtain ⟨root, a, hbody, ha, -⟩ := h.rooted hmem
      have hlive := hroots ⟨f, d, hmem, hbody⟩
      refine ⟨d, d, root, root, hd, hd', rfl, rfl, hbody, hbody, ⟨rfl, hlive⟩, ?_⟩
      cases hchanged hlive with
      | same hop _ => rw [hop]
      | literal hl hop =>
        refine ⟨fun hblock => ?_,
          fun hblock => absurd hblock (Corresponds.not_block_of_constant hl)⟩
        rw [hop] at hblock
        cases hblock
      | block hop hop' => exact ⟨fun _ => hop, fun _ => hop'⟩
    · rintro n n' ⟨rfl, hlive⟩
      refine Or.inl ⟨rfl, ?_⟩
      cases hchanged hlive with
      | same hop hties =>
        obtain ⟨o, ho⟩ := exists_op? hlive
        refine mates_of_ties hsound (hop ▸ ho) ho hties ?_
        rintro f rfl
        exact h.registered (hop ▸ ho)
      | literal hl hop => exact .constant hl (.literal hop)
      | block hop hop' hstatements => exact .pruned hop hop' hstatements

/-! ### Literals -/

theorem replaceOp_eq {o : Op} (ho : p.op? n = some o) (o' : Op) :
    p.replaceOp n o' = .ok (o, { p with
      graph := p.graph.modifyNode n fun node => { node with op := o' } }) := by
  rw [replaceOp, ho]

/-- A node that is settled may become its literal. -/
theorem faithful_replaceOp {l : Literal} {o : Op} (hl : p.Constant n l)
    (hreplace : p.replaceOp n (.literal l) = .ok (o, q)) :
    Faithful p q ∧ q.op? n = some (.literal l) ∧ (∀ m, m ≠ n → q.op? m = p.op? m) ∧
      (∀ m, q.graph.ties m = p.graph.ties m) ∧ q.functions = p.functions := by
  obtain ⟨o', ho'⟩ : ∃ o, p.op? n = some o := by
    cases hl with
    | literal ho => exact ⟨_, ho⟩
    | operator ho => exact ⟨_, ho⟩
    | branch ho => exact ⟨_, ho⟩
  rw [replaceOp_eq ho'] at hreplace
  obtain ⟨-, rfl⟩ := Prod.mk.inj (Except.ok.inj hreplace)
  obtain ⟨a, ha, -⟩ := Option.map_eq_some_iff.1 ho'
  have hnode : ∀ m, (p.graph.modifyNode n fun node => { node with op := .literal l }).node? m =
      if m = n then (p.graph.node? m).map fun node => { node with op := .literal l }
      else p.graph.node? m := SlotGraph.node?_modifyNode n _
  have hself : op? { p with graph := p.graph.modifyNode n fun node =>
      { node with op := .literal l } } n = some (.literal l) := by
    rw [op?, node?, hnode, if_pos rfl, show p.graph.node? n = some a from ha]
    rfl
  have hother : ∀ m, m ≠ n → op? { p with graph := p.graph.modifyNode n fun node =>
      { node with op := .literal l } } m = p.op? m := by
    intro m hm
    rw [op?, node?, hnode, if_neg hm]
    rfl
  refine ⟨fun h => ?_, hself, hother, SlotGraph.ties_modifyNode n _, rfl⟩
  refine h.change (h.sound.modifyNode n _) rfl id ?_ ?_ ?_
  · intro m b hb
    rw [node?, hnode] at hb
    split at hb
    · obtain ⟨a, ha, rfl⟩ := Option.map_eq_some_iff.1 hb
      exact ⟨a, ha, rfl, Or.inr ⟨l, rfl⟩⟩
    · exact ⟨b, hb, rfl, Or.inl rfl⟩
  · rintro m ⟨f, d, hd, hm⟩
    obtain ⟨root, a, hbody, ha, -⟩ := h.rooted hd
    rw [hm] at hbody
    cases hbody
    rw [SlotGraph.hasNode_iff]
    dsimp only
    rw [hnode, show p.graph.node? m = some a from ha]
    split <;> exact ⟨_, rfl⟩
  · intro m _
    by_cases hm : m = n
    · subst hm
      exact .literal hl hself
    · exact .same (hother m hm) (SlotGraph.ties_modifyNode n _ m)

/-! ### Nodes that nobody looks at -/

/-- No body starts at the node, and only literals and nodes that go too have it as a child. -/
def Idle (p : Program) (gone : List Nat) (n : Nat) : Prop :=
  ¬p.IsRoot n ∧ ∀ {e edge}, p.graph.edge? e = some edge → edge.target = n →
    edge.source ∈ gone ∨ ∃ l, p.op? edge.source = some (.literal l)

theorem node?_removeNodes (p : Program) (gone : List Nat) (n : Nat) :
    (p.removeNodes gone).node? n = if n ∈ gone then none else p.node? n := by
  unfold removeNodes node?
  dsimp only
  generalize p.graph = g
  induction gone generalizing g with
  | nil => simp
  | cons m gone ih =>
    rw [List.foldl_cons, ih, SlotGraph.node?_removeNode]
    by_cases hn : n ∈ gone <;> by_cases hm : n = m <;> simp [hn, hm]

theorem hasNode_removeNodes {gone : List Nat} : (p.removeNodes gone).graph.hasNode n = true ↔
    p.graph.hasNode n = true ∧ n ∉ gone := by
  have hnode : (p.removeNodes gone).graph.node? n = if n ∈ gone then none else p.graph.node? n :=
    p.node?_removeNodes gone n
  rw [SlotGraph.hasNode_iff, SlotGraph.hasNode_iff, hnode]
  by_cases hn : n ∈ gone <;> simp [hn]

theorem sound_removeNodes (hsound : p.graph.Sound) (gone : List Nat) :
    (p.removeNodes gone).graph.Sound := by
  unfold removeNodes
  dsimp only
  generalize p.graph = g at hsound
  induction gone generalizing g with
  | nil => exact hsound
  | cons m gone ih => exact ih _ (hsound.removeNode m)

theorem edge?_removeNodes (hsound : p.graph.Sound) (gone : List Nat) {e : Nat} {edge : Edge Role} :
    (p.removeNodes gone).graph.edge? e = some edge ↔
      p.graph.edge? e = some edge ∧ edge.source ∉ gone ∧ edge.target ∉ gone := by
  unfold removeNodes
  dsimp only
  generalize p.graph = g at hsound
  induction gone generalizing g with
  | nil => simp
  | cons m gone ih =>
    rw [List.foldl_cons, ih _ (hsound.removeNode m), hsound.edge?_removeNode,
      Option.filter_eq_some_iff]
    simp only [Bool.and_eq_true, bne_iff_ne, List.mem_cons, not_or]
    tauto

theorem op?_removeNodes {gone : List Nat} (hn : n ∉ gone) :
    (p.removeNodes gone).op? n = p.op? n := by
  rw [op?, node?_removeNodes, if_neg hn, op?]

theorem op?_removeNodes_or {o : Option Op} (h : p.op? n = o ∨ p.op? n = none) (gone : List Nat) :
    (p.removeNodes gone).op? n = o ∨ (p.removeNodes gone).op? n = none := by
  by_cases hn : n ∈ gone
  · refine Or.inr ?_
    rw [op?, node?_removeNodes, if_pos hn]
    rfl
  · rw [op?_removeNodes hn]
    exact h

theorem ties_removeNodes (hsound : p.graph.Sound) {gone : List Nat} (hn : n ∉ gone)
    (hchildren : ∀ t ∈ p.graph.ties n, t.2 ∉ gone) :
    (p.removeNodes gone).graph.ties n = p.graph.ties n := by
  unfold removeNodes
  dsimp only
  generalize p.graph = g at hsound hchildren
  induction gone generalizing g with
  | nil => rfl
  | cons m gone ih =>
    rw [List.mem_cons, not_or] at hn
    have hties : (g.removeNode m).ties n = g.ties n := by
      rw [hsound.ties_removeNode hn.1, List.filter_eq_self]
      intro t ht
      have := hchildren t ht
      rw [List.mem_cons, not_or] at this
      simpa using this.1
    rw [List.foldl_cons, ih hn.2 _ (hsound.removeNode m), hties]
    intro t ht
    rw [hties] at ht
    have := hchildren t ht
    rw [List.mem_cons, not_or] at this
    exact this.2

/-- Nodes that nobody looks at may go. -/
theorem faithful_removeNodes {gone : List Nat} (hgone : ∀ n ∈ gone, p.Idle gone n) :
    Faithful p (p.removeNodes gone) := by
  intro h
  refine h.change (sound_removeNodes h.sound gone) rfl
    (fun he => ((edge?_removeNodes h.sound gone).1 he).1) ?_ ?_ ?_
  · intro n b hb
    rw [node?_removeNodes] at hb
    split at hb
    · cases hb
    · exact ⟨b, hb, rfl, Or.inl rfl⟩
  · rintro n ⟨f, d, hd, hn⟩
    obtain ⟨root, a, hbody, ha, -⟩ := h.rooted hd
    rw [hn] at hbody
    cases hbody
    refine SlotGraph.hasNode_iff.2 ⟨a, ?_⟩
    refine (p.node?_removeNodes gone n).trans ?_
    rw [if_neg fun hmem => (hgone n hmem).1 ⟨f, d, hd, hn⟩, ha]
  · intro n hn
    have hn' := (hasNode_removeNodes.1 hn).2
    by_cases hchildren : ∀ t ∈ p.graph.ties n, t.2 ∉ gone
    · exact .same (op?_removeNodes hn') (ties_removeNodes h.sound hn' hchildren)
    · push Not at hchildren
      obtain ⟨⟨role, c⟩, ht, hc⟩ := hchildren
      obtain ⟨e, hedge⟩ := h.sound.mem_ties.1 ht
      rcases (hgone c hc).2 hedge rfl with hmem | ⟨l, hl⟩
      · exact absurd hmem hn'
      · exact .literal (.literal hl) ((op?_removeNodes hn').trans hl)

theorem Idle.among (h : p.Idle [] n) (gone : List Nat) : p.Idle gone n :=
  ⟨h.1, fun hedge htarget => Or.inr ((h.2 hedge htarget).resolve_left List.not_mem_nil)⟩

/-- The children that are left were there before. -/
theorem mem_ties_of_removeNodes (hsound : p.graph.Sound) {gone : List Nat} {t : Role × Nat}
    (ht : t ∈ (p.removeNodes gone).graph.ties n) : t ∈ p.graph.ties n := by
  obtain ⟨role, c⟩ := t
  obtain ⟨e, hedge⟩ := (sound_removeNodes hsound gone).mem_ties.1 ht
  exact hsound.mem_ties.2 ⟨e, ((edge?_removeNodes hsound gone).1 hedge).1⟩

theorem Idle.removeNodes (hsound : p.graph.Sound) (h : p.Idle [] n) (gone : List Nat) :
    (p.removeNodes gone).Idle [] n := by
  refine ⟨h.1, fun {e edge} hedge htarget => ?_⟩
  obtain ⟨hedge, hsource, -⟩ := (edge?_removeNodes hsound gone).1 hedge
  rw [op?_removeNodes hsource]
  exact h.2 hedge htarget

end Program

end GraphLang
