import GraphLang.Proofs.Container.Steps

/-!
# Members that come and go

Nodes of members that were removed are used again, so a node does not tell who sits there. What
tells members apart at all times is the number of the edge that holds them, which is never given
twice. By these numbers members are followed while a list takes new elements and loses others.
-/

namespace GraphLang.Container

variable {c d e : Container} {seq seq' n n' : Nat} {value value' x : Value}

/-- The member that the edge of that number holds sits at a node and has a value. -/
def Sits (c : Container) (seq n : Nat) (value : Value) : Prop :=
  ∃ view ∈ c.timeline, view.source = root ∧ view.tie.seq = seq ∧ view.target = n ∧
    c.value? n = some value

theorem Sits.lt (hc : c.Timed) (h : c.Sits seq n value) : seq < c.nextSeq := by
  obtain ⟨view, hview, -, rfl, -⟩ := h
  exact hc.seq_lt (mem_timeline.1 hview)

theorem Sits.ne_root (hc : c.Formed) (h : c.Sits seq n value) : n ≠ root := by
  obtain ⟨view, hview, -, -, rfl, -⟩ := h
  exact hc.target_ne_root view hview

/-- A member sits at one node. -/
theorem Sits.node_eq (hc : c.Timed) (h : c.Sits seq n value) (h' : c.Sits seq n' value') :
    n = n' := by
  obtain ⟨view, hview, -, rfl, rfl, -⟩ := h
  obtain ⟨view', hview', -, hseq, rfl, -⟩ := h'
  rw [hc.view_eq (mem_timeline.1 hview) (mem_timeline.1 hview') hseq.symm]

/-- Whoever sits at a node has the value of the node. -/
theorem Sits.value_eq (h : c.Sits seq n value) (h' : c.Sits seq' n value') : value = value' := by
  obtain ⟨-, -, -, -, -, hvalue⟩ := h
  obtain ⟨-, -, -, -, -, hvalue'⟩ := h'
  exact Option.some.inj (hvalue.symm.trans hvalue')

/-- A member is listed with its node and its value. -/
theorem Sits.mem_roster (hc : c.Timed) (h : c.Sits seq n value) :
    ∃ y ∈ c.roster, y.node = n ∧ y.value = value := by
  obtain ⟨view, hview, hsource, -, rfl, hvalue⟩ := h
  exact ⟨⟨view.tie.label, view.target, value⟩,
    hc.mem_roster.2 ⟨view, hview, hsource, rfl, rfl, hvalue⟩, rfl, rfl⟩

theorem Sits.mem_members (hc : c.Formed) (h : c.Sits seq n value) : n ∈ c.members := by
  obtain ⟨y, hy, rfl, -⟩ := h.mem_roster hc.timed
  rw [hc.members_eq]
  exact List.mem_map_of_mem hy

/-- At a node sits one member. -/
theorem Sits.seq_eq (hc : c.Formed) (h : c.Sits seq n value) (h' : c.Sits seq' n value') :
    seq = seq' := by
  obtain ⟨view, hview, hsource, rfl, htarget, -⟩ := h
  obtain ⟨view', hview', hsource', rfl, htarget', -⟩ := h'
  have hnodup : ((c.edgesFrom root).map (·.target)).Nodup := by
    rw [hc.map_edgesFrom fun _ n => n]
    exact hc.nodup_nodes
  rw [hc.timed.edgesFrom_eq] at hnodup
  have hfrom {view : EdgeView} (hview : view ∈ c.timeline) (hsource : view.source = root) :
      view ∈ c.timeline.filter (·.source == root) :=
    List.mem_filter.2 ⟨hview, beq_iff_eq.2 hsource⟩
  rw [List.inj_on_of_nodup_map hnodup (hfrom hview hsource) (hfrom hview' hsource')
    (htarget.trans htarget'.symm)]

/-! ### Changes -/

/-- A new member has a new number. -/
theorem sits_attach (hc : c.Formed) (label : Label) (value : Value) :
    (c.attach label value).2.Sits seq n x ↔
      c.Sits seq n x ∨ seq = c.nextSeq ∧ n = (c.attach label value).1 ∧ x = value := by
  obtain ⟨-, htimeline⟩ := hc.timed.attach label value hc.hasNode_root
  have hold {view : EdgeView} (hview : view ∈ c.timeline) :
      view.target ≠ (c.attach label value).1 := by
    intro heq
    have hnode := hc.timed.hasNode_target hview
    rw [heq, hasNode_fst_attach label value hc.timed.sound] at hnode
    cases hnode
  unfold Sits
  rw [htimeline]
  constructor
  · rintro ⟨view, hview, hsource, hseq, htarget, hvalue⟩
    rw [value?_attach label value hc.timed.sound] at hvalue
    obtain hview | hview := List.mem_append.1 hview
    · rw [if_neg (htarget ▸ hold hview)] at hvalue
      exact Or.inl ⟨view, hview, hsource, hseq, htarget, hvalue⟩
    · cases List.mem_singleton.1 hview
      dsimp only at hseq htarget
      rw [if_pos htarget.symm] at hvalue
      exact Or.inr ⟨hseq.symm, htarget.symm, (Option.some.inj hvalue).symm⟩
  · rintro (⟨view, hview, hsource, hseq, rfl, hvalue⟩ | ⟨rfl, rfl, rfl⟩)
    · refine ⟨view, List.mem_append_left _ hview, hsource, hseq, rfl, ?_⟩
      rw [value?_attach label value hc.timed.sound, if_neg (hold hview), hvalue]
    · refine ⟨_, List.mem_append_right _ (List.mem_singleton_self _), rfl, rfl, rfl, ?_⟩
      rw [value?_attach label _ hc.timed.sound, if_pos rfl]

/-- Whoever sits at a node goes with it. -/
theorem sits_removeNode (hc : c.Timed) (hn' : n' ≠ root) :
    { c with graph := c.graph.removeNode n' }.Sits seq n x ↔ c.Sits seq n x ∧ n ≠ n' := by
  unfold Sits
  rw [hc.timeline_removeNode, value?_removeNode]
  constructor
  · rintro ⟨view, hview, hsource, hseq, htarget, hvalue⟩
    obtain ⟨hview, -⟩ := List.mem_filter.1 hview
    by_cases hn : n = n'
    · rw [if_pos hn] at hvalue
      cases hvalue
    · rw [if_neg hn] at hvalue
      exact ⟨⟨view, hview, hsource, hseq, htarget, hvalue⟩, hn⟩
  · rintro ⟨⟨view, hview, hsource, hseq, htarget, hvalue⟩, hn⟩
    refine ⟨view, List.mem_filter.2 ⟨hview, ?_⟩, hsource, hseq, htarget, by rwa [if_neg hn]⟩
    rw [hsource, htarget]
    simp [hn, Ne.symm hn']

/-- Something that happens to a member of a list. -/
inductive MemberEvent where
  /-- It is inserted at a node, with a value. -/
  | inserted (seq n : Nat) (value : Value)
  /-- It is removed. -/
  | removed (seq : Nat)

/-- The first container passes into the second one by insertions of elements and removals of
members. What happens last is listed first. -/
inductive Passes (c : Container) : List MemberEvent → Container → Prop where
  /-- Nothing happens. -/
  | start : c.Passes [] c
  /-- An element is inserted. -/
  | insert {events : List MemberEvent} {d : Container} (value : Value) (h : c.Passes events d) :
    c.Passes (.inserted d.nextSeq (d.attach .element value).1 value :: events)
      (d.attach .element value).2
  /-- A member is removed. -/
  | remove {events : List MemberEvent} {d : Container} {seq n : Nat} {value : Value}
    (h : c.Passes events d) (hsits : d.Sits seq n value) :
    c.Passes (.removed seq :: events) { d with graph := d.graph.removeNode n }

namespace Passes

variable {events events' : List MemberEvent}

theorem trans (h : c.Passes events d) (h' : d.Passes events' e) :
    c.Passes (events' ++ events) e := by
  induction h' with
  | start => exact h
  | insert value _ ih => exact ih.insert value
  | remove _ hsits ih => exact ih.remove hsits

/-- A list stays a list. -/
theorem formed (h : c.Passes events d) (hc : c.Formed) (hkind : c.kind = .list) :
    d.Formed ∧ d.kind = .list := by
  induction h with
  | start => exact ⟨hc, hkind⟩
  | insert value _ ih => exact ⟨(ih.1.step_insert ih.2 value).1, ih.2⟩
  | remove _ hsits ih => exact ⟨ih.1.removeNode (hsits.ne_root ih.1), ih.2⟩

/-- Rules and freezing are left alone. -/
theorem rest_eq (h : c.Passes events d) : d.frozen = c.frozen ∧ d.rules = c.rules := by
  induction h with
  | start => exact ⟨rfl, rfl⟩
  | insert value _ ih => exact ih
  | remove _ _ ih => exact ih

/-- Who is removed had a number that was given. -/
theorem removed_lt (h : c.Passes events d) (hc : c.Formed) (hkind : c.kind = .list)
    (hseq : .removed seq ∈ events) : seq < d.nextSeq := by
  induction h with
  | start => cases hseq
  | insert value _ ih =>
    obtain hhead | htail := List.mem_cons.1 hseq
    · cases hhead
    · exact Nat.lt_succ_of_lt (ih htail)
  | remove hpasses hsits ih =>
    obtain hhead | htail := List.mem_cons.1 hseq
    · cases hhead
      have hlt := hsits.lt (hpasses.formed hc hkind).1.timed
      exact hlt
    · exact ih htail

/-- Those who sit in a list are those who sat there and those who were inserted, less those who were
removed. Each has the value that it had or was inserted with. -/
theorem sits_iff (h : c.Passes events d) (hc : c.Formed) (hkind : c.kind = .list) :
    d.Sits seq n x ↔
      .removed seq ∉ events ∧ (c.Sits seq n x ∨ .inserted seq n x ∈ events) := by
  induction h with
  | start => simp
  | insert value hpasses ih =>
    rw [sits_attach (hpasses.formed hc hkind).1, ih]
    simp only [List.mem_cons, reduceCtorEq, false_or, MemberEvent.inserted.injEq]
    constructor
    · rintro (⟨hremoved, hthere⟩ | ⟨rfl, rfl, rfl⟩)
      · exact ⟨hremoved, hthere.imp_right Or.inr⟩
      · refine ⟨fun hremoved => ?_, Or.inr (Or.inl ⟨rfl, rfl, rfl⟩)⟩
        exact Nat.lt_irrefl _ (hpasses.removed_lt hc hkind hremoved)
    · rintro ⟨hremoved, hthere | hnew | hinserted⟩
      · exact Or.inl ⟨hremoved, Or.inl hthere⟩
      · exact Or.inr hnew
      · exact Or.inl ⟨hremoved, Or.inr hinserted⟩
  | remove hpasses hsits ih =>
    have hformed := (hpasses.formed hc hkind).1
    rw [sits_removeNode hformed.timed (hsits.ne_root hformed)]
    simp only [List.mem_cons, MemberEvent.removed.injEq, not_or, reduceCtorEq, false_or]
    constructor
    · rintro ⟨hold, hne⟩
      refine ⟨⟨?_, (ih.1 hold).1⟩, (ih.1 hold).2⟩
      rintro rfl
      exact hne (hold.node_eq hformed.timed hsits)
    · rintro ⟨⟨hne, hremoved⟩, hthere⟩
      have hold := ih.2 ⟨hremoved, hthere⟩
      refine ⟨hold, ?_⟩
      rintro rfl
      exact hne (hold.seq_eq hformed hsits)

end Passes

end GraphLang.Container
