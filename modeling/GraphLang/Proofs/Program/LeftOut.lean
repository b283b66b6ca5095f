import GraphLang.Proofs.Program.Building

/-!
# Children that are left out

A builder leaves out a child that is no node, and the checks see only the children that are left.
They find fault with a node exactly if its operation does not take the roles that are left: if a
role is missing that it needs, or a position before one that is left, or the positions are not as
many as it says. What the operation can do without is left out silently.
-/

namespace GraphLang

namespace Op

variable {o : Op} {roles : List Role} {role : Role}

/-- The operation takes children of exactly these roles. -/
structure Takes (o : Op) (roles : List Role) : Prop where
  /-- No role is filled twice. -/
  distinct : roles.Nodup
  /-- Every role is one that the operation takes. -/
  accepted : ∀ role ∈ roles, o.shape.accepts role = true
  /-- Every role that the operation needs is filled. -/
  required : ∀ role ∈ o.shape.required, role ∈ roles
  /-- A guarded body has a handler or a closing part. -/
  guarded : ∀ name, o = .guarded name → Role.handler ∈ roles ∨ Role.finalizer ∈ roles
  /-- The positions of indexed roles are the numbers below some number, which is the one that the
  operation says, where it says one. -/
  positions : ∀ family, o.shape.indexed = some family →
    ∃ k, (∀ i, family.atPosition i ∈ roles ↔ i < k) ∧ ∀ count, o.indexedCount = some count → k = count
  /-- The rules that the operation makes are in order. -/
  specs : ∀ spec ∈ o.ruleSpecs, spec.check = .ok ()

/-- With children of these roles, a child of that role is not missed: another one has the role, or
the operation does not take it or need it, or its position comes after all others and after as many
as the operation says. -/
def Spares (o : Op) (roles : List Role) (role : Role) : Prop :=
  role ∈ roles ∨ o.shape.accepts role = false ∨ role ∈ o.shape.optional ∨
    ∃ family i k, o.shape.indexed = some family ∧ role = family.atPosition i ∧ k ≤ i ∧
      (∀ j, family.atPosition j ∈ roles ↔ j < k) ∧ ∀ count, o.indexedCount = some count → k = count

theorem Takes.perm {roles' : List Role} (h : o.Takes roles) (hperm : roles.Perm roles') :
    o.Takes roles' where
  distinct := hperm.nodup_iff.1 h.distinct
  accepted role hrole := h.accepted role (hperm.mem_iff.2 hrole)
  required role hrole := hperm.mem_iff.1 (h.required role hrole)
  guarded name ho := (h.guarded name ho).imp hperm.mem_iff.1 hperm.mem_iff.1
  positions := by simpa only [hperm.mem_iff] using h.positions
  specs := h.specs

/-- What an operation does not miss it spares. -/
theorem Takes.spares (h : o.Takes roles) (role : Role) : o.Spares roles role := by
  by_cases haccepts : o.shape.accepts role = true
  · simp only [Shape.accepts, Bool.or_eq_true, List.contains_iff_mem] at haccepts
    rcases haccepts with (hrequired | hoptional) | hindexed
    · exact Or.inl (h.required role hrequired)
    · exact Or.inr (Or.inr (Or.inl hoptional))
    · split at hindexed
      · next family hfamily =>
        have hposition := position?_of_indexed hfamily
        have hsame : role.sameFamily family = true := by
          rw [Role.sameFamily, beq_iff_eq] at hindexed ⊢
          exact hindexed.symm
        obtain ⟨i, hi⟩ : ∃ i, role.position? = some i := by
          cases family <;> simp [Role.position?] at hposition <;>
            cases role <;> simp_all [Role.sameFamily, Role.rank, Role.position?]
        have hrole := (Role.eq_atPosition_iff hposition).2 ⟨hsame, hi⟩
        obtain ⟨k, hk, hcount⟩ := h.positions family hfamily
        by_cases hlt : i < k
        · exact Or.inl (hrole ▸ (hk i).2 hlt)
        · exact Or.inr (Or.inr (Or.inr ⟨family, i, k, hfamily, hrole, by omega, hk, hcount⟩))
      · cases hindexed
  · exact Or.inr (Or.inl (by simpa using haccepts))

/-- A role that the operation needs is missed, unless another child has it. -/
theorem not_spares_of_required (hrequired : role ∈ o.shape.required) (hrole : role ∉ roles) :
    ¬o.Spares roles role := by
  rintro (hmem | haccepts | hoptional | ⟨family, i, -, hfamily, hposition, -⟩)
  · exact hrole hmem
  · simp [Shape.accepts, hrequired] at haccepts
  · cases o <;> simp [shape] at hrequired hoptional <;> simp_all
  · cases o <;> simp [shape] at hrequired hfamily <;> subst hfamily <;>
      simp [Role.atPosition] at hposition <;> simp_all

/-- A position before one that is filled, or below the number that the operation says, is missed. -/
theorem not_spares_of_position {family : Role} {i : Nat} (hfamily : o.shape.indexed = some family)
    (hrole : family.atPosition i ∉ roles)
    (hbefore : (∃ j, i < j ∧ family.atPosition j ∈ roles) ∨
      ∃ count, o.indexedCount = some count ∧ i < count) :
    ¬o.Spares roles (family.atPosition i) := by
  have hposition := position?_of_indexed hfamily
  have hat : ∀ j, (family.atPosition j).sameFamily family = true ∧
      (family.atPosition j).position? = some j := fun j => (Role.eq_atPosition_iff hposition).1 rfl
  rintro (hmem | haccepts | hoptional | ⟨family', i', k, hfamily', heq, hle, hk, hcount⟩)
  · exact hrole hmem
  · have hsame : family.sameFamily (family.atPosition i) = true := by
      have := (hat i).1
      rw [Role.sameFamily, beq_iff_eq] at this ⊢
      exact this.symm
    simp [Shape.accepts, hfamily, hsame] at haccepts
  · cases o <;> simp [shape] at hfamily hoptional
  · obtain rfl : family = family' := Option.some.inj (hfamily.symm.trans hfamily')
    obtain rfl : i = i' := Option.some.inj ((hat i).2.symm.trans (heq ▸ (hat i').2))
    rcases hbefore with ⟨j, hlt, hmem⟩ | ⟨count, hsays, hlt⟩
    · have := (hk j).1 hmem
      omega
    · have := hcount count hsays
      omega

end Op

namespace Program

variable {p q : Program} {n : Nat}

theorem shaped_iff_takes (hsound : p.graph.Sound) {o : Op} :
    p.Shaped n o ↔ o.Takes (p.childRoles n) := by
  constructor
  · intro h
    refine ⟨(nodup_childRoles_iff hsound).2 h.distinct, ?_, ?_, ?_, ?_, h.specs⟩
    all_goals simp only [mem_childRoles hsound]
    · exact h.accepted
    · exact h.required
    · exact h.guarded
    · exact h.positions
  · rintro ⟨hdistinct, haccepted, hrequired, hguarded, hpositions, hspecs⟩
    simp only [mem_childRoles hsound] at haccepted hrequired hguarded hpositions
    exact ⟨(nodup_childRoles_iff hsound).1 hdistinct, haccepted, hrequired, hguarded, hpositions,
      hspecs⟩

/-- The node of a call has the children that were there, in whatever is built from it. -/
theorem AddsNode.childRoles_perm {s : Program} {a : Node} {children : List (Role × Nat)}
    (h : p.AddsNode s n a children) (hq : s.Extends q) :
    q.graph.Sound ∧ q.node? n = some a ∧ q.graph.ties n = children.reverse ∧
      (q.childRoles n).Perm (children.map (·.1)) := by
  have hnode : s.node? n = some a := by rw [h.node?, if_pos rfl]
  obtain ⟨hsound, -, hkept⟩ := hq.keeps h.sound h.clean
  obtain ⟨hkeptNode, hkeptTies⟩ := hkept n (SlotGraph.hasNode_iff.2 ⟨a, hnode⟩)
  have hties : q.graph.ties n = children.reverse := by rw [hkeptTies, h.ties, if_pos rfl]
  refine ⟨hsound, hkeptNode.trans hnode, hties, ?_⟩
  have hchildren : (q.children n).Perm children := by
    rw [children_eq, hties]
    exact (List.mergeSort_perm _ _).trans children.reverse_perm
  exact hchildren.map _

/-- After a call that adds a node with children, whatever the builder does next, the check of the
node passes exactly if its operation takes the roles of the children that were there. A child that
was not there, or is the node itself, is always found if the operation cannot do without it. -/
theorem foreign_children (hp : p.BuiltUp) (o : Op) (f : FunctionId) (location : Option Location)
    (children : List (Role × Nat))
    (hq : ((Build.node o children).run ⟨p, f, location⟩).2.program.Extends q) :
    let n := ((Build.node o children).run ⟨p, f, location⟩).1
    let left := (p.present n children).map (·.1)
    (q.shapeErrors n = [] ↔ o.Takes left) ∧
      ∀ c ∈ children, p.graph.hasNode c.2 = false → c.2 = n ∨ ¬o.Spares left c.1 →
        ∃ e errors, q.validate = .ok (e :: errors) := by
  intro n left
  have hadds := addsNode hp.stacked.sound hp.stacked.clean o f location children
  obtain ⟨hsound, hnode, hties, hroles⟩ := hadds.childRoles_perm hq
  have hshape : q.shapeErrors n = [] ↔ o.Takes left := by
    rw [shapeErrors_eq_nil_iff hsound hnode, shaped_iff_takes hsound]
    exact ⟨fun h => h.perm hroles, fun h => h.perm hroles.symm⟩
  refine ⟨hshape, fun c hc _ hforeign => ?_⟩
  refine exists_error hsound fun hvalid => ?_
  have hwell := (validate_iff_wellFormed hsound).1 hvalid
  rcases hforeign with hself | hmissed
  · -- A node that is its own child is a cycle.
    have htie : c ∈ q.graph.ties n := by
      rw [hties, List.mem_reverse]
      exact List.mem_filter.2 ⟨hc, by simp [hself, n]⟩
    obtain ⟨e, hedge⟩ := hsound.mem_ties.1 htie
    exact hwell.acyclic n (.single ⟨e, _, hedge, rfl, hself⟩)
  · have htakes : o.Takes left := by
      refine Op.Takes.perm ((shaped_iff_takes hsound).1 (hwell.shaped n o ?_)) hroles
      rw [op?, hnode]
      rfl
    exact hmissed (htakes.spares c.1)

/-- A program with one literal, in no body yet. -/
def oneLiteral : Program := ((Build.literal (.int 1)).run ⟨new "units", mainId, none⟩).2.program

theorem builtUp_oneLiteral : oneLiteral.BuiltUp :=
  ⟨"units", Build.adds_node _ _ ⟨new "units", mainId, none⟩⟩

/-- No unit in which a list got a foreign element before the literal, or the literal a foreign
index, is valid. -/
theorem missed_children :
    (∀ q, ((Build.list [99, 0]).run ⟨oneLiteral, mainId, none⟩).2.program.Extends q →
      ∃ e errors, q.validate = .ok (e :: errors)) ∧
    ∀ q, ((Build.index 0 99).run ⟨oneLiteral, mainId, none⟩).2.program.Extends q →
      ∃ e errors, q.validate = .ok (e :: errors) := by
  have hforeign : oneLiteral.graph.hasNode 99 = false := by decide +kernel
  constructor
  · intro q hq
    have hchildren := (foreign_children builtUp_oneLiteral .list mainId none
      [(.element 0, 99), (.element 1, 0)] hq).2
    refine hchildren (.element 0, 99) List.mem_cons_self hforeign (Or.inr ?_)
    have hleft : (oneLiteral.present 1 [(.element 0, 99), (.element 1, 0)]).map (·.1) =
        [.element 1] := by decide +kernel
    have hmissed : ¬Op.list.Spares [.element 1] (Role.atPosition (.element 0) 0) :=
      Op.not_spares_of_position rfl (by decide) (Or.inl ⟨1, by decide, by decide⟩)
    exact hleft ▸ hmissed
  · intro q hq
    have hchildren := (foreign_children builtUp_oneLiteral .index mainId none
      [(.target, 0), (.index, 99)] hq).2
    refine hchildren (.index, 99) (by decide) hforeign (Or.inr ?_)
    have hleft : (oneLiteral.present 1 [(.target, 0), (.index, 99)]).map (·.1) = [.target] := by
      decide +kernel
    exact hleft ▸ Op.not_spares_of_required (by decide) (by decide)

/-- A foreign value to return and a foreign last element are left out, and both units are valid. -/
theorem spared_children :
    (∃ p, ofBody "returns" (Build.leave (some 99)) = .ok p ∧ p.validate = .ok [] ∧
      (new "returns").graph.hasNode 99 = false) ∧
    ∃ p, ofBody "lists" (do Build.list [← Build.literal (.int 1), 99]) = .ok p ∧ p.validate = .ok [] ∧
      oneLiteral.graph.hasNode 99 = false :=
  ⟨⟨_, rfl, by cbv, by decide +kernel⟩, ⟨_, rfl, by cbv, by decide +kernel⟩⟩

end Program

end GraphLang
