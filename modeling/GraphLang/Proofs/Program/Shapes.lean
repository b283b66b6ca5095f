import GraphLang.Proofs.Program.Checks
import Mathlib.Data.List.Sort

/-!
# The shape of a node

The check of one node passes exactly if its children are those that its operation takes: every role
once, none that is not taken, all that are needed, and the positions of indexed roles without a gap.
-/

namespace GraphLang

namespace Role

/-- An indexed role is the one of its kind at its position. -/
theorem eq_atPosition_iff {family role : Role} {i : Nat} (hfamily : family.position?.isSome = true) :
    role = family.atPosition i ↔ role.sameFamily family = true ∧ role.position? = some i := by
  constructor
  · rintro rfl
    cases family <;> simp_all [atPosition, sameFamily, rank, position?]
  · rintro ⟨hrank, hposition⟩
    have hrank : role.rank = family.rank := by simpa [sameFamily] using hrank
    cases family <;> simp [position?] at hfamily <;>
      cases role <;> simp_all [rank, position?, atPosition]

end Role

/-- Only arguments, elements and statements are told apart by position. -/
theorem Op.position?_of_indexed {o : Op} {family : Role} (h : o.shape.indexed = some family) :
    family.position?.isSome = true := by
  cases o <;> simp [shape] at h <;> subst h <;> rfl

namespace Program

variable {p : Program} {n : Nat}

/-- An edge makes the second node a child of the first one, with that role. -/
def Joins (p : Program) (n c : Nat) (role : Role) : Prop := ∃ e, p.graph.edge? e = some ⟨n, c, role⟩

/-- The node has a child with that role. -/
def Fills (p : Program) (n : Nat) (role : Role) : Prop := ∃ c, p.Joins n c role

/-- The children of the node are those that the operation takes. -/
structure Shaped (p : Program) (n : Nat) (o : Op) : Prop where
  /-- No two edges from the node have one role. -/
  distinct : ∀ e e' edge edge', p.graph.edge? e = some edge → p.graph.edge? e' = some edge' →
    edge.source = n → edge'.source = n → edge.weight = edge'.weight → e = e'
  /-- Every role is one that the operation takes. -/
  accepted : ∀ role, p.Fills n role → o.shape.accepts role = true
  /-- Every role that the operation needs is filled. -/
  required : ∀ role ∈ o.shape.required, p.Fills n role
  /-- A guarded body has a handler or a closing part. -/
  guarded : ∀ name, o = .guarded name → p.Fills n .handler ∨ p.Fills n .finalizer
  /-- The positions of indexed roles are the numbers below some number, which is the one that the
  operation says, where it says one. -/
  positions : ∀ family, o.shape.indexed = some family →
    ∃ k, (∀ i, p.Fills n (family.atPosition i) ↔ i < k) ∧
      ∀ count, o.indexedCount = some count → k = count
  /-- The rules that the operation makes are in order. -/
  specs : ∀ spec ∈ o.ruleSpecs, spec.check = .ok ()

/-- The roles of the children of a node, in their order. -/
def childRoles (p : Program) (n : Nat) : List Role := (p.children n).map (·.1)

theorem mem_childRoles (hsound : p.graph.Sound) {role : Role} :
    role ∈ p.childRoles n ↔ p.Fills n role := by
  simp only [childRoles, List.mem_map, Prod.exists, mem_children, hsound.mem_ties]
  constructor
  · rintro ⟨_, c, hedge, rfl⟩
    exact ⟨c, hedge⟩
  · rintro ⟨c, hedge⟩
    exact ⟨role, c, hedge, rfl⟩

theorem nodup_childRoles_iff (hsound : p.graph.Sound) :
    (p.childRoles n).Nodup ↔
      ∀ e e' edge edge', p.graph.edge? e = some edge → p.graph.edge? e' = some edge' →
        edge.source = n → edge'.source = n → edge.weight = edge'.weight → e = e' := by
  have hperm : (p.childRoles n).Perm ((p.graph.outgoing n).map (·.2.weight)) := by
    have := (List.mergeSort_perm (p.graph.ties n) fun a b => a.1.le b.1).map (·.1)
    rwa [SlotGraph.ties, List.map_map] at this
  rw [hperm.nodup_iff, List.nodup_map_iff_inj_on (hsound.nodup_outgoing_pairs n)]
  constructor
  · intro h e e' edge edge' hedge hedge' hsource hsource' hrole
    have heq := h (e, edge) (hsound.mem_outgoing_iff.2 ⟨hedge, hsource⟩) (e', edge')
      (hsound.mem_outgoing_iff.2 ⟨hedge', hsource'⟩) hrole
    exact congrArg Prod.fst heq
  · rintro h ⟨e, edge⟩ hmem ⟨e', edge'⟩ hmem' hrole
    obtain ⟨hedge, hsource⟩ := hsound.mem_outgoing_iff.1 hmem
    obtain ⟨hedge', hsource'⟩ := hsound.mem_outgoing_iff.1 hmem'
    obtain rfl := h e e' edge edge' hedge hedge' hsource hsource' hrole
    rw [hedge] at hedge'
    cases hedge'
    rfl

/-! ### The single checks -/

/-- The roles pass if all are taken, none twice and none that was there before. -/
theorem roleErrors_eq_nil_iff {node : Node} {children : List (Role × Nat)} {seen : List Role} :
    (roleErrors n node children seen).1 = [] ↔
      (∀ role ∈ children.map (·.1), node.op.shape.accepts role = true ∧ role ∉ seen) ∧
        (children.map (·.1)).Nodup := by
  induction children generalizing seen with
  | nil => simp [roleErrors]
  | cons c children ih =>
    obtain ⟨role, c⟩ := c
    unfold roleErrors
    by_cases haccepts : node.op.shape.accepts role = true
    · by_cases htwice : role ∈ seen
      · simp [haccepts, htwice]
      · rw [if_neg (by simp [haccepts]), if_neg (by simpa using htwice), ih]
        simp only [List.map_cons, List.mem_cons, forall_eq_or_imp, List.mem_append, not_or,
          List.nodup_cons, List.not_mem_nil, or_false]
        constructor
        · rintro ⟨hrest, hnodup⟩
          exact ⟨⟨⟨haccepts, htwice⟩, fun r hr => ⟨(hrest r hr).1, (hrest r hr).2.1⟩⟩,
            fun hmem => (hrest role hmem).2.2 rfl, hnodup⟩
        · rintro ⟨⟨-, hrest⟩, hnew, hnodup⟩
          refine ⟨fun r hr => ⟨(hrest r hr).1, (hrest r hr).2, ?_⟩, hnodup⟩
          rintro rfl
          exact hnew hr
    · simp [haccepts]

theorem missingErrors_eq_nil_iff {node : Node} {seen : List Role} :
    missingErrors n node seen = [] ↔
      (∀ role ∈ node.op.shape.required, role ∈ seen) ∧
        ∀ name, node.op = .guarded name → Role.handler ∈ seen ∨ Role.finalizer ∈ seen := by
  unfold missingErrors
  dsimp only
  rw [List.append_eq_nil_iff, List.map_eq_nil_iff, List.filter_eq_nil_iff]
  refine and_congr (by simp) ?_
  split
  · rename_i name hop
    simp [hop, or_iff_not_imp_left]
  · rename_i hop
    simp only [true_iff]
    intro name hname
    exact absurd hname (hop name)

/-- Positions without a gap are the numbers up to their count. -/
theorem firstGap_eq_none_iff {start : Nat} {positions : List Nat} :
    firstGap start positions = none ↔ positions = List.range' start positions.length := by
  induction positions generalizing start with
  | nil => simp [firstGap]
  | cons i positions ih =>
    unfold firstGap
    by_cases hi : i = start
    · subst hi
      simp [List.range'_succ, ih]
    · simp [List.range'_succ, hi]

/-- The positions of the roles of one kind, ascending. -/
def positionsOf (family : Role) (seen : List Role) : List Nat :=
  ((seen.filter (·.sameFamily family)).filterMap (·.position?)).mergeSort

theorem mem_positionsOf {family : Role} {seen : List Role} {i : Nat}
    (hfamily : family.position?.isSome = true) :
    i ∈ positionsOf family seen ↔ family.atPosition i ∈ seen := by
  simp only [positionsOf, List.mem_mergeSort, List.mem_filterMap, List.mem_filter]
  constructor
  · rintro ⟨role, ⟨hseen, hsame⟩, hposition⟩
    rwa [← (Role.eq_atPosition_iff hfamily).2 ⟨hsame, hposition⟩]
  · intro hseen
    obtain ⟨hsame, hposition⟩ := (Role.eq_atPosition_iff (i := i) hfamily).1 rfl
    exact ⟨_, ⟨hseen, hsame⟩, hposition⟩

theorem nodup_positionsOf {family : Role} {seen : List Role}
    (hfamily : family.position?.isSome = true) (hseen : seen.Nodup) :
    (positionsOf family seen).Nodup := by
  rw [positionsOf, (List.mergeSort_perm _ _).nodup_iff, List.filterMap_filter]
  refine hseen.filterMap fun role role' i hi hi' => ?_
  rw [Option.mem_def] at hi hi'
  split at hi
  · rename_i hsame
    split at hi'
    · rename_i hsame'
      exact ((Role.eq_atPosition_iff hfamily).2 ⟨hsame, hi⟩).trans
        ((Role.eq_atPosition_iff hfamily).2 ⟨hsame', hi'⟩).symm
    · cases hi'
  · cases hi

/-- Of roles that differ, the positions of one kind are the numbers below `k` exactly if they have
no gap and there are `k` of them. -/
theorem positionsOf_eq_range_iff {family : Role} {seen : List Role} {k : Nat}
    (hfamily : family.position?.isSome = true) (hseen : seen.Nodup) :
    positionsOf family seen = List.range k ↔ ∀ i, family.atPosition i ∈ seen ↔ i < k := by
  constructor
  · intro h i
    rw [← mem_positionsOf hfamily, h, List.mem_range]
  · intro h
    have hsorted : (positionsOf family seen).Pairwise (· ≤ ·) := by
      rw [positionsOf]
      exact List.pairwise_mergeSort' (· ≤ ·) _
    refine List.Perm.eq_of_pairwise (fun _ _ _ _ => Nat.le_antisymm) hsorted
      List.pairwise_le_range ?_
    · refine (List.perm_ext_iff_of_nodup (nodup_positionsOf hfamily hseen) List.nodup_range).2 ?_
      intro i
      rw [mem_positionsOf hfamily, h, List.mem_range]

theorem positionErrors_eq_nil_iff {node : Node} {seen : List Role} (hseen : seen.Nodup) :
    positionErrors n node seen = [] ↔
      ∀ family, node.op.shape.indexed = some family →
        ∃ k, (∀ i, family.atPosition i ∈ seen ↔ i < k) ∧
          ∀ count, node.op.indexedCount = some count → k = count := by
  unfold positionErrors
  split
  · rename_i hnone
    simp [hnone]
  · rename_i family hindexed
    have hfamily := Op.position?_of_indexed hindexed
    have hpositions : ((seen.filter (·.sameFamily family)).filterMap (·.position?)).mergeSort =
        positionsOf family seen := rfl
    dsimp only
    rw [hpositions, List.append_eq_nil_iff]
    simp only [hindexed, Option.some.injEq, forall_eq', ← positionsOf_eq_range_iff hfamily hseen]
    constructor
    · rintro ⟨hgap, hcount⟩
      refine ⟨(positionsOf family seen).length, ?_, fun count hc => ?_⟩
      · rw [List.range_eq_range']
        apply firstGap_eq_none_iff.1
        cases hfirst : firstGap 0 (positionsOf family seen) with
        | none => rfl
        | some i => simp [hfirst] at hgap
      · simpa [hc] using hcount
    · rintro ⟨k, hrange, hcount⟩
      have hlength : (positionsOf family seen).length = k := by rw [hrange, List.length_range]
      have hgap : firstGap 0 (positionsOf family seen) = none := by
        rw [firstGap_eq_none_iff, hlength, ← List.range_eq_range', hrange]
      refine ⟨by rw [hgap], ?_⟩
      cases hc : node.op.indexedCount with
      | none => rfl
      | some count => simp [hlength, hcount count hc]

theorem specErrors_eq_nil_iff {node : Node} :
    specErrors node = [] ↔ ∀ spec ∈ node.op.ruleSpecs, spec.check = .ok () := by
  rw [specErrors, List.filterMap_eq_nil_iff]
  refine forall₂_congr fun spec _ => ?_
  cases hcheck : spec.check <;> simp

/-- In a valid program all descriptions of rules pass their checks. -/
theorem checks_of_valid (hvalid : p.validate = .ok []) {o : Op} (ho : p.op? n = some o) :
    ∀ spec ∈ o.ruleSpecs, spec.check = .ok () := by
  obtain ⟨node, hnode, rfl⟩ := Option.map_eq_some_iff.1 ho
  obtain ⟨hlocal, -, -⟩ := validate_eq_nil hvalid
  have hlive : n ∈ p.nodeIds := SlotGraph.mem_nodeIds.2 (hasNode_of_op? ho)
  have hshape := List.flatMap_eq_nil_iff.1 (List.append_eq_nil_iff.1 hlocal).2 n hlive
  unfold shapeErrors at hshape
  rw [hnode] at hshape
  simp only [List.append_eq_nil_iff] at hshape
  exact specErrors_eq_nil_iff.1 hshape.2

/-- A node passes its check exactly if it has the children that its operation takes. -/
theorem shapeErrors_eq_nil_iff (hsound : p.graph.Sound) {node : Node}
    (hnode : p.node? n = some node) : p.shapeErrors n = [] ↔ p.Shaped n node.op := by
  have hseen (hroles : (roleErrors n node (p.children n) []).1 = []) :
      (roleErrors n node (p.children n) []).2 = p.childRoles n := by
    simpa [childRoles] using (roleErrors_eq_nil hroles).1
  have hshape : p.shapeErrors n = [] ↔
      (roleErrors n node (p.children n) []).1 = [] ∧
        missingErrors n node (p.childRoles n) = [] ∧
        positionErrors n node (p.childRoles n) = [] ∧ specErrors node = [] := by
    unfold shapeErrors
    rw [hnode]
    simp only [List.append_eq_nil_iff, and_assoc]
    refine and_congr_right fun hroles => ?_
    rw [hseen hroles]
  have hroles : (roleErrors n node (p.children n) []).1 = [] ↔
      (∀ role ∈ p.childRoles n, node.op.shape.accepts role = true) ∧ (p.childRoles n).Nodup := by
    rw [roleErrors_eq_nil_iff]
    simp [childRoles]
  rw [hshape, hroles, missingErrors_eq_nil_iff, specErrors_eq_nil_iff]
  simp only [mem_childRoles hsound]
  constructor
  · rintro ⟨⟨haccepted, hnodup⟩, ⟨hrequired, hguarded⟩, hpositions, hspecs⟩
    rw [positionErrors_eq_nil_iff hnodup] at hpositions
    simp only [mem_childRoles hsound] at hpositions
    exact ⟨(nodup_childRoles_iff hsound).1 hnodup, haccepted, hrequired, hguarded, hpositions,
      hspecs⟩
  · intro h
    have hnodup := (nodup_childRoles_iff hsound).2 h.distinct
    refine ⟨⟨h.accepted, hnodup⟩, ⟨h.required, h.guarded⟩, ?_, h.specs⟩
    rw [positionErrors_eq_nil_iff hnodup]
    simp only [mem_childRoles hsound]
    exact h.positions

end Program

end GraphLang
