import GraphLang.Program.Basic
import GraphLang.Program.Validation
import GraphLang.Proofs.Search
import GraphLang.Proofs.SlotGraph.Acyclic
import GraphLang.Proofs.SlotGraph.Ties
import Mathlib.Data.List.Nodup
import Mathlib.Logic.Relation

/-!
# Children of nodes

The children of a node are its ties in the graph of the program. Where no two children have one
role, the roles say which child is meant, and the children in the order of their roles do not
depend on the order in which they were connected.
-/

namespace GraphLang

namespace Role

theorem le_trans {a b c : Role} (hab : a.le b = true) (hbc : b.le c = true) : a.le c = true := by
  simp only [le, Bool.or_eq_true, Bool.and_eq_true, decide_eq_true_eq, beq_iff_eq] at *
  omega

theorem le_total (a b : Role) : (a.le b || b.le a) = true := by
  simp only [le, Bool.or_eq_true, Bool.and_eq_true, decide_eq_true_eq, beq_iff_eq]
  omega

/-- The kind and the position make the role. -/
theorem eq_of_rank {a b : Role} (hrank : a.rank = b.rank)
    (hposition : a.position?.getD 0 = b.position?.getD 0) : a = b := by
  cases a <;> cases b <;> simp [rank, position?] at hrank hposition ⊢ <;> exact hposition

theorem le_antisymm {a b : Role} (hab : a.le b = true) (hba : b.le a = true) : a = b := by
  simp only [le, Bool.or_eq_true, Bool.and_eq_true, decide_eq_true_eq, beq_iff_eq] at hab hba
  exact eq_of_rank (by omega) (by omega)

end Role

namespace Program

variable {p : Program} {n c root : Nat} {role : Role}

theorem hasNode_of_op? {o : Op} (h : p.op? n = some o) : p.graph.hasNode n = true := by
  obtain ⟨a, ha, -⟩ := Option.map_eq_some_iff.1 h
  exact SlotGraph.hasNode_iff.2 ⟨a, ha⟩

theorem exists_op? (h : p.graph.hasNode n = true) : ∃ o, p.op? n = some o := by
  obtain ⟨a, ha⟩ := SlotGraph.hasNode_iff.1 h
  exact ⟨a.op, Option.map_eq_some_iff.2 ⟨a, ha, rfl⟩⟩

theorem child?_eq (p : Program) (n : Nat) (role : Role) :
    p.child? n role = ((p.graph.ties n).find? fun t => t.1 == role).map (·.2) := by
  rw [child?, roleEdge?, SlotGraph.ties, List.find?_map, Option.map_map]
  rfl

theorem children_eq (p : Program) (n : Nat) :
    p.children n = (p.graph.ties n).mergeSort fun a b => a.1.le b.1 := rfl

theorem mem_children {t : Role × Nat} : t ∈ p.children n ↔ t ∈ p.graph.ties n := by
  rw [children_eq, List.mem_mergeSort]

theorem pairwise_children (p : Program) (n : Nat) :
    (p.children n).Pairwise fun a b => a.1.le b.1 = true := by
  rw [children_eq]
  apply List.pairwise_mergeSort
  · intro a b c
    exact Role.le_trans
  · intro a b
    exact Role.le_total a.1 b.1

theorem mem_ties_of_child? (h : p.child? n role = some c) : (role, c) ∈ p.graph.ties n := by
  rw [child?_eq] at h
  obtain ⟨⟨role', c'⟩, hfind, rfl⟩ := Option.map_eq_some_iff.1 h
  have hrole := List.find?_some hfind
  rw [beq_iff_eq] at hrole
  exact hrole ▸ List.mem_of_find?_eq_some hfind

theorem exists_child? (h : (role, c) ∈ p.graph.ties n) : ∃ c', p.child? n role = some c' := by
  rw [child?_eq]
  cases hfind : (p.graph.ties n).find? fun t => t.1 == role with
  | none => exact absurd (List.find?_eq_none.1 hfind _ h) (by simp)
  | some t => exact ⟨t.2, rfl⟩

theorem mem_ties_of_indexed {t : Role × Nat} {family : Role} (h : t ∈ p.indexed n family) :
    t ∈ p.graph.ties n :=
  mem_children.1 (List.mem_filter.1 h).1

/-- No two children of the node have one role. -/
def RolesDiffer (p : Program) (n : Nat) : Prop :=
  ((p.graph.ties n).map (·.1)).Nodup

theorem RolesDiffer.eq {t t' : Role × Nat} (h : p.RolesDiffer n) (ht : t ∈ p.graph.ties n)
    (ht' : t' ∈ p.graph.ties n) (hrole : t.1 = t'.1) : t = t' :=
  List.inj_on_of_nodup_map h ht ht' hrole

theorem RolesDiffer.child?_iff (h : p.RolesDiffer n) :
    p.child? n role = some c ↔ (role, c) ∈ p.graph.ties n := by
  refine ⟨mem_ties_of_child?, fun hc => ?_⟩
  obtain ⟨c', hc'⟩ := exists_child? hc
  have := h.eq hc (mem_ties_of_child? hc') rfl
  rw [hc']
  exact congrArg some (congrArg Prod.snd this).symm

/-- Where the roles differ, there is one way to put the children in order. -/
theorem RolesDiffer.children_eq (h : p.RolesDiffer n) {l : List (Role × Nat)}
    (hsorted : l.Pairwise fun a b => a.1.le b.1 = true) (hperm : l.Perm (p.graph.ties n)) :
    p.children n = l := by
  refine List.Perm.eq_of_pairwise ?_ (p.pairwise_children n) hsorted
    ((List.mergeSort_perm _ _).trans hperm.symm)
  intro a b ha hb hab hba
  exact h.eq (mem_children.1 ha) (hperm.subset hb) (Role.le_antisymm hab hba)

/-- The ties of a node decide its children. -/
theorem child?_congr {q : Program} (h : q.graph.ties n = p.graph.ties n) (role : Role) :
    q.child? n role = p.child? n role := by
  rw [child?_eq, child?_eq, h]

theorem children_congr {q : Program} (h : q.graph.ties n = p.graph.ties n) :
    q.children n = p.children n := by
  rw [Program.children_eq, Program.children_eq, h]

/-! ### The nodes of a body -/

/-- A node of a body is found from the root or through its parent. -/
theorem mem_subtree (hlive : p.graph.hasNode n = true)
    (hfrom : n ∈ [root] ∨ ∃ m ∈ p.subtree root, n ∈ (p.children m).map (·.2)) :
    n ∈ p.subtree root := by
  have hpoints : ∀ m, p.graph.hasNode m = true → m ∈ List.range p.graph.slots.size := by
    intro m hm
    obtain ⟨a, ha⟩ := SlotGraph.hasNode_iff.1 hm
    exact List.mem_range.2 (SlotGraph.node?_lt ha)
  have hfuel : unseen (List.range p.graph.slots.size) (∅ : Std.HashSet Nat) <
      p.graph.slots.size + 1 := by
    rw [unseen_empty, List.length_range]
    exact Nat.lt_succ_self _
  rcases preorder_closed hpoints hfuel hlive hfrom with hseen | hfound
  · simp at hseen
  · exact hfound

theorem root_mem_subtree (hlive : p.graph.hasNode root = true) : root ∈ p.subtree root :=
  mem_subtree hlive (Or.inl List.mem_cons_self)

theorem child_mem_subtree (hsound : p.graph.Sound) (hn : n ∈ p.subtree root)
    (hc : (role, c) ∈ p.graph.ties n) : c ∈ p.subtree root :=
  mem_subtree (hsound.hasNode_of_mem_ties hc).2
    (Or.inr ⟨n, hn, List.mem_map.2 ⟨_, mem_children.2 hc, rfl⟩⟩)

theorem hasNode_of_mem_subtree (hn : n ∈ p.subtree root) : p.graph.hasNode n = true :=
  (mem_preorder hn).1

end Program

/-! ### What the checks of a program give

A program that passes all checks has a body for every function and a function for every function
node, its nodes have all the children that they need and no two with one role, every node has at
most one parent, and loops are left only inside loops. -/

namespace FunctionTable

theorem mem_of_get? {t : FunctionTable} {f : FunctionId} {d : FunctionDef}
    (h : t.get? f = some d) : (f, d) ∈ t := by
  induction t with
  | nil => cases h
  | cons x t ih =>
    obtain ⟨id, d'⟩ := x
    unfold get? at h
    by_cases hid : (id == f) = true
    · rw [if_pos hid] at h
      cases h
      rw [beq_iff_eq] at hid
      exact hid ▸ List.mem_cons_self
    · rw [if_neg hid] at h
      exact List.mem_cons_of_mem _ (ih h)

end FunctionTable

namespace Program

variable {p : Program} {n : Nat}

/-- One step down a body: to a child, with whether it stands inside a loop. -/
def Nests (p : Program) (x y : Nat × Bool) : Prop :=
  ∃ o role, p.op? x.1 = some o ∧ (role, y.1) ∈ p.graph.ties x.1 ∧
    y.2 = (x.2 || (o.isLoop && role == .body))

/-- The node is part of the body of a function, inside a loop or not. -/
def Inside (p : Program) (n : Nat) (loop : Bool) : Prop :=
  ∃ f d root, p.function? f = some d ∧ d.body = some root ∧
    Relation.ReflTransGen p.Nests (root, false) (n, loop)

theorem Inside.child {b : Bool} (h : p.Inside n b) {o : Op} (ho : p.op? n = some o) {role : Role}
    {c : Nat} (hc : (role, c) ∈ p.graph.ties n) :
    p.Inside c (b || (o.isLoop && role == .body)) := by
  obtain ⟨f, d, root, hd, hroot, hbelow⟩ := h
  exact ⟨f, d, root, hd, hroot, hbelow.tail ⟨o, role, ho, hc, rfl⟩⟩

/-- What holds of a program that passes all checks. -/
structure Checked (p : Program) : Prop where
  /-- Every function has a body. -/
  body : ∀ {f d}, (f, d) ∈ p.functions → ∃ root, d.body = some root ∧ p.graph.hasNode root = true
  /-- Every function node has its function. -/
  registered : ∀ {n f}, p.op? n = some (.function f) → ∃ d, p.function? f = some d
  /-- Parent and child belong to one function. -/
  owner : ∀ {e edge a b}, p.graph.edge? e = some edge → p.node? edge.source = some a →
    p.node? edge.target = some b → b.owner = a.owner
  /-- A node has at most one parent. -/
  single : p.graph.SingleParents
  /-- No two children of a node have one role. -/
  roles : ∀ n, p.RolesDiffer n
  /-- Every node has the children that it needs. -/
  required : ∀ {n o role}, p.op? n = some o → role ∈ o.shape.required →
    ∃ c, (role, c) ∈ p.graph.ties n
  /-- Loops are left only inside loops. -/
  loops : ∀ {n o}, p.Inside n false → p.op? n = some o → loopKeyword? o = none

theorem validate_eq_nil (h : p.validate = .ok []) :
    p.localErrors = [] ∧ p.cycleErrors = .ok [] ∧ p.loopErrors = [] := by
  unfold validate at h
  cases hlocal : p.localErrors with
  | cons e errors =>
    rw [hlocal] at h
    cases h
  | nil =>
    rw [hlocal] at h
    cases hcycle : p.cycleErrors with
    | error n =>
      rw [hcycle] at h
      cases h
    | ok errors =>
      rw [hcycle] at h
      cases errors with
      | cons e errors => cases h
      | nil => exact ⟨rfl, rfl, Except.ok.inj h⟩

/-- Where no cycle is reported, there is a topological order. -/
theorem cycleErrors_eq_ok_nil_iff :
    p.cycleErrors = .ok [] ↔ ∃ order, p.graph.topologicalOrder = .ok order := by
  unfold cycleErrors
  rcases p.graph.topologicalOrder with (n | n) | order <;> simp

/-! ### Functions and edges -/

theorem body_of_functionErrors (h : p.functionErrors = []) {f : FunctionId} {d : FunctionDef}
    (hd : (f, d) ∈ p.functions) : ∃ root, d.body = some root ∧ p.graph.hasNode root = true := by
  have hdef : d ∈ p.functionDefs := List.mem_map.2 ⟨_, hd, rfl⟩
  have hnone := List.filterMap_eq_nil_iff.1 (List.append_eq_nil_iff.1 h).1 d hdef
  cases hbody : d.body with
  | none => simp [hbody] at hnone
  | some root =>
    refine ⟨root, rfl, ?_⟩
    simpa [hbody] using hnone

theorem registered_of_functionErrors (h : p.functionErrors = []) {f : FunctionId}
    (hop : p.op? n = some (.function f)) : ∃ d, p.function? f = some d := by
  have hlive : n ∈ p.nodeIds := by
    rw [nodeIds, SlotGraph.mem_nodeIds, SlotGraph.hasNode_iff]
    obtain ⟨a, ha, -⟩ := Option.map_eq_some_iff.1 hop
    exact ⟨a, ha⟩
  have hnone := List.filterMap_eq_nil_iff.1 (List.append_eq_nil_iff.1 h).2 n hlive
  rw [hop] at hnone
  rw [← Option.ne_none_iff_exists']
  simpa using hnone

theorem owner_of_edgeErrors (h : p.edgeErrors = []) {e : Nat} {edge : Edge Role} {a b : Node}
    (hedge : p.graph.edge? e = some edge) (ha : p.node? edge.source = some a)
    (hb : p.node? edge.target = some b) : b.owner = a.owner := by
  have hmem : (edge.source, edge.target, edge.weight) ∈ p.edges := by
    refine List.mem_map.2 ⟨(e, edge), ?_, rfl⟩
    exact SlotGraph.mem_edgesOf.2 ⟨List.mem_range.2 (SlotGraph.edge?_lt hedge), hedge⟩
  have hnone := List.filterMap_eq_nil_iff.1 (List.append_eq_nil_iff.1 h).1 _ hmem
  simp only [ha, hb] at hnone
  have hsame : a.owner = b.owner := by simpa using hnone
  exact hsame.symm

theorem countP_edges (hsound : p.graph.Sound) (n : Nat) :
    p.edges.countP (fun e => e.2.1 == n) = (p.graph.incomingIds n).length := by
  rw [← hsound.countP_target, edges, List.countP_map]
  rfl

theorem single_of_edgeErrors (hsound : p.graph.Sound) (h : p.edgeErrors = []) :
    p.graph.SingleParents := by
  intro e e' edge edge' hedge hedge' htarget
  obtain ⟨a, ha⟩ := SlotGraph.hasNode_iff.1 (hsound.hasNode_target hedge)
  have hmem : edge.target ∈ List.range p.graph.slots.size :=
    List.mem_range.2 (SlotGraph.node?_lt ha)
  have hnone := List.filterMap_eq_nil_iff.1 (List.append_eq_nil_iff.1 h).2 _ hmem
  have hcount : p.edges.countP (fun e => e.2.1 == edge.target) ≤ 1 := by simpa using hnone
  rw [countP_edges hsound] at hcount
  have he := (hsound.mem_incoming edge.target e).2 ⟨edge, hedge, rfl⟩
  have he' := (hsound.mem_incoming edge.target e').2 ⟨edge', hedge', htarget⟩
  have hpos := List.length_pos_of_mem he
  obtain ⟨only, honly⟩ := List.length_eq_one_iff.1 (Nat.le_antisymm hcount hpos)
  rw [honly, List.mem_singleton] at he he'
  exact he'.trans he.symm

/-! ### Shapes -/

/-- Without a fault, every role is taken once, and all of them are noted. -/
theorem roleErrors_eq_nil {node : Node} {children : List (Role × Nat)} {seen : List Role}
    (h : (roleErrors n node children seen).1 = []) :
    (roleErrors n node children seen).2 = seen ++ children.map (·.1) ∧
      (seen.Nodup → (seen ++ children.map (·.1)).Nodup) := by
  induction children generalizing seen with
  | nil => simp [roleErrors]
  | cons c children ih =>
    obtain ⟨role, c⟩ := c
    unfold roleErrors at h ⊢
    by_cases haccepts : (!node.op.shape.accepts role) = true
    · simp [haccepts] at h
    · rw [if_neg haccepts] at h ⊢
      by_cases htwice : seen.contains role = true
      · simp only [htwice, if_true] at h
        cases h
      · rw [if_neg htwice] at h ⊢
        obtain ⟨hseen, hnodup⟩ := ih h
        refine ⟨by simpa using hseen, fun hold => ?_⟩
        have hnew : role ∉ seen := by simpa using htwice
        simpa using hnodup (List.nodup_append.2 ⟨hold, by simp, by
          rintro a ha b hb rfl
          exact hnew (List.mem_singleton.1 hb ▸ ha)⟩)

/-- A node without a fault has all the roles that it needs, each once. -/
theorem roles_of_shapeErrors {node : Node} (hnode : p.node? n = some node)
    (h : p.shapeErrors n = []) :
    ((p.children n).map (·.1)).Nodup ∧
      ∀ role ∈ node.op.shape.required, role ∈ (p.children n).map (·.1) := by
  unfold shapeErrors at h
  rw [hnode] at h
  simp only [List.append_eq_nil_iff] at h
  obtain ⟨⟨⟨hroles, hmissing⟩, -⟩, -⟩ := h
  obtain ⟨hseen, hnodup⟩ := roleErrors_eq_nil hroles
  rw [List.nil_append] at hseen hnodup
  rw [hseen] at hmissing
  refine ⟨hnodup List.nodup_nil, fun role hrole => ?_⟩
  have hrequired := List.map_eq_nil_iff.1 (List.append_eq_nil_iff.1 hmissing).1
  have hfound := List.filter_eq_nil_iff.1 hrequired role hrole
  simpa using hfound

/-! ### Loops -/

/-- A walk over a body is under way: the nodes visited and those on the stack differ, and each of
them is the root or a child of a node visited. -/
structure Walking (p : Program) (rank : Nat → Nat) (root : Nat) (visited : List Nat)
    (stack : List (Nat × Bool)) : Prop where
  nodup : (visited ++ stack.map (·.1)).Nodup
  live : ∀ n ∈ visited ++ stack.map (·.1), p.graph.hasNode n = true
  found : ∀ n ∈ visited ++ stack.map (·.1), n = root ∨
    (rank root < rank n ∧ ∃ m ∈ visited, n ∈ p.graph.successors m)

section Walking

variable {rank : Nat → Nat} {root : Nat} {visited : List Nat} {stack : List (Nat × Bool)}

/-- The children of a node on the stack are new, since each of them has one parent. -/
theorem Walking.step (hsound : p.graph.Sound) (hsingle : p.graph.SingleParents)
    (hrank : ∀ n m, m ∈ p.graph.successors n → rank n < rank m) {b : Bool}
    (h : p.Walking rank root visited ((n, b) :: stack)) {next : List (Nat × Bool)}
    (hnext : (next.map (·.1)).Perm (p.graph.successors n)) :
    p.Walking rank root (n :: visited) (next ++ stack) := by
  have hn : n ∈ visited ++ ((n, b) :: stack).map (·.1) := by simp
  have hroot : rank root ≤ rank n := by
    rcases h.found n hn with rfl | hlt
    · exact Nat.le_refl _
    · exact Nat.le_of_lt hlt.1
  have hnew : ∀ c ∈ p.graph.successors n, c ∉ visited ++ ((n, b) :: stack).map (·.1) := by
    intro c hc hold
    have hgrows := hrank n c hc
    rcases h.found c hold with rfl | ⟨-, m, hm, hcm⟩
    · omega
    · have hvisited : n ∈ visited := hsingle.parent_eq hsound hc hcm ▸ hm
      have hdisjoint := (List.nodup_append.1 h.nodup).2.2 n hvisited n (by simp)
      exact hdisjoint rfl
  have hperm : (n :: visited ++ (next ++ stack).map (·.1)).Perm
      (p.graph.successors n ++ (visited ++ ((n, b) :: stack).map (·.1))) := by
    rw [List.map_append, List.map_cons]
    calc n :: visited ++ (next.map (·.1) ++ stack.map (·.1))
        _ = (n :: visited) ++ next.map (·.1) ++ stack.map (·.1) := by rw [List.append_assoc]
        _ |>.Perm (next.map (·.1) ++ (n :: visited) ++ stack.map (·.1)) :=
          List.perm_append_comm.append_right _
        _ |>.Perm (p.graph.successors n ++ (n :: visited) ++ stack.map (·.1)) :=
          (hnext.append_right _).append_right _
        _ |>.Perm (p.graph.successors n ++ (visited ++ n :: stack.map (·.1))) := by
          rw [List.append_assoc]
          exact List.perm_middle.symm.append_left _
  refine ⟨hperm.nodup_iff.2 (List.nodup_append.2 ⟨hsingle.nodup_successors hsound n, h.nodup, ?_⟩),
    fun m hm => ?_, fun m hm => ?_⟩
  · rintro c hc d hd rfl
    exact hnew c hc hd
  · rcases List.mem_append.1 (hperm.subset hm) with hm | hm
    · obtain ⟨e, edge, hedge, -, rfl⟩ := hsound.mem_successors.1 hm
      exact hsound.hasNode_target hedge
    · exact h.live m hm
  · rcases List.mem_append.1 (hperm.subset hm) with hm | hm
    · exact Or.inr ⟨Nat.lt_of_le_of_lt hroot (hrank n m hm), n, List.mem_cons_self, hm⟩
    · rcases h.found m hm with heq | ⟨hlt, k, hk, hmk⟩
      · exact Or.inl heq
      · exact Or.inr ⟨hlt, k, List.mem_cons_of_mem n hk, hmk⟩

theorem Walking.length_le (h : p.Walking rank root visited stack) :
    visited.length ≤ p.graph.slots.size := by
  have hnodup := (List.nodup_append.1 h.nodup).1
  have hsub : visited ⊆ List.range p.graph.slots.size := by
    intro n hn
    obtain ⟨a, ha⟩ := SlotGraph.hasNode_iff.1 (h.live n (List.mem_append_left _ hn))
    exact List.mem_range.2 (SlotGraph.node?_lt ha)
  simpa using (List.subperm_of_subset hnodup hsub).length_le

/-- A walk with enough fuel that finds no fault comes to everything below its stack. -/
theorem Walking.sound (hsound : p.graph.Sound) (hsingle : p.graph.SingleParents)
    (hrank : ∀ n m, m ∈ p.graph.successors n → rank n < rank m) {fuel : Nat}
    (h : p.Walking rank root visited stack) (hfuel : p.graph.slots.size < fuel + visited.length)
    (herrors : p.loopErrorsFrom fuel stack = []) {x : Nat × Bool} (hx : x ∈ stack) {m : Nat} {o : Op}
    (hbelow : Relation.ReflTransGen p.Nests x (m, false)) (ho : p.op? m = some o) :
    loopKeyword? o = none := by
  induction fuel generalizing visited stack x with
  | zero =>
    have := h.length_le
    omega
  | succ fuel ih =>
    cases stack with
    | nil => cases hx
    | cons y stack =>
      obtain ⟨n, b⟩ := y
      have hn : n ∈ visited ++ ((n, b) :: stack).map (·.1) := by simp
      obtain ⟨node, hnode⟩ := SlotGraph.hasNode_iff.1 (h.live n hn)
      have hnode : p.node? n = some node := hnode
      unfold loopErrorsFrom at herrors
      rw [hnode] at herrors
      obtain ⟨hhere, hrest⟩ := List.append_eq_nil_iff.1 herrors
      have hnext : ((p.graph.outgoing n).map fun x =>
          (x.2.target, b || (node.op.isLoop && x.2.weight == .body))) =
          (p.graph.ties n).map fun t => (t.2, b || (node.op.isLoop && t.1 == .body)) := by
        rw [SlotGraph.ties, List.map_map]
        rfl
      have hperm : ((((p.graph.outgoing n).map fun x =>
          (x.2.target, b || (node.op.isLoop && x.2.weight == .body))).reverse).map (·.1)).Perm
          (p.graph.successors n) := by
        rw [hnext, List.map_reverse, List.map_map, SlotGraph.successors_eq]
        exact List.reverse_perm _
      have hwalk := h.step hsound hsingle hrank hperm
      have hgo := @ih _ _ hwalk (by rw [List.length_cons]; omega) hrest
      rcases List.mem_cons.1 hx with rfl | hx
      · rcases Relation.ReflTransGen.cases_head hbelow with heq | ⟨⟨c, b'⟩, hstep, hbelow⟩
        · cases heq
          rw [op?, hnode] at ho
          cases ho
          cases hkeyword : loopKeyword? node.op with
          | none => rfl
          | some keyword => simp [hkeyword] at hhere
        · obtain ⟨o', role, ho', hrole, hb'⟩ := hstep
          have hop : p.op? n = some node.op := by rw [op?, hnode]; rfl
          rw [hop] at ho'
          cases ho'
          refine hgo (List.mem_append_left _ (List.mem_reverse.2 ?_)) hbelow
          rw [hnext]
          exact List.mem_map.2 ⟨(role, c), hrole, Prod.ext rfl hb'.symm⟩
      · exact hgo (List.mem_append_right _ hx) hbelow

end Walking

/-- A program that passes all checks. -/
theorem checked_of_validate (hsound : p.graph.Sound) (h : p.validate = .ok []) : p.Checked := by
  obtain ⟨hlocal, hcycle, hloop⟩ := validate_eq_nil h
  obtain ⟨hfirst, hshape⟩ := List.append_eq_nil_iff.1 hlocal
  obtain ⟨hfunction, hedge⟩ := List.append_eq_nil_iff.1 hfirst
  have hsingle := single_of_edgeErrors hsound hedge
  have hshapes {n : Nat} {node : Node} (hnode : p.node? n = some node) :=
    roles_of_shapeErrors hnode (List.flatMap_eq_nil_iff.1 hshape n
      (SlotGraph.mem_nodeIds.2 (SlotGraph.hasNode_iff.2 ⟨node, hnode⟩)))
  have hperm (n : Nat) : ((p.children n).map (·.1)).Perm ((p.graph.ties n).map (·.1)) :=
    (List.mergeSort_perm _ _).map _
  refine ⟨body_of_functionErrors hfunction, registered_of_functionErrors hfunction,
    owner_of_edgeErrors hedge, hsingle, fun n => ?_, ?_, ?_⟩
  · cases hnode : p.node? n with
    | none =>
      rw [RolesDiffer, SlotGraph.ties_of_vacant hnode]
      exact List.nodup_nil
    | some node => exact (hperm n).nodup_iff.1 (hshapes hnode).1
  · intro n o role ho hrole
    obtain ⟨node, hnode, rfl⟩ := Option.map_eq_some_iff.1 ho
    obtain ⟨⟨_, c⟩, hc, rfl⟩ :=
      List.mem_map.1 ((hperm n).subset ((hshapes hnode).2 role hrole))
    exact ⟨c, hc⟩
  · rintro n o ⟨f, d, root, hd, hroot, hbelow⟩ ho
    obtain ⟨order, horder⟩ := cycleErrors_eq_ok_nil_iff.1 hcycle
    obtain ⟨rank, hrank⟩ := hsound.exists_rank horder
    have hmem := FunctionTable.mem_of_get? hd
    obtain ⟨root', hroot', hlive⟩ := body_of_functionErrors hfunction hmem
    rw [hroot] at hroot'
    cases hroot'
    have hwalk : p.Walking rank root [] [(root, false)] := by
      refine ⟨by simp, ?_, ?_⟩ <;> intro m hm <;> simp at hm <;> subst hm
      · exact hlive
      · exact Or.inl rfl
    have herrors := List.flatMap_eq_nil_iff.1 hloop d (List.mem_map.2 ⟨_, hmem, rfl⟩)
    rw [hroot] at herrors
    exact hwalk.sound hsound hsingle hrank (by simp; omega) herrors (by simp) hbelow ho

/-! ### A small program -/

/-- A program that calls a function in a guarded body. The function raises a number, and the handler
gives the exception that was caught. -/
def guardedCall : Program :=
  let (_, g) := SlotGraph.empty.addNode ⟨.guarded (some "e"), 0, none⟩
  let (_, g) := g.addNode ⟨.call, 0, none⟩
  let (_, g) := g.addNode ⟨.function 1, 0, none⟩
  let (_, g) := g.addNode ⟨.var "e", 0, none⟩
  let (_, g) := g.addNode ⟨.raise, 1, none⟩
  let (_, g) := g.addNode ⟨.literal (.int 1), 1, none⟩
  let (_, g) := g.addEdge 0 1 .body
  let (_, g) := g.addEdge 1 2 .callee
  let (_, g) := g.addEdge 0 3 .handler
  let (_, g) := g.addEdge 4 5 .value
  ⟨"guarded call", g,
    [(0, ⟨0, mainName, [], some 0, none⟩), (1, ⟨1, "f", [], some 4, some 0⟩)], 2⟩

theorem sound_guardedCall : guardedCall.graph.Sound := by
  have hempty : (SlotGraph.empty : SlotGraph Node Role).Sound := SlotGraph.sound_empty
  have hnodes := (((((hempty.addNode ⟨.guarded (some "e"), 0, none⟩).addNode
    ⟨.call, 0, none⟩).addNode ⟨.function 1, 0, none⟩).addNode ⟨.var "e", 0, none⟩).addNode
    ⟨.raise, 1, none⟩).addNode ⟨.literal (.int 1), 1, none⟩
  have hbody := hnodes.addEdge (s := 0) (t := 1) (by cbv) (by cbv) Role.body
  have hcallee := hbody.addEdge (s := 1) (t := 2) (by cbv) (by cbv) Role.callee
  have hhandler := hcallee.addEdge (s := 0) (t := 3) (by cbv) (by cbv) Role.handler
  exact hhandler.addEdge (s := 4) (t := 5) (by cbv) (by cbv) Role.value

theorem validate_guardedCall : guardedCall.validate = .ok [] := by cbv

end Program

end GraphLang
