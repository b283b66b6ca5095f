import GraphLang.Proofs.Lookalike
import GraphLang.Proofs.Optimize.Elimination

/-!
# Programs that differ in the order of their edges

Twins have the same functions, the same nodes and, up to their order, the same ties. As no two
children of a node have one role, look-ups find the same in both, and single changes leave twins.
-/

namespace GraphLang

/-- The programs differ at most in the order of their ties, and no two children of a node have one
role. -/
structure Twin (p q : Program) : Prop where
  /-- The edge lists of the first program agree with its edges. -/
  sound : p.graph.Sound
  /-- Those of the second one agree with its edges. -/
  sound' : q.graph.Sound
  /-- No two children of a node have one role. -/
  roles : ∀ n, p.RolesDiffer n
  /-- The functions are the same. -/
  functions : q.functions = p.functions
  /-- The nodes are the same. -/
  node : q.node? = p.node?
  /-- The ties are the same but for their order. -/
  ties : ∀ n, (q.graph.ties n).Perm (p.graph.ties n)

/-- The function that a node makes closures of. -/
def Program.madeAt? (p : Program) (n : Nat) : Option FunctionId :=
  match p.op? n with
  | some (.function g) => some g
  | _ => none

variable {p q : Program} {n : Nat} {role : Role}

/-! ### Nodes in their order -/

namespace SlotGraph

variable {α β : Type} {g h : SlotGraph α β}

theorem pairwise_nodeIds (g : SlotGraph α β) : g.nodeIds.Pairwise (· < ·) :=
  List.pairwise_lt_range.filter _

/-- The nodes decide in which order they are gone through. -/
theorem nodeIds_congr (hnode : h.node? = g.node?) : h.nodeIds = g.nodeIds := by
  have hmem (n : Nat) : n ∈ h.nodeIds ↔ n ∈ g.nodeIds := by
    rw [mem_nodeIds, mem_nodeIds, hasNode, hasNode, hnode]
  have hnodup {g : SlotGraph α β} : g.nodeIds.Nodup :=
    g.pairwise_nodeIds.imp Nat.ne_of_lt
  refine List.Perm.eq_of_pairwise ?_ h.pairwise_nodeIds g.pairwise_nodeIds
    ((List.perm_ext_iff_of_nodup hnodup hnodup).2 hmem)
  intro a b _ _ hab hba
  omega

/-- As many nodes are counted as there are numbers of nodes. -/
theorem nodeCount_eq (g : SlotGraph α β) : g.nodeCount = g.nodeIds.length := by
  have hcount (l : List (Slot α)) (k : Nat) :
      l.foldl (fun k s => if s.weight.isSome then k + 1 else k) k =
        k + l.countP (·.weight.isSome) := by
    induction l generalizing k with
    | nil => rfl
    | cons s l ih =>
      rw [List.foldl_cons, ih, List.countP_cons]
      by_cases hs : s.weight.isSome = true
      · rw [if_pos hs, if_pos hs]
        omega
      · rw [if_neg hs, if_neg hs]
        omega
  have hslots : (List.range g.slots.size).map (fun n => g.slots[n]?) = g.slots.toList.map some := by
    refine List.ext_getElem (by simp) fun n hn _ => ?_
    simp at hn
    simp [hn]
  have hnodes (n : Nat) : g.hasNode n = (g.slots[n]?).any (·.weight.isSome) := by
    rw [hasNode, node?_eq]
    cases g.slots[n]? <;> rfl
  rw [nodeCount, ← Array.foldl_toList, hcount, Nat.zero_add, nodeIds, ← List.countP_eq_length_filter]
  calc g.slots.toList.countP (·.weight.isSome)
    _ = (g.slots.toList.map some).countP (·.any (·.weight.isSome)) := by
      rw [List.countP_map]
      rfl
    _ = (List.range g.slots.size).countP g.hasNode := by
      rw [← hslots, List.countP_map]
      exact List.countP_congr fun n _ => by rw [hnodes]; rfl

theorem length_nodeIds_le (g : SlotGraph α β) : g.nodeIds.length ≤ g.slots.size := by
  have hle := (List.range g.slots.size).length_filter_le g.hasNode
  rwa [List.length_range] at hle

end SlotGraph

/-! ### Look-ups -/

namespace Twin

variable {c : Nat}

theorem op (h : Twin p q) : q.op? = p.op? := by
  funext n
  rw [Program.op?, h.node, Program.op?]

theorem function (h : Twin p q) : q.function? = p.function? := by
  funext f
  rw [Program.function?, h.functions, Program.function?]

theorem functionDefs (h : Twin p q) : q.functionDefs = p.functionDefs := by
  rw [Program.functionDefs, h.functions, Program.functionDefs]

theorem hasNode (h : Twin p q) : q.graph.hasNode = p.graph.hasNode := by
  funext n
  exact congrArg Option.isSome (congrFun h.node n)

theorem nodeIds (h : Twin p q) : q.nodeIds = p.nodeIds := SlotGraph.nodeIds_congr h.node

theorem nodeCount (h : Twin p q) : q.graph.nodeCount = p.graph.nodeCount := by
  rw [SlotGraph.nodeCount_eq, SlotGraph.nodeCount_eq, SlotGraph.nodeIds_congr h.node]

theorem roles' (h : Twin p q) (n : Nat) : q.RolesDiffer n :=
  (List.Perm.map Prod.fst (h.ties n)).nodup_iff.2 (h.roles n)

theorem child (h : Twin p q) : q.child? = p.child? := by
  funext n role
  refine Option.ext fun c => ?_
  rw [(h.roles' n).child?_iff, (h.roles n).child?_iff]
  exact (h.ties n).mem_iff

theorem children (h : Twin p q) : q.children = p.children := by
  funext n
  refine ((h.roles n).children_eq (q.pairwise_children n) ?_).symm
  exact (List.mergeSort_perm _ _).trans (h.ties n)

theorem indexed (h : Twin p q) : q.indexed = p.indexed := by
  funext n family
  rw [Program.indexed, h.children, Program.indexed]

theorem lookalike (h : Twin p q) : Lookalike p q := ⟨h.function, h.op, h.child, h.indexed⟩

theorem subtree (h : Twin p q) : q.subtree = p.subtree := by
  funext root
  have hpoints : ∀ n, p.graph.hasNode n = true → n ∈ p.nodeIds := fun n => SlotGraph.mem_nodeIds.2
  have hfuel {s : Program} (hs : s.nodeIds = p.nodeIds) :
      unseen p.nodeIds (∅ : Std.HashSet Nat) < s.graph.slots.size + 1 := by
    rw [unseen_empty, ← hs]
    exact Nat.lt_succ_of_le s.graph.length_nodeIds_le
  rw [Program.subtree, Program.subtree, h.children, h.hasNode]
  exact preorder_fuel hpoints (hfuel h.nodeIds) (hfuel rfl)

theorem nestedFunctions (h : Twin p q) : q.nestedFunctions = p.nestedFunctions := by
  funext f
  rw [Program.nestedFunctions, Program.nestedFunctions, h.function, h.subtree, h.op]

theorem liveFunctions (h : Twin p q) : q.liveFunctions = p.liveFunctions := by
  let made : List FunctionId := p.nodeIds.filterMap p.madeAt?
  have hnext : ∀ f ∈ mainId :: made, ∀ g ∈ p.nestedFunctions f, g ∈ mainId :: made := by
    intro f _ g hg
    obtain ⟨d, root, n, -, -, -, hop⟩ := Program.mem_nestedFunctions.1 hg
    refine List.mem_cons_of_mem _ (List.mem_filterMap.2 ⟨n, ?_, by rw [Program.madeAt?, hop]⟩)
    exact SlotGraph.mem_nodeIds.2 (Program.hasNode_of_op? hop)
  have hfuel {s : Program} (hs : s.nodeIds = p.nodeIds) :
      unseen (mainId :: made) (∅ : Std.HashSet FunctionId) <
        s.graph.slots.size + p.functions.length + 2 := by
    have hmade : made.length ≤ p.nodeIds.length := List.length_filterMap_le _ _
    have hnodes := s.graph.length_nodeIds_le
    rw [unseen_empty, List.length_cons]
    rw [← hs] at hmade
    exact Nat.lt_of_le_of_lt (Nat.succ_le_succ (Nat.le_trans hmade hnodes)) (by omega)
  rw [Program.liveFunctions, Program.liveFunctions, h.nestedFunctions, h.functions]
  exact reach_fuel hnext (fun f hf => by simp_all) (hfuel h.nodeIds) (hfuel rfl)

theorem mem_parents {a : Nat} (hsound : p.graph.Sound) :
    (a, role) ∈ p.parents n ↔ (role, n) ∈ p.graph.ties a := by
  rw [hsound.mem_ties, Program.parents, List.mem_map]
  constructor
  · rintro ⟨⟨e, edge⟩, hmem, heq⟩
    obtain ⟨hedge, rfl⟩ := hsound.mem_incoming_iff.1 hmem
    cases heq
    exact ⟨e, hedge⟩
  · rintro ⟨e, hedge⟩
    exact ⟨(e, ⟨a, n, role⟩), hsound.mem_incoming_iff.2 ⟨hedge, rfl⟩, rfl⟩

theorem nodup_parents (hsound : p.graph.Sound) (hroles : ∀ n, p.RolesDiffer n) (n : Nat) :
    (p.parents n).Nodup := by
  refine (hsound.nodup_incoming_pairs n).map_on fun x hx y hy hxy => ?_
  have hx := (hsound.mem_incoming_iff.1 hx).1
  have hy := (hsound.mem_incoming_iff.1 hy).1
  obtain ⟨hsource, hweight⟩ := Prod.mk.inj hxy
  have he := Program.rolesOnce_of_differ hsound hroles _ _ _ _ hx hy hsource.symm hweight.symm
  rw [he, hx] at hy
  exact Prod.ext he.symm (Option.some.inj hy)

theorem parents (h : Twin p q) (n : Nat) : (q.parents n).Perm (p.parents n) := by
  refine (List.perm_ext_iff_of_nodup (nodup_parents h.sound' h.roles' n)
    (nodup_parents h.sound h.roles n)).2 ?_
  rintro ⟨a, role⟩
  rw [mem_parents h.sound', mem_parents h.sound]
  exact (h.ties a).mem_iff

/-! ### Single changes -/

theorem withFunctions (h : Twin p q) (t : FunctionTable) :
    Twin { p with functions := t } { q with functions := t } :=
  ⟨h.sound, h.sound', h.roles, rfl, h.node, h.ties⟩

theorem modifyNode (h : Twin p q) (n : Nat) (f : Node → Node) :
    Twin { p with graph := p.graph.modifyNode n f } { q with graph := q.graph.modifyNode n f } := by
  have hties (s : Program) (m : Nat) : (s.graph.modifyNode n f).ties m = s.graph.ties m :=
    SlotGraph.ties_modifyNode n f m
  refine ⟨h.sound.modifyNode n f, h.sound'.modifyNode n f, fun m => ?_, h.functions, ?_, fun m => ?_⟩
  · unfold Program.RolesDiffer
    dsimp only
    rw [hties]
    exact h.roles m
  · funext m
    change (q.graph.modifyNode n f).node? m = (p.graph.modifyNode n f).node? m
    rw [SlotGraph.node?_modifyNode, SlotGraph.node?_modifyNode, show q.graph.node? m = _ from
      congrFun h.node m]
    rfl
  · dsimp only
    rw [hties, hties]
    exact h.ties m

theorem removeNode (h : Twin p q) (n : Nat) : Twin (p.removeNode n).2 (q.removeNode n).2 := by
  have hgone {s : Program} : (s.graph.removeNode n).ties n = [] :=
    SlotGraph.ties_of_vacant (by rw [SlotGraph.node?_removeNode, if_pos rfl])
  refine ⟨h.sound.removeNode n, h.sound'.removeNode n, fun m => ?_, h.functions, ?_, fun m => ?_⟩
  · change (((p.graph.removeNode n).ties m).map (·.1)).Nodup
    by_cases hm : m = n
    · rw [hm, hgone]
      exact List.nodup_nil
    · rw [h.sound.ties_removeNode hm]
      exact (h.roles m).sublist (List.filter_sublist.map _)
  · funext m
    change (q.graph.removeNode n).node? m = (p.graph.removeNode n).node? m
    rw [SlotGraph.node?_removeNode, SlotGraph.node?_removeNode, show q.graph.node? m = _ from
      congrFun h.node m]
    rfl
  · change ((q.graph.removeNode n).ties m).Perm ((p.graph.removeNode n).ties m)
    by_cases hm : m = n
    · rw [hm, hgone, hgone]
    · rw [h.sound.ties_removeNode hm, h.sound'.ties_removeNode hm]
      exact (h.ties m).filter _

theorem removeNodes (h : Twin p q) (gone : List Nat) :
    Twin (p.removeNodes gone) (q.removeNodes gone) := by
  induction gone generalizing p q with
  | nil => exact h
  | cons n gone ih => exact ih (h.removeNode n)

theorem removeFunction (h : Twin p q) (f : FunctionId) :
    Twin (p.removeFunction f).2 (q.removeFunction f).2 := by
  have hnodes : q.functionNodes f = p.functionNodes f := by
    rw [Program.functionNodes, Program.functionNodes, h.nodeIds, h.node]
  unfold Program.removeFunction
  split
  · exact h
  · rw [hnodes]
    change Twin { p.removeNodes (p.functionNodes f) with functions := p.functions.erase f }
      { q.removeNodes (p.functionNodes f) with functions := q.functions.erase f }
    rw [h.functions]
    exact (h.removeNodes _).withFunctions _

end Twin

/-! ### Children taken away -/

theorem ties_disconnect (hsound : p.graph.Sound) (hroles : ∀ n, p.RolesDiffer n) (a : Nat)
    (role : Role) (n : Nat) : (p.disconnect a role).2.graph.ties n =
      (p.graph.ties n).filter fun t => !(n == a && t.1 == role) := by
  unfold Program.disconnect
  cases hfind : p.roleEdge? a role with
  | none =>
    refine (List.filter_eq_self.2 fun t ht => ?_).symm
    obtain ⟨x, hx, rfl⟩ := List.mem_map.1 ht
    have hnone := List.find?_eq_none.1 hfind
    by_cases hn : n = a
    · subst hn
      simpa using hnone x hx
    · simp [hn]
  | some x =>
    obtain ⟨e, edge⟩ := x
    have hrole : edge.weight = role := by simpa using List.find?_some hfind
    have hmem : (e, edge) ∈ p.graph.outgoing a := List.mem_of_find?_eq_some hfind
    obtain ⟨hedge, hsource⟩ := hsound.mem_outgoing_iff.1 hmem
    dsimp only
    rw [SlotGraph.ties, hsound.outgoing_removeEdge, SlotGraph.ties, List.filter_map]
    congr 1
    refine List.filter_congr fun y hy => ?_
    obtain ⟨hedge', hsource'⟩ := hsound.mem_outgoing_iff.1 hy
    have hiff : y.1 = e ↔ n = a ∧ y.2.weight = role := by
      constructor
      · intro heq
        rw [heq, hedge] at hedge'
        rw [← Option.some.inj hedge']
        exact ⟨by rw [← hsource', ← hsource, Option.some.inj hedge'], hrole⟩
      · rintro ⟨rfl, hweight⟩
        exact Program.rolesOnce_of_differ hsound hroles _ _ _ _ hedge hedge'
          (hsource'.trans hsource.symm) (hweight.trans hrole.symm)
    by_cases hy : y.1 = e
    · obtain ⟨rfl, hweight⟩ := hiff.1 hy
      simp [hy, hweight]
    · have hnot := mt hiff.2 hy
      simp only [Function.comp, bne_iff_ne.2 hy]
      rw [not_and_or] at hnot
      simpa using hnot

theorem disconnect_fst (p : Program) (a : Nat) (role : Role) :
    (p.disconnect a role).1 = p.child? a role := by
  unfold Program.disconnect Program.child?
  cases p.roleEdge? a role <;> rfl

/-- Taking a child away changes edges only. -/
theorem disconnect_snd (p : Program) (a : Nat) (role : Role) :
    (p.disconnect a role).2.functions = p.functions ∧ (p.disconnect a role).2.node? = p.node? ∧
      (p.graph.Sound → (p.disconnect a role).2.graph.Sound) := by
  unfold Program.disconnect
  split
  · exact ⟨rfl, rfl, id⟩
  · exact ⟨rfl, funext fun m => SlotGraph.node?_removeEdge _ m, fun h => h.removeEdge _⟩

theorem Twin.disconnect (h : Twin p q) (a : Nat) (role : Role) :
    Twin (p.disconnect a role).2 (q.disconnect a role).2 := by
  obtain ⟨hfunctions, hnode, hsound⟩ := disconnect_snd p a role
  obtain ⟨hfunctions', hnode', hsound'⟩ := disconnect_snd q a role
  refine ⟨hsound h.sound, hsound' h.sound', fun n => ?_, ?_, ?_, fun n => ?_⟩
  · unfold Program.RolesDiffer
    rw [ties_disconnect h.sound h.roles]
    exact (h.roles n).sublist (List.filter_sublist.map _)
  · rw [hfunctions', hfunctions, h.functions]
  · rw [hnode', hnode, h.node]
  · rw [ties_disconnect h.sound h.roles, ties_disconnect h.sound' h.roles']
    exact (h.ties n).filter _

end GraphLang
