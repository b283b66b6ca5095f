import GraphLang.Proofs.Optimize.Twins
import GraphLang.Proofs.Optimize.Validity
import Mathlib.Data.Set.Card

/-!
# What remains of a program

A function is needed if function nodes in bodies lead to it from the main one. Where every function
owns the root of its body, removing dead code leaves exactly the needed functions and the nodes
below the roots of their bodies, all as they were, and counts exactly what is gone.
-/

namespace GraphLang

namespace Program

variable {p q : Program} {n root : Nat} {f g : FunctionId}

/-! ### Bodies -/

/-- What leads to a node of a body belongs to a root that is there. -/
theorem hasNode_of_below (hsound : p.graph.Sound) (h : p.Below root n)
    (hn : p.graph.hasNode n = true) : p.graph.hasNode root = true := by
  rcases Relation.ReflTransGen.cases_head h with rfl | ⟨c, ⟨e, edge, hedge, rfl, -⟩, -⟩
  · exact hn
  · exact hsound.hasNode_source hedge

/-- The nodes of a body are the ones below its root. -/
theorem mem_subtree_iff (hsound : p.graph.Sound) :
    n ∈ p.subtree root ↔ p.graph.hasNode n = true ∧ p.Below root n := by
  constructor
  · intro hn
    refine ⟨hasNode_of_mem_subtree hn, ?_⟩
    refine preorder_induction (P := p.Below root) (fun m hm _ => ?_) (fun m hm c hc _ => ?_) n hn
    · rw [List.mem_singleton.1 hm]
      exact .refl
    · obtain ⟨e, role, hedge⟩ := (mem_children_iff hsound).1 hc
      exact hm.tail ⟨e, _, hedge, rfl, rfl⟩
  · rintro ⟨hn, hbelow⟩
    have hroot := hasNode_of_below hsound hbelow hn
    clear hn
    induction hbelow with
    | refl => exact root_mem_subtree hroot
    | tail _ hstep ih =>
      obtain ⟨e, ⟨_, _, role⟩, hedge, rfl, rfl⟩ := hstep
      exact child_mem_subtree hsound ih (hsound.mem_ties.2 ⟨e, hedge⟩)

/-! ### Needed functions -/

/-- In the body of the first function there is a function node for the second one. -/
def Makes (p : Program) (f g : FunctionId) : Prop :=
  ∃ d root n, p.function? f = some d ∧ d.body = some root ∧ p.Below root n ∧
    p.op? n = some (.function g)

/-- Function nodes in bodies lead to the function from the main one. -/
def Needed (p : Program) (f : FunctionId) : Prop := Relation.ReflTransGen p.Makes mainId f

theorem mem_nestedFunctions_iff (hsound : p.graph.Sound) :
    g ∈ p.nestedFunctions f ↔ p.Makes f g := by
  rw [mem_nestedFunctions]
  constructor
  · rintro ⟨d, root, n, hd, hbody, hn, hop⟩
    exact ⟨d, root, n, hd, hbody, ((mem_subtree_iff hsound).1 hn).2, hop⟩
  · rintro ⟨d, root, n, hd, hbody, hn, hop⟩
    exact ⟨d, root, n, hd, hbody, (mem_subtree_iff hsound).2 ⟨hasNode_of_op? hop, hn⟩, hop⟩

/-- The live functions are the needed ones. -/
theorem Housed.mem_liveFunctions_iff (h : p.Housed) : f ∈ p.liveFunctions ↔ p.Needed f := by
  constructor
  · intro hf
    refine reach_induction (P := p.Needed) (fun g hg => ?_) (fun g hg => ?_)
      (fun g hg k hk => ?_) f hf
    · simp at hg
    · rw [List.mem_singleton.1 hg]
      exact .refl
    · exact hg.tail ((mem_nestedFunctions_iff h.sound).1 hk)
  · intro hf
    obtain ⟨hmain, hclosed⟩ := h.live_closed
    induction hf with
    | refl => exact hmain
    | tail _ hmakes ih => exact hclosed _ ih _ ((mem_nestedFunctions_iff h.sound).2 hmakes)

/-- The graph is in order, the functions stand under their own numbers and the main one is among
them, and the root of a body belongs to its function. -/
structure Owned (p : Program) : Prop where
  /-- Every edge joins two nodes that are there. -/
  sound : p.graph.Sound
  /-- No two functions have one number. -/
  distinct : (p.functions.map (·.1)).Nodup
  /-- Every function stands under its number. -/
  keys : ∀ x ∈ p.functions, x.2.id = x.1
  /-- There is a main function. -/
  main : (p.function? mainId).isSome = true
  /-- The root of a body belongs to the function. -/
  roots : ∀ x ∈ p.functions, ∀ root, x.2.body = some root →
    (p.node? root).map (·.owner) = some x.1

theorem Owned.housed (h : p.Owned) (hvalid : p.validate = .ok []) : p.Housed := by
  obtain ⟨hlocal, -, -⟩ := validate_eq_nil hvalid
  obtain ⟨hfirst, -⟩ := List.append_eq_nil_iff.1 hlocal
  obtain ⟨hfunction, hedge⟩ := List.append_eq_nil_iff.1 hfirst
  refine ⟨h.sound, owner_of_edgeErrors hedge, fun hd => h.keys _ hd, h.distinct, fun {f d} hd => ?_,
    registered_of_functionErrors hfunction, Option.isSome_iff_exists.1 h.main⟩
  obtain ⟨root, hroot, -⟩ := body_of_functionErrors hfunction hd
  obtain ⟨a, ha, howner⟩ := Option.map_eq_some_iff.1 (h.roots _ hd root hroot)
  exact ⟨root, a, hroot, ha, howner⟩

end Program

/-! ### Counting what is gone -/

/-- The members of a list without those of a part of it. -/
theorem ncard_removed {α : Type} [DecidableEq α] {xs ys : List α} (hxs : xs.Nodup) (hys : ys.Nodup)
    (hsub : ys ⊆ xs) : {x | x ∈ xs ∧ x ∉ ys}.ncard = xs.length - ys.length := by
  have hset : {x | x ∈ xs ∧ x ∉ ys} = ((xs.toFinset \ ys.toFinset : Finset α) : Set α) := by
    ext x
    simp
  have hle : ys.toFinset ⊆ xs.toFinset := fun x hx =>
    List.mem_toFinset.2 (hsub (List.mem_toFinset.1 hx))
  rw [hset, Set.ncard_coe_finset, Finset.card_sdiff_of_subset hle, List.toFinset_card_of_nodup hxs,
    List.toFinset_card_of_nodup hys]

namespace DeadCode

open Program

variable {p q : Program} {n : Nat}

theorem Reduced.hasNode_iff (h : Reduced p q) : q.graph.hasNode n = true ↔ p.Live n := by
  refine ⟨h.live, fun hn => ?_⟩
  obtain ⟨a, ha⟩ := SlotGraph.hasNode_iff.1 hn.hasNode
  exact SlotGraph.hasNode_iff.2 ⟨a, (h.node? hn).trans ha⟩

/-- Of a valid program whose functions own the roots of their bodies, removing dead code leaves the
needed functions with the nodes of their bodies, and changes neither. It counts the nodes and the
functions that are gone. -/
theorem eliminate_exact {d : Draft} (hvalid : d.program.validate = .ok []) (h : d.program.Owned) :
    let p := d.program
    let q := (eliminate.run d).2.program
    (∀ x, x ∈ q.functions ↔ x ∈ p.functions ∧ p.Needed x.1) ∧
      (∀ n, q.graph.hasNode n = true ↔
        ∃ x ∈ q.functions, ∃ root, x.2.body = some root ∧ p.Below root n) ∧
      (∀ n, q.graph.hasNode n = true → q.node? n = p.node? n ∧ q.children n = p.children n) ∧
      (eliminate.run d).1 =
        ({n | p.graph.hasNode n = true ∧ ¬q.graph.hasNode n = true}.ncard,
          {f | f ∈ p.functions.map (·.1) ∧ f ∉ q.functions.map (·.1)}.ncard) := by
  intro p q
  have hp : p.Housed := h.housed hvalid
  have hq : Reduced p q := reduced_eliminate hp
  have hlive : ∀ f, p.liveFunctions.contains f = true ↔ p.Needed f := fun f =>
    hp.mem_liveFunctions_iff
  have hfunctions : ∀ x, x ∈ q.functions ↔ x ∈ p.functions ∧ p.Needed x.1 := by
    intro x
    rw [hq.functions, List.mem_filter, hlive]
  refine ⟨hfunctions, fun n => ?_, fun n hn => ?_, Prod.ext ?_ ?_⟩
  · rw [hq.hasNode_iff]
    constructor
    · rintro ⟨f, d', root, hf, hd, hbody, hn⟩
      exact ⟨(f, d'), (hfunctions _).2 ⟨FunctionTable.mem_of_get? hd, (hlive f).1 hf⟩, root, hbody,
        ((mem_subtree_iff h.sound).1 hn).2⟩
    · rintro ⟨⟨f, d'⟩, hd, root, hbody, hbelow⟩
      obtain ⟨hd, hf⟩ := (hfunctions _).1 hd
      obtain ⟨root', a, hbody', ha, -⟩ := hp.rooted hd
      obtain rfl : root = root' := Option.some.inj (hbody.symm.trans hbody')
      have hn : p.graph.hasNode n = true := by
        rcases Relation.ReflTransGen.cases_tail hbelow with rfl | ⟨c, -, e, edge, hedge, -, rfl⟩
        · exact SlotGraph.hasNode_iff.2 ⟨a, ha⟩
        · exact h.sound.hasNode_target hedge
      exact ⟨f, d', root, (hlive f).2 hf, FunctionTable.get?_of_mem h.distinct hd, hbody,
        (mem_subtree_iff h.sound).2 ⟨hn, hbelow⟩⟩
  · have hn := hq.live hn
    exact ⟨hq.node? hn, children_congr (hq.ties h.sound hn)⟩
  · have hsub : q.nodeIds ⊆ p.nodeIds := fun n hn =>
      SlotGraph.mem_nodeIds.2 (hq.live (SlotGraph.mem_nodeIds.1 hn)).hasNode
    have hcount : (eliminate.run d).1.1 = p.graph.nodeCount - q.graph.nodeCount := rfl
    have hgone := ncard_removed (SlotGraph.nodup_nodeIds p.graph) (SlotGraph.nodup_nodeIds q.graph) hsub
    simp only [SlotGraph.mem_nodeIds] at hgone
    rw [hcount, hgone, SlotGraph.nodeCount_eq, SlotGraph.nodeCount_eq]
  · have hids : p.functionDefs.map (·.id) = p.functions.map (·.1) := by
      rw [functionDefs, List.map_map]
      exact List.map_congr_left h.keys
    have hkept : q.functions.map (·.1) =
        (p.functions.map (·.1)).filter fun f => p.liveFunctions.contains f := by
      rw [hq.functions, List.filter_map]
      rfl
    have hcount : (eliminate.run d).1.2 =
        ((p.functions.map (·.1)).filter fun f => !p.liveFunctions.contains f).length :=
      hids ▸ rfl
    have hnodup : (q.functions.map (·.1)).Nodup := hkept ▸ h.distinct.filter _
    have hsub : q.functions.map (·.1) ⊆ p.functions.map (·.1) := by
      rw [hkept]
      exact fun f hf => (List.mem_filter.1 hf).1
    have hsplit := List.length_eq_length_filter_add (l := p.functions.map (·.1))
      fun f => p.liveFunctions.contains f
    rw [hcount, ncard_removed h.distinct hnodup hsub, hkept]
    exact (Nat.sub_eq_of_eq_add' hsplit).symm

end DeadCode

/-! ### A program with dead functions -/

/-- A program that leaves with a closure. Two functions that nobody needs make closures of each
other, and a node outside of all bodies names one of them. -/
def Program.abandoned : Program :=
  let nodes : List Node := [⟨.literal (.int 1), 1, none⟩, ⟨.function 1, 0, none⟩, ⟨.leave, 0, none⟩,
    ⟨.function 3, 2, none⟩, ⟨.function 2, 3, none⟩, ⟨.function 2, 0, none⟩]
  let edges : List (Nat × Nat × Role) := [(2, 1, .value)]
  ⟨"abandoned", edges.foldl (fun g e => (g.addEdge e.1 e.2.1 e.2.2).2)
      (nodes.foldl (fun g a => (g.addNode a).2) .empty),
    [(0, ⟨0, mainName, [], some 2, none⟩), (1, ⟨1, "needed", [], some 0, some 0⟩),
      (2, ⟨2, "even", [], some 3, some 0⟩), (3, ⟨3, "odd", [], some 4, some 0⟩)], 4⟩

theorem Program.owned_abandoned : abandoned.Owned where
  sound := (SlotGraph.sound_empty.addNodes _).addEdges (by decide +kernel)
  distinct := by decide
  keys := by decide
  main := rfl
  roots := by decide +kernel

/-- Both dead functions go, with their bodies and the node outside. -/
theorem abandoned_removed : Program.abandoned.validate = .ok [] ∧ Program.abandoned.Owned ∧
    {n | Program.abandoned.graph.hasNode n = true ∧
      ¬(DeadCode.eliminate.run ⟨Program.abandoned, #[]⟩).2.program.graph.hasNode n = true}.ncard = 3 ∧
    ¬Program.abandoned.Needed 2 := by
  have hvalid : Program.abandoned.validate = .ok [] := by cbv
  obtain ⟨hfunctions, -, -, hcount⟩ :=
    DeadCode.eliminate_exact (d := ⟨Program.abandoned, #[]⟩) hvalid Program.owned_abandoned
  have hrun : (DeadCode.eliminate.run ⟨Program.abandoned, #[]⟩).1 = (3, 2) ∧
      (DeadCode.eliminate.run ⟨Program.abandoned, #[]⟩).2.program.functions.map (·.1) = [0, 1] := by
    unfold DeadCode.eliminate
    simp only [DeadCode.orphans_eq]
    exact ⟨by cbv, by cbv⟩
  refine ⟨hvalid, Program.owned_abandoned, ?_, fun hneeded => ?_⟩
  · exact (congrArg Prod.fst hcount).symm.trans (congrArg Prod.fst hrun.1)
  · have hmem := (hfunctions (2, ⟨2, "even", [], some 3, some 0⟩)).2 ⟨by decide, hneeded⟩
    have hkey : 2 ∈ (DeadCode.eliminate.run ⟨Program.abandoned, #[]⟩).2.program.functions.map (·.1) :=
      List.mem_map.2 ⟨_, hmem, rfl⟩
    rw [hrun.2] at hkey
    simp at hkey

end GraphLang
