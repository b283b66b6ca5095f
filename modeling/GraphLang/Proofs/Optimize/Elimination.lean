import GraphLang.Proofs.Optimize.Pruning

/-!
# Removing dead code keeps the meaning

A run starts in the main function and comes to another function only through a function node, so it
stays inside the bodies of live functions. Whatever is removed outside of them, the program looks
the same to the host.
-/

namespace GraphLang

/-- The functions that are kept are found as before. -/
theorem FunctionTable.get?_filter (t : FunctionTable) {keep : FunctionId → Bool} {f : FunctionId}
    (hf : keep f = true) : FunctionTable.get? (t.filter fun x => keep x.1) f = t.get? f := by
  induction t with
  | nil => rfl
  | cons x t ih =>
    obtain ⟨id, d⟩ := x
    rw [List.filter_cons, get?]
    by_cases hkeep : keep id = true
    · rw [if_pos hkeep, get?, ih]
    · have hid : ¬(id == f) = true := by
        rw [beq_iff_eq]
        rintro rfl
        exact hkeep hf
      rw [if_neg hkeep, ih, if_neg hid]

namespace Program

variable {p q : Program} {n c root : Nat} {f g : FunctionId} {d : FunctionDef}

/-! ### The nodes of a body -/

/-- If the nodes of a body keep their ties, the body keeps its nodes. -/
theorem mem_subtree_of_ties (hkept : ∀ n ∈ p.subtree root,
    q.graph.hasNode n = true ∧ q.graph.ties n = p.graph.ties n) (hsound : p.graph.Sound)
    (hn : n ∈ p.subtree root) : n ∈ q.subtree root := by
  suffices hboth : n ∈ p.subtree root ∧ n ∈ q.subtree root from hboth.2
  refine preorder_induction (P := fun n => n ∈ p.subtree root ∧ n ∈ q.subtree root)
    (fun m hm hlive => ?_) (fun m hm c hc _ => ?_) n hn
  · rw [List.mem_singleton] at hm
    subst hm
    have hroot := root_mem_subtree hlive
    exact ⟨hroot, root_mem_subtree (hkept m hroot).1⟩
  · obtain ⟨⟨role, c⟩, htie, rfl⟩ := List.mem_map.1 hc
    have hc' := child_mem_subtree hsound hm.1 (mem_children.1 htie)
    refine ⟨hc', mem_subtree (hkept c hc').1 (Or.inr ⟨m, hm.2, ?_⟩)⟩
    rwa [children_congr (hkept m hm.1).2]

/-- With fewer nodes and ties, a body has no other nodes. -/
theorem mem_subtree_mono (hsound : p.graph.Sound)
    (hnodes : ∀ m, q.graph.hasNode m = true → p.graph.hasNode m = true)
    (hties : ∀ m, ∀ t ∈ q.graph.ties m, t ∈ p.graph.ties m) (hn : n ∈ q.subtree root) :
    n ∈ p.subtree root := by
  refine preorder_induction (P := fun n => n ∈ p.subtree root) (fun m hm hlive => ?_)
    (fun m hm c hc _ => ?_) n hn
  · rw [List.mem_singleton] at hm
    subst hm
    exact root_mem_subtree (hnodes m hlive)
  · obtain ⟨⟨role, c⟩, htie, rfl⟩ := List.mem_map.1 hc
    exact child_mem_subtree hsound hm (hties m _ (mem_children.1 htie))

/-- Every function owns a body, edges stay inside of functions, and the functions that are made are
there. -/
structure Housed (p : Program) : Prop where
  sound : p.graph.Sound
  owner : ∀ {e edge a b}, p.graph.edge? e = some edge → p.node? edge.source = some a →
    p.node? edge.target = some b → b.owner = a.owner
  keys : ∀ {f d}, (f, d) ∈ p.functions → d.id = f
  distinct : (p.functions.map (·.1)).Nodup
  rooted : ∀ {f d}, (f, d) ∈ p.functions →
    ∃ root a, d.body = some root ∧ p.node? root = some a ∧ a.owner = f
  registered : ∀ {n f}, p.op? n = some (.function f) → ∃ d, p.function? f = some d
  main : ∃ d, p.function? mainId = some d

theorem Treelike.housed (h : p.Treelike) : p.Housed :=
  ⟨h.sound, h.owner, h.keys, h.distinct, h.rooted, h.registered, h.main⟩

/-- All nodes of a body belong to its function. -/
theorem Housed.owner_subtree (h : p.Housed) (hd : (f, d) ∈ p.functions)
    (hbody : d.body = some root) (hn : n ∈ p.subtree root) :
    ∃ a, p.node? n = some a ∧ a.owner = f := by
  refine preorder_induction (P := fun n => ∃ a, p.node? n = some a ∧ a.owner = f)
    (fun m hm _ => ?_) (fun m hm c hc hlive => ?_) n hn
  · obtain ⟨root', a, hbody', ha, howner⟩ := h.rooted hd
    rw [hbody] at hbody'
    cases hbody'
    rw [List.mem_singleton] at hm
    exact ⟨a, hm ▸ ha, howner⟩
  · obtain ⟨e, role, hedge⟩ := (mem_children_iff h.sound).1 hc
    obtain ⟨a, ha, howner⟩ := hm
    obtain ⟨b, hb⟩ := SlotGraph.hasNode_iff.1 hlive
    exact ⟨b, hb, (h.owner hedge ha hb).trans howner⟩

/-! ### Live functions -/

theorem mem_nestedFunctions : g ∈ p.nestedFunctions f ↔ ∃ d root n, p.function? f = some d ∧
    d.body = some root ∧ n ∈ p.subtree root ∧ p.op? n = some (.function g) := by
  unfold nestedFunctions
  constructor
  · intro hg
    split at hg
    · cases hg
    · next root hroot =>
      obtain ⟨d, hd, hbody⟩ := Option.bind_eq_some_iff.1 hroot
      obtain ⟨n, hn, hmade⟩ := List.mem_filterMap.1 hg
      refine ⟨d, root, n, hd, hbody, hn, ?_⟩
      split at hmade
      · next hop => rwa [Option.some.inj hmade] at hop
      · cases hmade
  · rintro ⟨d, root, n, hd, hbody, hn, hop⟩
    simp only [hd, Option.bind_some, hbody]
    exact List.mem_filterMap.2 ⟨n, hn, by rw [hop]⟩

/-- Every live function is there. -/
theorem Housed.exists_of_live (h : p.Housed) (hf : f ∈ p.liveFunctions) :
    ∃ d, p.function? f = some d := by
  refine reach_induction (P := fun f => ∃ d, p.function? f = some d) (fun x hx => ?_)
    (fun x hx => ?_) (fun x _ y hy => ?_) f hf
  · simp at hx
  · rw [List.mem_singleton] at hx
    exact hx ▸ h.main
  · obtain ⟨d, root, n, -, -, -, hop⟩ := mem_nestedFunctions.1 hy
    exact h.registered hop

/-- The main function is live, and so are the functions made in the bodies of live ones. -/
theorem Housed.live_closed (h : p.Housed) : mainId ∈ p.liveFunctions ∧
    ∀ f ∈ p.liveFunctions, ∀ g ∈ p.nestedFunctions f, g ∈ p.liveFunctions := by
  have hpoint : ∀ {f d}, p.function? f = some d → f ∈ p.functions.map (·.1) := fun hd =>
    List.mem_map.2 ⟨_, FunctionTable.mem_of_get? hd, rfl⟩
  have hnext : ∀ f ∈ p.functions.map (·.1), ∀ g ∈ p.nestedFunctions f,
      g ∈ p.functions.map (·.1) := by
    intro f _ g hg
    obtain ⟨d, root, n, -, -, -, hop⟩ := mem_nestedFunctions.1 hg
    obtain ⟨d, hd⟩ := h.registered hop
    exact hpoint hd
  have hstack : ∀ f ∈ [mainId], f ∈ p.functions.map (·.1) := by
    intro f hf
    rw [List.mem_singleton] at hf
    obtain ⟨d, hd⟩ := h.main
    exact hf ▸ hpoint hd
  have hfuel : unseen (p.functions.map (·.1)) (∅ : Std.HashSet FunctionId) <
      p.graph.slots.size + p.functions.length + 2 := by
    rw [unseen_empty, List.length_map]
    omega
  obtain ⟨-, hon, hclosed⟩ := reach_closed hnext hstack hfuel
  refine ⟨hon mainId List.mem_cons_self, fun f hf => ?_⟩
  rcases hclosed f hf with hseen | hall
  · simp at hseen
  · exact hall

/-- The node is part of the body of a live function. -/
def Live (p : Program) (n : Nat) : Prop :=
  ∃ f d root, f ∈ p.liveFunctions ∧ p.function? f = some d ∧ d.body = some root ∧
    n ∈ p.subtree root

theorem Live.hasNode (h : p.Live n) : p.graph.hasNode n = true := by
  obtain ⟨f, d, root, -, -, -, hn⟩ := h
  exact hasNode_of_mem_subtree hn

theorem Live.child (h : p.Live n) (hsound : p.graph.Sound) {role : Role}
    (hc : (role, c) ∈ p.graph.ties n) : p.Live c := by
  obtain ⟨f, d, root, hf, hd, hbody, hn⟩ := h
  exact ⟨f, d, root, hf, hd, hbody, child_mem_subtree hsound hn hc⟩

theorem Live.makes (h : p.Live n) (hp : p.Housed) (hop : p.op? n = some (.function g)) :
    g ∈ p.liveFunctions := by
  obtain ⟨f, d, root, hf, hd, hbody, hn⟩ := h
  exact hp.live_closed.2 f hf g (mem_nestedFunctions.2 ⟨d, root, n, hd, hbody, hn, hop⟩)

/-- The nodes of live bodies have the same children when other nodes go. -/
theorem Live.ties_removeNodes (h : p.Live n) (hsound : p.graph.Sound) {gone : List Nat}
    (hgone : ∀ m ∈ gone, ¬p.Live m) : (p.removeNodes gone).graph.ties n = p.graph.ties n := by
  refine Program.ties_removeNodes hsound (fun hn => hgone n hn h) ?_
  rintro ⟨role, c⟩ hc hmem
  exact hgone c hmem (h.child hsound hc)

theorem Live.op?_removeNodes (h : p.Live n) {gone : List Nat} (hgone : ∀ m ∈ gone, ¬p.Live m) :
    (p.removeNodes gone).op? n = p.op? n :=
  Program.op?_removeNodes fun hn => hgone n hn h

/-- Nodes outside the bodies of live functions may go, and functions that are not live. -/
theorem Treelike.corresponds_of_live (h : p.Treelike) (gone : List Nat)
    (hgone : ∀ n ∈ gone, ¬p.Live n) (hgraph : q.graph = (p.removeNodes gone).graph)
    (hfunctions : ∀ f ∈ p.liveFunctions, q.function? f = p.function? f) :
    Corresponds p q (fun n n' => n' = n ∧ p.Live n) fun f => f ∈ p.liveFunctions := by
  have hop : ∀ {n}, p.Live n → q.op? n = p.op? n := by
    intro n hn
    rw [op?, node?, hgraph]
    exact hn.op?_removeNodes hgone
  have hties : ∀ {n}, p.Live n → q.graph.ties n = p.graph.ties n := by
    intro n hn
    rw [hgraph]
    exact hn.ties_removeNodes h.sound hgone
  refine ⟨h.housed.live_closed.1, fun {f} hf => ?_, ?_⟩
  · obtain ⟨d, hd⟩ := h.housed.exists_of_live hf
    obtain ⟨root, a, hbody, ha, -⟩ := h.rooted (FunctionTable.mem_of_get? hd)
    have hroot : p.Live root := ⟨f, d, root, hf, hd, hbody,
      root_mem_subtree (SlotGraph.hasNode_iff.2 ⟨a, ha⟩)⟩
    exact ⟨d, d, root, root, hd, (hfunctions f hf).trans hd, rfl, rfl, hbody, hbody,
      ⟨rfl, hroot⟩, by rw [hop hroot]⟩
  · rintro n n' ⟨rfl, hn⟩
    obtain ⟨o, ho⟩ := exists_op? hn.hasNode
    refine Or.inl ⟨rfl, .same ho ((hop hn).trans ho) (fun role => ?_) ?_ ?_⟩
    · rw [child?_congr (hties hn)]
      cases hc : p.child? n' role with
      | none => exact .none
      | some c => exact .some ⟨rfl, hn.child h.sound (mem_ties_of_child? hc)⟩
    · rw [children_congr (hties hn)]
      exact List.forall₂_same.2 fun t ht => ⟨rfl, rfl, hn.child h.sound (mem_children.1 ht)⟩
    · rintro g rfl
      exact hn.makes h.housed ho

/-- A treelike program corresponds to itself. -/
theorem Treelike.corresponds_self (h : p.Treelike) :
    Corresponds p p (fun n n' => n' = n ∧ p.Live n) fun f => f ∈ p.liveFunctions :=
  h.corresponds_of_live [] (fun _ hn => absurd hn List.not_mem_nil) rfl fun _ _ => rfl

end Program

/-! ### The pass -/

namespace DeadCode

open Program

variable {p : Program}

theorem orphans_eq (p : Program) :
    orphans p = p.nodeIds.filter fun n => !(bodyNodes p).contains n := by
  unfold orphans
  simp only [Std.HashSet.contains_ofList]

/-- Removing functions removes nodes that belong to them, and leaves the other functions. -/
theorem run_removeFunctions {dead : List FunctionId} (hmain : mainId ∉ dead) (d : Draft) :
    ∃ gone, ((removeFunctions dead).run d).2.program.graph = (d.program.removeNodes gone).graph ∧
      (∀ n ∈ gone, ∃ a, d.program.node? n = some a ∧ a.owner ∈ dead) ∧
      ((removeFunctions dead).run d).2.program.functions =
        d.program.functions.filter fun x => !dead.contains x.1 := by
  induction dead generalizing d with
  | nil => exact ⟨[], rfl, fun n hn => absurd hn List.not_mem_nil,
    (List.filter_eq_self.2 fun x _ => by simp).symm⟩
  | cons g dead ih =>
    rw [List.mem_cons, not_or] at hmain
    let p := d.program
    let q : Program := { p.removeNodes (p.functionNodes g) with functions := p.functions.erase g }
    have hq : (p.removeFunction g).2 = q := by
      unfold removeFunction
      rw [if_neg fun hg => hmain.1 (beq_iff_eq.1 hg).symm]
      rfl
    obtain ⟨gone, hgraph, howned, hothers⟩ := ih hmain.2 ⟨q,
      d.events.push ⟨.trace, target, "removing dead function", [("function", toString g)]⟩⟩
    have hrun : ((removeFunctions (g :: dead)).run d).2 =
        ((removeFunctions dead).run ⟨q, d.events.push
          ⟨.trace, target, "removing dead function", [("function", toString g)]⟩⟩).2 := by
      rw [← hq]
      rfl
    rw [hrun]
    refine ⟨p.functionNodes g ++ gone, ?_, fun n hn => ?_, ?_⟩
    · rw [hgraph]
      exact (List.foldl_append ..).symm
    · rcases List.mem_append.1 hn with hn | hn
      · obtain ⟨a, ha, howner⟩ := Option.map_eq_some_iff.1 (beq_iff_eq.1 (List.mem_filter.1 hn).2)
        exact ⟨a, ha, howner ▸ List.mem_cons_self⟩
      · obtain ⟨a, ha, howner⟩ := howned n hn
        have ha : (p.removeNodes (p.functionNodes g)).node? n = some a := ha
        rw [node?_removeNodes] at ha
        split at ha
        · cases ha
        · exact ⟨a, ha, List.mem_cons_of_mem g howner⟩
    · rw [hothers, show q.functions = p.functions.filter fun x => x.1 != g from rfl,
        List.filter_filter]
      refine List.filter_congr fun x _ => ?_
      rw [List.contains_cons, Bool.not_or, Bool.and_comm]
      rfl

/-- Only the bodies of live functions are left, and only these functions. -/
structure Reduced (p q : Program) : Prop where
  graph : ∃ gone, (∀ n ∈ gone, ¬p.Live n) ∧ q.graph = (p.removeNodes gone).graph
  functions : q.functions = p.functions.filter fun x => p.liveFunctions.contains x.1
  live : ∀ {n}, q.graph.hasNode n = true → p.Live n

theorem reduced_eliminate {d : Draft} (h : d.program.Housed) :
    Reduced d.program (eliminate.run d).2.program := by
  let p := d.program
  let dead := (p.functionDefs.map (·.id)).filter fun f => !p.liveFunctions.contains f
  let p₁ := ((removeFunctions dead).run d).2.program
  have hdead : ∀ f ∈ p.liveFunctions, f ∉ dead := by
    intro f hf hmem
    have hnot := (List.mem_filter.1 hmem).2
    rw [Bool.not_eq_true', ← Bool.not_eq_true] at hnot
    exact hnot hf
  obtain ⟨gone, hgraph, howned, hothers⟩ :=
    run_removeFunctions (hdead mainId h.live_closed.1) d
  have hgraph : p₁.graph = (p.removeNodes gone).graph := hgraph
  have hfunctions : p₁.functions = p.functions.filter fun x => p.liveFunctions.contains x.1 := by
    refine hothers.trans (List.filter_congr fun x hx => ?_)
    cases hlive : p.liveFunctions.contains x.1 with
    | true => simpa using hdead x.1 hlive
    | false =>
      have hmem : x.1 ∈ dead := by
        refine List.mem_filter.2 ⟨?_, by rw [hlive]; rfl⟩
        rw [← h.keys (d := x.2) hx, functionDefs, List.map_map]
        exact List.mem_map.2 ⟨x, hx, rfl⟩
      simpa using hmem
  have hgone : ∀ n ∈ gone, ¬p.Live n := by
    rintro n hn ⟨f, def', root, hf, hd, hbody, hmem⟩
    obtain ⟨a, ha, howner⟩ := howned n hn
    obtain ⟨b, hb, howner'⟩ := h.owner_subtree (FunctionTable.mem_of_get? hd) hbody hmem
    rw [show p.node? n = some a from ha] at hb
    cases hb
    exact hdead f hf (howner' ▸ howner)
  -- A body that is live is still there after the functions are gone, so none of it is an orphan.
  have horphan : ∀ n ∈ orphans p₁, ¬p.Live n := by
    rintro n hn ⟨f, def', root, hf, hd, hbody, hmem⟩
    have hfound : n ∈ bodyNodes p₁ := by
      have hd₁ : (f, def') ∈ p₁.functions := by
        rw [hfunctions]
        exact List.mem_filter.2 ⟨FunctionTable.mem_of_get? hd, hf⟩
      refine List.mem_flatMap.2 ⟨root, List.mem_filterMap.2 ⟨def', ?_, hbody⟩, ?_⟩
      · exact List.mem_map.2 ⟨_, hd₁, rfl⟩
      · refine mem_subtree_of_ties (fun m hm => ?_) h.sound hmem
        have hlive : p.Live m := ⟨f, def', root, hf, hd, hbody, hm⟩
        rw [hgraph]
        refine ⟨?_, hlive.ties_removeNodes h.sound hgone⟩
        obtain ⟨o, ho⟩ := exists_op? hlive.hasNode
        exact hasNode_of_op? ((hlive.op?_removeNodes hgone).trans ho)
    rw [orphans_eq] at hn
    have hnot := (List.mem_filter.1 hn).2
    rw [Bool.not_eq_true', ← Bool.not_eq_true] at hnot
    exact hnot (List.contains_iff_mem.2 hfound)
  refine ⟨⟨gone ++ orphans p₁, fun n hn => ?_, ?_⟩, hfunctions, fun {n} hn => ?_⟩
  · rcases List.mem_append.1 hn with hn | hn
    · exact hgone n hn
    · exact horphan n hn
  · have hrest : (eliminate.run d).2.program.graph =
        (orphans p₁).foldl SlotGraph.removeNode p₁.graph := rfl
    rw [hrest, hgraph]
    exact (List.foldl_append ..).symm
  · have hn : (p₁.removeNodes (orphans p₁)).graph.hasNode n = true := hn
    obtain ⟨hfirst, hkept⟩ := hasNode_removeNodes.1 hn
    have hfound : n ∈ bodyNodes p₁ := by
      by_contra hnot
      refine hkept ?_
      rw [orphans_eq]
      refine List.mem_filter.2 ⟨SlotGraph.mem_nodeIds.2 hfirst, ?_⟩
      rw [Bool.not_eq_true', ← Bool.not_eq_true, List.contains_iff_mem]
      exact hnot
    obtain ⟨root, hroot, hbelow⟩ := List.mem_flatMap.1 hfound
    obtain ⟨def', hdef, hbody⟩ := List.mem_filterMap.1 hroot
    obtain ⟨⟨f, _⟩, hd, rfl⟩ := List.mem_map.1 hdef
    rw [hfunctions] at hd
    obtain ⟨hd, hlive⟩ := List.mem_filter.1 hd
    refine ⟨f, _, root, hlive, FunctionTable.get?_of_mem h.distinct hd, hbody, ?_⟩
    refine mem_subtree_mono h.sound (fun m hm => ?_) (fun m t ht => ?_) hbelow
    · rw [hgraph] at hm
      exact (hasNode_removeNodes.1 hm).1
    · obtain ⟨role, c⟩ := t
      rw [hgraph] at ht
      obtain ⟨e, hedge⟩ := (sound_removeNodes h.sound gone).mem_ties.1 ht
      exact h.sound.mem_ties.2 ⟨e, ((edge?_removeNodes h.sound gone).1 hedge).1⟩

/-- Removing dead code keeps what the host sees. -/
theorem equivalent_eliminate {d : Draft} (h : d.program.Treelike) :
    Equivalent d.program (eliminate.run d).2.program := by
  obtain ⟨⟨gone, hgone, hgraph⟩, hfunctions, -⟩ := reduced_eliminate h.housed
  refine (h.corresponds_of_live gone hgone hgraph fun f hf => ?_).equivalent
  rw [function?, hfunctions]
  exact d.program.functions.get?_filter hf

end DeadCode

end GraphLang
