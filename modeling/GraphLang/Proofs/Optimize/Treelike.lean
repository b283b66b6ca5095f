import GraphLang.Proofs.Optimize.Correspondence
import GraphLang.Proofs.Program.Checks

/-!
# Programs whose bodies are trees

What the passes of the optimizer keep: every function has a body with a root of its own, below the
root there is a tree of nodes that belong to the function, and branches and function nodes have
what they need. Passes take such programs to such programs that mean the same.
-/

namespace GraphLang

open Eval

/-! ### Programs that look the same -/

/-- A run of the program by a new evaluator comes to what the host sees. -/
def Observes (config : Config) (verbosity : Verbosity) (natives : String → HostNative)
    (events : Array Event) (p : Program) (o : Observation) : Prop :=
  ∃ fuel r v, run fuel 0 (((World.evaluator config verbosity natives).withUnit p).quiet events #[]) =
    some (r, v) ∧ v.observation r = o

/-- The host cannot tell the programs apart. -/
def Equivalent (p q : Program) : Prop :=
  ∀ config verbosity natives events o,
    Observes config verbosity natives events p o ↔ Observes config verbosity natives events q o

variable {p q : Program} {R : Nat → Nat → Prop} {F : FunctionId → Prop} {n c : Nat}

theorem Equivalent.refl (p : Program) : Equivalent p p := fun _ _ _ _ _ => Iff.rfl

theorem Equivalent.trans {s : Program} (h : Equivalent p q) (h' : Equivalent q s) :
    Equivalent p s :=
  fun config verbosity natives events o =>
    (h config verbosity natives events o).trans (h' config verbosity natives events o)

/-- Corresponding programs look the same, also to evaluators that differ in how they load and
record programs. -/
theorem Corresponds.observes (h : Corresponds p q R F) {config config' : Config}
    (hdepth : config'.maxCallDepth = config.maxCallDepth) (verbosity : Verbosity)
    (natives : String → HostNative) (events events' : Array Event) (o : Observation) :
    Observes config verbosity natives events p o ↔ Observes config' verbosity natives events' q o := by
  constructor
  · rintro ⟨fuel, r, v, hrun, rfl⟩
    obtain ⟨fuel', v', hrun', hsame⟩ := h.observed hdepth verbosity natives events events' hrun
    exact ⟨fuel', r, v', hrun', hsame⟩
  · rintro ⟨fuel, r, v, hrun, rfl⟩
    obtain ⟨fuel', v', hrun', hsame⟩ :=
      h.symm.observed hdepth.symm verbosity natives events' events hrun
    exact ⟨fuel', r, v', hrun', hsame⟩

theorem Corresponds.equivalent (h : Corresponds p q R F) : Equivalent p q :=
  fun _ verbosity natives events o => h.observes rfl verbosity natives events events o

/-! ### Trees -/

namespace Program

/-- No two edges from one node have one role. -/
def RolesOnce (p : Program) : Prop :=
  ∀ e e' edge edge', p.graph.edge? e = some edge → p.graph.edge? e' = some edge' →
    edge'.source = edge.source → edge'.weight = edge.weight → e' = e

/-- The node is the root of a body. -/
def IsRoot (p : Program) (n : Nat) : Prop := ∃ f d, (f, d) ∈ p.functions ∧ d.body = some n

/-- The bodies of the program are trees, and nothing is missing in them that the passes rely on. -/
structure Treelike (p : Program) : Prop where
  sound : p.graph.Sound
  single : p.graph.SingleParents
  ranked : ∃ rank : Nat → Nat, ∀ e edge, p.graph.edge? e = some edge →
    rank edge.source < rank edge.target
  roles : p.RolesOnce
  owner : ∀ {e edge a b}, p.graph.edge? e = some edge → p.node? edge.source = some a →
    p.node? edge.target = some b → b.owner = a.owner
  keys : ∀ {f d}, (f, d) ∈ p.functions → d.id = f
  distinct : (p.functions.map (·.1)).Nodup
  rooted : ∀ {f d}, (f, d) ∈ p.functions →
    ∃ root a, d.body = some root ∧ p.node? root = some a ∧ a.owner = f
  loose : ∀ {n e edge}, p.IsRoot n → p.graph.edge? e = some edge → edge.target ≠ n
  registered : ∀ {n f}, p.op? n = some (.function f) → ∃ d, p.function? f = some d
  branch : ∀ {n}, p.op? n = some .branch → ∃ c, (Role.whenTrue, c) ∈ p.graph.ties n
  main : ∃ d, p.function? mainId = some d

theorem RolesOnce.differ (h : p.RolesOnce) (hsound : p.graph.Sound) (n : Nat) : p.RolesDiffer n := by
  rw [RolesDiffer, SlotGraph.ties, List.map_map]
  refine (hsound.nodup_outgoing_pairs n).map_on fun x hx y hy hxy => ?_
  obtain ⟨hx, hsource⟩ := hsound.mem_outgoing_iff.1 hx
  obtain ⟨hy, hsource'⟩ := hsound.mem_outgoing_iff.1 hy
  have he := h _ _ _ _ hx hy (hsource'.trans hsource.symm) hxy.symm
  rw [he, hx] at hy
  exact Prod.ext he.symm (Option.some.inj hy)

theorem rolesOnce_of_differ (hsound : p.graph.Sound) (h : ∀ n, p.RolesDiffer n) : p.RolesOnce := by
  intro e e' edge edge' hedge hedge' hsource hweight
  have hdiffer := h edge.source
  rw [RolesDiffer, SlotGraph.ties, List.map_map] at hdiffer
  have heq := List.inj_on_of_nodup_map hdiffer (hsound.mem_outgoing_iff.2 ⟨hedge', hsource⟩)
    (hsound.mem_outgoing_iff.2 ⟨hedge, rfl⟩) hweight
  exact congrArg Prod.fst heq

/-- A checked program of the shape that building gives. -/
theorem Checked.treelike (h : p.Checked) (hsound : p.graph.Sound) {order : List Nat}
    (horder : p.graph.topologicalOrder = .ok order) (hkeys : ∀ {f d}, (f, d) ∈ p.functions → d.id = f)
    (hdistinct : (p.functions.map (·.1)).Nodup)
    (howner : ∀ {f d root a}, (f, d) ∈ p.functions → d.body = some root →
      p.node? root = some a → a.owner = f)
    (hloose : ∀ {n e edge}, p.IsRoot n → p.graph.edge? e = some edge → edge.target ≠ n)
    (hmain : ∃ d, p.function? mainId = some d) : p.Treelike where
  sound := hsound
  single := h.single
  ranked := by
    obtain ⟨rank, hrank⟩ := hsound.exists_rank horder
    refine ⟨rank, fun e edge hedge => hrank _ _ ?_⟩
    exact hsound.mem_successors.2 ⟨e, edge, hedge, rfl, rfl⟩
  roles := rolesOnce_of_differ hsound h.roles
  owner := h.owner
  keys := hkeys
  distinct := hdistinct
  rooted := by
    intro f d hd
    obtain ⟨root, hroot, hlive⟩ := h.body hd
    obtain ⟨a, ha⟩ := SlotGraph.hasNode_iff.1 hlive
    exact ⟨root, a, hroot, ha, howner hd hroot ha⟩
  loose := hloose
  registered := h.registered
  branch ho := h.required ho (by simp [Op.shape])
  main := hmain

namespace Treelike

theorem differ (h : p.Treelike) (n : Nat) : p.RolesDiffer n := h.roles.differ h.sound n

/-- A program with fewer edges and nodes, where some nodes became literals. -/
theorem sub (h : p.Treelike) (hsound : q.graph.Sound) (hfunctions : q.functions = p.functions)
    (hedges : ∀ {e edge}, q.graph.edge? e = some edge → p.graph.edge? e = some edge)
    (hnodes : ∀ {n b}, q.node? n = some b → ∃ a, p.node? n = some a ∧ b.owner = a.owner ∧
      (b.op = a.op ∨ ∃ l, b.op = .literal l))
    (hroots : ∀ {n}, p.IsRoot n → q.graph.hasNode n = true)
    (hbranch : ∀ {n}, q.op? n = some .branch → p.op? n = some .branch →
      ∃ c, (Role.whenTrue, c) ∈ q.graph.ties n) : q.Treelike := by
  have hop : ∀ {n o}, q.op? n = some o → p.op? n = some o ∨ ∃ l, o = .literal l := by
    intro n o ho
    obtain ⟨b, hb, rfl⟩ := Option.map_eq_some_iff.1 ho
    obtain ⟨a, ha, -, hop | hliteral⟩ := hnodes hb
    · exact Or.inl (Option.map_eq_some_iff.2 ⟨a, ha, hop.symm⟩)
    · exact Or.inr hliteral
  have hfunction : ∀ f, q.function? f = p.function? f := by
    intro f
    rw [function?, function?, hfunctions]
  have hroot : ∀ {n}, q.IsRoot n → p.IsRoot n := by
    rintro n ⟨f, d, hd, hn⟩
    exact ⟨f, d, hfunctions ▸ hd, hn⟩
  refine ⟨hsound, fun e e' edge edge' he he' => h.single _ _ _ _ (hedges he) (hedges he'), ?_,
    fun e e' edge edge' he he' => h.roles _ _ _ _ (hedges he) (hedges he'), ?_, ?_, ?_, ?_,
    fun hn he => h.loose (hroot hn) (hedges he), ?_, ?_, ?_⟩
  · obtain ⟨rank, hrank⟩ := h.ranked
    exact ⟨rank, fun e edge he => hrank e edge (hedges he)⟩
  · intro e edge a b he ha hb
    obtain ⟨a', ha', howner, -⟩ := hnodes ha
    obtain ⟨b', hb', howner', -⟩ := hnodes hb
    rw [howner, howner']
    exact h.owner (hedges he) ha' hb'
  · rw [hfunctions]
    exact h.keys
  · rw [hfunctions]
    exact h.distinct
  · intro f d hd
    rw [hfunctions] at hd
    obtain ⟨root, a, hbody, ha, howner⟩ := h.rooted hd
    obtain ⟨b, hb⟩ := SlotGraph.hasNode_iff.1 (hroots ⟨f, d, hd, hbody⟩)
    obtain ⟨a', ha', howner', -⟩ := hnodes hb
    rw [ha] at ha'
    cases ha'
    exact ⟨root, b, hbody, hb, howner'.trans howner⟩
  · intro n f ho
    rcases hop ho with ho | ⟨l, hl⟩
    · rw [hfunction]
      exact h.registered ho
    · cases hl
  · intro n ho
    rcases hop ho with ho' | ⟨l, hl⟩
    · exact hbranch ho ho'
    · cases hl
  · rw [hfunction]
    exact h.main

end Treelike

end Program

end GraphLang
