import GraphLang.Optimize.Basic
import GraphLang.Proofs.CallDepth
import GraphLang.Proofs.Optimize.Elimination

/-!
# Optimizing a program keeps its meaning

All passes together take a program of the shape that building gives to one that looks the same to
the host. So an evaluator that optimizes the units it loads ends a run exactly when an evaluator
that leaves them as they are does, and with the same outcome.
-/

namespace GraphLang

open Eval

variable {p : Program}

/-! ### The passes together -/

namespace Optimize

/-- What the first folding of constants comes to. -/
def first (p : Program) : Nat × Draft := Fold.constants.run ⟨p, #[]⟩

/-- What the folding of branches comes to. -/
def branched (p : Program) : Nat × Draft := Fold.branches.run (first p).2

/-- What the second folding of constants comes to. -/
def again (p : Program) : Nat × Draft :=
  (if 0 < (branched p).1 then Fold.constants else pure 0 : Pass Nat).run (branched p).2

/-- What pruning comes to. -/
def pruned (p : Program) : Nat × Draft := DeadCode.prune.run (again p).2

/-- What the removal of dead code comes to. -/
def eliminated (p : Program) : (Nat × Nat) × Draft := DeadCode.eliminate.run (pruned p).2

/-- A run of all passes is these runs, one after the other. -/
theorem optimize_eq (p : Program) :
    p.optimize.1 = ⟨(first p).1 + (again p).1, (branched p).1, (pruned p).1,
        p.graph.nodeCount - (eliminated p).2.program.graph.nodeCount, (eliminated p).1.2⟩ ∧
      p.optimize.2.1 = (eliminated p).2.program := by
  unfold Program.optimize Optimize.passes eliminated pruned again branched first
  -- What the passes do is of no account for the order in which they come.
  generalize Fold.constants = constants
  generalize Fold.branches = branches
  generalize DeadCode.prune = prune
  generalize DeadCode.eliminate = eliminate
  simp only [Pass.run_bind, Pass.run_program]
  by_cases hfolded : 0 < (branches.run (constants.run ⟨p, #[]⟩).2).1
  · rw [if_pos hfolded, if_pos hfolded]
    exact ⟨rfl, rfl⟩
  · rw [if_neg hfolded, if_neg hfolded]
    exact ⟨rfl, rfl⟩

/-- Constants are folded again where a branch was folded. -/
theorem again_cases (p : Program) :
    0 < (branched p).1 ∧ again p = Fold.constants.run (branched p).2 ∨
      (branched p).1 = 0 ∧ (again p).1 = 0 ∧ (again p).2 = (branched p).2 := by
  unfold again
  by_cases hfolded : 0 < (branched p).1
  · rw [if_pos hfolded]
    exact Or.inl ⟨hfolded, rfl⟩
  · have hpure : (pure 0 : Pass Nat).run (branched p).2 = (0, (branched p).2) := rfl
    rw [if_neg hfolded, hpure]
    refine Or.inr ⟨Nat.eq_zero_of_not_pos hfolded, ?_, ?_⟩ <;> dsimp only

end Optimize

/-- The optimized program is what the passes leave, one after the other. -/
theorem program_optimize_eq (p : Program) : p.optimize.2.1 =
    ((Fold.constants >>= fun _ => Fold.branches >>= fun again =>
      (if 0 < again then Fold.constants else pure 0) >>= fun _ =>
        DeadCode.prune >>= fun _ => DeadCode.eliminate).run ⟨p, #[]⟩).2.program := by
  rw [(Optimize.optimize_eq p).2]
  unfold Optimize.eliminated Optimize.pruned Optimize.again Optimize.branched Optimize.first
  simp only [Pass.run_bind]

/-- The optimized program is what is left when the last pass removed the dead code. -/
theorem program_optimize (p : Program) : ∃ again d,
    d = (DeadCode.prune.run ((if 0 < again then Fold.constants else pure 0 : Pass Nat).run
      (Fold.branches.run (Fold.constants.run ⟨p, #[]⟩).2).2).2).2 ∧
    p.optimize.2.1 = (DeadCode.eliminate.run d).2.program := by
  refine ⟨(Fold.branches.run (Fold.constants.run ⟨p, #[]⟩).2).1, _, rfl, ?_⟩
  rw [program_optimize_eq]
  simp only [Pass.run_bind]

theorem keeps_constantsAgain (branches : Nat) :
    Pass.Keeps (if 0 < branches then Fold.constants else pure 0) := by
  split
  · exact Fold.keeps_constants
  · exact .pure 0

/-- The optimized program looks the same to the host. -/
theorem Program.Treelike.equivalent_optimize (h : p.Treelike) : Equivalent p p.optimize.2.1 := by
  obtain ⟨again, d, rfl, hoptimize⟩ := program_optimize p
  have hfaithful := (((Fold.keeps_constants ⟨p, #[]⟩).trans (Fold.keeps_branches _)).trans
    (keeps_constantsAgain again _)).trans (DeadCode.keeps_prune _)
  obtain ⟨htree, hequivalent⟩ := hfaithful h
  rw [hoptimize]
  exact hequivalent.trans (DeadCode.equivalent_eliminate htree)

/-! ### The shape that building gives -/

/-- The graph is in order, the functions stand under their own numbers and the main one is among
them, and the root of a body belongs to its function and is no child of a node. -/
structure Program.Built (p : Program) : Prop where
  /-- Every edge joins two nodes that are there. -/
  sound : p.graph.Sound
  /-- No two functions have one number. -/
  distinct : (p.functions.map (·.1)).Nodup
  /-- Every function stands under its number. -/
  keys : ∀ x ∈ p.functions, x.2.id = x.1
  /-- There is a main function. -/
  main : (p.function? mainId).isSome = true
  /-- The root of a body belongs to the function and has no parent. -/
  roots : ∀ x ∈ p.functions, ∀ root, x.2.body = some root →
    (p.node? root).map (·.owner) = some x.1 ∧ p.parents root = []

theorem Program.Built.treelike (h : p.Built) (hvalid : p.validate = .ok []) : p.Treelike := by
  obtain ⟨-, hcycle, -⟩ := validate_eq_nil hvalid
  obtain ⟨order, horder⟩ := cycleErrors_eq_ok_nil_iff.1 hcycle
  refine (checked_of_validate h.sound hvalid).treelike h.sound horder (fun hd => h.keys _ hd)
    h.distinct (fun hd hroot ha => ?_) (fun hroot hedge htarget => ?_)
    (Option.isSome_iff_exists.1 h.main)
  · have howner := (h.roots _ hd _ hroot).1
    rw [ha] at howner
    exact Option.some.inj howner
  · obtain ⟨f, d, hd, hbody⟩ := hroot
    have hparents := (h.roots _ hd _ hbody).2
    rw [parents, List.map_eq_nil_iff] at hparents
    have hmem := h.sound.mem_incoming_iff.2 ⟨hedge, htarget⟩
    rw [hparents] at hmem
    cases hmem

/-! ### Loading and running -/

/-- A new evaluator loads the program and runs it, and the run ends with what the host sees. -/
def Ends (config : Config) (verbosity : Verbosity) (natives : String → HostNative) (p : Program)
    (o : Observation) : Prop :=
  ∃ fuel r v, execute fuel p (.evaluator config verbosity natives) = some (r, v) ∧
    v.observation r = o

variable {config : Config} {verbosity : Verbosity} {natives : String → HostNative}

/-- A valid program is loaded, optimized or as it is, and run as the only unit. -/
theorem exists_execute (hvalid : p.validate = .ok []) (config : Config) (verbosity : Verbosity)
    (natives : String → HostNative) : ∃ events, ∀ fuel,
      execute fuel p (.evaluator config verbosity natives) =
        run fuel 0 (((World.evaluator config verbosity natives).withUnit
          (prepared config p)).quiet events #[]) := by
  obtain ⟨events, hload⟩ := exists_load hvalid (sane_evaluator config verbosity natives).prelude
  refine ⟨events, fun fuel => ?_⟩
  unfold execute
  rw [Act.run_bind, hload]
  rfl

theorem ends_iff (hvalid : p.validate = .ok []) (config : Config) (verbosity : Verbosity)
    (natives : String → HostNative) : ∃ events, ∀ o, Ends config verbosity natives p o ↔
      Observes config verbosity natives events (prepared config p) o := by
  obtain ⟨events, hexecute⟩ := exists_execute hvalid config verbosity natives
  refine ⟨events, fun o => ?_⟩
  unfold Ends Observes
  simp only [hexecute]

/-- A run has one outcome, whatever the fuel. -/
theorem Ends.unique (hvalid : p.validate = .ok []) {o o' : Observation}
    (h : Ends config verbosity natives p o) (h' : Ends config verbosity natives p o') : o = o' := by
  obtain ⟨events, hexecute⟩ := exists_execute hvalid config verbosity natives
  obtain ⟨fuel, r, v, hrun, rfl⟩ := h
  obtain ⟨fuel', r', v', hrun', rfl⟩ := h'
  rw [hexecute] at hrun hrun'
  have hsane := ((sane_evaluator config verbosity natives).withUnit (prepared config p)).quiet
    events #[]
  have hmore := run_of_le hsane (Nat.le_max_left fuel fuel') hrun
  rw [run_of_le hsane (Nat.le_max_right fuel fuel') hrun'] at hmore
  cases hmore
  rfl

/-- Whether units are optimized does not change how a run ends. -/
theorem ends_optimized_iff (hvalid : p.validate = .ok []) (hbuilt : p.Built) (config : Config)
    (verbosity : Verbosity) (natives : String → HostNative) (o : Observation) :
    Ends { config with optimize := true } verbosity natives p o ↔
      Ends { config with optimize := false } verbosity natives p o := by
  have htree := hbuilt.treelike hvalid
  obtain ⟨events, hoptimized⟩ := ends_iff hvalid { config with optimize := true } verbosity natives
  obtain ⟨events', hplain⟩ := ends_iff hvalid { config with optimize := false } verbosity natives
  rw [hoptimized, hplain]
  calc Observes { config with optimize := true } verbosity natives events p.optimize.2.1 o
    _ ↔ Observes { config with optimize := true } verbosity natives events p o :=
      (htree.equivalent_optimize _ _ _ _ _).symm
    _ ↔ Observes { config with optimize := false } verbosity natives events' p o :=
      htree.corresponds_self.observes (by rfl) verbosity natives events events' o

/-- A valid program of the shape that building gives, loaded and run by a new evaluator that
optimizes it, ends exactly when it ends without being optimized, whatever the limit on the call
depth, and then with the same value or error, the same call path in it, the same lines of output,
the same containers and the same names and values at its top level. -/
theorem optimization_preserves_meaning (hvalid : p.validate = .ok []) (hbuilt : p.Built)
    (config : Config) (verbosity : Verbosity) (natives : String → HostNative) :
    ((∃ o, Ends { config with optimize := true } verbosity natives p o) ↔
      ∃ o, Ends { config with optimize := false } verbosity natives p o) ∧
    ∀ o o', Ends { config with optimize := true } verbosity natives p o →
      Ends { config with optimize := false } verbosity natives p o' → o = o' := by
  have hsame := ends_optimized_iff hvalid hbuilt config verbosity natives
  exact ⟨exists_congr hsame, fun o o' ho ho' => Ends.unique hvalid ((hsame o).1 ho) ho'⟩

/-! ### A program on which every pass acts -/

namespace SlotGraph

variable {α β : Type} {g : SlotGraph α β}

theorem Sound.addNodes (h : g.Sound) (nodes : List α) :
    (nodes.foldl (fun g a => (g.addNode a).2) g).Sound := by
  induction nodes generalizing g with
  | nil => exact h
  | cons a nodes ih => exact ih (h.addNode a)

theorem Sound.addEdges (h : g.Sound) {edges : List (Nat × Nat × β)}
    (hends : ∀ e ∈ edges, g.hasNode e.1 = true ∧ g.hasNode e.2.1 = true) :
    (edges.foldl (fun g e => (g.addEdge e.1 e.2.1 e.2.2).2) g).Sound := by
  induction edges generalizing g with
  | nil => exact h
  | cons e edges ih =>
    obtain ⟨hsource, htarget⟩ := hends e List.mem_cons_self
    refine ih (h.addEdge hsource htarget e.2.2) fun e' he' => ?_
    have hnode : ∀ n, (g.addEdge e.1 e.2.1 e.2.2).2.node? n = g.node? n := fun n =>
      node?_addEdge ..
    rw [hasNode, hasNode, hnode, hnode]
    exact hends e' (List.mem_cons_of_mem e he')

end SlotGraph

/-- A program that leaves with `1 + 2` if `1 < 2` and with `0` otherwise. A statement after that one
cannot run, and of the second function no closure is made. -/
def Program.foldable : Program :=
  let nodes : List Node := [⟨.block, 0, none⟩, ⟨.leave, 0, none⟩, ⟨.branch, 0, none⟩,
    ⟨.binary .lt, 0, none⟩, ⟨.literal (.int 1), 0, none⟩, ⟨.literal (.int 2), 0, none⟩,
    ⟨.binary .add, 0, none⟩, ⟨.literal (.int 1), 0, none⟩, ⟨.literal (.int 2), 0, none⟩,
    ⟨.literal (.int 0), 0, none⟩, ⟨.var "x", 0, none⟩, ⟨.literal .nil, 1, none⟩]
  let edges : List (Nat × Nat × Role) := [(0, 1, .statement 0), (0, 10, .statement 1),
    (1, 2, .value), (2, 3, .condition), (3, 4, .left), (3, 5, .right), (2, 6, .whenTrue),
    (6, 7, .left), (6, 8, .right), (2, 9, .whenFalse)]
  ⟨"foldable", edges.foldl (fun g e => (g.addEdge e.1 e.2.1 e.2.2).2)
      (nodes.foldl (fun g a => (g.addNode a).2) .empty),
    [(0, ⟨0, mainName, [], some 0, none⟩), (1, ⟨1, "f", [], some 11, some 0⟩)], 2⟩

theorem Program.built_foldable : foldable.Built where
  sound := (SlotGraph.sound_empty.addNodes _).addEdges (by decide +kernel)
  distinct := by decide
  keys := by decide
  main := rfl
  roots := by
    intro x hx root hroot
    rcases List.mem_pair.1 hx with rfl | rfl <;> cases hroot <;> exact ⟨by cbv, by cbv⟩

/-- Every pass acts on the program, its plain run ends, and so its optimized run ends with the same
outcome. -/
theorem foldable_optimized : Program.foldable.validate = .ok [] ∧ Program.foldable.Built ∧
    Program.foldable.optimize.1 = ⟨2, 1, 1, 9, 1⟩ ∧
    ∃ o, Ends { Config.default with optimize := true } .silent noNatives Program.foldable o ∧
      Ends { Config.default with optimize := false } .silent noNatives Program.foldable o := by
  have hvalid : Program.foldable.validate = .ok [] := by cbv
  have hreport : Program.foldable.optimize.1 = ⟨2, 1, 1, 9, 1⟩ := by
    unfold Program.optimize Optimize.passes DeadCode.eliminate
    simp only [DeadCode.orphans_eq]
    cbv
  obtain ⟨hends, hsame⟩ := optimization_preserves_meaning hvalid Program.built_foldable
    .default .silent noNatives
  obtain ⟨o, ho⟩ : ∃ o, Ends { Config.default with optimize := false } .silent noNatives
      Program.foldable o := by
    have hrun : (execute 10 Program.foldable (.evaluator { Config.default with optimize := false }
      .silent noNatives)).isSome = true := by cbv
    obtain ⟨⟨r, v⟩, hrun⟩ := Option.isSome_iff_exists.1 hrun
    exact ⟨_, 10, r, v, hrun, rfl⟩
  obtain ⟨o', ho'⟩ := hends.2 ⟨o, ho⟩
  obtain rfl := hsame o' o ho' ho
  exact ⟨hvalid, Program.built_foldable, hreport, o', ho', ho⟩

end GraphLang
