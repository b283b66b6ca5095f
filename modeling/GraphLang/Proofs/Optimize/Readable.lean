import GraphLang.Command.Response
import GraphLang.Proofs.Optimize.Invariants
import GraphLang.Proofs.Program.Decoded

/-!
# What the command that optimizes a unit writes

Optimizing keeps all numbers of a program in their words, keeps the ends of edges at nodes, and
makes no operation but literals. So what is written can be read again, unless folding has made a
double that is not finite, or an edge has lost the last of the nodes that stand behind its ends.
-/

namespace GraphLang

open Program Json

variable {p q : Program}

/-! ### What stays the same -/

namespace Program

namespace Writable

/-- A program with another graph may be written if what is new in the graph may. -/
theorem withGraph (h : p.Writable) {g : SlotGraph Node Role}
    (hsize : g.slots.size = p.graph.slots.size)
    (hnodes : ∀ n a, g.node? n = some a → p.node? n = some a ∨ a.Fits ∧ a.op.Flat)
    (hedges : ∀ e edge, g.edge? e = some edge → p.graph.edge? e = some edge ∨
      p.graph.hasNode edge.source = true ∧ p.graph.hasNode edge.target = true ∧ edge.weight.Fits) :
    Writable { p with graph := g } where
  size := hsize.trans_le h.size
  nodes n a ha := (hnodes n a ha).elim (h.nodes n a) id
  edges e edge hedge := by
    rw [show ({ p with graph := g } : Program).graph.slots.size = _ from hsize]
    rcases hedges e edge hedge with hold | ⟨hsource, htarget, hfits⟩
    · exact h.edges e edge hold
    · obtain ⟨a, ha⟩ := SlotGraph.hasNode_iff.1 hsource
      obtain ⟨b, hb⟩ := SlotGraph.hasNode_iff.1 htarget
      exact ⟨SlotGraph.node?_lt ha, SlotGraph.node?_lt hb, hfits⟩
  ascending := h.ascending
  functions := h.functions
  next := h.next

/-- Each single change of the passes leaves a program that may be written. -/
theorem invariant : Invariant Writable Role.Fits where
  role h hedge := (h.edges _ _ hedge).2.2
  removeNode n h := by
    refine h.withGraph (SlotGraph.size_removeNode n) (fun m a ha => ?_)
      fun e edge hedge => Or.inl (SlotGraph.of_edge?_removeNode hedge)
    rw [SlotGraph.node?_removeNode] at ha
    split_ifs at ha
    exact Or.inl ha
  removeEdge e h := h.withGraph (SlotGraph.removeEdge_frame e).1
    (fun m a ha => Or.inl ((SlotGraph.node?_removeEdge e m).symm.trans ha))
    fun _ _ hedge => Or.inl (SlotGraph.of_edge?_removeEdge hedge).2
  addEdge {p n c role} h hsource htarget hrole := by
    refine h.withGraph (SlotGraph.size_addEdge n c role)
      (fun m a ha => Or.inl ((SlotGraph.node?_addEdge n c role m).symm.trans ha))
      fun e edge hedge => ?_
    rcases SlotGraph.of_edge?_addEdge hedge with rfl | hold
    · exact Or.inr ⟨hsource, htarget, hrole⟩
    · exact Or.inl hold
  literal {p} n l h := by
    refine h.withGraph (SlotGraph.size_modifyNode n _) (fun m b hb => ?_)
      fun e edge hedge => Or.inl hedge
    rw [SlotGraph.node?_modifyNode] at hb
    split_ifs at hb
    · obtain ⟨a, ha, rfl⟩ := Option.map_eq_some_iff.1 hb
      have hfits := (h.nodes _ a ha).1
      exact Or.inr ⟨⟨trivial, hfits.owner, hfits.location⟩, trivial⟩
    · exact Or.inl hb
  modify {p root} f h hlive := by
    obtain ⟨a, ha⟩ := SlotGraph.hasNode_iff.1 hlive
    refine ⟨h.size, h.nodes, h.edges,
      h.ascending.modify f fun d => { d with body := some root }, fun x hx => ?_, h.next⟩
    have hx : x ∈ p.functions.modify f fun d => { d with body := some root } := hx
    obtain ⟨d, hd, hx⟩ := FunctionTable.mem_modify hx
    obtain ⟨hkey, hfits⟩ := h.functions (x.1, d) hd
    refine ⟨hkey, ?_⟩
    rcases hx with heq | heq <;> rw [heq]
    · exact hfits
    · refine ⟨hfits.id, ?_, hfits.parent⟩
      rintro _ ⟨⟩
      exact (SlotGraph.node?_lt ha).trans_le h.size
  erase f h := ⟨h.size, h.nodes, h.edges, h.ascending.filter _,
    fun x hx => h.functions x (List.mem_of_mem_filter hx), h.next⟩

end Writable

/-- Each single change of the passes leaves the edge lists in order. -/
theorem sound_invariant : Invariant (fun p => p.graph.Sound) fun _ => True where
  role _ _ := trivial
  removeNode n h := h.removeNode n
  removeEdge e h := h.removeEdge e
  addEdge h hsource htarget _ := h.addEdge hsource htarget _
  literal n _ h := h.modifyNode n _
  modify _ h _ := h
  erase _ h := h

/-- Each operation is a literal, or the node has had it before. -/
def FewerOps (p q : Program) : Prop :=
  ∀ n o, q.op? n = some o → (∃ l, o = .literal l) ∨ p.op? n = some o

theorem fewerOps_invariant (p : Program) : Invariant (FewerOps p) fun _ => True where
  role _ _ := trivial
  removeNode n h m o ho := by
    refine h m o ?_
    rw [op?, node?, SlotGraph.node?_removeNode] at ho
    split_ifs at ho
    · cases ho
    · exact ho
  removeEdge e h m o ho := h m o ((op?_removeEdge _ e m).symm.trans ho)
  addEdge h _ _ _ m o ho := by
    rw [op?, node?, SlotGraph.node?_addEdge] at ho
    exact h m o ho
  literal n l h m o ho := by
    rw [op?, node?, SlotGraph.node?_modifyNode] at ho
    split_ifs at ho
    · rw [Option.map_map] at ho
      obtain ⟨a, -, rfl⟩ := Option.map_eq_some_iff.1 ho
      exact Or.inl ⟨l, rfl⟩
    · exact h m o ho
  modify _ h _ := h
  erase _ h := h

end Program

/-! ### The answer of the command -/

/-- What the command that optimizes a unit writes: the content of the file that is saved, or of the
standard output. -/
def Response.written (r : Response) : String :=
  match r.save with
  | some (_, text) => text
  | none => r.stdout

/-- The command answers a valid unit with the optimized one, and perhaps a line end. -/
theorem Command.written_optimize {text : String} (file : String) (output : Option String)
    (verbosity : Verbosity) (fuel : Nat) (hparse : Program.parse text = some p)
    (hvalid : p.validate = .ok []) :
    ∃ r blanks, (Command.optimize file output).respond verbosity fuel (.ok text) = some r ∧
      r.code = 0 ∧ r.written = p.optimize.2.1.encode.pretty ++ blanks ∧ Blanks blanks.toList := by
  have hread : readProgram file (.ok text) = .ok (text.utf8ByteSize, p) := by
    rw [readProgram, hparse]
  have hfile : (Command.optimize file output).file = file := rfl
  unfold respond
  rw [hfile, hread]
  dsimp only [respondTo]
  unfold optimizeProgram
  rw [hvalid]
  obtain ⟨report, q, events⟩ := p.optimize
  cases output with
  | some path => exact ⟨_, "", rfl, rfl, (String.append_empty).symm, by simp⟩
  | none => exact ⟨_, "\n", rfl, rfl, rfl, by simp [Blanks]⟩

/-- A unit that was read and passes all checks is optimized, and what is written can be read exactly
if all doubles in it are finite and no edge starts or ends behind all nodes. -/
theorem Command.exists_response {text : String} (file : String) (output : Option String)
    (verbosity : Verbosity) (fuel : Nat) (hparse : Program.parse text = some p)
    (hvalid : p.validate = .ok []) (hsize : p.graph.slots.size ≤ UInt32.size) :
    ∃ r, (Command.optimize file output).respond verbosity fuel (.ok text) = some r ∧ r.code = 0 ∧
      ((Program.parse r.written).isSome ↔ p.optimize.2.1.Finite ∧ p.optimize.2.1.Enclosed) := by
  obtain ⟨r, blanks, hrespond, hcode, hwritten, hblanks⟩ :=
    Command.written_optimize file output verbosity fuel hparse hvalid
  refine ⟨r, hrespond, hcode, ?_⟩
  rw [hwritten]
  exact (Writable.invariant.optimize (writable_of_parse hparse hvalid hsize)).isSome_parse_pretty
    hblanks

/-- What the command that optimizes a unit writes can be read exactly if all doubles in it are
finite and no edge starts or ends behind all nodes. Only literals are new in it, so a double that is
not finite is one that folding has made. Where edges start and end at nodes, they still do. -/
theorem optimized_readable_iff {file text : String} (output : Option String) (verbosity : Verbosity)
    (fuel : Nat) (hparse : Program.parse text = some p) (hvalid : p.validate = .ok [])
    (hsize : p.graph.slots.size ≤ UInt32.size) :
    ∃ r, (Command.optimize file output).respond verbosity fuel (.ok text) = some r ∧ r.code = 0 ∧
      ((Program.parse r.written).isSome ↔ p.optimize.2.1.Finite ∧ p.optimize.2.1.Enclosed) ∧
      FewerOps p p.optimize.2.1 ∧ (p.graph.Sound → p.optimize.2.1.Enclosed) := by
  obtain ⟨r, hrespond, hcode, hreadable⟩ :=
    Command.exists_response file output verbosity fuel hparse hvalid hsize
  exact ⟨r, hrespond, hcode, hreadable, (fewerOps_invariant p).optimize fun n o ho => Or.inr ho,
    fun hsound e edge hedge => (sound_invariant.optimize hsound).ends_lt_nodeBound hedge⟩

/-! ### Ten times a double -/

/-- A document whose main function returns ten times a literal. -/
def tenfoldDocument (x : Json) : Json :=
  document
    (graphDocument
      [.obj [("op", .tagged "literal" (.tagged "float" x)), ("owner", .nat 0)],
        .obj [("op", .tagged "literal" (.tagged "int" (.int 10))), ("owner", .nat 0)],
        .obj [("op", .tagged "binary" (.str "mul")), ("owner", .nat 0)],
        .obj [("op", .str "return"), ("owner", .nat 0)]] []
      [.arr [.nat 2, .nat 0, .str "left"], .arr [.nat 2, .nat 1, .str "right"],
        .arr [.nat 3, .nat 2, .str "value"]])
    [("0", mainDocument 3)]

/-- The program of the document. -/
def tenfoldUnit (x : Float) : Program :=
  ⟨"a", ⟨#[⟨some ⟨.literal (.float x), 0, none⟩, [], [0]⟩,
      ⟨some ⟨.literal (.int 10), 0, none⟩, [], [1]⟩,
      ⟨some ⟨.binary .mul, 0, none⟩, [1, 0], [2]⟩, ⟨some ⟨.leave, 0, none⟩, [2], []⟩],
    #[some ⟨2, 0, .left⟩, some ⟨2, 1, .right⟩, some ⟨3, 2, .value⟩], [], []⟩,
    [(0, ⟨0, mainName, [], some 3, none⟩)], 1⟩

/-- What is left of it: its main function returns a literal. -/
def answered (l : Literal) : Program :=
  ⟨"a", ⟨#[⟨none, [], []⟩, ⟨none, [], []⟩, ⟨some ⟨.literal l, 0, none⟩, [], [2]⟩,
      ⟨some ⟨.leave, 0, none⟩, [2], []⟩],
    #[none, none, some ⟨3, 2, .value⟩], [1, 0], [1, 0]⟩,
    [(0, ⟨0, mainName, [], some 3, none⟩)], 1⟩

theorem parse_tenfoldUnit {x y : Float} (h : rereadFloat x = .float y) :
    Program.parse (tenfoldDocument (.float x)).compress = some (tenfoldUnit y) := by
  have hbounded : (tenfoldDocument (.float x)).Bounded := by
    simp [tenfoldDocument, document, graphDocument, mainDocument, Json.tagged, Json.nat,
      Json.Bounded, Json.BoundedItems, Json.BoundedMembers, Json.Fits]
  have hreread : (tenfoldDocument (.float x)).reread = tenfoldDocument (rereadFloat x) := rfl
  rw [Program.parse, Json.parse_compress hbounded (by cbv), Option.bind_some, hreread, h]
  cbv

theorem validate_tenfoldUnit (x : Float) : (tenfoldUnit x).validate = .ok [] := by cbv

/-- The first folding of constants makes the operator a literal. -/
theorem first_tenfoldUnit (x : Float) : ∃ events, (Optimize.first (tenfoldUnit x)).2 =
    ⟨answered (.float (x * Decimal.ofInt 10)), events⟩ := by
  have hfolded :
      Fold.folded? (tenfoldUnit x) 2 = some (.float (x * Decimal.ofInt 10), [0, 1]) := rfl
  generalize Literal.float (x * Decimal.ofInt 10) = l at hfolded ⊢
  obtain ⟨q, hreplace, hq⟩ : ∃ q, (tenfoldUnit x).replaceOp 2 (.literal l) = .ok (.binary .mul, q) ∧
      q.removeNodes [0, 1] = answered l := ⟨_, rfl, by cbv⟩
  obtain ⟨events, hfold⟩ :=
    @Fold.run_foldOnce_folded ⟨tenfoldUnit x, #[]⟩ 2 [3] _ _ _ _ hfolded hreplace
  have hlast : (Fold.foldOnce [3]).run ⟨answered l, events⟩ = (0, ⟨answered l, events⟩) := by cbv
  rw [hq, hlast] at hfold
  have hround :
      (Fold.foldOnce [0, 1, 2, 3]).run ⟨tenfoldUnit x, #[]⟩ = (1, ⟨answered l, events⟩) := by
    rw [Fold.run_foldOnce_idle (by cbv), Fold.run_foldOnce_idle (by cbv), hfold]
    rfl
  have hrounds : (Fold.foldRounds 4).run ⟨answered l, events⟩ = (0, ⟨answered l, events⟩) := by cbv
  have hcount : (tenfoldUnit x).graph.nodeCount + 1 = 5 := by cbv
  have hids : (tenfoldUnit x).nodeIds = [0, 1, 2, 3] := by cbv
  refine ⟨events, ?_⟩
  unfold Optimize.first Fold.constants
  rw [Pass.run_bind, Pass.run_program]
  dsimp only
  rw [hcount, Fold.foldRounds, Pass.run_bind, Pass.run_program]
  dsimp only
  rw [hids, Pass.run_bind, hround]
  dsimp only
  rw [if_neg (by decide), Pass.run_bind, hrounds]
  rfl

theorem optimize_tenfoldUnit (x : Float) :
    (tenfoldUnit x).optimize.2.1 = answered (.float (x * Decimal.ofInt 10)) := by
  obtain ⟨events, hfirst⟩ := first_tenfoldUnit x
  rw [(Optimize.optimize_eq _).2]
  unfold Optimize.eliminated Optimize.pruned Optimize.again Optimize.branched
  rw [hfirst]
  generalize Literal.float (x * Decimal.ofInt 10) = l
  unfold DeadCode.eliminate
  simp only [DeadCode.orphans_eq]
  cbv

theorem finite_answered {l : Literal} (h : l.Finite) : (answered l).Finite := by
  intro n o ho
  obtain ⟨a, ha, rfl⟩ := Option.map_eq_some_iff.1 ho
  have hn : n < 4 := SlotGraph.node?_lt ha
  interval_cases n <;> cases ha
  · exact h
  · trivial

theorem enclosed_answered (l : Literal) : (answered l).Enclosed := by
  intro e edge hedge
  have hbound : (answered l).graph.nodeBound = 4 := by cbv
  have he : e < 3 := SlotGraph.edge?_lt hedge
  rw [hbound]
  interval_cases e <;> cases hedge
  decide

/-- A double whose text was read may be followed through the document. -/
theorem exists_reread {x : Float} (test : Float → Bool)
    (h : (rereadFloat x).toFloat?.any test = true) :
    ∃ y, rereadFloat x = .float y ∧ test y = true := by
  rcases rereadFloat_cases x with ⟨⟨y, hy⟩, -⟩ | ⟨hnone, -⟩
  · rw [hy] at h
    exact ⟨y, hy, h⟩
  · rw [hnone] at h
    cases h

/-- Ten times a half is five, and what is written can be read. -/
theorem half_readable : ∃ p r, Program.parse (tenfoldDocument (.float 0.5)).compress = some p ∧
    p.validate = .ok [] ∧ p.graph.slots.size ≤ UInt32.size ∧
    (Command.optimize "unit.json" none).respond .silent 0
      (.ok (tenfoldDocument (.float 0.5)).compress) = some r ∧
    r.code = 0 ∧ (Program.parse r.written).isSome = true := by
  obtain ⟨y, hreread, hfinite⟩ := exists_reread (x := 0.5)
    (fun y => (y * Decimal.ofInt 10).isFinite) (by decide +kernel)
  have hparse := parse_tenfoldUnit hreread
  have hsize : (tenfoldUnit y).graph.slots.size ≤ UInt32.size := show 4 ≤ UInt32.size by decide
  obtain ⟨r, hrespond, hcode, hreadable, -⟩ :=
    @optimized_readable_iff _ "unit.json" _ none .silent 0 hparse (validate_tenfoldUnit y) hsize
  refine ⟨_, r, hparse, validate_tenfoldUnit y, hsize, hrespond, hcode, hreadable.2 ?_⟩
  rw [optimize_tenfoldUnit]
  exact ⟨finite_answered hfinite, enclosed_answered _⟩

/-- Ten times `10 ^ 308` is an infinity. What is written then cannot be read. -/
theorem overflow_unreadable : ∃ p r, Program.parse (tenfoldDocument (.float 1e308)).compress = some p ∧
    p.validate = .ok [] ∧
    (Command.optimize "unit.json" none).respond .silent 0
      (.ok (tenfoldDocument (.float 1e308)).compress) = some r ∧
    r.code = 0 ∧ Program.parse r.written = none := by
  obtain ⟨y, hreread, hinfinite⟩ := exists_reread (x := 1e308)
    (fun y => !(y * Decimal.ofInt 10).isFinite) (by decide +kernel)
  have hparse := parse_tenfoldUnit hreread
  have hsize : (tenfoldUnit y).graph.slots.size ≤ UInt32.size := show 4 ≤ UInt32.size by decide
  obtain ⟨r, hrespond, hcode, hreadable⟩ :=
    Command.exists_response "unit.json" none .silent 0 hparse (validate_tenfoldUnit y) hsize
  refine ⟨_, r, hparse, validate_tenfoldUnit y, hrespond, hcode, ?_⟩
  rw [← Option.not_isSome_iff_eq_none, hreadable, optimize_tenfoldUnit]
  rintro ⟨hfinite, -⟩
  have hliteral : Literal.Finite (.float (y * Decimal.ofInt 10)) := hfinite 2 _ rfl
  rw [Literal.Finite] at hliteral
  rw [hliteral] at hinfinite
  cases hinfinite

end GraphLang
