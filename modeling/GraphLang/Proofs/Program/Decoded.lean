import GraphLang.Proofs.Program.Read
import GraphLang.Proofs.Program.WellFormed
import GraphLang.Proofs.Program.Written

/-!
# Valid programs that were read

A valid program that was read may be written again. A document may leave the main function out, and
it may hold edges that start or end at a vacant slot. The checks look at the functions and nodes
that are there, so they pass such a program. Where the main function is registered and no edge
touches a vacant slot, a valid program is closed: every look-up that evaluation relies on finds a
node.
-/

namespace GraphLang

/-! ### Writing what was read -/

/-- A description that passes its check has no conditional as a branch of a conditional. -/
theorem RuleSpec.flat_of_check {spec : RuleSpec} (h : spec.check = .ok ()) : spec.Flat := by
  have hsimple {t : RuleSpec} (ht : t.isTransform = true) : t.isConditional = false := by
    cases t <;> first | rfl | cases ht
  cases spec with
  | conditional t =>
    cases ht : t.isTransform with
    | true => exact hsimple ht
    | false => simp [check, ht] at h
  | conditionalElse t f =>
    cases ht : t.isTransform <;> cases hf : f.isTransform <;> simp [check, ht, hf] at h
    exact ⟨hsimple ht, hsimple hf⟩
  | _ => trivial

theorem Op.flat_of_checks {o : Op} (h : ∀ spec ∈ o.ruleSpecs, spec.check = .ok ()) : o.Flat := by
  cases o with
  | addRule rule => exact RuleSpec.flat_of_check (h rule List.mem_cons_self)
  | defineRuleset name rules => exact fun rule hrule => RuleSpec.flat_of_check (h rule hrule)
  | _ => trivial

namespace Program

variable {p : Program} {text : String}

/-- A valid program that was read, its slots numbered by words of 32 bits, may be written again. -/
theorem writable_of_parse (hparse : Program.parse text = some p) (hvalid : p.validate = .ok [])
    (hsize : p.graph.slots.size ≤ UInt32.size) : p.Writable := by
  have hread := wasRead_of_parse hparse
  obtain ⟨nodes, edges, hslots, hnodes, hroles⟩ := hread.slots
  refine ⟨hsize, fun n a ha => ⟨?_, ?_⟩, fun e edge he => ?_, hread.ascending, hread.functions,
    hread.next⟩
  · have hnode : p.graph.node? n = some a := ha
    rw [SlotGraph.node?_ofSlots hslots, Option.join_eq_some_iff] at hnode
    exact hnodes a (List.mem_of_getElem? hnode)
  · exact Op.flat_of_checks (checks_of_valid hvalid (Option.map_eq_some_iff.2 ⟨a, ha, rfl⟩))
  · obtain ⟨hsource, htarget⟩ := SlotGraph.ends_ofSlots hslots he
    rw [SlotGraph.edge?_ofSlots hslots, Option.join_eq_some_iff] at he
    exact ⟨hsource, htarget, hroles edge (List.mem_of_getElem? he)⟩

/-! ### Look-ups -/

theorem exists_slots_of_parse (h : Program.parse text = some p) :
    ∃ nodes edges, SlotGraph.ofSlots nodes edges = some p.graph := by
  obtain ⟨nodes, edges, hslots, -⟩ := (wasRead_of_parse h).slots
  exact ⟨nodes, edges, hslots⟩

/-- What evaluation relies on when it looks around in a program. -/
structure Closed (p : Program) : Prop where
  /-- The main function is registered and has a body. -/
  main : ∃ d root, p.function? mainId = some d ∧ d.body = some root ∧ p.graph.hasNode root = true
  /-- Every edge leads from a node to a node. -/
  joined : ∀ e edge, p.graph.edge? e = some edge →
    p.graph.hasNode edge.source = true ∧ p.graph.hasNode edge.target = true
  /-- Every role that a node needs is found. -/
  needed : ∀ n o role, p.op? n = some o → role ∈ o.shape.required → ∃ c, p.child? n role = some c
  /-- A guarded body has a handler or a closing part. -/
  guarded : ∀ n name, p.op? n = some (.guarded name) →
    ∃ c, p.child? n .handler = some c ∨ p.child? n .finalizer = some c
  /-- The indexed children stand at the numbers below their count, which is the one that the
  operation says, where it says one. -/
  positions : ∀ n o family, p.op? n = some o → o.shape.indexed = some family →
    ∃ k, (∀ i, (∃ c, (family.atPosition i, c) ∈ p.indexed n family) ↔ i < k) ∧
      ∀ count, o.indexedCount = some count → k = count
  /-- A child that is looked up by its role is a node. -/
  child : ∀ n role c, p.child? n role = some c → p.graph.hasNode c = true
  /-- Indexed children are nodes. -/
  indexed : ∀ n family role c, (role, c) ∈ p.indexed n family → p.graph.hasNode c = true

/-- What holds of every valid program that was read, also where edges touch vacant slots. -/
structure Anchored (p : Program) : Prop where
  /-- Every registered function has a body, which is a node. -/
  body : ∀ f d, p.function? f = some d → ∃ root, d.body = some root ∧ p.graph.hasNode root = true
  /-- Every function node names a registered function. -/
  registered : ∀ n f, p.op? n = some (.function f) → ∃ d, p.function? f = some d
  /-- The ends of every edge are slots. -/
  slots : ∀ e edge, p.graph.edge? e = some edge →
    edge.source < p.graph.slots.size ∧ edge.target < p.graph.slots.size
  /-- Every role that a node needs is found, and names a slot. -/
  needed : ∀ n o role, p.op? n = some o → role ∈ o.shape.required →
    ∃ c, p.child? n role = some c ∧ c < p.graph.slots.size

theorem exists_edge_of_mem_ties {n c : Nat} {role : Role} (h : (role, c) ∈ p.graph.ties n) :
    ∃ e edge, p.graph.edge? e = some edge ∧ edge.target = c := by
  obtain ⟨⟨e, edge⟩, hmem, heq⟩ := List.mem_map.1 h
  cases heq
  exact ⟨e, edge, (SlotGraph.mem_edgesOf.1 hmem).2, rfl⟩

theorem anchored_of_parse (hparse : Program.parse text = some p) (hvalid : p.validate = .ok []) :
    p.Anchored := by
  obtain ⟨nodes, edges, hslots⟩ := exists_slots_of_parse hparse
  obtain ⟨hlocal, -, -⟩ := validate_eq_nil hvalid
  obtain ⟨hfirst, hshape⟩ := List.append_eq_nil_iff.1 hlocal
  obtain ⟨hfunction, -⟩ := List.append_eq_nil_iff.1 hfirst
  have hends : ∀ e edge, p.graph.edge? e = some edge →
      edge.source < p.graph.slots.size ∧ edge.target < p.graph.slots.size :=
    fun e edge hedge => SlotGraph.ends_ofSlots hslots hedge
  refine ⟨fun f d hd => body_of_functionErrors hfunction (FunctionTable.mem_of_get? hd),
    fun n f hop => registered_of_functionErrors hfunction hop, hends, ?_⟩
  intro n o role ho hrole
  obtain ⟨node, hnode, rfl⟩ := Option.map_eq_some_iff.1 ho
  have hlive : n ∈ p.nodeIds := SlotGraph.mem_nodeIds.2 (hasNode_of_op? ho)
  have hroles := roles_of_shapeErrors hnode (List.flatMap_eq_nil_iff.1 hshape n hlive)
  obtain ⟨⟨_, c⟩, hc, rfl⟩ := List.mem_map.1 (hroles.2 role hrole)
  obtain ⟨c, hchild⟩ := exists_child? (mem_children.1 hc)
  obtain ⟨e, edge, hedge, rfl⟩ := exists_edge_of_mem_ties (mem_ties_of_child? hchild)
  exact ⟨edge.target, hchild, (hends e edge hedge).2⟩

/-- In a sound graph, the checks give all that evaluation relies on but for the main function. -/
theorem closed_of_sound (hsound : p.graph.Sound) (hvalid : p.validate = .ok [])
    (hmain : (p.function? mainId).isSome = true) : p.Closed := by
  obtain ⟨hlocal, -, -⟩ := validate_eq_nil hvalid
  obtain ⟨hfirst, hshape⟩ := List.append_eq_nil_iff.1 hlocal
  obtain ⟨hfunction, -⟩ := List.append_eq_nil_iff.1 hfirst
  have hshaped := (shapes_eq_nil_iff hsound).1 hshape
  have hfills {n : Nat} {role : Role} (h : p.Fills n role) : ∃ c, p.child? n role = some c := by
    obtain ⟨c, hjoins⟩ := h
    exact exists_child? (hsound.mem_ties.2 hjoins)
  refine ⟨?_, fun e edge hedge => ⟨hsound.hasNode_source hedge, hsound.hasNode_target hedge⟩,
    fun n o role ho hrole => hfills ((hshaped n o ho).required role hrole), ?_, ?_, ?_, ?_⟩
  · obtain ⟨d, hd⟩ := Option.isSome_iff_exists.1 hmain
    obtain ⟨root, hroot, hlive⟩ := body_of_functionErrors hfunction (FunctionTable.mem_of_get? hd)
    exact ⟨d, root, hd, hroot, hlive⟩
  · intro n name ho
    rcases (hshaped n _ ho).guarded name rfl with h | h
    · exact (hfills h).imp fun c => Or.inl
    · exact (hfills h).imp fun c => Or.inr
  · intro n o family ho hfamily
    obtain ⟨k, hk, hcount⟩ := (hshaped n o ho).positions family hfamily
    refine ⟨k, fun i => ?_, hcount⟩
    rw [← hk]
    have hsame := ((Role.eq_atPosition_iff (i := i) (Op.position?_of_indexed hfamily)).1 rfl).1
    refine ⟨fun ⟨c, hc⟩ => ⟨c, hsound.mem_ties.1 (mem_ties_of_indexed hc)⟩, fun ⟨c, hc⟩ => ⟨c, ?_⟩⟩
    exact List.mem_filter.2 ⟨mem_children.2 (hsound.mem_ties.2 hc), hsame⟩
  · exact fun n role c hc => (hsound.hasNode_of_mem_ties (mem_ties_of_child? hc)).2
  · exact fun n family role c hc => (hsound.hasNode_of_mem_ties (mem_ties_of_indexed hc)).2

/-- A valid program that was read has a body for every registered function, a registered function
for every function node, and children that are slots. If its main function is registered and no
edge starts or ends at a vacant slot, it is closed, and its edge lists are those of its edges. -/
theorem closed_of_parse (hparse : Program.parse text = some p) (hvalid : p.validate = .ok []) :
    p.Anchored ∧
      ((p.function? mainId).isSome = true →
        (∀ n < p.graph.slots.size, p.graph.hasNode n = false → ∀ e edge,
          p.graph.edge? e = some edge → edge.source ≠ n ∧ edge.target ≠ n) →
        p.Closed ∧ p.graph.Sound) := by
  have hanchored := anchored_of_parse hparse hvalid
  refine ⟨hanchored, fun hmain hvacant => ?_⟩
  obtain ⟨nodes, edges, hslots⟩ := exists_slots_of_parse hparse
  have hsound : p.graph.Sound := by
    refine SlotGraph.sound_ofSlots hslots fun e edge hedge => ?_
    obtain ⟨hsource, htarget⟩ := hanchored.slots e edge hedge
    refine ⟨?_, ?_⟩
    · by_contra hnot
      exact (hvacant _ hsource (by simpa using hnot) e edge hedge).1 rfl
    · by_contra hnot
      exact (hvacant _ htarget (by simpa using hnot) e edge hedge).2 rfl
  exact ⟨closed_of_sound hsound hvalid hmain, hsound⟩

/-! ### Three small documents -/

/-- The document of a program with the given graph, functions and number of the next function. -/
def document (graph : Json) (functions : List (String × Json)) : Json :=
  .obj [("name", .str "a"), ("graph", graph), ("functions", .obj functions),
    ("next_function_id", .nat 1)]

/-- The document of a graph. -/
def graphDocument (nodes holes edges : List Json) : Json :=
  .obj [("nodes", .arr nodes), ("node_holes", .arr holes), ("edge_property", .str "directed"),
    ("edges", .arr edges)]

/-- A function without parameters, made nowhere. -/
def mainDocument (body : Nat) : Json :=
  .obj [("id", .nat 0), ("name", .str mainName), ("params", .arr []), ("body", .nat body),
    ("parent", .null)]

/-- A document whose main function negates a literal. -/
def negation : Json :=
  document
    (graphDocument
      [.obj [("op", .tagged "unary" (.str "neg")), ("owner", .nat 0)],
        .obj [("op", .tagged "literal" (.str "none")), ("owner", .nat 0)]] []
      [.arr [.nat 0, .nat 1, .str "operand"]])
    [("0", mainDocument 0)]

/-- A document whose only node negates the content of a vacant slot. -/
def looseEnd : Json :=
  document
    (graphDocument [.obj [("op", .tagged "unary" (.str "neg")), ("owner", .nat 0)]] [.nat 0]
      [.arr [.nat 1, .nat 0, .str "operand"]])
    [("0", mainDocument 1)]

/-- A document without a function. -/
def headless : Json := document (graphDocument [] [] []) []

/-- The program of the first document. -/
def negatedLiteral : Program :=
  ⟨"a", ⟨#[⟨some ⟨.unary .neg, 0, none⟩, [0], []⟩, ⟨some ⟨.literal .nil, 0, none⟩, [], [0]⟩],
    #[some ⟨0, 1, .operand⟩], [], []⟩, [(0, ⟨0, mainName, [], some 0, none⟩)], 1⟩

/-- The program of the second document. -/
def negatedHole : Program :=
  ⟨"a", ⟨#[⟨none, [], [0]⟩, ⟨some ⟨.unary .neg, 0, none⟩, [0], []⟩], #[some ⟨1, 0, .operand⟩],
    [0], []⟩, [(0, ⟨0, mainName, [], some 1, none⟩)], 1⟩

/-- The program of the third document. -/
def noFunction : Program := ⟨"a", ⟨#[], #[], [], []⟩, [], 1⟩

theorem parse_negation : Program.parse negation.compress = some negatedLiteral := by
  have hbounded : negation.Bounded := by
    simp [negation, document, graphDocument, mainDocument, Json.tagged, Json.nat, Json.Bounded,
      Json.BoundedItems, Json.BoundedMembers, Json.Fits]
  rw [Program.parse, Json.parse_compress hbounded (by cbv), Option.bind_some]
  rfl

theorem parse_looseEnd : Program.parse looseEnd.compress = some negatedHole := by
  have hbounded : looseEnd.Bounded := by
    simp [looseEnd, document, graphDocument, mainDocument, Json.tagged, Json.nat, Json.Bounded,
      Json.BoundedItems, Json.BoundedMembers, Json.Fits]
  rw [Program.parse, Json.parse_compress hbounded (by cbv), Option.bind_some]
  rfl

theorem parse_headless : Program.parse headless.compress = some noFunction := by
  have hbounded : headless.Bounded := by
    simp [headless, document, graphDocument, Json.nat, Json.Bounded,
      Json.BoundedItems, Json.BoundedMembers, Json.Fits]
  rw [Program.parse, Json.parse_compress hbounded (by cbv), Option.bind_some]
  rfl

/-- The negated literal passes all checks, registers the main function and has no vacant slot, so it
is closed. -/
theorem negation_closed : Program.parse negation.compress = some negatedLiteral ∧
    negatedLiteral.validate = .ok [] ∧ (negatedLiteral.function? mainId).isSome = true ∧
      negatedLiteral.Anchored ∧ negatedLiteral.Closed ∧ negatedLiteral.graph.Sound := by
  have hvalid : negatedLiteral.validate = .ok [] := by cbv
  have hmain : (negatedLiteral.function? mainId).isSome = true := by cbv
  obtain ⟨hanchored, hclosed⟩ := closed_of_parse parse_negation hvalid
  refine ⟨parse_negation, hvalid, hmain, hanchored, hclosed hmain fun n hn hvacant => ?_⟩
  have hlive : ∀ n < 2, negatedLiteral.graph.hasNode n = true := by decide +kernel
  rw [hlive n hn] at hvacant
  cases hvacant

/-- The other two documents are read and pass all checks. In the first program an edge, and the
look-up of the operand, lead to a vacant slot. In the second one the main function is missing. -/
theorem open_programs_pass :
    (∃ p, Program.parse looseEnd.compress = some p ∧ p.validate = .ok [] ∧
      p.op? 1 = some (.unary .neg) ∧ p.graph.edge? 0 = some ⟨1, 0, .operand⟩ ∧
      p.child? 1 .operand = some 0 ∧ p.node? 0 = none) ∧
    ∃ p, Program.parse headless.compress = some p ∧ p.validate = .ok [] ∧ p.function? mainId = none :=
  ⟨⟨negatedHole, parse_looseEnd, by cbv, by cbv, by cbv, by cbv, by cbv⟩,
    noFunction, parse_headless, by cbv, by cbv⟩

end Program

end GraphLang
