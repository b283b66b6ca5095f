import GraphLang.Proofs.Optimize.Parallel
import GraphLang.Proofs.Program.Construction
import GraphLang.Proofs.Program.WellFormed
import GraphLang.Proofs.Program.Written

/-!
# Programs written and read back

A copy of a program has the same nodes and edges under the same numbers, though its nodes may list
their edges in another order and its slots may be used again in another one. The checks pass both or
none. A program that was built call by call, written to a document and read back is a copy of
itself. If it passes the checks, it and its copy are twins, and so are they when both were
optimized. So the host sees the same of their runs.
-/

namespace GraphLang

open Eval Program

variable {p q : Program}

/-- The second program has what the first one has. -/
structure Copy (p q : Program) : Prop where
  /-- The edge lists of the first program agree with its edges. -/
  sound : p.graph.Sound
  /-- Those of the second one agree with its edges. -/
  sound' : q.graph.Sound
  /-- The names are the same. -/
  name : q.name = p.name
  /-- The functions are the same. -/
  functions : q.functions = p.functions
  /-- The next function gets the same number. -/
  next : q.nextFunction = p.nextFunction
  /-- The nodes are the same. -/
  node : q.node? = p.node?
  /-- The edges are the same. -/
  edge : q.graph.edge? = p.graph.edge?

/-- A program that was built call by call may be written. -/
theorem Program.Orderly.writable {p : Program} (h : p.Orderly)
    (hflat : ∀ n o, p.op? n = some o → o.Flat) : p.Writable where
  size := h.graph.size
  nodes n a ha := ⟨h.graph.nodes n a ha, hflat n a.op (Option.map_eq_some_iff.2 ⟨a, ha, rfl⟩)⟩
  edges e edge he := by
    obtain ⟨hsource, htarget⟩ := h.graph.sound.ends_lt_nodeBound he
    exact ⟨Nat.lt_of_lt_of_le hsource SlotGraph.nodeBound_le,
      Nat.lt_of_lt_of_le htarget SlotGraph.nodeBound_le, h.graph.roles e edge he⟩
  ascending := h.ascending
  functions x hx := by
    have hfits := h.functions x hx
    exact ⟨h.keys x hx ▸ hfits.id, hfits⟩
  next := h.next

/-- A program reads back from its document as a copy. -/
theorem Program.Orderly.exists_copy {p : Program} (h : p.Orderly)
    (hexact : ∀ n o, p.op? n = some o → o.Exact) :
    ∃ q, Program.parse p.encode.compress = some q ∧ Copy p q := by
  have hwritable := h.writable fun n o ho => (hexact n o ho).flat
  have hnodes : ∀ n a, p.node? n = some a → a.reread? = some (id a) := fun n a ha =>
    Node.Exact.reread? (hexact n a.op (Option.map_eq_some_iff.2 ⟨a, ha, rfl⟩))
  obtain ⟨g, hslots, hsound, hnode, hedge⟩ := h.graph.sound.exists_ofSlots
  refine ⟨⟨p.name, g, p.functions, p.nextFunction⟩, ?_,
    ⟨h.graph.sound, hsound, rfl, rfl, rfl, funext hnode, funext hedge⟩⟩
  rw [hwritable.parse_compress, (hwritable.readsAs 0).read, (hwritable.graph 0).decode_of_all hnodes]
  simp only [Option.map_id_fun, id_eq, hslots, Option.map_some]

namespace Copy

variable {n : Nat}

theorem symm (h : Copy p q) : Copy q p :=
  ⟨h.sound', h.sound, h.name.symm, h.functions.symm, h.next.symm, h.node.symm, h.edge.symm⟩

theorem op? (h : Copy p q) : q.op? = p.op? := by
  funext n
  rw [Program.op?, h.node, Program.op?]

theorem function? (h : Copy p q) : q.function? = p.function? := by
  funext f
  rw [Program.function?, h.functions, Program.function?]

theorem hasNode (h : Copy p q) : q.graph.hasNode = p.graph.hasNode := by
  funext n
  exact congrArg Option.isSome (congrFun h.node n)

theorem mem_ties (h : Copy p q) {t : Role × Nat} : t ∈ q.graph.ties n ↔ t ∈ p.graph.ties n := by
  rw [h.sound'.mem_ties, h.sound.mem_ties, h.edge]

/-! ### The checks -/

theorem leads (h : Copy p q) : q.graph.Leads = p.graph.Leads := by
  unfold SlotGraph.Leads
  rw [h.edge]

theorem below (h : Copy p q) : q.Below = p.Below := by
  unfold Program.Below
  rw [h.leads]

theorem joins (h : Copy p q) : q.Joins = p.Joins := by
  unfold Program.Joins
  rw [h.edge]

theorem fills (h : Copy p q) : q.Fills = p.Fills := by
  unfold Program.Fills
  rw [h.joins]

theorem shaped (h : Copy p q) {o : Op} (hshaped : p.Shaped n o) : q.Shaped n o := by
  obtain ⟨hdistinct, haccepted, hrequired, hguarded, hpositions, hspecs⟩ := hshaped
  constructor
  · rwa [h.edge]
  · rwa [h.fills]
  · rwa [h.fills]
  · rwa [h.fills]
  · rwa [h.fills]
  · exact hspecs

theorem wellFormed (h : Copy p q) (hformed : p.WellFormed) : q.WellFormed where
  body := by
    rw [Program.functionDefs, h.functions, h.hasNode]
    exact hformed.body
  registered := by
    rw [h.op?, h.function?]
    exact hformed.registered
  owner := by
    rw [h.edge, h.node]
    exact hformed.owner
  parent := by
    unfold SlotGraph.SingleParents
    rw [h.edge]
    exact hformed.parent
  shaped := by
    rw [h.op?]
    exact fun n o ho => h.shaped (hformed.shaped n o ho)
  acyclic := by
    unfold SlotGraph.Acyclic
    rw [h.leads]
    exact hformed.acyclic
  loops := by
    unfold Program.InLoop
    rw [Program.functionDefs, h.functions, h.below, h.joins, h.op?]
    exact hformed.loops

/-- The checks pass a program and its copy, or none of them. -/
theorem validate_iff (h : Copy p q) : q.validate = .ok [] ↔ p.validate = .ok [] := by
  rw [Program.validate_iff_wellFormed h.sound', Program.validate_iff_wellFormed h.sound]
  exact ⟨h.symm.wellFormed, h.wellFormed⟩

/-! ### Look-ups -/

theorem rolesDiffer (h : Copy p q) (hdiffer : ∀ n, p.RolesDiffer n) (n : Nat) :
    q.RolesDiffer n := by
  refine Program.RolesOnce.differ ?_ h.sound' n
  have honce := Program.rolesOnce_of_differ h.sound hdiffer
  unfold Program.RolesOnce at honce ⊢
  rwa [h.edge]

/-! ### Runs -/

/-- A program that passes the checks and its copy differ in the order of ties only. -/
theorem twin (h : Copy p q) (hvalid : p.validate = .ok []) : Twin p q where
  sound := h.sound
  sound' := h.sound'
  roles := (checked_of_validate h.sound hvalid).roles
  functions := h.functions
  node := h.node
  ties n := by
    have hroles := (checked_of_validate h.sound hvalid).roles
    have hnodup : (p.graph.ties n).Nodup := (hroles n).of_map
    have hnodup' : (q.graph.ties n).Nodup := (h.rolesDiffer hroles n).of_map
    exact (List.perm_ext_iff_of_nodup hnodup' hnodup).2 fun t => h.mem_ties

/-- A program that passes the checks and its copy run alike, be they optimized or not. -/
theorem ends_iff (h : Copy p q) (hvalid : p.validate = .ok []) (config : Config)
    (verbosity : Verbosity) (natives : String → HostNative) (o : Observation) :
    Ends config verbosity natives q o ↔ Ends config verbosity natives p o := by
  have htwin : Twin (prepared config p) (prepared config q) := by
    unfold prepared
    split
    · exact (h.twin hvalid).optimize
    · exact h.twin hvalid
  obtain ⟨events, hends⟩ := GraphLang.ends_iff hvalid config verbosity natives
  obtain ⟨events', hends'⟩ := GraphLang.ends_iff (h.validate_iff.2 hvalid) config verbosity natives
  rw [hends, hends']
  exact (htwin.lookalike.observes_iff config verbosity natives events events' o).symm

end Copy

/-- A program that was built call by call, in which no scalar is a double and no branch of a
conditional rule is a conditional, reads back from its document, with the same name, the same
functions, the same number for the next one, and the same nodes and edges under the same numbers.
The checks pass both programs or none of them, and if they pass, then both run alike: one run ends
exactly when the other one does, and with the same outcome, the same lines of output, and the same
names and values at the top level. -/
theorem reads_back (hbuilt : p.Constructed) (hexact : ∀ n o, p.op? n = some o → o.Exact) :
    ∃ q, Program.parse p.encode.compress = some q ∧ Copy p q ∧
      (q.validate = .ok [] ↔ p.validate = .ok []) ∧
      (p.validate = .ok [] → ∀ config verbosity natives o,
        Ends config verbosity natives q o ↔ Ends config verbosity natives p o) := by
  obtain ⟨q, hreads, hcopy⟩ := hbuilt.orderly.exists_copy hexact
  exact ⟨q, hreads, hcopy, hcopy.validate_iff, hcopy.ends_iff⟩

/-! ### A program with a vacant slot -/

/-- A sum of two numbers. The slot of a third number is vacant, and the newest edge has the number
of the edge that led there. -/
def Program.patchedSum : Program :=
  ⟨"sum", ⟨#[⟨some ⟨.literal (.int 1), 0, none⟩, [], [1]⟩, ⟨none, [], []⟩,
      ⟨some ⟨.literal (.int 2), 0, none⟩, [], [0]⟩, ⟨some ⟨.binary .add, 0, none⟩, [0, 1], []⟩],
    #[some ⟨3, 2, .right⟩, some ⟨3, 0, .left⟩], [1], []⟩,
    [(0, ⟨0, mainName, [], some 3, none⟩)], 1⟩

theorem Program.constructed_patchedSum : patchedSum.Constructed := by
  have hnode {p q : Program} {n : Nat} (o : Op) (hadd : p.addNode o 0 none = .ok (n, q))
      (ho : o.Fits) (hn : n < UInt32.size) (h : Relation.ReflTransGen Builds (new "sum") p) :
      Relation.ReflTransGen Builds (new "sum") q := h.tail (.addNode hadd ho nofun hn)
  have hnodes := hnode (.binary .add) rfl trivial (by decide) <|
    hnode (.literal (.int 2)) rfl trivial (by decide) <|
    hnode (.literal (.int 3)) rfl trivial (by decide) <|
    hnode (.literal (.int 1)) rfl trivial (by decide) .refl
  have hedge {p q : Program} (child : Nat) (role : Role) (hconnect : p.connect 3 child role = .ok q)
      (hrole : role.Fits) (h : Relation.ReflTransGen Builds (new "sum") p) :
      Relation.ReflTransGen Builds (new "sum") q := h.tail (.connect hconnect hrole)
  have hedges := hedge 0 .left rfl nofun (hedge 1 .right rfl nofun hnodes)
  have hpatched := hedge 2 .right rfl nofun (hedges.tail (.removeNode _ 1))
  have hbody {p q : Program} (root : Nat) (hset : p.setBody 0 root = .ok q)
      (h : Relation.ReflTransGen Builds (new "sum") p) :
      Relation.ReflTransGen Builds (new "sum") q := h.tail (.setBody hset)
  exact ⟨"sum", hbody 3 rfl hpatched⟩

/-- The sum passes the checks and its run ends, and so do those of the program that is read back. -/
theorem patchedSum_reads_back : Program.patchedSum.Constructed ∧
    (∀ n o, Program.patchedSum.op? n = some o → o.Exact) ∧ Program.patchedSum.validate = .ok [] ∧
    ∃ q, Program.parse Program.patchedSum.encode.compress = some q ∧ Copy Program.patchedSum q ∧
      q.validate = .ok [] ∧ ∃ o, Ends .default .silent noNatives q o := by
  have hexact : ∀ n o, Program.patchedSum.op? n = some o → o.Exact := by
    intro n o ho
    have hn : n < 4 := SlotGraph.node?_lt (Option.map_eq_some_iff.1 ho).choose_spec.1
    interval_cases n <;> cases ho <;> trivial
  have hvalid : Program.patchedSum.validate = .ok [] := by cbv
  obtain ⟨q, hread, hcopy, hiff, hruns⟩ := reads_back constructed_patchedSum hexact
  have hends : (execute 10 Program.patchedSum (.evaluator .default .silent noNatives)).isSome =
      true := by cbv
  obtain ⟨⟨r, v⟩, hrun⟩ := Option.isSome_iff_exists.1 hends
  refine ⟨constructed_patchedSum, hexact, hvalid, q, hread, hcopy, hiff.2 hvalid,
    v.observation r, ?_⟩
  exact (hruns hvalid _ _ _ _).2 ⟨10, r, v, hrun, rfl⟩

end GraphLang
