import GraphLang.Proofs.Program.Shapes
import GraphLang.Proofs.SlotGraph.Topological
import Mathlib.Order.Interval.Finset.Nat

/-!
# Valid programs are the well-formed ones

What a well-formed program is can be said without any walk over it. A program passes all checks
exactly if it is well formed. Its bodies are then finite trees, and the walk that looks for loops
left outside of loops comes to an end.
-/

namespace GraphLang.Program

variable {p : Program} {n root : Nat}

/-- The second node can be reached from the first one through children. -/
def Below (p : Program) (root n : Nat) : Prop := Relation.ReflTransGen p.graph.Leads root n

/-- On the way from the root to the node there is a loop, and the way goes on through its body. -/
def InLoop (p : Program) (root n : Nat) : Prop :=
  ∃ m o c, p.Below root m ∧ p.op? m = some o ∧ o.isLoop = true ∧ p.Joins m c .body ∧ p.Below c n

/-- What makes a program well formed. -/
structure WellFormed (p : Program) : Prop where
  /-- Every function has a body, which is a node. -/
  body : ∀ d ∈ p.functionDefs, ∃ root, d.body = some root ∧ p.graph.hasNode root = true
  /-- Every function node names a function. -/
  registered : ∀ n f, p.op? n = some (.function f) → ∃ d, p.function? f = some d
  /-- Every edge joins nodes of one function. -/
  owner : ∀ e edge a b, p.graph.edge? e = some edge → p.node? edge.source = some a →
    p.node? edge.target = some b → b.owner = a.owner
  /-- Every node has at most one incoming edge. -/
  parent : p.graph.SingleParents
  /-- Every node has the children that its operation takes. -/
  shaped : ∀ n o, p.op? n = some o → p.Shaped n o
  /-- The edges form no cycle. -/
  acyclic : p.graph.Acyclic
  /-- Loops are left only inside the bodies of loops. -/
  loops : ∀ d ∈ p.functionDefs, ∀ root, d.body = some root → ∀ n, p.Below root n →
    p.op? n = some .breakLoop ∨ p.op? n = some .continueLoop → p.InLoop root n

/-! ### Functions and edges -/

theorem functionErrors_eq_nil_iff :
    p.functionErrors = [] ↔
      (∀ d ∈ p.functionDefs, ∃ root, d.body = some root ∧ p.graph.hasNode root = true) ∧
        ∀ n f, p.op? n = some (.function f) → ∃ d, p.function? f = some d := by
  constructor
  · intro h
    refine ⟨fun d hd => ?_, fun n f hop => registered_of_functionErrors h hop⟩
    obtain ⟨⟨f, d⟩, hmem, rfl⟩ := List.mem_map.1 hd
    exact body_of_functionErrors h hmem
  · rintro ⟨hbody, hregistered⟩
    refine List.append_eq_nil_iff.2 ⟨List.filterMap_eq_nil_iff.2 fun d hd => ?_,
      List.filterMap_eq_nil_iff.2 fun n _ => ?_⟩
    · obtain ⟨root, hroot, hlive⟩ := hbody d hd
      simp [hroot, hlive]
    · split
      · rename_i f hop
        obtain ⟨d, hd⟩ := hregistered n f hop
        simp [hd]
      · rfl

theorem edgeErrors_eq_nil_iff (hsound : p.graph.Sound) :
    p.edgeErrors = [] ↔
      (∀ e edge a b, p.graph.edge? e = some edge → p.node? edge.source = some a →
        p.node? edge.target = some b → b.owner = a.owner) ∧ p.graph.SingleParents := by
  constructor
  · intro h
    exact ⟨fun e edge a b => owner_of_edgeErrors h, single_of_edgeErrors hsound h⟩
  · rintro ⟨howner, hsingle⟩
    refine List.append_eq_nil_iff.2 ⟨List.filterMap_eq_nil_iff.2 ?_,
      List.filterMap_eq_nil_iff.2 fun n _ => ?_⟩
    · rintro ⟨source, target, role⟩ hmem
      obtain ⟨⟨e, edge⟩, hedge, heq⟩ := List.mem_map.1 hmem
      cases heq
      have hedge := (SlotGraph.mem_edgesOf.1 hedge).2
      dsimp only
      split
      · rename_i a b ha hb
        rw [howner e edge a b hedge ha hb]
        simp
      · rfl
    · have hsame : ∀ e ∈ p.graph.incomingIds n, ∀ e' ∈ p.graph.incomingIds n, e' = e := by
        intro e he e' he'
        obtain ⟨edge, hedge, htarget⟩ := (hsound.mem_incoming n e).1 he
        obtain ⟨edge', hedge', htarget'⟩ := (hsound.mem_incoming n e').1 he'
        exact hsingle e e' edge edge' hedge hedge' (htarget'.trans htarget.symm)
      have hlength : (p.graph.incomingIds n).length ≤ 1 := by
        have hnodup := hsound.nodup_incoming n
        match hids : p.graph.incomingIds n with
        | [] => simp
        | [e] => simp
        | e :: e' :: rest =>
          rw [hids] at hsame hnodup
          have := hsame e (by simp) e' (by simp)
          simp [this] at hnodup
      rw [countP_edges hsound, if_neg (by omega)]

theorem cycleErrors_eq_nil_iff (hsound : p.graph.Sound) :
    p.cycleErrors = .ok [] ↔ p.graph.Acyclic := by
  rw [cycleErrors_eq_ok_nil_iff, hsound.exists_topologicalOrder_iff]

/-! ### Ways down a body -/

theorem Joins.leads {c : Nat} {role : Role} (h : p.Joins n c role) : p.graph.Leads n c := by
  obtain ⟨e, hedge⟩ := h
  exact ⟨e, _, hedge, rfl, rfl⟩

theorem below_of_nests {x y : Nat × Bool} (hsound : p.graph.Sound)
    (h : Relation.ReflTransGen p.Nests x y) : p.Below x.1 y.1 := by
  induction h with
  | refl => exact .refl
  | tail _ hstep ih =>
    obtain ⟨o, role, -, hrole, -⟩ := hstep
    exact ih.tail (Joins.leads (hsound.mem_ties.1 hrole))

/-- Every way down has a marking of whether it has passed through the body of a loop, which stays
once it is set. -/
theorem exists_nests (hsound : p.graph.Sound) (h : p.Below root n) (b : Bool) :
    ∃ b', Relation.ReflTransGen p.Nests (root, b) (n, b') ∧ (b = true → b' = true) := by
  induction h with
  | refl => exact ⟨b, .refl, id⟩
  | @tail m c _ hstep ih =>
    obtain ⟨b', hway, hkept⟩ := ih
    obtain ⟨e, ⟨source, target, role⟩, hedge, hsource, htarget⟩ := hstep
    cases hsource
    cases htarget
    obtain ⟨o, ho⟩ := exists_op? (hsound.hasNode_source hedge)
    refine ⟨b' || (o.isLoop && role == .body),
      hway.tail ⟨o, role, ho, hsound.mem_ties.2 ⟨e, hedge⟩, rfl⟩, fun hb => ?_⟩
    rw [hkept hb, Bool.true_or]

theorem inLoop_of_nests (hsound : p.graph.Sound)
    (h : Relation.ReflTransGen p.Nests (root, false) (n, true)) : p.InLoop root n := by
  have hall : ∀ y : Nat × Bool, Relation.ReflTransGen p.Nests (root, false) y → y.2 = true →
      p.InLoop root y.1 := by
    intro y hway
    induction hway with
    | refl => intro hb; cases hb
    | @tail x y hway hstep ih =>
      intro hb
      obtain ⟨o, role, ho, hrole, hflag⟩ := hstep
      have hjoins : p.Joins x.1 y.1 role := hsound.mem_ties.1 hrole
      rw [hflag, Bool.or_eq_true, Bool.and_eq_true, beq_iff_eq] at hb
      rcases hb with hold | ⟨hloop, rfl⟩
      · obtain ⟨m, o', c, hm, ho', hloop, hbody, hc⟩ := ih hold
        exact ⟨m, o', c, hm, ho', hloop, hbody, hc.tail hjoins.leads⟩
      · exact ⟨x.1, o, y.1, below_of_nests hsound hway, ho, hloop, hjoins, .refl⟩
  exact hall (n, true) h rfl

theorem nests_of_inLoop (hsound : p.graph.Sound) (h : p.InLoop root n) :
    Relation.ReflTransGen p.Nests (root, false) (n, true) := by
  obtain ⟨m, o, c, hm, ho, hloop, hbody, hc⟩ := h
  obtain ⟨b, hway, -⟩ := exists_nests hsound hm false
  obtain ⟨b', hrest, hkept⟩ := exists_nests hsound hc true
  obtain rfl := hkept rfl
  have hstep : p.Nests (m, b) (c, true) := by
    refine ⟨o, .body, ho, hsound.mem_ties.2 hbody, ?_⟩
    simp [hloop]
  exact (hway.tail hstep).trans hrest

/-- In a tree the way to a node is the only one, so its marking is the only one. -/
theorem nests_unique (hsound : p.graph.Sound) (hsingle : p.graph.SingleParents)
    (hacyclic : p.graph.Acyclic) {x y : Nat × Bool}
    (hx : Relation.ReflTransGen p.Nests (root, false) x)
    (hy : Relation.ReflTransGen p.Nests (root, false) y) (hsame : x.1 = y.1) : x = y := by
  have hcycle : ∀ {x z : Nat × Bool}, Relation.ReflTransGen p.Nests (root, false) x →
      p.Nests x z → z.1 ≠ root := by
    rintro x z hway ⟨o, role, -, hrole, -⟩ heq
    have hleads := Joins.leads (hsound.mem_ties.1 hrole)
    rw [heq] at hleads
    exact hacyclic root (Relation.TransGen.tail' (below_of_nests hsound hway) hleads)
  induction hx generalizing y with
  | refl =>
    rcases Relation.ReflTransGen.cases_tail hy with heq | ⟨y', hway, hlast⟩
    · exact heq.symm
    · exact absurd hsame.symm (hcycle hway hlast)
  | @tail x' x hwayx hlastx ih =>
    rcases Relation.ReflTransGen.cases_tail hy with rfl | ⟨y', hwayy, hlasty⟩
    · exact absurd hsame (hcycle hwayx hlastx)
    · obtain ⟨o, role, ho, hrole, hflag⟩ := hlastx
      obtain ⟨o', role', ho', hrole', hflag'⟩ := hlasty
      obtain ⟨e, hedge⟩ := hsound.mem_ties.1 hrole
      obtain ⟨e', hedge'⟩ := hsound.mem_ties.1 hrole'
      obtain ⟨-, heq⟩ := hsingle.edge_eq hedge hedge' hsame.symm
      obtain ⟨hparent, -, hroles⟩ := Edge.mk.injEq .. ▸ heq
      obtain rfl := ih hwayy hparent.symm
      rw [ho] at ho'
      obtain rfl := Option.some.inj ho'
      rw [← hroles] at hflag
      exact Prod.ext hsame (hflag.trans hflag'.symm)

/-! ### The walk over a body -/

/-- One step of the walk over a body: the node on top gives way to its children. -/
def walkStep (p : Program) : List (Nat × Bool) → List (Nat × Bool)
  | [] => []
  | (n, inLoop) :: stack =>
    match p.node? n with
    | none => stack
    | some node => ((p.graph.outgoing n).map fun (_, edge) =>
        (edge.target, inLoop || (node.op.isLoop && edge.weight == .body))).reverse ++ stack

/-- The walk that looks for faults takes these steps. -/
theorem loopErrorsFrom_succ (fuel : Nat) (x : Nat × Bool) (stack : List (Nat × Bool)) :
    ∃ errors, p.loopErrorsFrom (fuel + 1) (x :: stack) =
        errors ++ p.loopErrorsFrom fuel (p.walkStep (x :: stack)) ∧
      (errors = [] ↔ ∀ o, p.op? x.1 = some o → x.2 = false → loopKeyword? o = none) := by
  obtain ⟨n, b⟩ := x
  rw [loopErrorsFrom, walkStep]
  cases hnode : p.node? n with
  | none => exact ⟨[], rfl, by simp [op?, hnode]⟩
  | some node =>
    have hop : p.op? n = some node.op := by rw [op?, hnode]; rfl
    refine ⟨_, rfl, ?_⟩
    cases hkeyword : loopKeyword? node.op <;> cases b <;> simp [hop, hkeyword]

theorem mem_walkStep {x y : Nat × Bool} {stack : List (Nat × Bool)}
    (hy : y ∈ p.walkStep (x :: stack)) : p.Nests x y ∨ y ∈ stack := by
  obtain ⟨n, b⟩ := x
  rw [walkStep] at hy
  cases hnode : p.node? n with
  | none =>
    rw [hnode] at hy
    exact Or.inr hy
  | some node =>
    rw [hnode] at hy
    rcases List.mem_append.1 hy with hy | hy
    · obtain ⟨⟨e, edge⟩, hmem, rfl⟩ := List.mem_map.1 (List.mem_reverse.1 hy)
      refine Or.inl ⟨node.op, edge.weight, by rw [op?, hnode]; rfl, ?_, rfl⟩
      exact List.mem_map.2 ⟨_, hmem, rfl⟩
    · exact Or.inr hy

/-- Where loops are left only inside loops, the walk finds no fault. -/
theorem loopErrorsFrom_eq_nil {fuel : Nat} {stack : List (Nat × Bool)}
    (h : ∀ x ∈ stack, ∀ m o, Relation.ReflTransGen p.Nests x (m, false) → p.op? m = some o →
      loopKeyword? o = none) : p.loopErrorsFrom fuel stack = [] := by
  induction fuel generalizing stack with
  | zero => rfl
  | succ fuel ih =>
    cases stack with
    | nil => rfl
    | cons x stack =>
      obtain ⟨errors, hwalk, herrors⟩ := p.loopErrorsFrom_succ fuel x stack
      have hhere : errors = [] := by
        refine herrors.2 fun o ho hb => h x List.mem_cons_self x.1 o ?_ ho
        rw [← hb]
      rw [hwalk, hhere, List.nil_append]
      refine ih fun y hy m o hway ho => ?_
      rcases mem_walkStep hy with hstep | hy
      · exact h x List.mem_cons_self m o (hway.head hstep) ho
      · exact h y (List.mem_cons_of_mem x hy) m o hway ho

theorem Walking.walkStep (hsound : p.graph.Sound) (hsingle : p.graph.SingleParents)
    {rank : Nat → Nat} (hrank : ∀ n m, m ∈ p.graph.successors n → rank n < rank m) {b : Bool}
    {visited : List Nat} {stack : List (Nat × Bool)}
    (h : p.Walking rank root visited ((n, b) :: stack)) :
    p.Walking rank root (n :: visited) (p.walkStep ((n, b) :: stack)) := by
  obtain ⟨node, hnode⟩ := SlotGraph.hasNode_iff.1 (h.live n (by simp))
  have hnode : p.node? n = some node := hnode
  rw [Program.walkStep, hnode]
  refine h.step hsound hsingle hrank ?_
  rw [List.map_reverse, List.map_map, SlotGraph.successors]
  exact List.reverse_perm _

/-- The walk has as many steps behind it as nodes visited, unless it is over. -/
theorem Walking.iterate (hsound : p.graph.Sound) (hsingle : p.graph.SingleParents)
    {rank : Nat → Nat} (hrank : ∀ n m, m ∈ p.graph.successors n → rank n < rank m)
    {start : List (Nat × Bool)} (hstart : p.Walking rank root [] start) (k : Nat) :
    p.walkStep^[k] start = [] ∨
      ∃ visited, visited.length = k ∧ p.Walking rank root visited (p.walkStep^[k] start) := by
  induction k with
  | zero => exact Or.inr ⟨[], rfl, hstart⟩
  | succ k ih =>
    rw [Function.iterate_succ_apply']
    rcases ih with hover | ⟨visited, hlength, hwalk⟩
    · rw [hover]
      exact Or.inl rfl
    · match hstack : p.walkStep^[k] start with
      | [] => exact Or.inl rfl
      | (n, b) :: stack =>
        rw [hstack] at hwalk
        exact Or.inr ⟨n :: visited, by simp [hlength], hwalk.walkStep hsound hsingle hrank⟩

theorem walking_start (rank : Nat → Nat) (hroot : p.graph.hasNode root = true) :
    p.Walking rank root [] [(root, false)] := by
  refine ⟨by simp, ?_, ?_⟩ <;> intro m hm <;> simp at hm <;> subst hm
  · exact hroot
  · exact Or.inl rfl

/-- In a program without cycles and shared children the walk is over after as many steps as there
are slots, at the latest. -/
theorem walk_ends (hsound : p.graph.Sound) (hsingle : p.graph.SingleParents)
    (hacyclic : p.graph.Acyclic) (hroot : p.graph.hasNode root = true) :
    p.walkStep^[p.graph.slots.size] [(root, false)] = [] := by
  obtain ⟨order, horder⟩ := hsound.exists_topologicalOrder_iff.2 hacyclic
  obtain ⟨rank, hrank⟩ := hsound.exists_rank horder
  rcases (walking_start rank hroot).iterate hsound hsingle hrank p.graph.slots.size with
    hover | ⟨visited, hlength, hwalk⟩
  · exact hover
  · have hsub : visited ++ (p.walkStep^[p.graph.slots.size] [(root, false)]).map (·.1) ⊆
        List.range p.graph.slots.size := by
      intro m hm
      obtain ⟨a, ha⟩ := SlotGraph.hasNode_iff.1 (hwalk.live m hm)
      exact List.mem_range.2 (SlotGraph.node?_lt ha)
    have hle := (List.subperm_of_subset hwalk.nodup hsub).length_le
    rw [List.length_append, List.length_map, List.length_range] at hle
    exact List.length_eq_zero_iff.1 (by omega)

theorem loopErrors_eq_nil_iff (hsound : p.graph.Sound) (hsingle : p.graph.SingleParents)
    (hacyclic : p.graph.Acyclic)
    (hbody : ∀ d ∈ p.functionDefs, ∃ root, d.body = some root ∧ p.graph.hasNode root = true) :
    p.loopErrors = [] ↔
      ∀ d ∈ p.functionDefs, ∀ root, d.body = some root → ∀ n, p.Below root n →
        p.op? n = some .breakLoop ∨ p.op? n = some .continueLoop → p.InLoop root n := by
  have hkeyword : ∀ o : Op, loopKeyword? o = none ↔ o ≠ .breakLoop ∧ o ≠ .continueLoop := by
    intro o
    cases o <;> simp [loopKeyword?]
  constructor
  · intro h d hd root hroot n hbelow hop
    obtain ⟨order, horder⟩ := hsound.exists_topologicalOrder_iff.2 hacyclic
    obtain ⟨rank, hrank⟩ := hsound.exists_rank horder
    have hlive : p.graph.hasNode root = true := by
      obtain ⟨root', hroot', hlive⟩ := hbody d hd
      rw [hroot] at hroot'
      cases hroot'
      exact hlive
    have herrors := List.flatMap_eq_nil_iff.1 h d hd
    rw [hroot] at herrors
    obtain ⟨b, hway, -⟩ := exists_nests hsound hbelow false
    cases b with
    | true => exact inLoop_of_nests hsound hway
    | false =>
      have hwalk := walking_start rank hlive
      have hnone {o : Op} (ho : p.op? n = some o) : loopKeyword? o = none :=
        hwalk.sound hsound hsingle hrank (by simp; omega) herrors List.mem_cons_self hway ho
      rcases hop with hop | hop <;> cases hnone hop
  · intro h
    refine List.flatMap_eq_nil_iff.2 fun d hd => ?_
    obtain ⟨root, hroot, -⟩ := hbody d hd
    rw [hroot]
    refine loopErrorsFrom_eq_nil fun x hx m o hway ho => ?_
    rw [List.mem_singleton] at hx
    subst hx
    refine (hkeyword o).2 ⟨?_, ?_⟩
    all_goals
      rintro rfl
      have hloop := nests_of_inLoop hsound (h d hd root hroot m (below_of_nests hsound hway)
        (by simp [ho]))
      cases nests_unique hsound hsingle hacyclic hway hloop rfl

/-! ### Trees -/

/-- The edges, the last one first, lead from the root to the node. -/
def Path (p : Program) (root : Nat) : List Nat → Nat → Prop
  | [], n => n = root
  | e :: rest, n => ∃ edge, p.graph.edge? e = some edge ∧ edge.target = n ∧ Path p root rest edge.source

/-- What is below the root is a finite tree: exactly one path leads from the root to each node. -/
def IsTree (p : Program) (root : Nat) : Prop :=
  {n | p.Below root n}.Finite ∧ ∀ n, p.Below root n → ∃! path, p.Path root path n

theorem Path.below {path : List Nat} (h : p.Path root path n) : p.Below root n := by
  induction path generalizing n with
  | nil =>
    cases h
    exact .refl
  | cons e path ih =>
    obtain ⟨edge, hedge, htarget, hrest⟩ := h
    exact (ih hrest).tail ⟨e, edge, hedge, rfl, htarget⟩

theorem Below.exists_path (h : p.Below root n) : ∃ path, p.Path root path n := by
  induction h with
  | refl => exact ⟨[], rfl⟩
  | tail _ hlast ih =>
    obtain ⟨path, hpath⟩ := ih
    obtain ⟨e, edge, hedge, rfl, htarget⟩ := hlast
    exact ⟨e :: path, edge, hedge, htarget, hpath⟩

theorem Path.unique (hsingle : p.graph.SingleParents) (hacyclic : p.graph.Acyclic)
    {path path' : List Nat} (h : p.Path root path n) (h' : p.Path root path' n) : path = path' := by
  have hcycle : ∀ {e path}, ¬p.Path root (e :: path) root := by
    rintro e path ⟨edge, hedge, htarget, hrest⟩
    exact hacyclic root (Relation.TransGen.tail' hrest.below ⟨e, edge, hedge, rfl, htarget⟩)
  induction path generalizing n path' with
  | nil =>
    cases h
    cases path' with
    | nil => rfl
    | cons e' path' => exact (hcycle h').elim
  | cons e path ih =>
    cases path' with
    | nil =>
      cases h'
      exact (hcycle h).elim
    | cons e' path' =>
      obtain ⟨edge, hedge, htarget, hrest⟩ := h
      obtain ⟨edge', hedge', htarget', hrest'⟩ := h'
      obtain ⟨rfl, rfl⟩ := hsingle.edge_eq hedge hedge' (htarget'.trans htarget.symm)
      rw [ih hrest hrest']

theorem isTree_of_acyclic (hsound : p.graph.Sound) (hsingle : p.graph.SingleParents)
    (hacyclic : p.graph.Acyclic) (hroot : p.graph.hasNode root = true) : p.IsTree root := by
  refine ⟨(Set.finite_Iio p.graph.slots.size).subset fun n hn => ?_, fun n hn => ?_⟩
  · have hlive : p.graph.hasNode n = true := by
      rcases Relation.ReflTransGen.cases_tail hn with rfl | ⟨m, -, e, edge, hedge, -, rfl⟩
      · exact hroot
      · exact hsound.hasNode_target hedge
    obtain ⟨a, ha⟩ := SlotGraph.hasNode_iff.1 hlive
    exact SlotGraph.node?_lt ha
  · obtain ⟨path, hpath⟩ := Below.exists_path hn
    exact ⟨path, hpath, fun path' hpath' => hpath'.unique hsingle hacyclic hpath⟩

/-! ### The main statement -/

theorem validate_eq_nil_iff :
    p.validate = .ok [] ↔
      p.localErrors = [] ∧ p.cycleErrors = .ok [] ∧ p.loopErrors = [] := by
  refine ⟨validate_eq_nil, ?_⟩
  rintro ⟨hlocal, hcycle, hloop⟩
  rw [validate, hlocal, hcycle, hloop]

/-- A sound program is checked to the end. -/
theorem exists_validate (hsound : p.graph.Sound) : ∃ errors, p.validate = .ok errors := by
  unfold validate cycleErrors
  cases p.localErrors with
  | cons e errors => exact ⟨_, rfl⟩
  | nil =>
    obtain ⟨order, horder⟩ | ⟨n, hcycle⟩ := hsound.topologicalOrder_cases
    · rw [horder]
      exact ⟨_, rfl⟩
    · rw [hcycle]
      exact ⟨_, rfl⟩

/-- A sound program that does not pass the checks has a fault. -/
theorem exists_error (hsound : p.graph.Sound) (hinvalid : p.validate ≠ .ok []) :
    ∃ e errors, p.validate = .ok (e :: errors) := by
  obtain ⟨_ | ⟨e, errors⟩, hanswer⟩ := exists_validate hsound
  · exact absurd hanswer hinvalid
  · exact ⟨e, errors, hanswer⟩

theorem shapes_eq_nil_iff (hsound : p.graph.Sound) :
    p.nodeIds.flatMap p.shapeErrors = [] ↔ ∀ n o, p.op? n = some o → p.Shaped n o := by
  rw [List.flatMap_eq_nil_iff]
  constructor
  · intro h n o ho
    obtain ⟨node, hnode, rfl⟩ := Option.map_eq_some_iff.1 ho
    exact (shapeErrors_eq_nil_iff hsound hnode).1 (h n (SlotGraph.mem_nodeIds.2 (hasNode_of_op? ho)))
  · intro h n hn
    obtain ⟨node, hnode⟩ := SlotGraph.hasNode_iff.1 (SlotGraph.mem_nodeIds.1 hn)
    have hop : p.op? n = some node.op := Option.map_eq_some_iff.2 ⟨node, hnode, rfl⟩
    exact (shapeErrors_eq_nil_iff hsound hnode).2 (h n node.op hop)

theorem validate_iff_wellFormed (hsound : p.graph.Sound) : p.validate = .ok [] ↔ p.WellFormed := by
  rw [validate_eq_nil_iff, localErrors, List.append_eq_nil_iff, List.append_eq_nil_iff,
    functionErrors_eq_nil_iff, edgeErrors_eq_nil_iff hsound, shapes_eq_nil_iff hsound,
    cycleErrors_eq_nil_iff hsound]
  constructor
  · rintro ⟨⟨⟨⟨hbody, hregistered⟩, howner, hsingle⟩, hshaped⟩, hacyclic, hloops⟩
    exact ⟨hbody, hregistered, howner, hsingle, hshaped, hacyclic,
      (loopErrors_eq_nil_iff hsound hsingle hacyclic hbody).1 hloops⟩
  · intro h
    exact ⟨⟨⟨⟨h.body, h.registered⟩, h.owner, h.parent⟩, h.shaped⟩, h.acyclic,
      (loopErrors_eq_nil_iff hsound h.parent h.acyclic h.body).2 h.loops⟩

/-- A program is checked to the end, and passes all checks exactly if it is well formed. The bodies
of its functions are then finite trees, and the walk over each of them comes to an end. -/
theorem valid_iff_wellFormed (hsound : p.graph.Sound) :
    (∃ errors, p.validate = .ok errors) ∧ (p.validate = .ok [] ↔ p.WellFormed) ∧
      (p.validate = .ok [] → ∀ d ∈ p.functionDefs, ∃ root, d.body = some root ∧ p.IsTree root ∧
        ∃ k ≤ p.graph.slots.size, p.walkStep^[k] [(root, false)] = []) := by
  refine ⟨exists_validate hsound, validate_iff_wellFormed hsound, fun hvalid d hd => ?_⟩
  have hformed := (validate_iff_wellFormed hsound).1 hvalid
  obtain ⟨root, hroot, hlive⟩ := hformed.body d hd
  exact ⟨root, hroot, isTree_of_acyclic hsound hformed.parent hformed.acyclic hlive, _, le_rfl,
    walk_ends hsound hformed.parent hformed.acyclic hlive⟩

/-- A program with a loop that is left in its body. -/
def leftLoop : Program :=
  let (_, g) := SlotGraph.empty.addNode ⟨.loop, 0, none⟩
  let (_, g) := g.addNode ⟨.literal (.bool true), 0, none⟩
  let (_, g) := g.addNode ⟨.breakLoop, 0, none⟩
  let (_, g) := g.addEdge 0 1 .condition
  let (_, g) := g.addEdge 0 2 .body
  ⟨"left loop", g, [(0, ⟨0, mainName, [], some 0, none⟩)], 1⟩

theorem sound_leftLoop : leftLoop.graph.Sound := by
  have hempty : (SlotGraph.empty : SlotGraph Node Role).Sound := SlotGraph.sound_empty
  have hnodes := ((hempty.addNode ⟨.loop, 0, none⟩).addNode
    ⟨.literal (.bool true), 0, none⟩).addNode ⟨.breakLoop, 0, none⟩
  have hcondition := hnodes.addEdge (s := 0) (t := 1) (by cbv) (by cbv) Role.condition
  exact hcondition.addEdge (s := 0) (t := 2) (by cbv) (by cbv) Role.body

/-- The loop that is left in its body is valid, so it is well formed, and its body is a tree. -/
theorem leftLoop_wellFormed : leftLoop.graph.Sound ∧ leftLoop.validate = .ok [] ∧
    leftLoop.WellFormed ∧ ∀ d ∈ leftLoop.functionDefs, ∃ root, d.body = some root ∧
      leftLoop.IsTree root ∧
        ∃ k ≤ leftLoop.graph.slots.size, leftLoop.walkStep^[k] [(root, false)] = [] := by
  have hvalid : leftLoop.validate = .ok [] := by cbv
  obtain ⟨-, hiff, htrees⟩ := valid_iff_wellFormed sound_leftLoop
  exact ⟨sound_leftLoop, hvalid, hiff.1 hvalid, htrees hvalid⟩

end GraphLang.Program
