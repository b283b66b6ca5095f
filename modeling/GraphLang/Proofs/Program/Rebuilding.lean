import GraphLang.Proofs.Optimize.Steps
import GraphLang.Proofs.Program.Decoded

/-!
# Rebuilding a function

All functions live in one graph, and a new body is built in the slots that the old one has left. A
callback that adds functions, adds nodes of the function and of those it added, and joins such nodes
touches nothing else: every other node keeps its place, its content and its children, and every
other function its definition, whether the callback fails or not. Two things have to be in order for
that, and the checks look at neither: no edge may touch a vacant slot, and the number of the next
function must not be in use.
-/

namespace GraphLang

/-! ### Vacant slots of a graph that was read -/

/-- In a sound graph that was read, vacant slots keep no edge numbers. -/
theorem SlotGraph.clean_ofSlots {α β : Type} {g : SlotGraph α β} {nodes : List (Option α)}
    {edges : List (Option (Edge β))} (h : ofSlots nodes edges = some g) (hsound : g.Sound) :
    g.Clean := by
  intro n slot hslot hvacant
  have hnode : g.node? n = none := by rw [node?_eq, hslot, Option.bind_some, hvacant]
  have hnone (side : Edge β → Nat)
      (hside : ∀ e edge, g.edge? e = some edge → g.hasNode (side edge) = true) :
      numbersAt side n 0 edges = [] := by
    rw [List.eq_nil_iff_forall_not_mem]
    intro e he
    obtain ⟨-, edge, hedge, hn⟩ := mem_numbersAt.1 he
    have hlive := hside e edge (by rw [edge?_ofSlots h]; exact hedge)
    rw [hn, hasNode, hnode] at hlive
    cases hlive
  rw [(ofSlots_eq h).2.2.2.2] at hslot
  obtain ⟨a, -, rfl⟩ := Option.map_eq_some_iff.1 hslot
  rw [hnone _ fun e edge hedge => hsound.hasNode_source hedge,
    hnone _ fun e edge hedge => hsound.hasNode_target hedge]
  exact congrArg (Slot.mk · [] []) hvacant

namespace Program

variable {p q : Program} {f g : FunctionId} {n : Nat} {text : String}

/-- The graph is one whose vacant slots are really vacant. -/
structure Intact (p : Program) : Prop where
  /-- The edge lists of nodes agree with the edges, which join nodes. -/
  sound : p.graph.Sound
  /-- Vacant slots keep no edge numbers. -/
  clean : p.graph.Clean

/-- A program that was read is intact if its edges lead from nodes to nodes. -/
theorem intact_of_parse (hparse : Program.parse text = some p)
    (hends : ∀ e edge, p.graph.edge? e = some edge →
      p.graph.hasNode edge.source = true ∧ p.graph.hasNode edge.target = true) : p.Intact := by
  obtain ⟨nodes, edges, hslots⟩ := exists_slots_of_parse hparse
  have hsound := SlotGraph.sound_ofSlots hslots hends
  exact ⟨hsound, SlotGraph.clean_ofSlots hslots hsound⟩

/-! ### The calls of a callback -/

/-- A program at which a callback is at work, with what the callback has added. -/
structure Site where
  /-- The program. -/
  program : Program
  /-- The numbers that were given to functions. -/
  functions : List FunctionId
  /-- The nodes, with the functions that they were added to. -/
  nodes : List (Nat × FunctionId)

/-- A call that goes through, of a callback that builds a body of `f`. -/
inductive Site.Call (f : FunctionId) : Site → Site → Prop where
  /-- A function is added. -/
  | addFunction {s name params parent g q} :
    s.program.addFunction name params parent = .ok (g, q) →
      Site.Call f s ⟨q, g :: s.functions, s.nodes⟩
  /-- A node is added, to `f` or to a function that was added. -/
  | addNode {s o owner location n q} : owner = f ∨ owner ∈ s.functions →
    s.program.addNode o owner location = .ok (n, q) →
      Site.Call f s ⟨q, s.functions, (n, owner) :: s.nodes⟩
  /-- Two nodes that were added are joined. -/
  | connect {s parent child role q} : parent ∈ s.nodes.map Prod.fst →
    child ∈ s.nodes.map Prod.fst → s.program.connect parent child role = .ok q →
      Site.Call f s ⟨q, s.functions, s.nodes⟩
  /-- A function that was added gets a body. -/
  | setBody {s g root q} : g ∈ s.functions → s.program.setBody g root = .ok q →
      Site.Call f s ⟨q, s.functions, s.nodes⟩

/-- The program without the nodes and the body of a function. -/
def cleared (p : Program) (f : FunctionId) : Program :=
  { p.removeNodes (p.functionNodes f) with
    functions := p.functions.modify f fun d => { d with body := none } }

theorem mem_functionNodes : n ∈ p.functionNodes f ↔ ∃ a, p.node? n = some a ∧ a.owner = f := by
  rw [functionNodes, List.mem_filter, nodeIds, SlotGraph.mem_nodeIds, SlotGraph.hasNode_iff]
  rw [beq_iff_eq, Option.map_eq_some_iff]
  exact and_iff_right_of_imp fun h => h.imp fun _ => And.left

/-- Edges of a valid program stay within a function. -/
theorem owner_of_mem_ties (hsound : p.graph.Sound) (hvalid : p.validate = .ok []) {a : Node}
    (ha : p.node? n = some a) {t : Role × Nat} (ht : t ∈ p.graph.ties n) :
    ∃ b, p.node? t.2 = some b ∧ b.owner = a.owner := by
  obtain ⟨hlocal, -, -⟩ := validate_eq_nil hvalid
  obtain ⟨hfirst, -⟩ := List.append_eq_nil_iff.1 hlocal
  obtain ⟨-, hedges⟩ := List.append_eq_nil_iff.1 hfirst
  obtain ⟨e, hedge⟩ := hsound.mem_ties.1 ht
  obtain ⟨b, hb⟩ := SlotGraph.hasNode_iff.1 (hsound.hasNode_target hedge)
  exact ⟨b, hb, owner_of_edgeErrors hedges hedge ha hb⟩

/-! ### What a call does -/

theorem function?_modify {change : FunctionDef → FunctionDef} (hfunctions : q.functions =
    p.functions.modify f change) (g : FunctionId) :
    q.function? g = if g = f then (p.function? f).map change else p.function? g := by
  rw [function?, hfunctions, FunctionTable.get?_modify]
  by_cases hg : g = f
  · subst hg
    simp [function?]
  · simp [function?, hg]

/-- A new function has the next number and changes no other function. -/
theorem of_addFunction {name : String} {params : List String} {parent : FunctionId}
    (hadd : p.addFunction name params parent = .ok (g, q)) :
    g = p.nextFunction ∧ q.graph = p.graph ∧ q.nextFunction = (g + 1) % UInt32.size ∧
      ∀ g', q.function? g' =
        if g' = g then some ⟨g, name, params, none, some parent⟩ else p.function? g' := by
  unfold addFunction at hadd
  split at hadd
  · cases hadd
  · cases hadd
    refine ⟨rfl, rfl, rfl, fun g' => ?_⟩
    refine (FunctionTable.get?_insert _ _ _ g').trans ?_
    simp only [beq_iff_eq, eq_comm (a := g')]
    rfl

/-- A new node takes a vacant slot and changes no other node. -/
theorem of_addNode (h : p.Intact) {o : Op} {owner : FunctionId} {location : Option Location}
    (hadd : p.addNode o owner location = .ok (n, q)) :
    p.node? n = none ∧ q.Intact ∧ q.functions = p.functions ∧ q.nextFunction = p.nextFunction ∧
      ∀ m, q.node? m = (if m = n then some ⟨o, owner, location⟩ else p.node? m) ∧
        q.graph.ties m = p.graph.ties m := by
  unfold addNode at hadd
  split at hadd
  · cases hadd
  · rw [h.clean.occupy h.sound, Except.ok.injEq, Prod.mk.injEq] at hadd
    obtain ⟨rfl, rfl⟩ := hadd
    exact ⟨h.sound.node?_new _, ⟨h.sound.addNode _, h.clean.addNode h.sound _⟩, rfl, rfl,
      fun m => ⟨h.sound.node?_addNode _ m, h.sound.ties_addNode _ m⟩⟩

/-- A new edge changes the parent only. -/
theorem of_connect (h : p.Intact) {parent child : Nat} {role : Role}
    (hconnect : p.connect parent child role = .ok q) :
    q.Intact ∧ q.functions = p.functions ∧ q.nextFunction = p.nextFunction ∧
      (∀ m, q.node? m = p.node? m) ∧ ∀ m, m ≠ parent → q.graph.ties m = p.graph.ties m := by
  unfold connect at hconnect
  split at hconnect
  · cases hconnect
  · next hparent =>
    split at hconnect
    · cases hconnect
    · next hchild =>
      have hparent : p.graph.hasNode parent = true := by simpa using hparent
      have hchild : p.graph.hasNode child = true := by simpa using hchild
      cases hconnect
      exact ⟨⟨h.sound.addEdge hparent hchild role, h.clean.addEdge hparent hchild role⟩, rfl, rfl,
        SlotGraph.node?_addEdge parent child role,
        fun m hm => (h.sound.ties_addEdge hparent role m).trans (if_neg hm)⟩

/-- A body is a node, and changes the definition of its function only. -/
theorem of_setBody {root : Nat} (hset : p.setBody f root = .ok q) :
    p.graph.hasNode root = true ∧ q.graph = p.graph ∧ q.nextFunction = p.nextFunction ∧
      ∀ g, q.function? g =
        if g = f then (p.function? f).map fun d => { d with body := some root }
        else p.function? g := by
  unfold setBody at hset
  split at hset
  · cases hset
  · next hroot =>
    split at hset
    · cases hset
    · cases hset
      exact ⟨by simpa using hroot, rfl, rfl, function?_modify rfl⟩

/-! ### What the calls keep -/

/-- Nodes that do not belong to `f` are as they were in `p`. -/
structure Site.SparesNodes (p : Program) (f : FunctionId) (s : Site) : Prop where
  /-- The vacant slots are vacant. -/
  intact : s.program.Intact
  /-- Nodes of other functions keep their content. -/
  node : ∀ n a, p.node? n = some a → a.owner ≠ f → s.program.node? n = some a
  /-- They keep their edges. -/
  ties : ∀ n a, p.node? n = some a → a.owner ≠ f → s.program.graph.ties n = p.graph.ties n
  /-- The nodes of the function are those that were added to it. -/
  owned : ∀ n, n ∈ s.program.functionNodes f ↔ (n, f) ∈ s.nodes
  /-- A node that was added is no node of another function in `p`. -/
  added : ∀ n ∈ s.nodes.map Prod.fst, ∀ a, p.node? n = some a → a.owner = f

/-- Functions other than `f` and those that were added are as they were in `p`. -/
structure Site.SparesFunctions (p : Program) (f : FunctionId) (s : Site) : Prop where
  /-- Other functions keep their definitions. -/
  function : ∀ g, g ≠ f → g ∉ s.functions → s.program.function? g = p.function? g
  /-- The function is registered. -/
  registered : (s.program.function? f).isSome = true

/-- What does not belong to `f` is as it was in `p`, but for the functions that were added. -/
structure Site.Spares (p : Program) (f : FunctionId) (s : Site) : Prop where
  /-- Nodes of other functions are spared. -/
  nodes : s.SparesNodes p f
  /-- Other functions are spared. -/
  functions : s.SparesFunctions p f

theorem function?_cleared (g : FunctionId) : (p.cleared f).function? g =
    if g = f then (p.function? f).map fun d => { d with body := none } else p.function? g :=
  function?_modify (show _ = p.functions.modify f fun d => { d with body := none } from rfl) g

theorem node?_cleared (n : Nat) :
    (p.cleared f).node? n = if n ∈ p.functionNodes f then none else p.node? n :=
  p.node?_removeNodes (p.functionNodes f) n

theorem Intact.cleared (h : p.Intact) (f : FunctionId) : (p.cleared f).Intact := by
  refine ⟨sound_removeNodes h.sound _, ?_⟩
  have hclean (gone : List Nat) (g : SlotGraph Node Role) (hg : g.Clean) :
      (gone.foldl SlotGraph.removeNode g).Clean := by
    induction gone generalizing g with
    | nil => exact hg
    | cons n gone ih => exact ih _ (hg.removeNode n)
  exact hclean _ _ h.clean

/-- Clearing a function removes its nodes, to which no edge leads from elsewhere. -/
theorem spares_cleared (h : p.Intact) (hvalid : p.validate = .ok [])
    (hf : (p.function? f).isSome = true) : Site.Spares p f ⟨p.cleared f, [], []⟩ := by
  have hkept {n : Nat} {a : Node} (ha : p.node? n = some a) (howner : a.owner ≠ f) :
      n ∉ p.functionNodes f := by
    rw [mem_functionNodes, ha]
    rintro ⟨_, ⟨⟩, hsame⟩
    exact howner hsame
  refine ⟨⟨h.cleared f, fun n a ha howner => ?_, fun n a ha howner => ?_, fun n => ?_,
    List.forall_mem_nil _⟩, ⟨fun g hg _ => (function?_cleared g).trans (if_neg hg), ?_⟩⟩
  · exact (node?_cleared n).trans ((if_neg (hkept ha howner)).trans ha)
  · refine ties_removeNodes h.sound (hkept ha howner) fun t ht => ?_
    obtain ⟨b, hb, hsame⟩ := owner_of_mem_ties h.sound hvalid ha ht
    exact hkept hb (hsame ▸ howner)
  · refine iff_of_false (fun hn => ?_) List.not_mem_nil
    obtain ⟨a, ha, howner⟩ := mem_functionNodes.1 hn
    rw [node?_cleared] at ha
    split at ha
    · cases ha
    · next hgone => exact hgone (mem_functionNodes.2 ⟨a, ha, howner⟩)
  · rw [function?_cleared, if_pos rfl, Option.isSome_map]
    exact hf

variable {s s' : Site}

theorem Site.SparesNodes.congr (h : s.SparesNodes p f) (hgraph : q.graph = s.program.graph)
    (functions : List FunctionId) : Site.SparesNodes p f ⟨q, functions, s.nodes⟩ := by
  have hnode (n : Nat) : q.node? n = s.program.node? n := by rw [node?, hgraph, node?]
  refine ⟨⟨hgraph ▸ h.intact.sound, hgraph ▸ h.intact.clean⟩, fun n a ha howner => ?_,
    fun n a ha howner => ?_, fun n => ?_, h.added⟩
  · rw [hnode]
    exact h.node n a ha howner
  · rw [hgraph]
    exact h.ties n a ha howner
  · rw [← h.owned n, mem_functionNodes, mem_functionNodes, hnode]

theorem Site.SparesFunctions.congr (h : s.SparesFunctions p f)
    (hfunctions : q.functions = s.program.functions) (nodes : List (Nat × FunctionId)) :
    Site.SparesFunctions p f ⟨q, s.functions, nodes⟩ := by
  have hfunction (g : FunctionId) : q.function? g = s.program.function? g := by
    rw [function?, hfunctions, function?]
  exact ⟨fun g hg hadded => (hfunction g).trans (h.function g hg hadded),
    (congrArg Option.isSome (hfunction f)).trans h.registered⟩

namespace Site.Spares

theorem addFunction (h : s.Spares p f) {name : String} {params : List String} {parent : FunctionId}
    (hadd : s.program.addFunction name params parent = .ok (g, q)) :
    Site.Spares p f ⟨q, g :: s.functions, s.nodes⟩ := by
  obtain ⟨-, hgraph, -, hfunction⟩ := of_addFunction hadd
  refine ⟨h.nodes.congr hgraph _, fun g' hg' hadded => ?_, ?_⟩
  · rw [List.mem_cons, not_or] at hadded
    rw [hfunction, if_neg hadded.1]
    exact h.functions.function g' hg' hadded.2
  · rw [hfunction]
    split
    · rfl
    · exact h.functions.registered

theorem addNode (h : s.Spares p f) {o : Op} {owner : FunctionId} {location : Option Location}
    (hadd : s.program.addNode o owner location = .ok (n, q)) :
    Site.Spares p f ⟨q, s.functions, (n, owner) :: s.nodes⟩ := by
  obtain ⟨hvacant, hintact, hfunctions, -, hnode⟩ := of_addNode h.nodes.intact hadd
  have hforeign (a : Node) (ha : p.node? n = some a) : a.owner = f := by
    by_contra howner
    cases hvacant.symm.trans (h.nodes.node n a ha howner)
  refine ⟨⟨hintact, fun m a ha howner => ?_,
    fun m a ha howner => (hnode m).2.trans (h.nodes.ties m a ha howner), fun m => ?_,
    fun m hm a ha => ?_⟩, h.functions.congr hfunctions _⟩
  · have hm : m ≠ n := by
      rintro rfl
      exact howner (hforeign a ha)
    rw [(hnode m).1, if_neg hm]
    exact h.nodes.node m a ha howner
  · rw [mem_functionNodes, (hnode m).1, List.mem_cons, Prod.mk.injEq, ← h.nodes.owned m,
      mem_functionNodes]
    by_cases hm : m = n
    · subst hm
      simp [hvacant, eq_comm]
    · simp [hm]
  · obtain rfl | hm := List.mem_cons.1 hm
    · exact hforeign a ha
    · exact h.nodes.added m hm a ha

theorem connect (h : s.Spares p f) {parent child : Nat} {role : Role}
    (hparent : parent ∈ s.nodes.map Prod.fst)
    (hconnect : s.program.connect parent child role = .ok q) :
    Site.Spares p f ⟨q, s.functions, s.nodes⟩ := by
  obtain ⟨hintact, hfunctions, -, hnode, hties⟩ := of_connect h.nodes.intact hconnect
  refine ⟨⟨hintact, fun m a ha howner => (hnode m).trans (h.nodes.node m a ha howner),
    fun m a ha howner => ?_, fun m => ?_, h.nodes.added⟩, h.functions.congr hfunctions _⟩
  · have hm : m ≠ parent := by
      rintro rfl
      exact howner (h.nodes.added m hparent a ha)
    exact (hties m hm).trans (h.nodes.ties m a ha howner)
  · rw [← h.nodes.owned m, mem_functionNodes, mem_functionNodes, hnode]

theorem setBody (h : s.Spares p f) {root : Nat} (hg : g = f ∨ g ∈ s.functions)
    (hset : s.program.setBody g root = .ok q) : Site.Spares p f ⟨q, s.functions, s.nodes⟩ := by
  obtain ⟨-, hgraph, -, hfunction⟩ := of_setBody hset
  refine ⟨h.nodes.congr hgraph _, fun g' hg' hadded => ?_, ?_⟩
  · have hne : g' ≠ g := by
      rintro rfl
      exact hg.elim hg' hadded
    rw [hfunction, if_neg hne]
    exact h.functions.function g' hg' hadded
  · rw [hfunction]
    split
    · next heq =>
      rw [Option.isSome_map, ← heq]
      exact h.functions.registered
    · exact h.functions.registered

/-- A call spares what belongs neither to the function nor to the ones that were added. -/
theorem call (h : s.Spares p f) (hcall : Site.Call f s s') : s'.Spares p f := by
  cases hcall with
  | addFunction hadd => exact h.addFunction hadd
  | addNode _ hadd => exact h.addNode hadd
  | connect hparent _ hconnect => exact h.connect hparent hconnect
  | setBody hg hset => exact h.setBody (Or.inr hg) hset

theorem calls (h : s.Spares p f) (hcalls : Relation.ReflTransGen (Site.Call f) s s') :
    s'.Spares p f := by
  induction hcalls with
  | refl => exact h
  | tail _ hcall ih => exact ih.call hcall

end Site.Spares

/-! ### Numbers of functions -/

/-- The functions that were added have numbers from `next` on, as long as there are numbers left. -/
structure Site.Counts (next : Nat) (s : Site) : Prop where
  /-- The number of the next function comes after those that were given. -/
  next_eq : next + s.functions.length < UInt32.size →
    s.program.nextFunction = next + s.functions.length
  /-- No smaller number was given. -/
  le : next + s.functions.length ≤ UInt32.size → ∀ g ∈ s.functions, next ≤ g

theorem Site.Counts.call {next : Nat} (h : s.Counts next)
    (hs : s.program.Intact) (hcall : Site.Call f s s') : s'.Counts next := by
  cases hcall with
  | addFunction hadd =>
    obtain ⟨rfl, -, hnext, -⟩ := of_addFunction hadd
    refine ⟨fun hlt => ?_, fun hle g hg => ?_⟩
    · rw [List.length_cons] at hlt
      rw [hnext, h.next_eq (by omega), List.length_cons, Nat.mod_eq_of_lt (by omega)]
      omega
    · rw [List.length_cons] at hle
      obtain rfl | hg := List.mem_cons.1 hg
      · rw [h.next_eq (by omega)]
        omega
      · exact h.le (by omega) g hg
  | addNode _ hadd =>
    obtain ⟨-, -, -, hnext, -⟩ := of_addNode hs hadd
    exact ⟨fun hlt => hnext.trans (h.next_eq hlt), h.le⟩
  | connect _ _ hconnect =>
    obtain ⟨-, -, hnext, -⟩ := of_connect hs hconnect
    exact ⟨fun hlt => hnext.trans (h.next_eq hlt), h.le⟩
  | setBody _ hset =>
    obtain ⟨-, -, hnext, -⟩ := of_setBody hset
    exact ⟨fun hlt => hnext.trans (h.next_eq hlt), h.le⟩

theorem Site.Spares.counts {made : Site} (h : Site.Spares p f ⟨p.cleared f, [], []⟩)
    (hcalls : Relation.ReflTransGen (Site.Call f) ⟨p.cleared f, [], []⟩ made) :
    made.Counts p.nextFunction := by
  induction hcalls with
  | refl => exact ⟨fun _ => rfl, fun _ => List.forall_mem_nil _⟩
  | tail hcalls hcall ih => exact ih.call (h.calls hcalls).nodes.intact hcall

/-! ### Rebuilding -/

theorem exists_setBody {root : Nat} (hroot : p.graph.hasNode root = true)
    (hf : (p.function? f).isSome = true) : ∃ q, p.setBody f root = .ok q := by
  obtain ⟨d, hd⟩ := Option.isSome_iff_exists.1 hf
  unfold setBody
  rw [hroot, hd]
  exact ⟨_, rfl⟩

section Rebuild

variable {build : Program → Except ConstructionError Nat × Program} {made : Site}

/-- Rebuilding clears the function, runs the callback and makes the node that it gives the body. -/
theorem rebuildFunction_eq (hf : (p.function? f).isSome = true) : p.rebuildFunction f build =
    match build (p.cleared f) with
    | (.error e, q) => (.error e, q)
    | (.ok root, q) =>
      match q.setBody f root with
      | .error e => (.error e, q)
      | .ok q => (.ok (), q) := by
  obtain ⟨d, hd⟩ := Option.isSome_iff_exists.1 hf
  unfold rebuildFunction
  rw [hd]
  rfl

/-- Rebuilding goes through exactly if the callback gives a node, which is the body then. What the
callback has spared is spared either way. -/
theorem rebuilt (hf : (p.function? f).isSome = true) (h : made.Spares p f)
    (hbuild : (build (p.cleared f)).2 = made.program) :
    Site.Spares p f ⟨(p.rebuildFunction f build).2, made.functions, made.nodes⟩ ∧
      ((p.rebuildFunction f build).1 = .ok () ∧ (∃ root d, (build (p.cleared f)).1 = .ok root ∧
          made.program.graph.hasNode root = true ∧
          (p.rebuildFunction f build).2.function? f = some d ∧ d.body = some root) ∨
        (∃ e, (p.rebuildFunction f build).1 = .error e) ∧ ∀ root,
          (build (p.cleared f)).1 = .ok root → made.program.graph.hasNode root = false) := by
  rw [rebuildFunction_eq hf]
  obtain ⟨program, functions, nodes⟩ := made
  generalize build (p.cleared f) = built at hbuild ⊢
  obtain ⟨result, q⟩ := built
  cases hbuild
  cases result with
  | error e => exact ⟨h, Or.inr ⟨⟨e, rfl⟩, fun root hroot => nomatch hroot⟩⟩
  | ok root =>
    dsimp only
    cases hset : program.setBody f root with
    | error e =>
      refine ⟨h, Or.inr ⟨⟨e, rfl⟩, fun root' hroot' => ?_⟩⟩
      cases hroot'
      rw [← Bool.not_eq_true]
      intro hroot
      obtain ⟨q', hq'⟩ := exists_setBody hroot h.functions.registered
      cases hset.symm.trans hq'
    | ok q' =>
      obtain ⟨hroot, -, -, hfunction⟩ := of_setBody hset
      obtain ⟨d, hd⟩ := Option.isSome_iff_exists.1 h.functions.registered
      refine ⟨h.setBody (Or.inl rfl) hset,
        Or.inl ⟨rfl, root, { d with body := some root }, rfl, hroot, ?_, rfl⟩⟩
      rw [hfunction, if_pos rfl, hd, Option.map_some]

/-- Rebuilding a function of a valid program touches nothing but that function and the functions
that the callback adds: nodes of other functions keep their content and their children, other
functions their definitions, also where it fails. If no number from that of the next function on is
in use, and there are numbers left, all functions that were there keep their definitions. Rebuilding
goes through exactly if the callback gives a node; the nodes of the function are then those that the
callback added to it, and that node is its body. -/
theorem rebuild_spares_the_rest (h : p.Intact) (hvalid : p.validate = .ok [])
    (hf : (p.function? f).isSome = true)
    (hcalls : Relation.ReflTransGen (Site.Call f) ⟨p.cleared f, [], []⟩ made)
    (hbuild : (build (p.cleared f)).2 = made.program) :
    (∀ n a, p.node? n = some a → a.owner ≠ f →
      (p.rebuildFunction f build).2.node? n = some a ∧
        (p.rebuildFunction f build).2.children n = p.children n) ∧
    (∀ g d, p.function? g = some d → g ≠ f → g ∉ made.functions →
      (p.rebuildFunction f build).2.function? g = some d) ∧
    ((∀ g d, p.function? g = some d → g < p.nextFunction) →
      p.nextFunction + made.functions.length ≤ UInt32.size →
        ∀ g d, p.function? g = some d → g ≠ f →
          (p.rebuildFunction f build).2.function? g = some d) ∧
    ((p.rebuildFunction f build).1 = .ok () ↔
      ∃ root, (build (p.cleared f)).1 = .ok root ∧ made.program.graph.hasNode root = true) ∧
    ((p.rebuildFunction f build).1 = .ok () →
      (∀ n, n ∈ (p.rebuildFunction f build).2.functionNodes f ↔ (n, f) ∈ made.nodes) ∧
      ∃ root d, (build (p.cleared f)).1 = .ok root ∧
        (p.rebuildFunction f build).2.function? f = some d ∧ d.body = some root) := by
  have hstart := spares_cleared h hvalid hf
  obtain ⟨hspares, hresult⟩ := rebuilt hf (hstart.calls hcalls) hbuild
  have hfunctions (g : FunctionId) (d : FunctionDef) (hd : p.function? g = some d) (hg : g ≠ f)
      (hadded : g ∉ made.functions) : (p.rebuildFunction f build).2.function? g = some d :=
    (hspares.functions.function g hg hadded).trans hd
  refine ⟨fun n a ha howner => ⟨hspares.nodes.node n a ha howner, ?_⟩, hfunctions,
    fun hnumbers hlast g d hd hg => hfunctions g d hd hg fun hadded => ?_, ?_,
    fun hok => ⟨hspares.nodes.owned, ?_⟩⟩
  · exact children_congr (hspares.nodes.ties n a ha howner)
  · have hle := (hstart.counts hcalls).le hlast g hadded
    exact absurd (hnumbers g d hd) (Nat.not_lt.2 hle)
  · obtain ⟨hok, root, d, hroot, hlive, -⟩ | ⟨⟨e, herror⟩, hvacant⟩ := hresult
    · exact iff_of_true hok ⟨root, hroot, hlive⟩
    · rw [herror]
      refine iff_of_false nofun ?_
      rintro ⟨root, hroot, hlive⟩
      rw [hvacant root hroot] at hlive
      cases hlive
  · obtain ⟨-, root, d, hroot, -, hd, hbody⟩ | ⟨⟨e, herror⟩, -⟩ := hresult
    · exact ⟨root, d, hroot, hd, hbody⟩
    · cases herror.symm.trans hok

end Rebuild

/-! ### A small document -/

/-- Builds a body that makes a closure of a new function. -/
def nestingBody (f : FunctionId) (p : Program) : Except ConstructionError Nat × Program :=
  match p.addFunction "h" [] f with
  | .error e => (.error e, p)
  | .ok (g, q) =>
    match q.addNode (.function g) f none with
    | .error e => (.error e, q)
    | .ok (n, q) => (.ok n, q)

theorem exists_calls_nestingBody (hf : (p.function? f).isSome = true) :
    ∃ made n, Relation.ReflTransGen (Site.Call f) ⟨p, [], []⟩ made ∧
      nestingBody f p = (.ok n, made.program) ∧ made.functions = [p.nextFunction] ∧
      made.nodes = [(n, f)] := by
  obtain ⟨d, hd⟩ := Option.isSome_iff_exists.1 hf
  obtain ⟨q, hadd⟩ : ∃ q, p.addFunction "h" [] f = .ok (p.nextFunction, q) := by
    rw [addFunction, hd]
    exact ⟨_, rfl⟩
  obtain ⟨-, -, -, hfunction⟩ := of_addFunction hadd
  obtain ⟨d', hd'⟩ : ∃ d', q.function? f = some d' := by
    rw [hfunction]
    split
    · exact ⟨_, rfl⟩
    · exact ⟨d, hd⟩
  obtain ⟨n, r, hnode⟩ : ∃ n r, q.addNode (.function p.nextFunction) f none = .ok (n, r) := by
    rw [addNode, hd']
    exact ⟨_, _, rfl⟩
  refine ⟨⟨r, [p.nextFunction], [(n, f)]⟩, n, ?_, ?_, rfl, rfl⟩
  · exact (Relation.ReflTransGen.single (.addFunction hadd)).tail (.addNode (Or.inl rfl) hnode)
  · rw [nestingBody, hadd]
    dsimp only
    rw [hnode]

/-- A function without parameters that is made in the main function. -/
def nestedDocument (id : Nat) (name : String) (body : Nat) : Json :=
  .obj [("id", .nat id), ("name", .str name), ("params", .arr []), ("body", .nat body),
    ("parent", .nat 0)]

/-- The document of a program with the given graph, functions and number of the next function. -/
def numberedDocument (graph : Json) (functions : List (String × Json)) (next : Nat) : Json :=
  .obj [("name", .str "a"), ("graph", graph), ("functions", .obj functions),
    ("next_function_id", .nat next)]

/-- The document of a node that is a literal of a function. -/
def literalDocument (i : Int) (owner : Nat) : Json :=
  .obj [("op", .tagged "literal" (.tagged "int" (.int i))), ("owner", .nat owner)]

/-- The main function and two other ones, whose bodies are literals. -/
def threeFunctions (next : Nat) : Json :=
  numberedDocument
    (graphDocument [literalDocument 1 0, literalDocument 2 1, literalDocument 3 2] [] [])
    [("0", mainDocument 0), ("1", nestedDocument 1 "f" 1), ("2", nestedDocument 2 "g" 2)] next

/-- The program of the document. -/
def threeLiterals (next : Nat) : Program :=
  ⟨"a", ⟨#[⟨some ⟨.literal (.int 1), 0, none⟩, [], []⟩, ⟨some ⟨.literal (.int 2), 1, none⟩, [], []⟩,
      ⟨some ⟨.literal (.int 3), 2, none⟩, [], []⟩], #[], [], []⟩,
    [(0, ⟨0, mainName, [], some 0, none⟩), (1, ⟨1, "f", [], some 1, some 0⟩),
      (2, ⟨2, "g", [], some 2, some 0⟩)], next⟩

theorem parse_threeFunctions {next : Nat} (h : next = 2 ∨ next = 3) :
    Program.parse (threeFunctions next).compress = some (threeLiterals next) := by
  have hbounded : (threeFunctions next).Bounded := by
    obtain rfl | rfl := h <;>
      simp [threeFunctions, numberedDocument, graphDocument, mainDocument, nestedDocument,
        literalDocument, Json.tagged, Json.nat, Json.Bounded, Json.BoundedItems,
        Json.BoundedMembers, Json.Fits]
  obtain rfl | rfl := h
  · rw [Program.parse, Json.parse_compress hbounded (by cbv), Option.bind_some]
    rfl
  · rw [Program.parse, Json.parse_compress hbounded (by cbv), Option.bind_some]
    rfl

/-- Where the third function has the number before the next one, it keeps its definition and its
node, and the second one is rebuilt. -/
theorem threeLiterals_rebuilt : ∃ p made n, Program.parse (threeFunctions 3).compress = some p ∧
    p.Intact ∧ p.validate = .ok [] ∧ (p.function? 1).isSome = true ∧
    Relation.ReflTransGen (Site.Call 1) ⟨p.cleared 1, [], []⟩ made ∧
    nestingBody 1 (p.cleared 1) = (.ok n, made.program) ∧
    (p.rebuildFunction 1 (nestingBody 1)).1 = .ok () ∧
    (p.rebuildFunction 1 (nestingBody 1)).2.function? 2 = some ⟨2, "g", [], some 2, some 0⟩ ∧
    (p.rebuildFunction 1 (nestingBody 1)).2.node? 2 = some ⟨.literal (.int 3), 2, none⟩ ∧
    ∀ m, m ∈ (p.rebuildFunction 1 (nestingBody 1)).2.functionNodes 1 ↔ m = n := by
  have hparse := parse_threeFunctions (Or.inr rfl)
  have hintact : (threeLiterals 3).Intact := intact_of_parse hparse fun e edge hedge => by
    simp [threeLiterals, SlotGraph.edge?_eq] at hedge
  have hvalid : (threeLiterals 3).validate = .ok [] := by cbv
  have hf : ((threeLiterals 3).function? 1).isSome = true := by cbv
  obtain ⟨made, n, hcalls, hbuild, hfunctions, hnodes⟩ :=
    exists_calls_nestingBody (p := (threeLiterals 3).cleared 1) (f := 1) (by cbv)
  obtain ⟨hnode, -, hdefinition, hok, hbody⟩ := rebuild_spares_the_rest hintact hvalid hf hcalls
    (congrArg Prod.snd hbuild)
  have hlive : made.program.graph.hasNode n = true := by
    have hspares := (spares_cleared hintact hvalid hf).calls hcalls
    obtain ⟨a, ha, -⟩ := mem_functionNodes.1 ((hspares.nodes.owned n).2 (by rw [hnodes]; simp))
    exact SlotGraph.hasNode_iff.2 ⟨a, ha⟩
  have hdone := hok.2 ⟨n, congrArg Prod.fst hbuild, hlive⟩
  refine ⟨_, made, n, hparse, hintact, hvalid, hf, hcalls, hbuild, hdone, ?_, ?_, fun m => ?_⟩
  · refine hdefinition (fun g d hd => ?_) ?_ 2 _ (by cbv) (by decide)
    · have hmem := FunctionTable.mem_of_get? hd
      simp only [threeLiterals, List.mem_cons, Prod.mk.injEq, List.not_mem_nil, or_false] at hmem
      obtain ⟨rfl, -⟩ | ⟨rfl, -⟩ | ⟨rfl, -⟩ := hmem <;> decide
    · rw [hfunctions]
      decide
  · exact (hnode 2 _ (by cbv) (by decide)).1
  · rw [(hbody hdone).1 m, hnodes]
    simp

/-- The checks pass a document at which a callback that does no more than this touches what is not
its own: the number of the next function is in use, and the new function takes the place of another
one. -/
theorem rebuild_touches_others :
    ∃ p made n, Program.parse (threeFunctions 2).compress = some p ∧ p.validate = .ok [] ∧
      Relation.ReflTransGen (Site.Call 1) ⟨p.cleared 1, [], []⟩ made ∧
      nestingBody 1 (p.cleared 1) = (.ok n, made.program) ∧
      p.function? 2 = some ⟨2, "g", [], some 2, some 0⟩ ∧
      (p.rebuildFunction 1 (nestingBody 1)).2.function? 2 =
        some ⟨2, "h", [], none, some 1⟩ := by
  obtain ⟨made, n, hcalls, hbuild, -⟩ :=
    exists_calls_nestingBody (p := (threeLiterals 2).cleared 1) (f := 1) (by cbv)
  exact ⟨_, made, n, parse_threeFunctions (Or.inl rfl), by cbv, hcalls, hbuild, by cbv, by cbv⟩

end Program

end GraphLang
