import GraphLang.Program.Builder
import GraphLang.Proofs.Program.WellFormed
import GraphLang.Proofs.SlotGraph.Clean

/-!
# Programs that a builder has made

A builder only adds: nodes with edges to nodes that are there, functions, and bodies. So every node
keeps the children it got when it was made, and those have lower numbers. A child that was not there
is left out, which the check of the node sees only where the operation cannot do without it.
-/

namespace GraphLang

namespace Program

/-- One call of a builder leads from the first program to the second one. -/
inductive Grows : Program → Program → Prop
  /-- A node with children is added. -/
  | node (p : Program) (o : Op) (f : FunctionId) (location : Option Location)
    (children : List (Role × Nat)) :
    Grows p ((Build.node o children).run ⟨p, f, location⟩).2.program
  /-- A function without a body is added. -/
  | function (p : Program) (name : String) (params : List String) (parent : FunctionId) :
    Grows p (p.pushFunction name params parent).2
  /-- A function gets its body. -/
  | body {p q : Program} {f : FunctionId} {root : Nat} : p.setBody f root = .ok q → Grows p q

/-- Calls of a builder lead from the first program to the second one. -/
def Extends (p q : Program) : Prop := Relation.ReflTransGen Grows p q

/-- Calls of a builder have made the program. -/
def BuiltUp (p : Program) : Prop := ∃ name, (new name).Extends p

end Program

/-! ### The steps of building are such calls -/

namespace Build

variable {α β : Type}

/-- Whatever the step starts with, calls of a builder lead to what it ends with. -/
def Adds (b : Build α) : Prop := ∀ s : Builder, s.program.Extends (b.run s).2.program

theorem adds_pure (x : α) : Adds (pure x) := fun _ => .refl

theorem Adds.bind {b : Build α} {next : α → Build β} (hb : b.Adds) (hnext : ∀ x, (next x).Adds) :
    Adds (b >>= next) := fun s => (hb s).trans (hnext _ _)

theorem adds_node (o : Op) (children : List (Role × Nat)) : Adds (node o children) :=
  fun s => .single (.node s.program o s.function s.location children)

/-- A nested function is registered, gets its body, and then the node that makes its closure. -/
theorem adds_function (name : String) (params : List String) {body : Build Nat}
    (hbody : body.Adds) : Adds (function name params body) := by
  intro s
  have hopen : s.program.Extends (s.program.pushFunction name params s.function).2 :=
    .single (.function _ name params s.function)
  have hinner := hopen.trans (hbody ⟨(s.program.pushFunction name params s.function).2,
    (s.program.pushFunction name params s.function).1, s.location⟩)
  refine Relation.ReflTransGen.tail ?_ (.node _ _ s.function s.location [])
  split
  · next q hset => exact hinner.tail (.body hset)
  · exact hinner

end Build

/-- What a body of building steps makes is built up. -/
theorem Program.builtUp_ofBody {name : String} {body : Build Nat} {p : Program} (hbody : body.Adds)
    (h : ofBody name body = .ok p) : p.BuiltUp :=
  ⟨name, (hbody ⟨new name, mainId, none⟩).tail (.body h)⟩

/-- The program that building steps make, or the empty one if they make none. -/
def Program.made (name : String) (body : Build Nat) : Program :=
  (ofBody name body).toOption.getD (new name)

theorem Program.builtUp_made (name : String) {body : Build Nat} (hbody : body.Adds) :
    (made name body).BuiltUp := by
  unfold made
  cases h : ofBody name body with
  | error e => exact ⟨name, .refl⟩
  | ok p => exact builtUp_ofBody hbody h

theorem Program.graph_setBody {p q : Program} {f : FunctionId} {root : Nat}
    (h : p.setBody f root = .ok q) : q.graph = p.graph := by
  unfold setBody at h
  split at h
  · cases h
  · split at h <;> cases h
    rfl

/-! ### What a call does to the graph -/

namespace SlotGraph

variable {g : SlotGraph Node Role} {n : Nat}

/-- Children that are nodes are attached, the latest first; others are left out. -/
theorem attachChildren (hsound : g.Sound) (hclean : g.Clean) (hn : g.hasNode n = true)
    (children : List (Role × Nat)) :
    let g' := children.foldl (Build.attachChild · n) g
    g'.Sound ∧ g'.Clean ∧ g'.slots.size = g.slots.size ∧ g'.node? = g.node? ∧ ∀ m, g'.ties m =
      if m = n then (children.filter fun c => g.hasNode c.2).reverse ++ g.ties n else g.ties m := by
  induction children generalizing g with
  | nil =>
    refine ⟨hsound, hclean, rfl, rfl, fun m => ?_⟩
    split
    · next hm => rw [hm]; rfl
    · rfl
  | cons c children ih =>
    rw [List.foldl_cons]
    by_cases hc : g.hasNode c.2 = true
    · have hstep : Build.attachChild g n c = (g.addEdge n c.2 c.1).2 := by
        simp [Build.attachChild, hn, hc]
      have hnode : (g.addEdge n c.2 c.1).2.node? = g.node? := funext fun m => node?_addEdge _ _ _ m
      have hlive : (g.addEdge n c.2 c.1).2.hasNode = g.hasNode := funext fun m => by
        rw [hasNode, hnode, hasNode]
      obtain ⟨hsound', hclean', hsize', hnode', hties⟩ := ih (hsound.addEdge hn hc c.1)
        (hclean.addEdge hn hc c.1) (by rw [hlive, hn])
      have hfilter : ((c :: children).filter fun c => g.hasNode c.2) =
          c :: children.filter fun c => g.hasNode c.2 := List.filter_cons_of_pos (by exact hc)
      rw [hstep, hfilter]
      refine ⟨hsound', hclean', hsize'.trans (size_addEdge n c.2 c.1), hnode'.trans hnode,
        fun m => ?_⟩
      rw [hties, hlive, hsound.ties_addEdge hn, hsound.ties_addEdge hn, if_pos rfl,
        List.reverse_cons, List.append_assoc]
      split <;> rfl
    · have hstep : Build.attachChild g n c = g := by
        simp [Build.attachChild, hc]
      have hfilter : ((c :: children).filter fun c => g.hasNode c.2) =
          children.filter fun c => g.hasNode c.2 := List.filter_cons_of_neg (by exact hc)
      rw [hstep, hfilter]
      exact ih hsound hclean hn

end SlotGraph

namespace Program

variable {p q : Program} {n m : Nat}

/-- The second program has one node more than the first one, with the given children. -/
structure AddsNode (p q : Program) (n : Nat) (a : Node) (children : List (Role × Nat)) : Prop where
  sound : q.graph.Sound
  clean : q.graph.Clean
  number : n = (p.graph.addNode a).1
  size : q.graph.slots.size = max p.graph.slots.size (n + 1)
  fresh : p.node? n = none
  node? : ∀ m, q.node? m = if m = n then some a else p.node? m
  ties : ∀ m, q.graph.ties m = if m = n then children.reverse else p.graph.ties m

/-- The children that a new node gets: those that are there, or are the node itself. -/
def present (p : Program) (n : Nat) (children : List (Role × Nat)) : List (Role × Nat) :=
  children.filter fun c => p.graph.hasNode c.2 || c.2 == n

theorem addsNode (hsound : p.graph.Sound) (hclean : p.graph.Clean) (o : Op) (f : FunctionId)
    (location : Option Location) (children : List (Role × Nat)) :
    let r := (Build.node o children).run ⟨p, f, location⟩
    p.AddsNode r.2.program r.1 ⟨o, f, location⟩ (p.present r.1 children) := by
  intro r
  have hrun : r = ((p.graph.occupy ⟨o, f, location⟩).1, ⟨{ p with
      graph := children.foldl (Build.attachChild · (p.graph.occupy ⟨o, f, location⟩).1)
        (p.graph.occupy ⟨o, f, location⟩).2 }, f, location⟩) := rfl
  rw [hclean.occupy hsound] at hrun
  rw [hrun]
  have hnode := hsound.node?_addNode (⟨o, f, location⟩ : Node)
  have hlive : ∀ m, (p.graph.addNode ⟨o, f, location⟩).2.hasNode m =
      (p.graph.hasNode m || m == (p.graph.addNode (⟨o, f, location⟩ : Node)).1) := by
    intro m
    rw [SlotGraph.hasNode, hnode, SlotGraph.hasNode]
    by_cases hm : m = (p.graph.addNode (⟨o, f, location⟩ : Node)).1 <;> simp [hm]
  have hfresh := hsound.node?_new (⟨o, f, location⟩ : Node)
  have hnew : (p.graph.addNode ⟨o, f, location⟩).2.hasNode
      (p.graph.addNode (⟨o, f, location⟩ : Node)).1 = true := by simp [hlive]
  obtain ⟨hsound', hclean', hsize', hnode', hties⟩ := SlotGraph.attachChildren
    (hsound.addNode ⟨o, f, location⟩) (hclean.addNode hsound ⟨o, f, location⟩) hnew
    children
  refine ⟨hsound', hclean', rfl, hsize'.trans (hsound.size_addNode _), hfresh,
    fun m => (congrFun hnode' m).trans (hnode m), fun m => ?_⟩
  dsimp only
  rw [hties, hsound.ties_addNode, hsound.ties_addNode, SlotGraph.ties_of_vacant hfresh,
    List.append_nil]
  simp only [hlive]
  rfl

/-- Whatever a builder adds, nodes that are there stay as they are, with their children. -/
theorem Extends.keeps (h : p.Extends q) (hsound : p.graph.Sound) (hclean : p.graph.Clean) :
    q.graph.Sound ∧ q.graph.Clean ∧ ∀ m, p.graph.hasNode m = true →
      q.node? m = p.node? m ∧ q.graph.ties m = p.graph.ties m := by
  induction h with
  | refl => exact ⟨hsound, hclean, fun m _ => ⟨rfl, rfl⟩⟩
  | @tail s t _ hstep ih =>
    obtain ⟨hsound', hclean', hkept⟩ := ih
    cases hstep with
    | node o f location children =>
      have hadds := addsNode hsound' hclean' o f location children
      refine ⟨hadds.sound, hadds.clean, fun m hm => ?_⟩
      have hm' : s.node? m = p.node? m := (hkept m hm).1
      have hne : m ≠ ((Build.node o children).run ⟨s, f, location⟩).1 := by
        rintro rfl
        rw [hadds.fresh] at hm'
        rw [SlotGraph.hasNode, ← show p.node? _ = p.graph.node? _ from rfl, ← hm'] at hm
        cases hm
      rw [hadds.node?, hadds.ties, if_neg hne, if_neg hne]
      exact hkept m hm
    | function name params parent => exact ⟨hsound', hclean', hkept⟩
    | body hset =>
      have hgraph : t.graph = s.graph := graph_setBody hset
      rw [hgraph]
      refine ⟨hsound', hclean', fun m hm => ?_⟩
      rw [node?, hgraph]
      exact hkept m hm

/-! ### Programs that builders have made -/

/-- A program from which nothing was removed: the graph is in order, and no child has a higher
number than its parent. -/
structure Stacked (p : Program) : Prop where
  /-- The edge lists of nodes agree with the edges. -/
  sound : p.graph.Sound
  /-- Vacant slots keep no edge numbers. -/
  clean : p.graph.Clean
  /-- There is a node in every slot. -/
  full : ∀ n, p.graph.hasNode n = true ↔ n < p.graph.slots.size
  /-- Children have no higher numbers than their parents. -/
  downward : ∀ n, ∀ t ∈ p.graph.ties n, t.2 ≤ n

theorem stacked_new (name : String) : (new name).Stacked := by
  have hnode : ∀ n, (new name).graph.node? n = none := fun n => by
    simp [new, SlotGraph.empty, SlotGraph.node?_eq]
  refine ⟨SlotGraph.sound_empty, SlotGraph.clean_empty, fun n => ?_, fun n t ht => ?_⟩
  · rw [SlotGraph.hasNode, hnode]
    simp [new, SlotGraph.empty]
  · simp [SlotGraph.ties_of_vacant (hnode n)] at ht

/-- The next node takes a new slot. -/
theorem Stacked.addNode_fst (h : p.Stacked) (a : Node) :
    (p.graph.addNode a).1 = p.graph.slots.size := by
  unfold SlotGraph.addNode
  split
  · next n rest hvacant =>
    obtain ⟨hlt, hnone⟩ := h.sound.vacant_node n (by simp [hvacant])
    have hlive := (h.full n).2 hlt
    rw [SlotGraph.hasNode, hnone] at hlive
    cases hlive
  · rfl

theorem Stacked.addsNode {a : Node} {children : List (Role × Nat)} (h : p.Stacked)
    (hadds : p.AddsNode q n a (p.present n children)) : q.Stacked := by
  have hn : n = p.graph.slots.size := hadds.number.trans (h.addNode_fst a)
  have hnode : ∀ m, q.graph.node? m = if m = n then some a else p.graph.node? m := hadds.node?
  refine ⟨hadds.sound, hadds.clean, fun m => ?_, fun m t ht => ?_⟩
  · have hm : q.graph.hasNode m = (p.graph.hasNode m || m == n) := by
      rw [SlotGraph.hasNode, hnode, SlotGraph.hasNode]
      by_cases hm : m = n <;> simp [hm]
    rw [hm, hadds.size, Bool.or_eq_true, h.full, beq_iff_eq]
    omega
  · rw [hadds.ties] at ht
    split at ht
    · next hm =>
      obtain ⟨-, hpresent⟩ := List.mem_filter.1 (List.mem_reverse.1 ht)
      rw [Bool.or_eq_true, h.full, beq_iff_eq] at hpresent
      omega
    · exact h.downward m t ht

theorem Stacked.grows (h : p.Stacked) (hstep : Grows p q) : q.Stacked := by
  cases hstep with
  | node o f location children =>
    exact h.addsNode (Program.addsNode h.sound h.clean o f location children)
  | function name params parent => exact ⟨h.sound, h.clean, h.full, h.downward⟩
  | body hset =>
    have hgraph := graph_setBody hset
    exact ⟨hgraph ▸ h.sound, hgraph ▸ h.clean, hgraph ▸ h.full, hgraph ▸ h.downward⟩

/-- Whatever calls of a builder have made is stacked. -/
theorem BuiltUp.stacked (h : p.BuiltUp) : p.Stacked := by
  obtain ⟨name, hextends⟩ := h
  induction hextends with
  | refl => exact stacked_new name
  | tail _ hstep ih => exact ih.grows hstep

end Program

end GraphLang
