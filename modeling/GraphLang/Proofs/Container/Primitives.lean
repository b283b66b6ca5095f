import GraphLang.Proofs.Container.LinkPaths
import GraphLang.Proofs.Container.Steps
import Mathlib.Data.List.Permutation

/-!
# Containers that primitive changes lead to

Primitive changes look at no rule and at no kind: an edge may mean anything and start and end at any
nodes, the root included, and a node need not be a member. What they keep is that the slots are a
graph with a root in it, which is all that the searches along links need.
-/

namespace GraphLang.Container

open Relation (ReflTransGen TransGen)

variable {c c' : Container} {α : Type}

/-! ### Primitive changes -/

/-- A change goes through on a container that is not frozen only. -/
theorem ensureMutable_bind {f : Unit → Except ContainerError α} {a : α}
    (h : (c.ensureMutable >>= f) = .ok a) : c.frozen = false ∧ f () = .ok a := by
  unfold ensureMutable at h
  split at h
  · cases h
  · rename_i hfrozen
    exact ⟨by simpa using hfrozen, h⟩

theorem exists_of_bind {β : Type} {x : Except ContainerError α}
    {f : α → Except ContainerError β} {b : β} (h : (x >>= f) = .ok b) :
    ∃ a, x = .ok a ∧ f a = .ok b := by
  cases x with
  | ok a => exact ⟨a, rfl, h⟩
  | error e => cases h

theorem ensureNode_bind {n : Nat} {f : Unit → Except ContainerError α} {a : α}
    (h : (c.ensureNode n >>= f) = .ok a) : c.graph.hasNode n = true ∧ f () = .ok a := by
  unfold ensureNode at h
  split at h
  · rename_i hn
    exact ⟨hn, h⟩
  · cases h

/-- One primitive change that goes through. -/
inductive Primitive : Container → Container → Prop where
  /-- A node is added that is no member. -/
  | addNode {c c' value n} : c.addNode value = .ok (n, c') → Primitive c c'
  /-- An edge is added, whatever it means and wherever it starts and ends. -/
  | addEdge {c c' source target label data e} :
    c.addEdge source target label data = .ok (e, c') → Primitive c c'
  /-- A node is removed with every edge at it. -/
  | removeNode {c c' n value} : c.removeNode n = .ok (value, c') → Primitive c c'
  /-- An edge is removed. -/
  | removeEdge {c c' e tie} : c.removeEdge e = .ok (tie, c') → Primitive c c'
  /-- The value of a node is replaced. -/
  | setValue {c c' n value old} : c.setValue n value = .ok (old, c') → Primitive c c'
  /-- A note about a node is written. -/
  | setNote {c c' n key value} : c.setNote n key value = .ok c' → Primitive c c'
  /-- A member is added, whatever kind of edge holds it. -/
  | addMember {c c' label value n} : c.addMember label value = .ok (n, c') → Primitive c c'
  /-- A rule is attached. -/
  | pushRule {c c' rule} : c.pushRule rule = .ok c' → Primitive c c'
  /-- The container is frozen. -/
  | freeze (c : Container) : Primitive c c.freeze

/-- The container comes about by primitive changes of one that a program makes. -/
def Assembled (c : Container) : Prop :=
  ∃ start model, Created start model ∧ ReflTransGen Primitive start c

/-- The slots of the container are a graph that the root is in. -/
structure Grounded (c : Container) : Prop where
  /-- The edge lists of nodes agree with the edges. -/
  sound : c.graph.Sound
  /-- The root is there. -/
  root : c.graph.hasNode root = true

namespace Grounded

theorem addNode (h : c.Grounded) (m : Member) :
    { c with graph := (c.graph.addNode m).2 }.Grounded where
  sound := h.sound.addNode m
  root := by
    rw [SlotGraph.hasNode, h.sound.node?_addNode]
    split
    · rfl
    · exact h.root

theorem connect (h : c.Grounded) {source target : Nat} (hsource : c.graph.hasNode source = true)
    (htarget : c.graph.hasNode target = true) (label : Label) (data : Option Value) :
    (c.connect source target label data).2.Grounded where
  sound := h.sound.addEdge hsource htarget _
  root := by
    have hroot := h.root
    rw [SlotGraph.hasNode] at hroot ⊢
    rwa [← SlotGraph.node?_addEdge source target ⟨label, data, c.nextSeq⟩] at hroot

theorem attach (h : c.Grounded) (label : Label) (value : Value) :
    (c.attach label value).2.Grounded := by
  have hnode := h.addNode ⟨value, none⟩
  have hnew :
      (c.graph.addNode ⟨value, none⟩).2.hasNode (c.graph.addNode ⟨value, none⟩).1 = true := by
    rw [SlotGraph.hasNode, h.sound.node?_addNode, if_pos rfl]
    rfl
  exact hnode.connect hnode.root hnew label none

theorem removeNode (h : c.Grounded) {n : Nat} (hn : n ≠ Container.root) :
    { c with graph := c.graph.removeNode n }.Grounded where
  sound := h.sound.removeNode n
  root := by
    rw [SlotGraph.hasNode, SlotGraph.node?_removeNode, if_neg (Ne.symm hn)]
    exact h.root

theorem removeEdge (h : c.Grounded) (e : Nat) :
    { c with graph := c.graph.removeEdge e }.Grounded where
  sound := h.sound.removeEdge e
  root := (SlotGraph.hasNode_removeEdge e Container.root).trans h.root

theorem modifyNode (h : c.Grounded) (n : Nat) (f : Member → Member) :
    { c with graph := c.graph.modifyNode n f }.Grounded where
  sound := h.sound.modifyNode n f
  root := by
    rw [SlotGraph.hasNode, SlotGraph.node?_modifyNode]
    split
    · rw [Option.isSome_map]
      exact h.root
    · exact h.root

/-- Primitive changes keep the slots a graph with a root, whatever they are given. -/
theorem step (h : c.Grounded) (hstep : Primitive c c') : c'.Grounded := by
  cases hstep with
  | addNode hadd =>
    obtain ⟨-, hadd⟩ := ensureMutable_bind hadd
    cases hadd
    exact h.addNode _
  | addEdge hadd =>
    obtain ⟨-, hadd⟩ := ensureMutable_bind hadd
    obtain ⟨hsource, hadd⟩ := ensureNode_bind hadd
    obtain ⟨htarget, hadd⟩ := ensureNode_bind hadd
    cases hadd
    exact h.connect hsource htarget _ _
  | removeNode hremove =>
    obtain ⟨-, hremove⟩ := ensureMutable_bind hremove
    split at hremove
    · cases hremove
    · next hn =>
      rw [beq_iff_eq] at hn
      split at hremove
      · cases hremove
      · cases hremove
        exact h.removeNode hn
  | removeEdge hremove =>
    obtain ⟨-, hremove⟩ := ensureMutable_bind hremove
    split at hremove
    · cases hremove
    · cases hremove
      exact h.removeEdge _
  | setValue hset =>
    obtain ⟨-, hset⟩ := ensureMutable_bind hset
    split at hset
    · cases hset
    · cases hset
      exact h.modifyNode _ _
  | setNote hset =>
    obtain ⟨-, hset⟩ := ensureMutable_bind hset
    obtain ⟨-, hset⟩ := ensureNode_bind hset
    cases hset
    exact h.modifyNode _ _
  | addMember hadd =>
    obtain ⟨-, hadd⟩ := ensureMutable_bind hadd
    cases hadd
    exact h.attach _ _
  | pushRule hpush =>
    obtain ⟨-, hpush⟩ := ensureMutable_bind hpush
    cases hpush
    exact ⟨h.sound, h.root⟩
  | freeze => exact ⟨h.sound, h.root⟩

end Grounded

theorem Assembled.grounded (h : c.Assembled) : c.Grounded := by
  obtain ⟨start, model, hcreated, hchanges⟩ := h
  induction hchanges with
  | refl => exact ⟨hcreated.built.formed.timed.sound, hcreated.built.formed.hasNode_root⟩
  | tail _ hstep ih => exact ih.step hstep

/-! ### Searches -/

/-- Searches along links come to an end on every container that primitive changes lead to, within a
number of turns that members and links bound. The one for a path says exactly whether there is a
path of links, the one for a cycle exactly whether a path from some member comes to a cycle. -/
theorem link_searches_exact (h : c.Assembled) (n m : Nat) :
    (∃ k ≤ c.links.length + 2, (c.pathSearch m).after k (.start n) = .over (c.linkPath n m)) ∧
      (c.linkPath n m = true ↔ n = m ∨ TransGen c.Links n m) ∧
      (∃ k ≤ 3 * c.members.length + 2 * c.links.length + 1,
        c.cycleSearch.after k (.start c) = .over c.hasLinkCycle) ∧
      (c.hasLinkCycle = true ↔
        ∃ x ∈ c.members, ∃ y, ReflTransGen c.Links x y ∧ TransGen c.Links y y) := by
  have hsound := h.grounded.sound
  have hlinks := openLinks_unvisited hsound
  have hpath : (PathState.start n).budget c = 1 + c.links.length := by
    rw [← hlinks, PathState.budget, PathState.start, List.length_singleton]
    congr 2
    funext x
    exact Std.HashSet.contains_empty
  have hcycle : (CycleState.start c).budget c = 3 * c.members.length + 2 * c.links.length := by
    rw [← hlinks, CycleState.budget, CycleState.start, turnsFor]
    congr 3
    funext x
    exact Std.HashMap.contains_empty
  obtain ⟨k, hk, hover⟩ := (c.pathSearch m).exists_over (.start n)
  obtain ⟨l, hl, hover'⟩ := c.cycleSearch.exists_over (.start c)
  refine ⟨⟨k, ?_, hover⟩, ?_, ⟨l, ?_, hover'⟩, hasLinkCycle_iff hsound⟩
  · have hbudget := hk.trans_eq (congrArg (· + 1) hpath)
    omega
  · rw [linkPath_iff hsound, Relation.reflTransGen_iff_eq_or_transGen, eq_comm]
  · exact hl.trans_eq (congrArg (· + 1) hcycle)

/-- Two members with links both ways, one of them made twice, a link from the second one to itself,
a link from the root, and a node that is no member and links to the first one. -/
def tangled : Except ContainerError Container := do
  let (a, c) ← (new (.user "net")).addMember .contains (.int 1)
  let (b, c) ← c.addMember .contains (.int 2)
  let (_, c) ← c.addEdge a b (.link "next") none
  let (_, c) ← c.addEdge a b (.link "next") none
  let (_, c) ← c.addEdge b a (.link "back") none
  let (_, c) ← c.addEdge b b (.link "self") none
  let (_, c) ← c.addEdge root a (.link "first") none
  let (d, c) ← c.addNode (.int 3)
  let (_, c) ← c.addEdge d a (.link "next") none
  return c

theorem assembled_tangled (h : tangled = .ok c) : c.Assembled := by
  unfold tangled at h
  obtain ⟨⟨_, _⟩, h₁, h⟩ := exists_of_bind h
  obtain ⟨⟨_, _⟩, h₂, h⟩ := exists_of_bind h
  obtain ⟨⟨_, _⟩, h₃, h⟩ := exists_of_bind h
  obtain ⟨⟨_, _⟩, h₄, h⟩ := exists_of_bind h
  obtain ⟨⟨_, _⟩, h₅, h⟩ := exists_of_bind h
  obtain ⟨⟨_, _⟩, h₆, h⟩ := exists_of_bind h
  obtain ⟨⟨_, _⟩, h₇, h⟩ := exists_of_bind h
  obtain ⟨⟨_, _⟩, h₈, h⟩ := exists_of_bind h
  obtain ⟨⟨_, _⟩, h₉, h⟩ := exists_of_bind h
  cases h
  refine ⟨_, _, .user "net", ?_⟩
  exact ((((((((ReflTransGen.single (.addMember h₁)).tail (.addMember h₂)).tail (.addEdge h₃)).tail
    (.addEdge h₄)).tail (.addEdge h₅)).tail (.addEdge h₆)).tail (.addEdge h₇)).tail
    (.addNode h₈)).tail (.addEdge h₉)

/-- No path leads to the node that is no member, and the members are on cycles. -/
theorem tangled_searched : ∃ c, tangled = .ok c ∧ c.Assembled ∧
    (∃ k ≤ 8, (c.pathSearch 3).after k (.start 1) = .over false) ∧ ¬TransGen c.Links 1 3 ∧
    (∃ k ≤ 19, c.cycleSearch.after k (.start c) = .over true) ∧
    ∃ x ∈ c.members, ∃ y, ReflTransGen c.Links x y ∧ TransGen c.Links y y := by
  have hmap : tangled.map (fun c => ((c.pathSearch 3).after 8 (.start 1),
      c.cycleSearch.after 19 (.start c), c.links.length, c.members.length)) =
        .ok (.over false, .over true, 6, 2) := by cbv
  cases htangled : tangled with
  | error e => rw [htangled] at hmap; cases hmap
  | ok c =>
    rw [htangled] at hmap
    simp only [Except.map, Except.ok.injEq, Prod.mk.injEq] at hmap
    obtain ⟨hpath, hcycle, hlinks, hmembers⟩ := hmap
    have hpath : c.linkPath 1 3 = false := Search.run_of_after hpath
    have hcycle : c.hasLinkCycle = true := Search.run_of_after hcycle
    have hassembled := assembled_tangled htangled
    obtain ⟨hover, hpath_iff, hover', hcycle_iff⟩ := link_searches_exact hassembled 1 3
    rw [hpath, hlinks] at hover
    rw [hcycle, hlinks, hmembers] at hover'
    refine ⟨c, rfl, hassembled, hover, fun hlinked => ?_, hover', hcycle_iff.1 hcycle⟩
    rw [hpath_iff.2 (Or.inr hlinked)] at hpath
    cases hpath

end GraphLang.Container
