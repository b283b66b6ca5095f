import GraphLang.Proofs.Scopes.Tidy

/-!
# What collecting retains

A node is retained if it is open or held from outside, if something retained leads to it, or if it
is the closure of a function that is found in a retained value: behind the payloads of exceptions,
and in whatever containers hold, however they refer to each other.
-/

namespace GraphLang

/-- What is found in a value: the value itself, what is found in the payload of an exception, and
what is found in the members of a container, in the data on the edges from them, and in what its
rules call. -/
inductive Store.Within (store : Store) : Value → Value → Prop
  | self (v : Value) : Within store v v
  | payload {serial : Nat} {kind message : String} {payload w : Value} {path : List CallSite}
      (h : Within store payload w) : Within store (.exception serial kind message payload path) w
  | member {g : GraphId} {v w : Value} (hv : v ∈ (store.get g).memberValues)
      (h : Within store v w) : Within store (.graph g) w
  | data {g : GraphId} {m : Nat} {view : Container.EdgeView} {v w : Value}
      (hm : m ∈ (store.get g).members) (hview : view ∈ (store.get g).edgesFrom m)
      (hv : view.tie.data = some v) (h : Within store v w) : Within store (.graph g) w
  | callback {g : GraphId} {rule : Rule} {v w : Value} (hrule : rule ∈ (store.get g).rules)
      (hv : v ∈ rule.callbacks) (h : Within store v w) : Within store (.graph g) w

namespace Store

variable {store : Store} {u v w : Value}

theorem Within.trans (h : store.Within u v) (h' : store.Within v w) : store.Within u w := by
  induction h with
  | self => exact h'
  | payload _ ih => exact .payload (ih h')
  | member hv _ ih => exact .member hv (ih h')
  | data hm hview hv _ ih => exact .data hm hview hv (ih h')
  | callback hrule hv _ ih => exact .callback hrule hv (ih h')

/-- What a container holds, in whatever place. -/
theorem mem_heldValues {c : Container} :
    v ∈ c.heldValues ↔ v ∈ c.memberValues ∨
      (∃ m ∈ c.members, ∃ view ∈ c.edgesFrom m, view.tie.data = some v) ∨
      ∃ rule ∈ c.rules, v ∈ rule.callbacks := by
  simp only [Container.heldValues, List.append_assoc, List.mem_append, List.mem_flatMap,
    List.mem_filterMap]

theorem Within.held {g : GraphId} (hv : v ∈ (store.get g).heldValues) (h : store.Within v w) :
    store.Within (.graph g) w := by
  rcases mem_heldValues.1 hv with hv | ⟨m, hm, view, hview, hv⟩ | ⟨rule, hrule, hv⟩
  · exact .member hv h
  · exact .data hm hview hv h
  · exact .callback hrule hv h

/-- Whatever passes on to payloads and to what containers hold reaches all that is found in a
value. -/
theorem Within.rec_held {P : Value → Prop} (h : store.Within v w) (hv : P v)
    (hpayload : ∀ {serial kind message payload path},
      P (.exception serial kind message payload path) → P payload)
    (hheld : ∀ {g v}, v ∈ (store.get g).heldValues → P (.graph g) → P v) : P w := by
  induction h with
  | self => exact hv
  | payload _ ih => exact ih (hpayload hv)
  | member hmem _ ih => exact ih (hheld (mem_heldValues.2 (Or.inl hmem)) hv)
  | data hm hview hdata _ ih =>
    exact ih (hheld (mem_heldValues.2 (Or.inr (Or.inl ⟨_, hm, _, hview, hdata⟩))) hv)
  | callback hrule hmem _ ih =>
    exact ih (hheld (mem_heldValues.2 (Or.inr (Or.inr ⟨_, hrule, hmem⟩))) hv)

/-- Where there is no container, nothing is held. -/
theorem heldValues_get_of_le {g : GraphId} (hg : store.graphs.size ≤ g) :
    (store.get g).heldValues = [] := by
  have hedges : (Container.new .list).edgesFrom Container.root = [] := List.mergeSort_nil
  have hmembers : (Container.new .list).members = [] := by
    rw [Container.members, hedges]
    rfl
  rw [get, Array.getElem?_eq_none hg, Option.getD_none, Container.heldValues,
    Container.memberValues, hmembers]
  rfl

end Store

namespace Scopes

open SlotGraph

variable {s : Scopes} {store : Store} {roots : List Nat}

/-- The least set of nodes that holds the given ones and the open scopes, and to which edges and the
values in it do not add anything. -/
inductive Retained (s : Scopes) (store : Store) (roots : List Nat) : Nat → Prop
  | root {n : Nat} (hn : n ∈ roots) (hnode : s.graph.hasNode n = true) : Retained s store roots n
  | active {n : Nat} (hn : s.isActive n = true) : Retained s store roots n
  | edge {e : Nat} {edge : Edge ScopeEdge} (h : Retained s store roots edge.source)
      (hedge : s.graph.edge? e = some edge) : Retained s store roots edge.target
  | closure {n : Nat} {v : Value} {f : FunctionValue} (h : Retained s store roots n)
      (hn : s.graph.node? n = some (.binding v)) (hf : store.Within v (.function f))
      (hnode : s.graph.hasNode f.closure = true) : Retained s store roots f.closure

theorem Retained.hasNode (hsound : s.graph.Sound) {n : Nat} (h : s.Retained store roots n) :
    s.graph.hasNode n = true := by
  cases h with
  | root _ hnode => exact hnode
  | active hn =>
    obtain ⟨kind, hnode⟩ := isActive_iff.1 hn
    exact hasNode_iff.2 ⟨_, hnode⟩
  | edge _ hedge => exact hsound.hasNode_target hedge
  | closure _ _ _ hnode => exact hnode

theorem Retained.tie (hsound : s.graph.Sound) {n t : Nat} (h : s.Retained store roots n)
    {kind : ScopeEdge} (ht : (kind, t) ∈ s.graph.ties n) : s.Retained store roots t := by
  obtain ⟨e, hedge⟩ := hsound.mem_ties.1 ht
  have htarget := Retained.edge (show s.Retained store roots (Edge.mk n t kind).source from h) hedge
  exact htarget

theorem Retained.mono {n : Nat} (h : s.Retained store roots n) {roots' : List Nat}
    (hroots : roots ⊆ roots') : s.Retained store roots' n := by
  induction h with
  | root hn hnode => exact .root (hroots hn) hnode
  | active hn => exact .active hn
  | edge _ hedge ih => exact .edge ih hedge
  | closure _ hn hf hnode ih => exact .closure ih hn hf hnode

/-- The value is found in a retained one. -/
def Holds (s : Scopes) (store : Store) (roots : List Nat) (v : Value) : Prop :=
  ∃ n u, s.Retained store roots n ∧ s.graph.node? n = some (.binding u) ∧ store.Within u v

end Scopes

end GraphLang
