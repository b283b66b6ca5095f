import GraphLang.Proofs.SlotGraph.Acyclic
import GraphLang.Proofs.SlotGraph.Removal
import GraphLang.Store.Copy
import Mathlib.Data.List.Basic
import Std.Data.HashMap.Lemmas

/-!
# What making a deep copy comes to

Making a copy meets containers one after the other, depth first, and each of them once. The fresh
ones stand in the store in that order. A fresh container is empty until everything that its source
leads to has been met; then it becomes the source with other numbers in its nodes. So a copy that is
finished is known by the containers that were met: all of them are renamed alike.
-/

namespace GraphLang

/-- The value with another container in the place of the one that it is. -/
def Value.moved (f : GraphId → GraphId) : Value → Value
  | .graph g => .graph (f g)
  | v => v

@[simp] theorem Value.moved_graph (f : GraphId → GraphId) (g : GraphId) :
    (Value.graph g).moved f = .graph (f g) := rfl

/-- The node with another container in the place of the one that it holds. -/
def Member.moved (f : GraphId → GraphId) (m : Member) : Member :=
  { m with value := m.value.moved f }

/-- The container that a node holds. -/
def Container.payload? (c : Container) (n : Nat) : Option GraphId :=
  match c.value? n with
  | some (.graph g) => some g
  | _ => none

namespace Store

/-- The containers that the nodes of a container hold. -/
def payloadGraphs (c : Container) : List GraphId := c.graph.nodeIds.filterMap c.payload?

/-- Meets a container and what it leads to, unless it was met before. Each unit of fuel pays for one
container inside of another. -/
def meet (s : Store) : Nat → List GraphId → GraphId → List GraphId
  | 0, met, _ => met
  | fuel + 1, met, g =>
    if g ∈ met then met else (payloadGraphs (s.get g)).foldl (s.meet fuel) (met ++ [g])

/-- The containers that a container leads to through the values of nodes, in the order in which a
copy meets them. -/
def nested (s : Store) (c : Container) : List GraphId :=
  (payloadGraphs c).foldl (s.meet (s.graphs.size + 1)) []

/-- The number of the fresh container for a source that stands in the given list. -/
def freshId (base : Nat) (sources : List GraphId) (g : GraphId) : GraphId :=
  base + sources.idxOf g

/-- An unfrozen container with fresh ones in the place of those its nodes hold. -/
def renamed (base : Nat) (sources : List GraphId) (c : Container) : Container :=
  { c with frozen := false, graph := c.graph.mapNodes (Member.moved (freshId base sources)) }

end Store

/-! ### All nodes of a container -/

namespace SlotGraph

variable {α β : Type} {g : SlotGraph α β}

/-- Only what is done to the content of the node matters. -/
theorem modifyNode_congr {f f' : α → α} {n : Nat} (h : ∀ a, g.node? n = some a → f a = f' a) :
    g.modifyNode n f = g.modifyNode n f' := by
  rw [modifyNode, modifyNode, mk.injEq]
  refine ⟨Array.ext_getElem? fun i => ?_, rfl, rfl, rfl⟩
  rw [Array.getElem?_modify, Array.getElem?_modify]
  split
  · rename_i heq
    subst heq
    cases hslot : g.slots[n]? with
    | none => rfl
    | some slot =>
      obtain ⟨weight, outgoing, incoming⟩ := slot
      cases weight with
      | none => rfl
      | some a => simp [h a (by rw [node?, hslot])]
  · rfl

theorem modifyNode_id (g : SlotGraph α β) (n : Nat) : g.modifyNode n id = g := by
  have hslot : (fun s : Slot α => { s with weight := s.weight.map id }) = id := by
    funext s
    rw [Option.map_id]
    rfl
  rw [modifyNode, hslot]
  cases g
  congr
  exact Array.ext_getElem? fun i => by rw [Array.getElem?_modify]; split <;> simp

theorem getElem?_foldl_modify {γ : Type} (f : γ → γ) {places : List Nat} (hnodup : places.Nodup)
    (xs : Array γ) (i : Nat) : (places.foldl (fun xs n => xs.modify n f) xs)[i]? =
      if i ∈ places then xs[i]?.map f else xs[i]? := by
  induction places generalizing xs with
  | nil => simp
  | cons n places ih =>
    obtain ⟨hnew, hnodup⟩ := List.nodup_cons.1 hnodup
    rw [List.foldl_cons, ih hnodup, Array.getElem?_modify]
    by_cases hn : n = i
    · subst hn
      simp [hnew]
    · have hne : i ≠ n := fun heq => hn heq.symm
      simp [hn, hne]

theorem foldl_modifyNode (f : α → α) (nodes : List Nat) (g : SlotGraph α β) :
    nodes.foldl (fun g n => g.modifyNode n f) g = { g with
      slots := nodes.foldl (fun slots n => slots.modify n fun s =>
        { s with weight := s.weight.map f }) g.slots } := by
  induction nodes generalizing g with
  | nil => rfl
  | cons n nodes ih =>
    rw [List.foldl_cons, ih]
    rfl

/-- Changing all nodes one after the other changes all of them. -/
theorem foldl_modifyNode_nodeIds (f : α → α) (g : SlotGraph α β) :
    g.nodeIds.foldl (fun g n => g.modifyNode n f) g = g.mapNodes f := by
  rw [foldl_modifyNode, mapNodes, mk.injEq]
  refine ⟨Array.ext_getElem? fun i => ?_, rfl, rfl, rfl⟩
  rw [getElem?_foldl_modify _ (nodup_nodeIds g), Array.getElem?_map]
  split
  · rfl
  · rename_i hnot
    cases hslot : g.slots[i]? with
    | none => rfl
    | some slot =>
      -- A slot that is not among the nodes is vacant.
      obtain ⟨weight, outgoing, incoming⟩ := slot
      cases weight with
      | none => rfl
      | some a => exact absurd (mem_nodeIds.2 (hasNode_iff.2 ⟨a, by rw [node?, hslot]⟩)) hnot

theorem mapNodes_congr {f f' : α → α} (h : ∀ n a, g.node? n = some a → f a = f' a) :
    g.mapNodes f = g.mapNodes f' := by
  rw [mapNodes, mapNodes, mk.injEq]
  refine ⟨Array.ext_getElem? fun i => ?_, rfl, rfl, rfl⟩
  rw [Array.getElem?_map, Array.getElem?_map]
  cases hslot : g.slots[i]? with
  | none => rfl
  | some slot =>
    obtain ⟨weight, outgoing, incoming⟩ := slot
    cases weight with
    | none => rfl
    | some a => simp [h i a (by rw [node?, hslot])]

end SlotGraph

namespace Container

variable {c : Container} {f : GraphId → GraphId} {n m : Nat} {g : GraphId}

theorem payload?_eq_some : c.payload? n = some g ↔ c.value? n = some (.graph g) := by
  unfold payload?
  split
  · rename_i h heq
    simp [heq]
  · rename_i hnot
    exact ⟨nofun, fun heq => absurd heq (hnot g)⟩

/-- The container with another one in the place of that which a node holds. -/
def redirect (f : GraphId → GraphId) (c : Container) (n : Nat) : Container :=
  { c with graph := c.graph.modifyNode n (Member.moved f) }

/-- Nothing changes where a node holds no container. -/
theorem redirect_of_none (h : c.payload? n = none) : c.redirect f n = c := by
  have hsame : c.graph.modifyNode n (Member.moved f) = c.graph.modifyNode n id := by
    refine SlotGraph.modifyNode_congr fun m hm => ?_
    obtain ⟨value, notes⟩ := m
    cases value with
    | graph g =>
      have hheld : c.payload? n = some g := payload?_eq_some.2 (by rw [value?, hm]; rfl)
      rw [hheld] at h
      cases h
    | _ => rfl
  rw [redirect, hsame, SlotGraph.modifyNode_id]

theorem redirect_of_some (h : c.payload? n = some g) :
    c.redirect f n = c.putValue n (.graph (f g)) := by
  have hsame : c.graph.modifyNode n (Member.moved f) =
      c.graph.modifyNode n fun m => { m with value := .graph (f g) } := by
    refine SlotGraph.modifyNode_congr fun m hm => ?_
    have hvalue := payload?_eq_some.1 h
    rw [value?, hm, Option.map_some, Option.some.injEq] at hvalue
    rw [Member.moved, hvalue]
    rfl
  rw [redirect, hsame, putValue]

/-- Where all nodes are redirected, the container is renamed. -/
theorem foldl_redirect_nodeIds (base : Nat) (sources : List GraphId) (c : Container) :
    c.graph.nodeIds.foldl (redirect (Store.freshId base sources)) { c with frozen := false } =
      Store.renamed base sources c := by
  have hgraph (nodes : List Nat) (c : Container) :
      nodes.foldl (redirect (Store.freshId base sources)) c = { c with
        graph := nodes.foldl
          (fun g n => g.modifyNode n (Member.moved (Store.freshId base sources))) c.graph } := by
    induction nodes generalizing c with
    | nil => rfl
    | cons n nodes ih =>
      rw [List.foldl_cons, ih]
      rfl
  rw [hgraph, SlotGraph.foldl_modifyNode_nodeIds]
  rfl

theorem payload?_putValue (v : Value) (hne : m ≠ n) :
    (c.putValue n v).payload? m = c.payload? m := by
  have hvalue : (c.putValue n v).value? m = c.value? m := by
    rw [value?, putValue, SlotGraph.node?_modifyNode, if_neg hne, value?]
  rw [payload?, hvalue, payload?]

end Container

/-! ### What is met -/

namespace Store

variable {s : Store} {met more more' sources : List GraphId} {g h n : Nat} {c : Container}
  {state state' state'' : Copying}

theorem mem_payloadGraphs : h ∈ payloadGraphs c ↔ ∃ n, c.value? n = some (.graph h) := by
  unfold payloadGraphs
  rw [List.mem_filterMap]
  constructor
  · rintro ⟨n, -, hn⟩
    exact ⟨n, Container.payload?_eq_some.1 hn⟩
  · rintro ⟨n, hn⟩
    obtain ⟨m, hm, -⟩ := Option.map_eq_some_iff.1 hn
    exact ⟨n, SlotGraph.mem_nodeIds.2 (SlotGraph.hasNode_iff.2 ⟨m, hm⟩),
      Container.payload?_eq_some.2 hn⟩

/-- Meeting keeps what holds when one more container is met, of those that are led to. -/
theorem meet_induction {P : List GraphId → Prop} {Q : GraphId → Prop}
    (hmeet : ∀ met g, P met → Q g → g ∉ met → P (met ++ [g]))
    (hnext : ∀ g, Q g → ∀ h ∈ payloadGraphs (s.get g), Q h) (fuel : Nat) (hP : P met) (hQ : Q g) :
    P (s.meet fuel met g) := by
  induction fuel generalizing met g with
  | zero => exact hP
  | succ fuel ih =>
    rw [meet]
    split
    · exact hP
    · rename_i hnew
      exact List.foldlRecOn (motive := P) _ _ (hmeet met g hP hQ hnew) fun _ hmet h hh =>
        ih hmet (hnext g hQ h hh)

theorem nested_induction {P : List GraphId → Prop} {Q : GraphId → Prop}
    (hmeet : ∀ met g, P met → Q g → g ∉ met → P (met ++ [g]))
    (hnext : ∀ g, Q g → ∀ h ∈ payloadGraphs (s.get g), Q h) (hP : P [])
    (hQ : ∀ h ∈ payloadGraphs c, Q h) : P (s.nested c) :=
  List.foldlRecOn (motive := P) _ _ hP fun _ hmet h hh =>
    meet_induction hmeet hnext _ hmet (hQ h hh)

/-- No container is met twice. -/
theorem nodup_nested (s : Store) (c : Container) : (s.nested c).Nodup :=
  nested_induction (P := List.Nodup) (Q := fun _ => True)
    (fun _ _ hmet _ hnew => List.concat_eq_append ▸ hmet.concat hnew) (fun _ _ _ _ => trivial)
    .nil fun _ _ => trivial

/-- What holds of all that a container holds, and is passed on, holds of all that it leads to. -/
theorem forall_mem_nested {Q : GraphId → Prop} (hQ : ∀ h ∈ payloadGraphs c, Q h)
    (hnext : ∀ g, Q g → ∀ h ∈ payloadGraphs (s.get g), Q h) : ∀ h ∈ s.nested c, Q h :=
  nested_induction (P := fun met => ∀ h ∈ met, Q h) (Q := Q)
    (fun _ _ hmet hg _ => List.forall_mem_append.2 ⟨hmet, List.forall_mem_singleton.2 hg⟩) hnext
    nofun hQ

/-- How many containers have not been met. -/
def unmet (s : Store) (met : List GraphId) : Nat :=
  (List.range s.graphs.size).countP (· ∉ met)

theorem unmet_le (s : Store) (met : List GraphId) : s.unmet met ≤ s.graphs.size :=
  List.countP_le_length.trans_eq List.length_range

/-- Only a container that is there holds others. -/
theorem lt_of_payloadGraphs (hheld : payloadGraphs (s.get g) ≠ []) : g < s.graphs.size := by
  by_contra hge
  rw [Store.get, Array.getElem?_eq_none (Nat.le_of_not_lt hge)] at hheld
  exact hheld rfl

theorem unmet_append_le (s : Store) (met more : List GraphId) :
    s.unmet (met ++ more) ≤ s.unmet met := by
  refine List.countP_mono_left fun h _ hh => ?_
  simp only [decide_eq_true_eq, List.mem_append, not_or] at hh ⊢
  exact hh.1

/-- Meeting a container pays for one unit of fuel. -/
theorem unmet_concat_lt (hg : g < s.graphs.size) (hnew : g ∉ met) :
    s.unmet (met ++ [g]) < s.unmet met := by
  unfold unmet
  simp only [List.countP_eq_length_filter]
  have hfilter : (List.range s.graphs.size).filter (fun h => decide (h ∉ met ++ [g])) =
      ((List.range s.graphs.size).filter fun h => decide (h ∉ met)).filter fun h => h != g := by
    rw [List.filter_filter]
    refine List.filter_congr fun h _ => ?_
    by_cases hmet : h ∈ met <;> by_cases heq : h = g <;> simp [hmet, heq]
  rw [hfilter, List.length_filter_lt_length_iff_exists]
  exact ⟨g, List.mem_filter.2 ⟨List.mem_range.2 hg, by simpa using hnew⟩, by simp⟩

/-- Where the fuel is enough, more of it makes no difference. -/
theorem meet_fuel (s : Store) {fuel : Nat} (hfuel : s.unmet met < fuel) (g : GraphId) :
    s.meet (fuel + 1) met g = s.meet fuel met g := by
  have hgrows (fuel : Nat) (met : List GraphId) (g : GraphId) :
      s.unmet (s.meet fuel met g) ≤ s.unmet met :=
    meet_induction (P := fun more => s.unmet more ≤ s.unmet met) (Q := fun _ => True)
      (fun _ _ hmore _ _ => (s.unmet_append_le _ _).trans hmore) (fun _ _ _ _ => trivial) fuel
      le_rfl trivial
  induction fuel generalizing met g with
  | zero => omega
  | succ fuel ih =>
    have hfold (held met : List GraphId) (hpaid : held ≠ [] → s.unmet met < fuel) :
        held.foldl (s.meet (fuel + 1)) met = held.foldl (s.meet fuel) met := by
      induction held generalizing met with
      | nil => rfl
      | cons h held ih' =>
        have hlt := hpaid (List.cons_ne_nil _ _)
        rw [List.foldl_cons, List.foldl_cons, ih hlt]
        exact ih' _ fun _ => (hgrows fuel met h).trans_lt hlt
    rw [meet, meet]
    split
    · rfl
    · rename_i hnew
      refine hfold _ _ fun hheld => ?_
      have := unmet_concat_lt (lt_of_payloadGraphs hheld) hnew
      omega

theorem foldl_meet_fuel (s : Store) {fuel : Nat} (hfuel : s.graphs.size < fuel)
    (c : Container) : (payloadGraphs c).foldl (s.meet fuel) [] = s.nested c := by
  induction fuel, Nat.succ_le_of_lt hfuel using Nat.le_induction with
  | base => rfl
  | succ fuel hle ih =>
    rw [← ih (by omega)]
    refine List.foldl_ext _ _ _ fun met h _ => s.meet_fuel ?_ h
    exact (s.unmet_le met).trans_lt hle

theorem freshId_append (base : Nat) (hg : g ∈ met) :
    freshId base (met ++ more) g = freshId base met g := by
  rw [freshId, freshId, List.idxOf_append_of_mem hg]

/-- What is met later does not change how a container is renamed that leads to nothing new. -/
theorem renamed_append (base : Nat) (h : ∀ g ∈ payloadGraphs c, g ∈ met) :
    renamed base (met ++ more) c = renamed base met c := by
  have hgraph : c.graph.mapNodes (Member.moved (freshId base (met ++ more))) =
      c.graph.mapNodes (Member.moved (freshId base met)) := by
    refine SlotGraph.mapNodes_congr fun n m hm => ?_
    obtain ⟨value, notes⟩ := m
    cases value with
    | graph g =>
      have hmet := h g (mem_payloadGraphs.2 ⟨n, by rw [Container.value?, hm]; rfl⟩)
      rw [Member.moved, Member.moved, Value.moved_graph, Value.moved_graph,
        freshId_append base hmet]
    | _ => rfl
  rw [renamed, hgraph, renamed]

/-! ### A copy under way -/

/-- The fresh containers of those that were met stand behind the containers of the first store,
which are as they were, and are noted. -/
structure Stands (s : Store) (met : List GraphId) (state : Copying) : Prop where
  size : state.store.graphs.size = s.graphs.size + met.length
  exceptions : state.store.exceptions = s.exceptions
  old : ∀ h < s.graphs.size, state.store.graphs[h]? = s.graphs[h]?
  memo : ∀ g, state.memo[g]? = if g ∈ met then some (freshId s.graphs.size met g) else none

/-- What a step of a copy does: it meets some more containers and all that they lead to, copies
these, and leaves the fresh containers of the others alone, which may be empty as yet. -/
structure Copies (s : Store) (met : List GraphId) (state : Copying) (more : List GraphId)
    (state' : Copying) : Prop where
  stands : Stands s (met ++ more) state'
  kept : ∀ i < met.length,
    state'.store.graphs[s.graphs.size + i]? = state.store.graphs[s.graphs.size + i]?
  made : ∀ i g, more[i]? = some g → state'.store.graphs[s.graphs.size + met.length + i]? =
    some (renamed s.graphs.size (met ++ more) (s.get g))
  closed : ∀ g ∈ more, ∀ h ∈ payloadGraphs (s.get g), h ∈ met ++ more

namespace Copies

theorem refl (h : Stands s met state) : Copies s met state [] state where
  stands := by rwa [List.append_nil]
  kept _ _ := rfl
  made _ _ hg := nomatch hg
  closed _ hg := nomatch hg

theorem trans (h : Copies s met state more state')
    (h' : Copies s (met ++ more) state' more' state'') :
    Copies s met state (more ++ more') state'' where
  stands := List.append_assoc .. ▸ h'.stands
  kept i hi := by
    rw [h'.kept i (by rw [List.length_append]; omega), h.kept i hi]
  made i g hg := by
    rw [← List.append_assoc]
    rw [List.getElem?_append] at hg
    split at hg
    · rename_i hi
      have hkept := h'.kept (met.length + i) (by rw [List.length_append]; omega)
      rw [← Nat.add_assoc] at hkept
      rw [hkept, h.made i g hg, renamed_append _ (h.closed g (List.mem_of_getElem? hg))]
    · have hmade := h'.made (i - more.length) g hg
      rwa [List.length_append, show s.graphs.size + (met.length + more.length) + (i - more.length) =
        s.graphs.size + met.length + i by omega] at hmade
  closed g hg x hx := by
    rw [← List.append_assoc]
    rcases List.mem_append.1 hg with hg | hg
    · exact List.mem_append_left _ (h.closed g hg x hx)
    · exact h'.closed g hg x hx

end Copies

/-- A way to copy a container that is held does what a way to meet containers says, where so many
containers have not been met. -/
def Follows (s : Store) (fuel : Nat) (copy : GraphId → Copying → GraphId × Copying)
    (step : List GraphId → GraphId → List GraphId) : Prop :=
  ∀ g met state, Stands s met state → s.unmet met < fuel →
    ∃ more, step met g = met ++ more ∧ g ∈ met ++ more ∧
      (copy g state).1 = freshId s.graphs.size (met ++ more) g ∧
      Copies s met state more (copy g state).2

/-- A node that holds no container is passed over. -/
theorem copyNodes_of_none {copy : GraphId → Copying → GraphId × Copying} {rest : List Nat}
    (hn : c.payload? n = none) (state : Copying) :
    copyNodes copy (n :: rest) c state = copyNodes copy rest c state := by
  rw [copyNodes]
  rw [Container.payload?] at hn
  cases hvalue : c.value? n with
  | none => rfl
  | some v =>
    rw [hvalue] at hn
    cases v with
    | graph g => cases hn
    | _ => rfl

theorem copyNodes_of_some {copy : GraphId → Copying → GraphId × Copying} {rest : List Nat}
    (hn : c.payload? n = some g) (state : Copying) :
    copyNodes copy (n :: rest) c state =
      copyNodes copy rest (c.putValue n (.graph (copy g state).1)) (copy g state).2 := by
  rw [copyNodes, Container.payload?_eq_some.1 hn]

/-- Going through nodes meets what they hold, one after the other, and redirects them. -/
theorem Follows.copyNodes {fuel : Nat} {copy : GraphId → Copying → GraphId × Copying}
    {step : List GraphId → GraphId → List GraphId} (hcopy : Follows s fuel copy step)
    {nodes : List Nat} (hnodup : nodes.Nodup) (hstands : Stands s met state)
    (hfuel : nodes.filterMap c.payload? ≠ [] → s.unmet met < fuel) :
    ∃ more, (nodes.filterMap c.payload?).foldl step met = met ++ more ∧
      (∀ g ∈ nodes.filterMap c.payload?, g ∈ met ++ more) ∧
      (copyNodes copy nodes c state).1 =
        nodes.foldl (Container.redirect (freshId s.graphs.size (met ++ more))) c ∧
      Copies s met state more (copyNodes copy nodes c state).2 := by
  induction nodes generalizing c met state with
  | nil => exact ⟨[], by simp, by simp, rfl, .refl hstands⟩
  | cons n rest ih =>
    obtain ⟨hnew, hnodup⟩ := List.nodup_cons.1 hnodup
    cases hn : c.payload? n with
    | none =>
      rw [List.filterMap_cons_none hn] at hfuel ⊢
      rw [copyNodes_of_none hn]
      obtain ⟨more, hmet, hmem, hnodes, hcopies⟩ := ih hnodup hstands hfuel
      refine ⟨more, hmet, hmem, ?_, hcopies⟩
      rw [hnodes, List.foldl_cons, Container.redirect_of_none hn]
    | some g =>
      rw [List.filterMap_cons_some hn] at hfuel ⊢
      rw [copyNodes_of_some hn]
      have hpaid := hfuel (by simp)
      obtain ⟨more, hmet, hg, hfresh, hcopies⟩ := hcopy g met state hstands hpaid
      have hsame : rest.filterMap (c.putValue n (.graph (copy g state).1)).payload? =
          rest.filterMap c.payload? := by
        refine List.filterMap_congr fun m hm => ?_
        exact Container.payload?_putValue _ fun heq => hnew (heq ▸ hm)
      obtain ⟨more', hmet', hmem, hnodes, hcopies'⟩ := ih hnodup hcopies.stands
        (c := c.putValue n (.graph (copy g state).1)) fun _ =>
          Nat.lt_of_le_of_lt (s.unmet_append_le met more) hpaid
      rw [hsame] at hmet' hmem
      refine ⟨more ++ more', ?_, ?_, ?_, hcopies.trans hcopies'⟩
      · rw [List.foldl_cons, hmet, hmet', List.append_assoc]
      · rw [← List.append_assoc]
        exact List.forall_mem_cons.2 ⟨List.mem_append_left _ hg, hmem⟩
      · rw [hnodes, List.foldl_cons, Container.redirect_of_some hn, hfresh, ← List.append_assoc,
          freshId_append _ hg]

/-- An empty container is made for one that was not met. -/
theorem Stands.place (h : Stands s met state) (hnew : g ∉ met) (kind : Kind) :
    (state.place g kind).1 = freshId s.graphs.size (met ++ [g]) g ∧
    Stands s (met ++ [g]) (state.place g kind).2 := by
  have hfresh : state.store.graphs.size = freshId s.graphs.size (met ++ [g]) g := by
    rw [freshId, List.idxOf_append_of_notMem hnew, List.idxOf_cons_self, h.size, Nat.add_zero]
  refine ⟨hfresh, ?_, h.exceptions, fun x hx => ?_, fun x => ?_⟩
  · rw [Copying.place, Store.alloc, Array.size_push, h.size, List.length_append,
      List.length_singleton, Nat.add_assoc]
  · rw [Copying.place, Store.alloc, Array.getElem?_push_lt (by have := h.size; omega), ← h.old x hx,
      Array.getElem?_eq_getElem]
  · rw [Copying.place, Std.HashMap.getElem?_insert, h.memo]
    by_cases hx : g = x
    · subst hx
      simpa [Store.alloc] using hfresh
    · by_cases hmet : x ∈ met
      · simp [hx, hmet, freshId_append _ hmet]
      · simp [hx, hmet, Ne.symm hx]

/-- When all that a container leads to has been met, its fresh container is filled. -/
theorem Copies.fill {kind : Kind} (h : Stands s met state)
    (hcopies : Copies s (met ++ [g]) (state.place g kind).2 more state')
    (hheld : ∀ x ∈ payloadGraphs (s.get g), x ∈ met ++ [g] ++ more) :
    Copies s met state (g :: more) { state' with
      store := state'.store.set (state.place g kind).1
        (renamed s.graphs.size (met ++ [g] ++ more) (s.get g)) } := by
  have hassoc : met ++ [g] ++ more = met ++ g :: more := by rw [List.append_assoc]; rfl
  have hfresh : (state.place g kind).1 = s.graphs.size + met.length := h.size
  have hstands := hcopies.stands
  have hsize := hstands.size
  rw [hassoc] at hstands hheld ⊢
  rw [hfresh]
  refine ⟨⟨?_, hstands.exceptions, fun x hx => ?_, hstands.memo⟩, fun i hi => ?_, fun i x hx => ?_,
    fun x hx y hy => ?_⟩
  · rw [Store.set, Array.size_setIfInBounds, hstands.size]
  · rw [Store.set, Array.getElem?_setIfInBounds_ne (by omega), hstands.old x hx]
  · have hkept := hcopies.kept i (by rw [List.length_append]; omega)
    rw [Store.set, Array.getElem?_setIfInBounds_ne (by omega), hkept, Copying.place, Store.alloc,
      Array.getElem?_push_lt (by have := h.size; omega), Array.getElem?_eq_getElem]
  · cases i with
    | zero =>
      obtain rfl : g = x := by simpa using hx
      rw [Store.set, Nat.add_zero, Array.getElem?_setIfInBounds_self_of_lt]
      rw [hsize, List.length_append, List.length_append, List.length_singleton]
      omega
    | succ i =>
      have hmade := hcopies.made i x (by simpa using hx)
      rw [List.length_append, List.length_singleton, hassoc] at hmade
      rw [Store.set, Array.getElem?_setIfInBounds_ne (by omega), ← hmade]
      congr 1
      omega
  · rcases List.mem_cons.1 hx with rfl | hx
    · exact hheld y hy
    · exact hassoc ▸ hcopies.closed x hx y hy

/-- Copying a container that is held meets it. -/
theorem follows_copyNested (s : Store) (fuel : Nat) :
    Follows s fuel (copyNested s.graphs.size fuel) (s.meet fuel) := by
  induction fuel with
  | zero => exact fun _ _ _ _ hfuel => absurd hfuel (Nat.not_lt_zero _)
  | succ fuel ih =>
    intro g met state hstands hfuel
    have hmemo := hstands.memo g
    by_cases hmet : g ∈ met
    · rw [if_pos hmet] at hmemo
      rw [meet, if_pos hmet, copyNested, hmemo]
      exact ⟨[], by simp, by simpa, by simp, .refl hstands⟩
    · rw [if_neg hmet] at hmemo
      -- A number behind the containers of the store stands for an empty list.
      have hsource : (if g < s.graphs.size then state.store.get g else .new .list) = s.get g := by
        unfold Store.get
        split
        · rename_i hlt
          rw [hstands.old g hlt]
        · rename_i hge
          rw [Array.getElem?_eq_none (Nat.le_of_not_lt hge), Option.getD_none]
      have hpaid (hheld : payloadGraphs (s.get g) ≠ []) : s.unmet (met ++ [g]) < fuel := by
        have := unmet_concat_lt (lt_of_payloadGraphs hheld) hmet
        omega
      obtain ⟨hfresh, hplaced⟩ := hstands.place hmet (s.get g).kind
      obtain ⟨more, hmore, hheld, hcopied, hcopies⟩ := ih.copyNodes
        (c := { s.get g with frozen := false }) (SlotGraph.nodup_nodeIds _) hplaced hpaid
      have hassoc : met ++ [g] ++ more = met ++ g :: more := by rw [List.append_assoc]; rfl
      rw [Container.foldl_redirect_nodeIds] at hcopied
      rw [copyNested, hmemo]
      dsimp only
      rw [hsource, copyWith, hcopied, meet, if_neg hmet]
      refine ⟨g :: more, hassoc ▸ hmore, by simp, ?_, Copies.fill hstands hcopies hheld⟩
      have hmem : g ∈ met ++ [g] := List.mem_append_right _ (List.mem_singleton_self g)
      rw [hfresh, ← hassoc, freshId_append _ hmem]

/-- Where nothing was met before, the fresh containers are all that is added to the store. -/
theorem Copies.store_eq (h : Copies s [] state more state') : state'.store =
    { s with graphs := s.graphs ++
      (more.map fun g => renamed s.graphs.size more (s.get g)).toArray } := by
  have hsize : state'.store.graphs.size = s.graphs.size + more.length := h.stands.size
  have hgraphs : state'.store.graphs =
      s.graphs ++ (more.map fun g => renamed s.graphs.size more (s.get g)).toArray := by
    refine Array.ext_getElem? fun i => ?_
    by_cases hi : i < s.graphs.size
    · rw [h.stands.old i hi, Array.getElem?_append_left hi]
    · obtain ⟨j, rfl⟩ := Nat.exists_eq_add_of_le (Nat.le_of_not_lt hi)
      rw [Array.getElem?_append_right (by omega), Nat.add_sub_cancel_left]
      cases hj : more[j]? with
      | none =>
        have hle := List.getElem?_eq_none_iff.1 hj
        rw [Array.getElem?_eq_none (by omega), Array.getElem?_eq_none (by simpa)]
      | some g => simpa [hj] using h.made j g hj
  rw [← hgraphs, ← h.stands.exceptions]

/-- Where there is fuel for all containers, the copy is the container renamed, and what it leads to
has been copied. -/
theorem copyWith_spec (s : Store) (c : Container) {fuel : Nat} (hfuel : s.graphs.size < fuel) :
    let (copied, state) := copyWith (copyNested s.graphs.size fuel) c ⟨s, ∅⟩
    copied = renamed s.graphs.size (s.nested c) c ∧ Copies s [] ⟨s, ∅⟩ (s.nested c) state ∧
      ∀ g ∈ payloadGraphs c, g ∈ s.nested c := by
  have hstands : Stands s [] ⟨s, ∅⟩ := ⟨rfl, rfl, fun _ _ => rfl, by simp⟩
  obtain ⟨more, hmore, hheld, hcopied, hcopies⟩ :=
    (follows_copyNested s fuel).copyNodes (c := { c with frozen := false })
      (SlotGraph.nodup_nodeIds _) hstands fun _ => (s.unmet_le []).trans_lt hfuel
  rw [List.nil_append] at hmore hcopied
  obtain rfl : s.nested c = more := (s.foldl_meet_fuel hfuel c).symm.trans hmore
  exact ⟨hcopied.trans (Container.foldl_redirect_nodeIds ..), hcopies, hheld⟩

/-- What a deep copy comes to: the container is renamed, and behind the containers of the store
stand those that it leads to, renamed alike. -/
theorem deepCopy_eq (s : Store) (c : Container) : s.deepCopy c =
    (renamed s.graphs.size (s.nested c) c, { s with graphs := s.graphs ++
      ((s.nested c).map fun g => renamed s.graphs.size (s.nested c) (s.get g)).toArray }) :=
  have h := s.copyWith_spec c (Nat.lt_succ_self _)
  Prod.ext h.1 h.2.1.store_eq

/-- More fuel would not make another copy. -/
theorem deepCopy_fuel (s : Store) (c : Container) {fuel : Nat} (hfuel : s.graphs.size < fuel) :
    s.deepCopy c = ((copyWith (copyNested s.graphs.size fuel) c ⟨s, ∅⟩).1,
      (copyWith (copyNested s.graphs.size fuel) c ⟨s, ∅⟩).2.store) := by
  have h := s.copyWith_spec c hfuel
  rw [deepCopy_eq]
  exact (Prod.ext h.1 h.2.1.store_eq).symm

theorem mem_nested_of_held (hg : g ∈ payloadGraphs c) : g ∈ s.nested c :=
  (s.copyWith_spec c (Nat.lt_succ_self _)).2.2 g hg

/-- With a container, all that it leads to is met. -/
theorem mem_nested_of_mem (hg : g ∈ s.nested c) (hh : h ∈ payloadGraphs (s.get g)) :
    h ∈ s.nested c :=
  (s.copyWith_spec c (Nat.lt_succ_self _)).2.1.closed g hg h hh

end Store

end GraphLang
