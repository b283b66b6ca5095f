import GraphLang.Proofs.Scopes.Reached
import Mathlib.Data.List.Find
import Mathlib.Data.Set.Card

/-!
# What survives collecting

Scopes can agree on some of their nodes, from which no edge leads to others. Then everything that
is looked up at such a node comes to the same. Before and after collecting, scopes agree on the
nodes that are retained, and there are no other nodes afterwards.
-/

namespace GraphLang.Scopes

open SlotGraph

variable {s s' : Scopes} {K : Nat → Prop} {n : Nat}

/-! ### Agreement -/

/-- The scopes are the same at some nodes, from which no edge leads to others. -/
structure AgreeOn (K : Nat → Prop) (s s' : Scopes) : Prop where
  /-- The nodes are the same. -/
  node? : ∀ {n}, K n → s'.graph.node? n = s.graph.node? n
  /-- The edges from the nodes are the same. -/
  outgoing : ∀ {n}, K n → s'.graph.outgoing n = s.graph.outgoing n
  /-- The nodes declare the same names. -/
  declared : ∀ {n : ScopeId}, K n → ∀ name : String,
    s'.declared[(n, name)]? = s.declared[(n, name)]?
  /-- There are as many slots. -/
  size : s'.graph.slots.size = s.graph.slots.size
  /-- No edge leads to other nodes. -/
  target : ∀ {n p}, K n → p ∈ s.graph.outgoing n → K p.2.target
  /-- No declared name leads to other nodes. -/
  named : ∀ {n : ScopeId} {name : String} {var}, K n →
    s.declared[(n, name)]? = some var → K var

namespace AgreeOn

theorem refl_left (h : AgreeOn K s s') : AgreeOn K s s where
  node? _ := rfl
  outgoing _ := rfl
  declared _ _ := rfl
  size := rfl
  target := h.target
  named := h.named

theorem isScope (h : AgreeOn K s s') (hn : K n) : s'.isScope n = s.isScope n :=
  isScope_congr (h.node? hn)

theorem isActive (h : AgreeOn K s s') (hn : K n) : s'.isActive n = s.isActive n :=
  isActive_congr (h.node? hn)

theorem variableName? (h : AgreeOn K s s') (hn : K n) :
    s'.variableName? n = s.variableName? n := by
  rw [Scopes.variableName?, Scopes.variableName?, h.node? hn]

theorem firstEdge? (h : AgreeOn K s s') (hn : K n) (kind : ScopeEdge) :
    Scopes.firstEdge? s'.graph n kind = Scopes.firstEdge? s.graph n kind := by
  rw [Scopes.firstEdge?, Scopes.firstEdge?, h.outgoing hn]

theorem of_firstEdge? (h : AgreeOn K s s') (hn : K n) {kind : ScopeEdge} {p : Nat × Edge ScopeEdge}
    (hp : Scopes.firstEdge? s.graph n kind = some p) : K p.2.target :=
  h.target hn (List.mem_of_find?_eq_some hp)

theorem parent? (h : AgreeOn K s s') (hn : K n) : s'.parent? n = s.parent? n := by
  rw [Scopes.parent?, Scopes.parent?, h.firstEdge? hn]

theorem of_parent? (h : AgreeOn K s s') (hn : K n) {outer : ScopeId}
    (hparent : s.parent? n = some outer) : K outer := by
  obtain ⟨p, hp, rfl⟩ := Option.map_eq_some_iff.1 hparent
  exact h.of_firstEdge? hn hp

theorem chain (h : AgreeOn K s s') (fuel : Nat) (hn : K n) : s'.chain fuel n = s.chain fuel n := by
  induction fuel generalizing n with
  | zero => rfl
  | succ fuel ih =>
    unfold Scopes.chain
    rw [h.parent? hn]
    cases hparent : s.parent? n with
    | none => rfl
    | some outer => exact congrArg (n :: ·) (ih (h.of_parent? hn hparent))

theorem of_mem_chain (h : AgreeOn K s s') (fuel : Nat) (hn : K n) :
    ∀ m ∈ s.chain fuel n, K m := by
  induction fuel generalizing n with
  | zero => exact fun m hm => nomatch hm
  | succ fuel ih =>
    intro m hm
    unfold Scopes.chain at hm
    rcases List.mem_cons.1 hm with rfl | hm
    · exact hn
    · cases hparent : s.parent? n with
      | none => simp [hparent] at hm
      | some outer =>
        rw [hparent] at hm
        exact ih (h.of_parent? hn hparent) m hm

theorem depth (h : AgreeOn K s s') (hn : K n) : s'.depth n = s.depth n := by
  rw [Scopes.depth, Scopes.depth, ancestry, ancestry, h.size, h.chain _ hn]

theorem valueOf? (h : AgreeOn K s s') (hn : K n) : s'.valueOf? n = s.valueOf? n := by
  rw [Scopes.valueOf?, Scopes.valueOf?, h.firstEdge? hn]
  cases hfirst : Scopes.firstEdge? s.graph n .bindsTo with
  | none => rfl
  | some p =>
    dsimp only
    rw [h.node? (h.of_firstEdge? hn hfirst)]

/-! ### Names -/

theorem imported? (h : AgreeOn K s s') (hn : K n) (name : String) :
    s'.imported? n name = s.imported? n name := by
  rw [Scopes.imported?, Scopes.imported?, h.outgoing hn]
  congr 1
  refine List.find?_congr fun p hp => ?_
  dsimp only
  rw [h.variableName? (h.target hn hp)]

theorem of_imported? (h : AgreeOn K s s') (hn : K n) {name : String} {var : VarId}
    (hvar : s.imported? n name = some var) : K var := by
  obtain ⟨p, hp, rfl⟩ := Option.map_eq_some_iff.1 hvar
  exact h.target hn (List.mem_of_find?_eq_some hp)

theorem localVar? (h : AgreeOn K s s') (hn : K n) (name : String) :
    s'.localVar? name n = s.localVar? name n := by
  rw [Scopes.localVar?, Scopes.localVar?, h.declared hn, h.imported? hn]

theorem of_localVar? (h : AgreeOn K s s') (hn : K n) {name : String} {var : VarId}
    (hvar : s.localVar? name n = some var) : K var := by
  unfold Scopes.localVar? at hvar
  split at hvar
  · rename_i hdeclared
    cases hvar
    exact h.named hn hdeclared
  · exact h.of_imported? hn hvar

/-- A name means the same, and what it means is one of the nodes. -/
theorem lookup? (h : AgreeOn K s s') (hn : K n) (name : String) (fuel : Nat) :
    s'.lookup? name fuel n = s.lookup? name fuel n ∧
      ∀ var, s.lookup? name fuel n = some var → K var := by
  rw [lookup?_eq_findSome?, lookup?_eq_findSome?, h.chain fuel hn]
  have hlocal : ∀ m ∈ s.chain fuel n, s'.localVar? name m = s.localVar? name m :=
    fun m hm => h.localVar? (h.of_mem_chain fuel hn m hm) name
  refine ⟨?_, fun var hvar => ?_⟩
  · rw [← List.head?_filterMap, ← List.head?_filterMap, List.filterMap_congr hlocal]
  · obtain ⟨m, hm, hvar⟩ := List.exists_of_findSome?_eq_some hvar
    exact h.of_localVar? (h.of_mem_chain fuel hn m hm) hvar

theorem resolve (h : AgreeOn K s s') (hn : K n) (name : String) :
    s'.resolve n name = s.resolve n name := by
  rw [Scopes.resolve, Scopes.resolve, ensureScope, ensureScope, h.isScope hn, h.size,
    (h.lookup? hn name _).1]

theorem find (h : AgreeOn K s s') (hn : K n) (name : String) :
    s'.find n name = s.find n name ∧ ∀ var, s.find n name = .ok var → K var := by
  refine ⟨by rw [Scopes.find, Scopes.find, h.resolve hn], fun var hvar => ?_⟩
  unfold Scopes.find Scopes.resolve ensureScope at hvar
  split at hvar
  · refine (h.lookup? hn name (s.graph.slots.size + 1)).2 var ?_
    cases hlookup : s.lookup? name (s.graph.slots.size + 1) n with
    | none => simp [hlookup, Bind.bind, Except.bind, pure, Except.pure, throw, throwThe,
        MonadExceptOf.throw] at hvar
    | some var' =>
      simp only [hlookup, Bind.bind, Except.bind, pure, Except.pure, Except.ok.injEq] at hvar
      rw [hvar]
  · cases hvar

theorem get (h : AgreeOn K s s') (hn : K n) (name : String) : s'.get n name = s.get n name := by
  rw [Scopes.get, Scopes.get, (h.find hn name).1]
  cases hfind : s.find n name with
  | error e => rfl
  | ok var =>
    have hvar := h.valueOf? ((h.find hn name).2 var hfind)
    simp only [Bind.bind, Except.bind, hvar]

/-! ### Contents and closures -/

theorem contents (h : AgreeOn K s s') (hn : K n) : s'.contents n = s.contents n := by
  rw [Scopes.contents, Scopes.contents, h.outgoing hn]
  congr 1
  refine List.filterMap_congr fun p hp => ?_
  dsimp only
  rw [h.variableName? (h.target hn hp)]

theorem successors (h : AgreeOn K s s') (hn : K n) :
    s'.graph.successors n = s.graph.successors n ∧ ∀ t ∈ s.graph.successors n, K t := by
  refine ⟨by rw [SlotGraph.successors, SlotGraph.successors, h.outgoing hn], fun t ht => ?_⟩
  obtain ⟨p, hp, rfl⟩ := List.mem_map.1 ht
  exact h.target hn hp

theorem closureScope (h : AgreeOn K s s') (hn : K n) :
    s'.closureScope n = s.closureScope n := by
  obtain ⟨hsuccessors, hK⟩ := h.successors hn
  rw [Scopes.closureScope, Scopes.closureScope, h.node? hn, hsuccessors,
    List.find?_congr fun t ht => h.isScope (hK t ht)]

theorem captured (h : AgreeOn K s s') (hn : K n) : s'.captured n = s.captured n := by
  obtain ⟨hsuccessors, hK⟩ := h.successors hn
  rw [Scopes.captured, Scopes.captured, hsuccessors]
  congr 1
  refine List.filterMap_congr fun t ht => ?_
  rw [h.variableName? (hK t ht)]

end AgreeOn

/-! ### Collecting -/

variable {store : Store} {roots : List Nat}

theorem Regular.agreeOn_collect (h : Regular none s) (store : Store) (roots : List Nat) :
    AgreeOn (s.Retained store roots) s (s.collect store roots).2 := by
  have hsound := h.sound
  have htarget {n : Nat} {p : Nat × Edge ScopeEdge} (hn : s.Retained store roots n)
      (hp : p ∈ s.graph.outgoing n) : s.Retained store roots p.2.target := by
    obtain ⟨hedge, rfl⟩ := hsound.mem_outgoing_iff.1 hp
    exact hn.edge hedge
  have hvariable {n : ScopeId} {name : String} {var : VarId} (hn : s.Retained store roots n)
      (hvar : s.declared[(n, name)]? = some var) : s.Retained store roots var := by
    obtain ⟨⟨e, hedge⟩, -⟩ := (h.declared n name var).1 hvar
    have htarget := Retained.edge (show s.Retained store roots (Edge.mk n var .contains).source
      from hn) hedge
    exact htarget
  refine ⟨fun hn => ?_, fun {n} hn => ?_, fun {n} hn name => ?_, ?_, htarget, hvariable⟩
  · rw [collect_eq, node?_sweep, if_neg (hn.not_mem_dead hsound)]
  · rw [collect_eq, hsound.outgoing_sweep]
    refine List.filter_eq_self.2 fun p hp => ?_
    have hsource := (hsound.mem_outgoing_iff.1 hp).2
    rw [decide_eq_true_iff, hsource]
    exact ⟨hn.not_mem_dead hsound, (htarget hn hp).not_mem_dead hsound⟩
  · ext var
    rw [getElem?_declared_collect h]
    refine ⟨And.left, fun hvar => ⟨hvar, hn.not_mem_dead hsound, ?_⟩⟩
    exact (hvariable hn hvar).not_mem_dead hsound
  · rw [collect_eq, size_sweep]

/-- Everything that can be asked about a node comes to the same in both. -/
structure SameAt (s s' : Scopes) (n : Nat) : Prop where
  /-- The node is the same. -/
  node? : s'.graph.node? n = s.graph.node? n
  /-- The edges from the node are the same. -/
  outgoing : s'.graph.outgoing n = s.graph.outgoing n
  /-- Names mean the same variables. -/
  resolve : ∀ name, s'.resolve n name = s.resolve n name
  /-- Names have the same values. -/
  get : ∀ name, s'.get n name = s.get n name
  /-- A variable has the same value. -/
  valueOf? : s'.valueOf? n = s.valueOf? n
  /-- A scope has the same parent. -/
  parent? : s'.parent? n = s.parent? n
  /-- As many scopes lie around a scope. -/
  depth : s'.depth n = s.depth n
  /-- A scope is open or not, as before. -/
  isActive : s'.isActive n = s.isActive n
  /-- A scope declares the same variables. -/
  contents : s'.contents n = s.contents n
  /-- A closure was made in the same scope. -/
  closureScope : s'.closureScope n = s.closureScope n
  /-- A closure captured the same variables. -/
  captured : s'.captured n = s.captured n

theorem AgreeOn.sameAt (h : AgreeOn K s s') (hn : K n) : SameAt s s' n where
  node? := h.node? hn
  outgoing := h.outgoing hn
  resolve := h.resolve hn
  get := h.get hn
  valueOf? := h.valueOf? hn
  parent? := h.parent? hn
  depth := h.depth hn
  isActive := h.isActive hn
  contents := h.contents hn
  closureScope := h.closureScope hn
  captured := h.captured hn

/-- The nodes after collecting are those that are retained. -/
theorem hasNode_collect (hsound : s.graph.Sound) :
    (s.collect store roots).2.graph.hasNode n = true ↔ s.Retained store roots n := by
  rw [collect_eq, hasNode_sweep]
  constructor
  · rintro ⟨hn, hdead⟩
    exact retained_of_not_mem_dead hsound hn hdead
  · exact fun hn => ⟨hn.hasNode hsound, hn.not_mem_dead hsound⟩

theorem ncard_dead (hsound : s.graph.Sound) :
    {n | s.graph.hasNode n = true ∧ ¬s.Retained store roots n}.ncard =
      (s.dead store roots).length := by
  have hset : {n | s.graph.hasNode n = true ∧ ¬s.Retained store roots n} =
      ((s.dead store roots).toFinset : Set Nat) := by
    ext n
    rw [Set.mem_ofPred_eq, List.coe_toFinset, Set.mem_ofPred_eq, mem_dead hsound]
  rw [hset, Set.ncard_coe_finset, List.toFinset_card_of_nodup]
  exact (nodup_nodeIds s.graph).filter _

/-- Collecting removes exactly the nodes that are not retained, counts them, and changes nothing
that can be asked about the others. -/
theorem Reached.collect_exact (h : Reached s) (store : Store) (roots : List Nat) :
    (∀ n, (s.collect store roots).2.graph.hasNode n = true ↔ s.Retained store roots n) ∧
      (s.collect store roots).1 =
        {n | s.graph.hasNode n = true ∧ ¬s.Retained store roots n}.ncard ∧
      ∀ n, s.Retained store roots n → SameAt s (s.collect store roots).2 n := by
  have hregular := h.regular
  refine ⟨fun n => hasNode_collect hregular.sound, ?_, fun n hn => ?_⟩
  · rw [ncard_dead hregular.sound, collect_eq]
  · exact (hregular.agreeOn_collect store roots).sameAt hn

/-- The function of a closure that is only held by a rule. -/
def heldFunction : FunctionValue := ⟨0, 1, 4, "f", 0⟩

/-- A list with a list in it that holds the first one and has a rule that holds the function. -/
def holdingStore : Store :=
  ⟨#[.ofElements [.graph 1],
    { Container.ofElements [.graph 0] with
      rules := [.transform (.coalesce (.function heldFunction))] }], 0⟩

/-- A closed scope with a closure in it, another closed scope, and a variable for the list. -/
def holding : Scopes :=
  let top := (Scopes.empty.pushRoot .module).2
  let inner := ((top.push 0 .function).2.define 1 "x" (.bool true) true).2
  let made := ((inner.createClosure 1 "f" ["x"]).2.push 0 .block).2
  (((made.pop 5).2.pop 1).2.define 0 "xs" (.graph 0) true).2

theorem reached_holding : Reached holding :=
  ((((((Reached.empty.pushRoot .module).push 0 .function).define 1 "x" (.bool true) true).createClosure
    1 "f" ["x"]).push 0 .block).pop 5).pop 1 |>.define 0 "xs" (.graph 0) true

/-- The closure is found in the list of the variable: in the rule of the list in it. -/
theorem retained_holding : holding.Retained holdingStore [] 4 := by
  have hsound := reached_holding.regular.sound
  have hscope : holding.Retained holdingStore [] 0 := .active (by cbv)
  have hvariable : (.contains, 6) ∈ holding.graph.ties 0 := by
    have hties : holding.graph.ties 0 = [(.contains, 6)] := by cbv
    exact hties ▸ List.mem_cons_self
  have hvalue : (.bindsTo, 7) ∈ holding.graph.ties 6 := by
    have hties : holding.graph.ties 6 = [(.bindsTo, 7)] := by cbv
    exact hties ▸ List.mem_cons_self
  have hmember : .graph 1 ∈ (holdingStore.get 0).memberValues := by
    have hmembers : (holdingStore.get 0).memberValues = [.graph 1] := by cbv
    exact hmembers ▸ List.mem_cons_self
  have hfound : holdingStore.Within (.graph 0) (.function heldFunction) :=
    .member hmember (.callback List.mem_cons_self List.mem_cons_self (.self _))
  exact .closure ((hscope.tie hsound hvariable).tie hsound hvalue) (by cbv) hfound (by cbv)

/-- Nothing that can be asked about the closure changes, and the scope that nobody needs is swept,
alone. -/
theorem sameAt_collect_holding :
    holding.Retained holdingStore [] 4 ∧
      SameAt holding (holding.collect holdingStore []).2 4 ∧
      holding.graph.hasNode 5 = true ∧ ¬holding.Retained holdingStore [] 5 ∧
      {n | holding.graph.hasNode n = true ∧ ¬holding.Retained holdingStore [] n}.ncard = 1 := by
  obtain ⟨hleft, hcount, hsame⟩ := Reached.collect_exact reached_holding holdingStore []
  refine ⟨retained_holding, hsame 4 retained_holding, by cbv, ?_, ?_⟩
  · have hswept : (holding.collect holdingStore []).2.graph.hasNode 5 = false := by cbv
    rw [← hleft, hswept]
    decide
  · rw [← hcount]
    cbv

end GraphLang.Scopes
