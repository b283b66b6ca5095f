import GraphLang.Proofs.Bridge.Host
import GraphLang.Proofs.Immutable
import GraphLang.Proofs.Program.Building

/-!
# Collections that nobody sees

A host that holds no values cannot see a collection: what it orders afterwards comes to the same.
The bridge between the two runs joins the nodes that the collection keeps to themselves. This needs
that the collection keeps the closures of rulesets, which it does for functions that a ruleset holds
itself, and not for functions inside tables that it holds.
-/

namespace GraphLang

open SlotGraph

/-! ### States of an evaluator whose host holds no values -/

namespace World

/-- The world after a collection. -/
def collected (w : Machine) : Machine := { w with control := (w.control.collect w.store).2 }

/-- A collection keeps the node. -/
def Retains (w : Machine) (n : Nat) : Prop := w.control.scopes.Retained w.store w.control.roots n

/-- The value is found in a variable that a collection keeps, or in what rulesets hold. -/
def Finds (w : Machine) (x : Value) : Prop :=
  w.control.scopes.Holds w.store w.control.roots x ∨
    ∃ c ∈ w.control.rulesets.callbacks, w.store.Within c x

/-- A collection keeps the closures of the functions that are found inside the tables and the
exceptions that rulesets hold. -/
def KeepsInner (w : Machine) : Prop :=
  ∀ c ∈ w.control.rulesets.callbacks, (∀ f, c ≠ .function f) → ∀ f, w.store.Within c (.function f) →
    w.Retains f.closure

end World

/-- The states of an evaluator whose host holds no values: it was given orders, and scopes were
collected where that keeps the closures inside of what rulesets hold. -/
inductive Driven : Machine → Prop
  /-- A new evaluator. -/
  | new (config : Config) (verbosity : Verbosity) (natives : String → HostNative) :
    Driven (.evaluator config verbosity natives)
  /-- A unit was loaded, or rejected. -/
  | load {w v p r} : Driven w → Eval.load p w = some (r, v) → Driven v
  /-- A unit was run. -/
  | run {w v fuel id r} : Driven w → Eval.run fuel id w = some (r, v) → Driven v
  /-- A name was imported. -/
  | importName {w v into source name r} : Driven w →
    Eval.importName into source name w = some (r, v) → Driven v
  /-- Scopes were collected. -/
  | collect {w} : Driven w → w.KeepsInner → Driven w.collected

variable {B : Bridge} {w : Machine}

theorem Driven.reachable (h : Driven w) : Reachable w := by
  induction h with
  | new config verbosity natives => exact .new config verbosity natives
  | load _ hload ih => exact ih.load hload
  | run _ hrun ih => exact ih.run hrun
  | importName _ himport ih => exact ih.importName himport
  | collect _ _ ih => exact ih.collect

/-! ### New evaluators -/

/-- The bridge that joins every node of the scopes to itself, with no containers. -/
def Scopes.identity (s : Scopes) : Bridge where
  joins k n n' := n' = n ∧ ∃ a, s.graph.node? n = some a ∧ a.kind? = some k
  shares _ := False
  oneToOne := by
    rintro k l n n' m m' ⟨rfl, -⟩ ⟨rfl, -⟩
    rfl

namespace Scopes

variable {s : Scopes}

theorem joins_of_isScope {n : ScopeId} (hn : s.isScope n = true) :
    s.identity.joins .scope n n := by
  obtain ⟨kind, active, hnode⟩ := isScope_iff.1 hn
  exact ⟨rfl, _, hnode, rfl⟩

theorem joins_of_variableName? {x : VarId} {name : String} (hx : s.variableName? x = some name) :
    s.identity.joins .var x x := by
  obtain ⟨mutable, hnode⟩ := variableName?_iff.1 hx
  exact ⟨rfl, _, hnode, rfl⟩

/-- Scopes correspond to themselves if all bound values do. -/
theorem Regular.across_identity (h : Regular none s)
    (hvalues : ∀ n x, s.graph.node? n = some (.binding x) → x.Across s.identity x) :
    s.Across s.identity s := by
  refine ⟨h, h, fun {k n n'} hjoin => ?_⟩
  obtain ⟨rfl, a, ha, hk⟩ := hjoin
  match a, hk with
  | .scope kind active, rfl =>
    have hn := isScope_iff.2 ⟨_, _, ha⟩
    refine .scope hn hn (.of_self fun p hp => ?_) (fun name => .of_self fun x hx => ?_)
      fun name => .of_self fun x hx => ?_
    · obtain ⟨e, hedge⟩ := h.parent?_iff.1 hp
      exact joins_of_isScope (h.parent_ends hedge).2
    · exact joins_of_variableName? ((h.declared _ name x).1 hx).2
    · rw [imported?_eq] at hx
      obtain ⟨t, ht, rfl⟩ := Option.map_eq_some_iff.1 hx
      have hname := List.find?_some ht
      exact joins_of_variableName? (by simpa using (Bool.and_eq_true_iff.1 hname).2)
  | .variable name mutable, rfl =>
    refine .var ha ha (.of_self fun x hx => ?_)
    obtain ⟨t, -, ht⟩ := h.valueOf?_iff.1 hx
    exact hvalues t x ht
  | .closure name, rfl =>
    obtain ⟨scope, hscope⟩ := h.exists_closureScope ha
    exact .closure hscope hscope (joins_of_isScope (isScope_of_closureScope hscope))

/-- The prelude holds natives only. -/
theorem natives_withPrelude : ((withPrelude Native.prelude).2.graph.nodeIds.all fun n =>
    match (withPrelude Native.prelude).2.graph.node? n with
    | some (.binding (.native native)) => Native.prelude.contains native
    | some (.binding _) => false
    | _ => true) = true := by
  decide +kernel

theorem across_of_withPrelude {n : Nat} {x : Value}
    (hx : (withPrelude Native.prelude).2.graph.node? n = some (.binding x)) : x.Across B x := by
  have hn := List.all_eq_true.1 natives_withPrelude n (mem_nodeIds.2 (hasNode_iff.2 ⟨_, hx⟩))
  rw [hx] at hn
  cases x with
  | native native =>
    refine .native fun name arity => ?_
    rintro rfl
    simp [Native.prelude] at hn
  | _ => cases hn

end Scopes

/-- A new evaluator corresponds to itself. -/
theorem World.across_evaluator (config : Config) (verbosity : Verbosity)
    (natives : String → HostNative) : ∃ B, World.Across B (.evaluator config verbosity natives)
      (.evaluator config verbosity natives) := by
  have hregular : Scopes.Regular none (Scopes.withPrelude Native.prelude).2 :=
    Scopes.regular_withPrelude (by decide)
  have hscopes := hregular.across_identity fun n x hx => Scopes.across_of_withPrelude hx
  have hprelude := (sane_evaluator config verbosity natives).prelude
  exact ⟨(Scopes.withPrelude Native.prelude).2.identity, ⟨rfl, rfl, False.elim, False.elim⟩, rfl,
    rfl, rfl, rfl, hscopes, Scopes.joins_of_isScope hprelude, fun _ => .none, .nil, rfl, rfl, rfl,
    .none⟩

/-! ### What a collection keeps -/

namespace World

variable {x x' y : Value}

theorem Finds.within (h : w.Finds x) (hy : w.store.Within x y) : w.Finds y := by
  obtain ⟨n, u, hn, hu, hx⟩ | ⟨c, hc, hx⟩ := h
  · exact Or.inl ⟨n, u, hn, hu, hx.trans hy⟩
  · exact Or.inr ⟨c, hc, hx.trans hy⟩

/-- The bridge that joins the nodes that a collection keeps to themselves, and shares the containers
that are found. -/
def kept (w : Machine) (B : Bridge) : Bridge where
  joins k n n' := n' = n ∧ w.Retains n ∧ ∃ m, B.joins k n m
  shares g := B.shares g ∧ w.Finds (.graph g)
  oneToOne := by
    rintro k l n n' m m' ⟨rfl, -⟩ ⟨rfl, -⟩
    rfl

namespace Across

variable (h : w.Across B w)

include h

/-- What rulesets hold corresponds to itself. -/
theorem callback (hx : x ∈ w.control.rulesets.callbacks) : x.Across B x := by
  obtain ⟨set, hset, hx⟩ := List.mem_flatMap.1 hx
  obtain ⟨rule, hrule, hx⟩ := List.mem_flatMap.1 hx
  have hrules := (List.forall₂_same.1 h.control.rulesets set hset).rules
  have hacross := List.forall₂_same.1 hrules rule hrule
  exact List.forall₂_same.1 hacross.callbacks x hx

theorem hasNode {k : NodeKind} {n n' : Nat} (hn : B.joins k n n') :
    w.control.scopes.graph.hasNode n = true := by
  obtain ⟨a, ha, -⟩ := (h.control.scopes.matched hn).exists_node.1
  exact hasNode_iff.2 ⟨a, ha⟩

/-- A collection keeps the closures of all functions that rulesets lead to. -/
theorem retains_of_callback (hkeeps : w.KeepsInner) {c : Value}
    (hc : c ∈ w.control.rulesets.callbacks) {f : FunctionValue}
    (hf : w.store.Within c (.function f)) : w.Retains f.closure := by
  by_cases hfunction : ∃ g, c = .function g
  · obtain ⟨g, rfl⟩ := hfunction
    cases hf with
    | self =>
      have hroot : f.closure ∈ w.control.roots :=
        List.mem_append_right _ (List.mem_filterMap.2 ⟨_, hc, rfl⟩)
      obtain ⟨m, hjoin⟩ := (h.callback hc).exists_joins
      exact .root hroot (h.hasNode hjoin)
  · exact hkeeps c hc (fun g hg => hfunction ⟨g, hg⟩) f hf

theorem retains (hkeeps : w.KeepsInner) {f : FunctionValue} (hf : w.Finds (.function f))
    {c : ClosureId} (hjoin : B.joins .closure f.closure c) : w.Retains f.closure := by
  obtain ⟨n, u, hn, hu, hf⟩ | ⟨c, hc, hf⟩ := hf
  · exact .closure hn hu hf (h.hasNode hjoin)
  · exact h.retains_of_callback hkeeps hc hf

variable (hkeeps : w.KeepsInner)

include hkeeps

/-- A value that is found stays the same. -/
theorem value_kept (hx : x.Across B x') (hfound : w.Finds x) : x.Across (w.kept B) x := by
  induction hx with
  | graph hg => exact .graph ⟨hg, hfound⟩
  | @function f c hc => exact .function (c := f.closure) ⟨rfl, h.retains hkeeps hfound hc, c, hc⟩
  | native hn => exact .native hn
  | exception _ ih => exact .exception (ih (hfound.within (.payload (.self _))))
  | _ => constructor

/-- The stores correspond in what is found. -/
theorem store_kept : w.store.Across (w.kept B) w.store where
  size := rfl
  exceptions := rfl
  container hg := (h.store.neat hg.1).across_self (h.store.container hg.1) fun x hx hacross =>
    h.value_kept hkeeps hacross (hg.2.within (.held hx (.self x)))
  neat hg := h.store.neat hg.1

/-- Scopes that agree on what a collection keeps correspond. -/
theorem scopes_kept {s s' : Scopes} (hregular : Scopes.Regular none s)
    (hregular' : Scopes.Regular none s') (hs : Scopes.AgreeOn w.Retains w.control.scopes s)
    (hs' : Scopes.AgreeOn w.Retains w.control.scopes s') : s.Across (w.kept B) s' := by
  refine ⟨hregular, hregular', fun {k n n'} hjoin => ?_⟩
  obtain ⟨rfl, hn, m, hm⟩ := hjoin
  cases h.control.scopes.matched hm with
  | scope hscope _ hparent hdeclared himported =>
    refine .scope (by rwa [hs.isScope hn]) (by rwa [hs'.isScope hn]) ?_ (fun name => ?_)
      fun name => ?_
    · rw [hs.parent? hn, hs'.parent? hn]
      exact .of_self fun p hp => ⟨rfl, hs.of_parent? hn hp, hparent.exists_of_eq_some hp⟩
    · rw [hs.declared hn, hs'.declared hn]
      exact .of_self fun x hx => ⟨rfl, hs.named hn hx, (hdeclared name).exists_of_eq_some hx⟩
    · rw [hs.imported? hn, hs'.imported? hn]
      exact .of_self fun x hx =>
        ⟨rfl, hs.of_imported? hn hx, (himported name).exists_of_eq_some hx⟩
  | var hx _ hvalue =>
    refine .var (by rwa [hs.node? hn]) (by rwa [hs'.node? hn]) ?_
    rw [hs.valueOf? hn, hs'.valueOf? hn]
    refine .of_self fun x hx => ?_
    obtain ⟨x', hacross⟩ := hvalue.exists_of_eq_some hx
    obtain ⟨t, htie, ht⟩ := h.control.scopes.regular.valueOf?_iff.1 hx
    have hkept : w.Retains t := Scopes.Retained.tie h.control.scopes.regular.sound hn htie
    exact h.value_kept hkeeps hacross (Or.inl ⟨t, x, hkept, ht, .self x⟩)
  | @closure _ _ scope scope' hc _ hscope =>
    have htie := (Scopes.closureScope_eq_ok.1 hc).2
    obtain ⟨t, ht, rfl⟩ := List.mem_map.1 (List.mem_of_find?_eq_some htie)
    have hkept : w.Retains t.2 := Scopes.Retained.tie h.control.scopes.regular.sound hn ht
    exact .closure (by rwa [hs.closureScope hn]) (by rwa [hs'.closureScope hn])
      ⟨rfl, hkept, scope', hscope⟩

/-- Worlds with scopes that agree on what a collection keeps correspond. -/
theorem kept (hsettled : w.control.pendingFatal = none) {s s' : Scopes}
    (hs : s.Across (w.kept B) s') : (w.withScopes s).Across (w.kept B) (w.withScopes s') := by
  have hroot {n n' : Nat} (hmem : n ∈ w.control.roots) (hjoin : B.joins .scope n n') :
      (w.kept B).joins .scope n n := ⟨rfl, .root hmem (h.hasNode hjoin), n', hjoin⟩
  refine ⟨h.store_kept hkeeps, rfl, rfl, rfl, ?_⟩
  refine ⟨rfl, hs, hroot ?_ h.control.prelude, fun i => .of_self fun u hu => ⟨rfl, ?_⟩, ?_, rfl,
    rfl, rfl, ?_⟩
  · exact List.mem_append_left _ List.mem_cons_self
  · obtain ⟨u', hacross⟩ := (h.control.units i).exists_of_eq_some hu
    refine hroot (List.mem_append_left _ (List.mem_cons_of_mem _ ?_)) hacross.scope
    exact List.mem_map.2 ⟨u, Array.mem_toList_iff.2 (Array.mem_of_getElem? hu), rfl⟩
  · refine List.forall₂_same.2 fun set hset => ⟨rfl, List.forall₂_same.2 fun rule hrule => ?_⟩
    have hrules := (List.forall₂_same.1 h.control.rulesets set hset).rules
    refine (List.forall₂_same.1 hrules rule hrule).self fun x hx hacross => ?_
    have hmem : x ∈ w.control.rulesets.callbacks :=
      List.mem_flatMap.2 ⟨set, hset, List.mem_flatMap.2 ⟨rule, hrule, hx⟩⟩
    exact h.value_kept hkeeps hacross (Or.inr ⟨x, hmem, .self x⟩)
  · change Span.maybe EvalError.Across (w.kept B) w.control.pendingFatal w.control.pendingFatal
    rw [hsettled]
    exact .none

end Across

end World

/-! ### Collections -/

/-- What an action leads to corresponds to itself. -/
theorem Act.Tracks.across_self {ε α : Type} {F : Span ε} {A : Span α} {a : Act Session ε α}
    {r : Except ε α} {v : Machine} (ha : Act.Tracks B F A a a) (h : w.Across B w)
    (hrun : a w = some (r, v)) : ∃ C, v.Across C v := by
  have hfollows := ha.follows le_rfl h
  rw [hrun] at hfollows
  cases hfollows with
  | ends _ _ hv => exact ⟨_, hv⟩

theorem Driven.exists_across (hw : Driven w) : ∃ B, w.Across B w := by
  induction hw with
  | new config verbosity natives => exact World.across_evaluator config verbosity natives
  | load _ hload ih =>
    obtain ⟨B, h⟩ := ih
    exact (Eval.tracks_load _).across_self h hload
  | run _ hrun ih =>
    obtain ⟨B, h⟩ := ih
    exact (Eval.tracks_run _ _).across_self h hrun
  | importName _ himport ih =>
    obtain ⟨B, h⟩ := ih
    exact (Eval.tracks_importName _ _ _).across_self h himport
  | @collect w hw hkeeps ih =>
    obtain ⟨B, h⟩ := ih
    have hregular := h.control.scopes.regular.collect w.store w.control.roots
    have hagree := h.control.scopes.regular.agreeOn_collect w.store w.control.roots
    exact ⟨_, h.kept hkeeps hw.reachable.sane.settled
      (h.scopes_kept hkeeps hregular hregular hagree hagree)⟩

/-- A host that holds no values cannot see a collection: whatever it orders afterwards has the same
reports, with the same values, output, exceptions and call paths, if the collection keeps the
closures inside the tables and the exceptions that rulesets hold. It then keeps all that units lead
to and the closures of all functions that rulesets lead to. -/
theorem collection_unseen (hw : Driven w) (hkeeps : w.KeepsInner) :
    (∀ orders, Order.reports orders w.collected = Order.reports orders w) ∧
      (∀ n, w.control.scopes.Retained w.store (w.control.units.toList.map (·.scope)) n →
        w.collected.control.scopes.graph.hasNode n = true) ∧
      ∀ c ∈ w.control.rulesets.callbacks, ∀ f, w.store.Within c (.function f) →
        w.collected.control.scopes.graph.hasNode f.closure = true := by
  obtain ⟨B, h⟩ := hw.exists_across
  have hregular := h.control.scopes.regular
  have hagree := hregular.agreeOn_collect w.store w.control.roots
  have hacross := h.kept hkeeps hw.reachable.sane.settled (h.scopes_kept hkeeps hregular
    (hregular.collect _ _) hagree.refl_left hagree)
  have hkept {n : Nat} (hn : w.Retains n) : w.collected.control.scopes.graph.hasNode n = true :=
    (Scopes.hasNode_collect hregular.sound).2 hn
  refine ⟨Order.reports_across hacross, fun n hn => ?_, fun c hc f hf => ?_⟩
  · refine hkept (hn.mono fun m hm => ?_)
    exact List.mem_append_left _ (List.mem_cons_of_mem _ hm)
  · exact hkept (h.retains_of_callback hkeeps hc hf)

/-! ### Rulesets that hold tables -/

namespace Program

/-- A program that makes a ruleset with a function and with a table that holds the function. It
leaves a block behind in which another function was defined. -/
def registering : Program := made "registering" do
  let g ← Build.def_ "g" [] (Build.literal .nil)
  let inner ← Build.block [g]
  let f ← Build.def_ "f" ["x"] (Build.var "x")
  let callee ← Build.var "f"
  let entry ← Build.var "f"
  let table ← Build.map [(.str "k", entry)]
  let rules ← Build.defineRuleset "r" [.custom "f", .lookup .nil] [callee, table]
  Build.block [inner, f, rules]

/-- A program that makes a ruleset with a table, and with a function that only the table holds. -/
def looking : Program := made "looking" do
  let f ← Build.function "f" [] (Build.literal (.int 1))
  let table ← Build.map [(.str "k", f)]
  Build.defineRuleset "r" [.lookup .nil] [table]

/-- A program that gets the function out of the table and calls it. -/
def calling : Program := made "calling" do
  let items ← Build.list []
  let xs ← Build.define "xs" items
  let target ← Build.var "xs"
  let rules ← Build.applyRuleset "r" target
  let target ← Build.var "xs"
  let key ← Build.literal (.str "k")
  let entry ← Build.append target key
  let target ← Build.var "xs"
  let first ← Build.literal (.int 0)
  let callee ← Build.index target first
  let value ← Build.call callee []
  let answer ← Build.leave (some value)
  Build.block [xs, rules, entry, answer]

end Program

open Eval

/-- A state with a ruleset that holds a function and a table with that function in it, and with four
nodes that nobody can reach. -/
theorem exists_registering : ∃ w : Machine, ∃ f : FunctionValue, Driven w ∧
    w.control.rulesets.callbacks = [.function f, .graph 0, .nil] ∧
    (w.store.get 0).heldValues = [.function f] ∧
    w.control.scopes.graph.hasNode f.closure = true ∧ (w.control.collect w.store).1 = 4 := by
  let start : Machine := .evaluator .default .silent noNatives
  have hruns : ((load .registering start).bind fun p => run 20 0 p.2).map (fun p =>
      (p.2.control.rulesets.callbacks, (p.2.store.get 0).heldValues,
        p.2.control.scopes.graph.hasNode 22, (p.2.control.collect p.2.store).1)) =
      some ([.function ⟨0, 2, 22, "f", 1⟩, .graph 0, .nil], [.function ⟨0, 2, 22, "f", 1⟩], true,
        4) := by cbv
  obtain ⟨⟨r, w⟩, hw, hfacts⟩ := Option.map_eq_some_iff.1 hruns
  obtain ⟨⟨q, u⟩, hload, hrun⟩ := Option.bind_eq_some_iff.1 hw
  simp only [Prod.mk.injEq] at hfacts
  exact ⟨w, _, .run (.load (.new .default .silent noNatives) hload) hrun, hfacts⟩

/-- The collection of that state is not seen. -/
theorem registering_unseen : ∃ w : Machine, Driven w ∧ w.KeepsInner ∧
    0 < (w.control.collect w.store).1 ∧
    (∃ f, .function f ∈ w.control.rulesets.callbacks ∧
      w.collected.control.scopes.graph.hasNode f.closure = true) ∧
    ∀ orders, Order.reports orders w.collected = Order.reports orders w := by
  obtain ⟨w, f, hw, hcallbacks, hheld, hnode, hcount⟩ := exists_registering
  have hinside {x : Value} (hx : w.store.Within (.graph 0) x) : x = .graph 0 ∨ x = .function f := by
    have hpayload {serial : Nat} {kind message : String} {payload : Value} {path : List CallSite}
        (h : Value.exception serial kind message payload path = .graph 0 ∨
          Value.exception serial kind message payload path = .function f) :
        payload = .graph 0 ∨ payload = .function f := by
      obtain h | h := h <;> cases h
    refine hx.rec_held (P := fun x => x = .graph 0 ∨ x = .function f) (Or.inl rfl) hpayload
      fun {g v} hv hg => ?_
    obtain hg | hg := hg <;> cases hg
    rw [hheld] at hv
    exact Or.inr (List.mem_singleton.1 hv)
  have hmem : .function f ∈ w.control.rulesets.callbacks := hcallbacks ▸ List.mem_cons_self
  have hkeeps : w.KeepsInner := by
    intro c hc hother f' hf'
    rw [hcallbacks] at hc
    simp only [List.mem_cons, List.not_mem_nil, or_false] at hc
    obtain rfl | rfl | rfl := hc
    · exact absurd rfl (hother f)
    · obtain hf | hf := hinside hf' <;> cases hf
      have hroot : f.closure ∈ w.control.roots :=
        List.mem_append_right _ (List.mem_filterMap.2 ⟨_, hmem, rfl⟩)
      exact .root hroot hnode
    · cases hf'
  obtain ⟨hsame, -, hkept⟩ := collection_unseen hw hkeeps
  exact ⟨w, hw, hkeeps, hcount ▸ Nat.succ_pos 3, ⟨f, hmem, hkept _ hmem f (.self _)⟩, hsame⟩

/-- A collection can be seen: the function that only the table holds can be called before it, and
not afterwards. -/
theorem collection_seen :
    (∃ w : Machine, Driven w ∧ (w.control.collect w.store).1 = 1 ∧
      (Order.reports [.load .calling, .run 20 1] w).map (·.map (·.answer)) =
        some [.loaded 1, .shown (.int 1) "1"] ∧
      (Order.reports [.load .calling, .run 20 1] w.collected).map (·.map (·.answer)) =
        some [.loaded 1,
          .failed "Scope" "scope graph error: unknown closure: ClosureId(18)" [] none]) ∧
    ¬∀ w, Driven w → ∀ orders, Order.reports orders w.collected = Order.reports orders w := by
  let start : Machine := .evaluator .default .silent noNatives
  have hruns : ((load .looking start).bind fun p => run 20 0 p.2).map (fun p =>
      ((p.2.control.collect p.2.store).1,
        (Order.reports [.load .calling, .run 20 1] p.2).map (·.map (·.answer)),
        ((Order.load .calling).carryOut p.2.collected).bind fun q =>
          ((Order.run 20 1).carryOut q.2).map fun q' => (q.1, q'.1))) =
      some (1, some [.loaded 1, .shown (.int 1) "1"],
        some (.ok (.loaded 1), .error (.scope (.unknownClosure 18)))) := by cbv
  obtain ⟨⟨r, w⟩, hw, hfacts⟩ := Option.map_eq_some_iff.1 hruns
  obtain ⟨⟨q, u⟩, hload, hrun⟩ := Option.bind_eq_some_iff.1 hw
  simp only [Prod.mk.injEq] at hfacts
  obtain ⟨hcount, hbefore, hcollected⟩ := hfacts
  obtain ⟨⟨s, v⟩, hloaded, hcalled⟩ := Option.bind_eq_some_iff.1 hcollected
  obtain ⟨⟨s', v'⟩, hcalled, hresults⟩ := Option.map_eq_some_iff.1 hcalled
  simp only [Prod.mk.injEq] at hresults
  obtain ⟨rfl, rfl⟩ := hresults
  have hafter : (Order.reports [.load .calling, .run 20 1] w.collected).map (·.map (·.answer)) =
      some [.loaded 1,
          .failed "Scope" "scope graph error: unknown closure: ClosureId(18)" [] none] := by
    simp only [Order.reports, Order.report, hloaded, hcalled, Option.map_some, Option.bind_some,
      Reply.ofResult]
    unfold Reply.ofError EvalError.message
    rfl
  have hdriven : Driven w := .run (.load (.new .default .silent noNatives) hload) hrun
  refine ⟨⟨w, hdriven, hcount, hbefore, hafter⟩, fun hsame => ?_⟩
  rw [hsame w hdriven, hbefore] at hafter
  simp at hafter

end GraphLang
