import GraphLang.Proofs.Immutable
import GraphLang.Proofs.Scopes.Undisturbed

/-!
# Definitions are local

Evaluating a node adds variables to the scope it is evaluated in, and to scopes that were opened
meanwhile, but to no other one. Blocks, iterations, handlers and calls open scopes of their own, so
they add no variable to any scope that was there before, and every name means afterwards what it
meant before, whatever they shadow and however they end.
-/

namespace GraphLang

open Eval

variable {w : Machine}

/-! ### Nodes that open a scope for what they define -/

namespace Program

variable {p : Program} {n : Nat}

/-- No node of the subtree is a definition. -/
def DefinesNothing (p : Program) (n : Nat) : Prop :=
  ∀ m ∈ p.subtree n, ∀ name mutable, p.op? m ≠ some (.define name mutable)

/-- The node defines nothing in the scope it is evaluated in: it opens other scopes, and what it
evaluates before contains no definition. -/
inductive Sheltered (p : Program) (n : Nat) : Prop
  /-- A block. -/
  | block : p.op? n = some .block → Sheltered p n
  /-- A call, if no definition stands in what is called or in the arguments. -/
  | call : p.op? n = some .call →
    (∀ r c, (r, c) ∈ p.graph.ties n → r = .callee ∨ r.sameFamily (.argument 0) = true →
      p.DefinesNothing c) → Sheltered p n
  /-- A loop over items, if no definition stands in what it runs through. -/
  | each (name : String) : p.op? n = some (.each name) →
    (∀ c, (Role.target, c) ∈ p.graph.ties n → p.DefinesNothing c) → Sheltered p n

/-- A node that is no definition is quiet, if no definition stands below the children that are
evaluated in the same scope. -/
theorem quiet_of_children {o : Op} (ho : p.op? n = some o)
    (hdefine : ∀ name mutable, o ≠ .define name mutable)
    (hchildren : ∀ r c, o.Shares r → (r, c) ∈ p.graph.ties n → p.DefinesNothing c) :
    p.Quiet n := by
  -- The node, nodes that are not there, and the nodes below those children.
  let quiet (m : Nat) : Prop := m = n ∨ p.op? m = none ∨
    ∃ r c, o.Shares r ∧ (r, c) ∈ p.graph.ties n ∧ m ∈ p.subtree c
  refine ⟨quiet, Or.inl rfl, fun m hm => ⟨?_, fun o' r c' ho' hshares hc' => ?_⟩⟩
  · intro name mutable hop
    rcases hm with rfl | hnone | ⟨r, c, hshares, hc, hm⟩
    · rw [ho] at hop
      exact hdefine name mutable (Option.some.inj hop)
    · rw [hnone] at hop
      cases hop
    · exact hchildren r c hshares hc m hm name mutable hop
  · cases hlive : p.op? c' with
    | none => exact Or.inr (Or.inl hlive)
    | some _ =>
      have hnode := hasNode_of_op? hlive
      rcases hm with rfl | hnone | ⟨r', c, hshares', hc, hm⟩
      · rw [ho] at ho'
        cases ho'
        exact Or.inr (Or.inr ⟨r, c', hshares, hc', root_mem_subtree hnode⟩)
      · rw [hnone] at ho'
        cases ho'
      · refine Or.inr (Or.inr ⟨r', c, hshares', hc, mem_subtree hnode (Or.inr ⟨m, hm, ?_⟩)⟩)
        exact List.mem_map.2 ⟨_, mem_children.2 hc', rfl⟩

theorem Sheltered.quiet (h : p.Sheltered n) : p.Quiet n := by
  cases h with
  | block ho => exact quiet_of_children ho nofun fun _ _ hshares => hshares.elim
  | call ho hchildren =>
    exact quiet_of_children ho nofun fun r c hshares hc => hchildren r c hc hshares
  | each name ho htarget =>
    refine quiet_of_children ho nofun ?_
    rintro r c rfl hc
    exact htarget c hc

end Program

/-! ### The regime of what is defined where -/

/-- The scopes that were there at the start and are not among the given ones stay as they were. -/
def Regime.undisturbed (w₀ : Machine) (home : ScopeId → Prop) : Regime where
  inv w := Scopes.Undisturbed (fun n => ¬(home n ∨ w₀.control.scopes.isScope n = false))
    w₀.control.scopes w.control.scopes
  rel _ v := Scopes.Undisturbed (fun n => ¬(home n ∨ w₀.control.scopes.isScope n = false))
    w₀.control.scopes v.control.scopes
  own n := home n ∨ w₀.control.scopes.isScope n = false
  refl := id
  trans _ := id
  holds := id
  aside hw _ _ hscopes _ _ := by rwa [hscopes]
  withStore hw _ := hw
  framed hw _ := hw
  unframed := id
  push {w} parent kind hw := by
    refine ⟨hw.trans (hw.regular.undisturbed_push parent kind), fun scope hpush => Or.inr ?_⟩
    -- The number of the new scope is not that of a scope that was there.
    by_cases hparent : w.control.scopes.isScope parent = true
    · rw [Scopes.push_of_isScope hparent] at hpush
      cases hpush
      rw [Bool.eq_false_iff]
      intro hstart
      have hscope := hw.isScope hstart
      rw [Scopes.isScope_eq_false (hw.regular.sound.node?_new _)] at hscope
      cases hscope
    · rw [Scopes.push, if_neg hparent] at hpush
      cases hpush
  pop scope hw := hw.trans (hw.regular.undisturbed_pop scope)
  define name value mutable hw hown :=
    hw.trans (hw.regular.undisturbed_define (not_not_intro hown) name value mutable)
  assign scope name value hw := hw.trans (hw.regular.undisturbed_assign scope name value)
  createClosure scope name names hw :=
    hw.trans (hw.regular.undisturbed_createClosure scope name names)

/-! ### Evaluations that open scopes of their own -/

/-- The evaluations that open a scope for whatever they define. -/
inductive Enclosed : (Evaluator → Eval Signal) → Prop
  /-- A block, or a call or a loop that evaluates no definition before. -/
  | node (code : Code) (n : Nat) (scope : ScopeId) :
    code.program.Sheltered n → Enclosed fun ev => ev.node code n scope
  /-- An iteration of a loop over items. -/
  | iteration (code : Code) (body : Nat) (scope : ScopeId) (name : String) (item : Value) :
    Enclosed fun ev => inScope scope .loop [(name, item)] (ev.node code body)
  /-- A handler. -/
  | handler (code : Code) (n handler : Nat) (catchName : Option String) (scope : ScopeId)
    (raised : Raised) : Enclosed fun ev => Step.handle ev code n handler catchName scope raised
  /-- A call of a function, by a program, a rule or the host. -/
  | call (f : FunctionValue) (args : List Value) (callNode : Option Nat) :
    Enclosed fun ev => ev.call f args callNode

theorem Enclosed.steps {action : Evaluator → Eval Signal} (h : Enclosed action) (R : Regime) :
    Steps R action := by
  cases h with
  | node code n scope hn => exact .ask (.node code n scope) (Or.inr hn.quiet)
  | iteration code body scope name item =>
    exact .inScope scope .loop _ fun inner hinner => .ask (.node code body inner) (Or.inl hinner)
  | handler code n handler catchName scope raised =>
    exact Moves.handle code n scope handler catchName raised
  | call f args callNode => exact .ask (.call f args callNode) trivial

/-- In every state of an evaluator, evaluating a node adds no variable to any other scope that is
there than the one it is evaluated in, and names seen from scopes outside of it mean what they
meant. A block, an iteration, a handler or a call adds no variable to any scope that is there, so
every name means what it meant. This is so whatever the evaluation comes to. -/
theorem definitions_are_local (hw : Reachable w) {s : ScopeId}
    (hs : w.control.scopes.isScope s = true) (fuel : Nat) :
    (∀ {code n t r v}, (eval fuel).node code n t w = some (r, v) →
      (s ≠ t → v.control.scopes.contents s = w.control.scopes.contents s) ∧
      (t ∉ w.control.scopes.ancestry s →
        ∀ name, v.control.scopes.resolve s name = w.control.scopes.resolve s name)) ∧
    ∀ {action r v}, Enclosed action → action (eval fuel) w = some (r, v) →
      v.control.scopes.contents s = w.control.scopes.contents s ∧
      ∀ name, v.control.scopes.resolve s name = w.control.scopes.resolve s name := by
  have hregular := hw.regular
  have hstart (home : ScopeId → Prop) : (Regime.undisturbed w home).inv w := .refl hregular
  have hscopes (m : ScopeId) (hm : m ∈ w.control.scopes.ancestry s) :
      w.control.scopes.isScope m = true := by
    have hsame : Scopes.Undisturbed (fun _ => True) w.control.scopes w.control.scopes :=
      .refl hregular
    exact (hsame.chain hregular hs fun _ _ => trivial).2 m hm
  constructor
  · intro code n t r v hnode
    have hsteps : Steps (Regime.undisturbed w (· = t)) fun ev => ev.node code n t :=
      .ask (.node code n t) (Or.inl (Or.inl rfl))
    have hlocal := hsteps.rel fuel (hstart _) hnode
    refine ⟨fun hst => hlocal.contents hregular hs ?_, fun ht => hlocal.resolve hregular hs ?_⟩
    · simp [hst, hs]
    · intro m hm
      have hmt : m ≠ t := fun heq => ht (heq ▸ hm)
      simp [hmt, hscopes m hm]
  · intro action r v henclosed hends
    have hlocal := (henclosed.steps (Regime.undisturbed w fun _ => False)).rel fuel (hstart _) hends
    refine ⟨hlocal.contents hregular hs ?_, hlocal.resolve hregular hs fun m hm => ?_⟩
    · simp [hs]
    · simp [hscopes m hm]

/-- A program that defines a name, and then again in a block. -/
def Program.shadowing : Program :=
  let (_, g) := SlotGraph.empty.addNode ⟨.block, 0, none⟩
  let (_, g) := g.addNode ⟨.define "x" true, 0, none⟩
  let (_, g) := g.addNode ⟨.literal (.int 1), 0, none⟩
  let (_, g) := g.addNode ⟨.block, 0, none⟩
  let (_, g) := g.addNode ⟨.define "x" true, 0, none⟩
  let (_, g) := g.addNode ⟨.literal (.int 2), 0, none⟩
  let (_, g) := g.addEdge 0 1 (.statement 0)
  let (_, g) := g.addEdge 1 2 .value
  let (_, g) := g.addEdge 0 3 (.statement 1)
  let (_, g) := g.addEdge 3 4 (.statement 0)
  let (_, g) := g.addEdge 4 5 .value
  ⟨"shadowing", g, [(0, ⟨0, mainName, [], some 0, none⟩)], 1⟩

/-- In the scope of the unit the name means the variable of the unit, also after the block. The
scope of the natives contains nothing else than before. -/
theorem shadowing_is_undone : ∃ w r v, Reachable w ∧
    (eval 5).node ⟨0, .shadowing⟩ 3 17 w = some (r, v) ∧
    w.control.scopes.resolve 17 "x" = .ok (some 18) ∧
    v.control.scopes.resolve 17 "x" = .ok (some 18) ∧
    v.control.scopes.contents 0 = w.control.scopes.contents 0 := by
  let start : Machine := .evaluator .default .silent noNatives
  have hruns : ((load .shadowing start).bind fun p => run 10 0 p.2).map (fun p =>
      (p.2.control.scopes.isScope 0, p.2.control.scopes.isScope 17,
        p.2.control.scopes.resolve 17 "x")) = some (true, true, .ok (some 18)) := by cbv
  have hends : (((load .shadowing start).bind fun p => run 10 0 p.2).bind fun p =>
      (eval 5).node ⟨0, .shadowing⟩ 3 17 p.2).isSome = true := by cbv
  obtain ⟨⟨q, w⟩, hw, hfacts⟩ := Option.map_eq_some_iff.1 hruns
  rw [hw] at hends
  obtain ⟨⟨r, v⟩, hblock⟩ := Option.isSome_iff_exists.1 hends
  obtain ⟨⟨p, u⟩, hload, hrun⟩ := Option.bind_eq_some_iff.1 hw
  have hreachable : Reachable w := .run (.load (.new .default .silent noNatives) hload) hrun
  simp only [Prod.mk.injEq] at hfacts
  obtain ⟨hprelude, hscope, hx⟩ := hfacts
  have hsheltered : Program.shadowing.Sheltered 3 := .block (by cbv)
  have hsame := ((definitions_are_local hreachable hscope 5).2
    (.node ⟨0, .shadowing⟩ 3 17 hsheltered) hblock).2 "x"
  have houter := ((definitions_are_local hreachable hprelude 5).1 hblock).1 (by decide)
  exact ⟨w, r, v, hreachable, hblock, hx, hsame.trans hx, houter⟩

end GraphLang
