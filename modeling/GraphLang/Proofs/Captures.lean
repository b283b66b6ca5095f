import GraphLang.Proofs.Immutable
import GraphLang.Proofs.Loading
import GraphLang.Proofs.Scopes.Anchored

/-!
# Captured variables and what is seen

Making a closure captures the variables that its names mean. Calls look names up anew, from a scope
that is opened in the scope of the closure. Both agree until a scope on the way gets another
variable of the name: what is nearer is seen then, and the captured variable is not.
-/

namespace GraphLang

open Eval

variable {w v u : Machine} {c : ClosureId}

/-! ### The regime of captured variables -/

/-- Nothing that is captured gets out of sight. -/
def Watched (w v : Machine) : Prop :=
  Scopes.Regular none w.control.scopes →
    Scopes.Carries (fun _ => True) w.control.scopes v.control.scopes ∧
      (w.control.scopes.Anchored → v.control.scopes.Anchored)

namespace Watched

theorem of_eq (h : v.control.scopes = w.control.scopes) : Watched w v := by
  intro hregular
  rw [h]
  exact ⟨.refl hregular, id⟩

theorem trans (h : Watched u w) (h' : Watched w v) : Watched u v := by
  intro hregular
  obtain ⟨hcarries, hanchored⟩ := h hregular
  obtain ⟨hcarries', hanchored'⟩ := h' hcarries.regular
  exact ⟨hcarries.trans hcarries' fun _ => id, hanchored' ∘ hanchored⟩

/-- An operation on the scopes that makes no closure. -/
theorem of_noNewClosure {f : Scopes → Scopes}
    (hcarries : ∀ {s}, Scopes.Regular none s → Scopes.Carries (fun _ => True) s (f s))
    (hold : ∀ {s}, Scopes.Regular none s → Scopes.NoNewClosure s.graph (f s).graph) :
    Watched w (w.withScopes (f w.control.scopes)) := fun hregular =>
  ⟨hcarries hregular, fun hanchored =>
    hanchored.carries hregular (hold hregular) (hcarries hregular)⟩

theorem importVar (scope : ScopeId) (var : VarId) :
    Watched w (w.withScopes (w.control.scopes.importVar scope var).2) :=
  .of_noNewClosure (fun h => h.carries_importVar scope var) fun _ => .importVar scope var

end Watched

/-- The regime that keeps captured variables in sight. -/
def Regime.watched : Regime where
  inv _ := True
  rel := Watched
  own _ := True
  refl _ := .of_eq rfl
  trans := .trans
  holds _ := trivial
  aside _ _ _ hscopes _ _ := .of_eq hscopes
  withStore _ _ := .of_eq rfl
  framed _ _ := .of_eq rfl
  unframed _ := .of_eq rfl
  push parent kind _ :=
    ⟨.of_noNewClosure (fun h => h.carries_push parent kind) fun h => .push h.sound parent kind,
      fun _ _ => trivial⟩
  pop scope _ := .of_noNewClosure (fun h => h.carries_pop scope) fun _ => .pop scope
  define name value mutable _ _ :=
    .of_noNewClosure (fun h => h.carries_define _ name value mutable)
      fun h => .define h.sound _ name value mutable
  assign scope name value _ :=
    .of_noNewClosure (fun h => h.carries_assign scope name value)
      fun h => .assign h.sound scope name value
  createClosure scope name names _ := fun hregular =>
    ⟨hregular.carries_createClosure scope name names, fun hanchored =>
      hanchored.createClosure hregular scope name names⟩

theorem Regime.free_watched : Regime.watched.Free := ⟨fun _ => trivial, fun _ => trivial⟩

theorem Stride.watched (h : Stride w v) : Watched w v :=
  h.rel Regime.free_watched fun scope var _ => Watched.importVar scope var

/-! ### Closures in reachable states -/

/-- No closure is made for the natives. -/
theorem Scopes.anchored_withPrelude (natives : List Native) : (withPrelude natives).2.Anchored := by
  have hroot := Opens.addNode regular_empty.tidy .prelude
  have hold : NoNewClosure Scopes.empty.graph (withPrelude natives).2.graph :=
    (NoNewClosure.addNode regular_empty.sound fun _ => by simp).trans
      (.natives hroot.tidy hroot.opened natives)
  intro c fname hc
  have hnone := hold c fname hc
  simp [Scopes.empty, SlotGraph.empty, SlotGraph.node?_eq] at hnone

theorem Reachable.anchored (h : Reachable w) : w.control.scopes.Anchored := by
  induction h with
  | new config verbosity natives => exact Scopes.anchored_withPrelude _
  | load hw hload ih => exact ((Stride.load hload).watched hw.regular).2 ih
  | run hw hrun ih => exact ((Stride.ends (.run _) hrun).watched hw.regular).2 ih
  | callValue hw hcall ih => exact ((Stride.ends (.call _ _) hcall).watched hw.regular).2 ih
  | importName hw himport ih => exact ((Stride.importName himport).watched hw.regular).2 ih
  | registerNative hw hregister ih =>
    exact ((Stride.registerNative hregister).watched hw.regular).2 ih
  | collect hw ih => exact ih.collect hw.regular _ _
  | withStore s _ ih => exact ih
  | running hw hreach ih => exact ((Stride.comes (.run _) hreach).watched hw.regular).2 ih
  | calling hw hreach ih => exact ((Stride.comes (.call _ _) hreach).watched hw.regular).2 ih

/-- As long as no collection removes a closure, all that it leads to is kept. -/
theorem Lasting.carries (h : Lasting c w v) (hregular : Scopes.Regular none w.control.scopes) :
    Scopes.Carries (w.control.scopes.Behind c) w.control.scopes v.control.scopes := by
  induction h with
  | refl => exact .refl hregular
  | stride _ hstride ih =>
    exact ih.trans (hstride.watched ih.regular).1 fun _ _ => trivial
  | withStore s _ ih => exact ih
  | collect _ hkept ih => exact ih.collect hregular hkept

/-- The closure of a function is made in the scope of the evaluation. -/
theorem createClosure_of_closure {code : Code} {scope : ScopeId} {f : FunctionId}
    {r : Except Signal Value} (hrun : Step.closure code f scope w = some (.ok r, u)) :
    ∃ d made, code.program.function? f = some d ∧
      w.control.scopes.createClosure scope d.name (code.program.freeVariables f) =
        (.ok made, u.control.scopes) ∧
      r = .ok (.function ⟨code.unit, f, made, d.name, d.arity⟩) := by
  unfold Step.closure at hrun
  cases hd : code.program.function? f with
  | none =>
    rw [hd] at hrun
    cases hrun
  | some d =>
    rw [hd] at hrun
    dsimp only at hrun
    rw [Step.run_bind, Step.run_lift, run_onScopes] at hrun
    dsimp only at hrun
    rw [Step.run_bind, Step.run_lift] at hrun
    cases hmade : (w.control.scopes.createClosure scope d.name (code.program.freeVariables f)).1 with
    | error e =>
      rw [hmade] at hrun
      cases hrun
    | ok made =>
      rw [hmade] at hrun
      cases hrun
      exact ⟨d, made, rfl, Prod.ext hmade rfl, rfl⟩

/-- A node that is a function makes a closure of it in the scope it is evaluated in. -/
theorem createClosure_of_node {fuel n : Nat} {code : Code} {scope : ScopeId} {f : FunctionId}
    {fv : FunctionValue} (ho : code.program.op? n = some (.function f))
    (hrun : (eval fuel).node code n scope w = some (.ok (.normal (.function fv)), u)) :
    ∃ d, code.program.function? f = some d ∧
      w.control.scopes.createClosure scope d.name (code.program.freeVariables f) =
        (.ok fv.closure, u.control.scopes) := by
  cases fuel with
  | zero => cases hrun
  | succ fuel =>
    have hnode : Eval.node (eval fuel) fuel code n scope w =
        some (.ok (.normal (.function fv)), u) := hrun
    unfold Eval.node at hnode
    rw [ho] at hnode
    dsimp only at hnode
    rw [Act.run_bind, run_report] at hnode
    dsimp only at hnode
    have hop (w : Machine) : Step.op (eval fuel) fuel code n scope (.function f) w =
        Step.closure code f scope w := rfl
    rw [Act.run_bind, Step.run_toSignal, hop] at hnode
    -- Reporting and recording leave the scopes as they are.
    have hentered : (w.noted .trace target "eval" fun _ => [("unit", toString code.unit),
        ("node", toString n), ("op", Text.quoted (Op.function f).name)]).control = w.control :=
      World.noted_control ..
    generalize (w.noted .trace target "eval" fun _ => [("unit", toString code.unit),
        ("node", toString n), ("op", Text.quoted (Op.function f).name)]) = entered at hnode hentered
    cases hclosure : Step.closure code f scope entered with
    | none =>
      rw [hclosure] at hnode
      cases hnode
    | some p =>
      obtain ⟨r, made⟩ := p
      rw [hclosure] at hnode
      cases r with
      | error e => cases hnode
      | ok r =>
        obtain ⟨d, c, hd, hcreate, rfl⟩ := createClosure_of_closure hclosure
        dsimp only at hnode
        rw [Act.run_bind, run_record] at hnode
        cases hnode
        rw [hentered] at hcreate
        refine ⟨d, hd, ?_⟩
        rw [hcreate, World.recorded]
        split <;> rfl

/-- In every state each name that a closure captured means a variable for it: the captured one, or
one that is at least as near. When a function is evaluated, its closure captures exactly what its
free names mean. As long as no collection removes the closure, it stays in its scope with what it
captured, and each name goes on to mean the captured variable, so that calls read what was written
to it last, unless a scope on the way to it has got another variable of the name since, by a
definition or an import. -/
theorem captured_until_overtaken :
    (∀ w, Reachable w → ∀ c fname, w.control.scopes.graph.node? c = some (.closure fname) →
      ∀ name var, (name, var) ∈ w.control.scopes.captured c →
        ∃ x, w.control.scopes.Means c name x ∧ w.control.scopes.Nearest c name var x) ∧
    ∀ w, Reachable w → ∀ code n scope f, code.program.op? n = some (.function f) → ∀ fuel fv u,
      (eval fuel).node code n scope w = some (.ok (.normal (.function fv)), u) →
        u.control.scopes.closureScope fv.closure = .ok scope ∧
        (∀ name var, (name, var) ∈ u.control.scopes.captured fv.closure ↔
          name ∈ code.program.freeVariables f ∧ u.control.scopes.Means fv.closure name var) ∧
        ∀ v, Lasting fv.closure u v →
          v.control.scopes.closureScope fv.closure = .ok scope ∧
          v.control.scopes.captured fv.closure = u.control.scopes.captured fv.closure ∧
          ∀ name var, (name, var) ∈ u.control.scopes.captured fv.closure →
            ∃ x, v.control.scopes.Means fv.closure name x ∧
              (x = var ∨ Scopes.Overtakes u.control.scopes v.control.scopes scope name x) := by
  constructor
  · intro w hw c fname hc name var hmem
    exact (hw.anchored c fname hc).exists_means hw.regular hc hmem
  · intro w hw code n scope f ho fuel fv u hrun
    obtain ⟨d, -, hmade⟩ := createClosure_of_node ho hrun
    have hregular : Scopes.Regular none u.control.scopes := by
      have hcreated := hw.regular.createClosure scope d.name (code.program.freeVariables f)
      rwa [hmade] at hcreated
    obtain ⟨hc, hscope, hcaptured⟩ := hw.regular.createClosure_captures hmade
    have hmeans {name : String} {x : VarId} : u.control.scopes.Means fv.closure name x ↔
        u.control.scopes.resolve scope name = .ok (some x) :=
      ⟨hregular.resolve_of_means hscope, hregular.means hscope⟩
    refine ⟨hscope, fun name var => by rw [hcaptured, hmeans], fun v hv => ?_⟩
    have hcarries := hv.carries hregular
    obtain ⟨hsame, hsame'⟩ := hcarries.closure_same hregular hc
    refine ⟨hsame.trans hscope, hsame', fun name var hmem => ?_⟩
    obtain ⟨x, hx, hcases⟩ := hcarries.resolve hregular (hregular.behind_closureScope hscope)
      (Scopes.isScope_of_closureScope hscope) ((hcaptured name var).1 hmem).2
    exact ⟨x, hcarries.regular.means (hsame.trans hscope) hx, hcases⟩

/-! ### A variable that is overtaken -/

/-- A program that defines a name, makes a closure over it in a block, and defines the name again in
the block before it calls the closure. -/
def Program.redefining : Program :=
  let (_, g) := SlotGraph.empty.addNode ⟨.block, 0, none⟩
  let (_, g) := g.addNode ⟨.define "x" true, 0, none⟩
  let (_, g) := g.addNode ⟨.literal (.int 1), 0, none⟩
  let (_, g) := g.addNode ⟨.define "f" true, 0, none⟩
  let (_, g) := g.addNode ⟨.literal .nil, 0, none⟩
  let (_, g) := g.addNode ⟨.block, 0, none⟩
  let (_, g) := g.addNode ⟨.assign "f", 0, none⟩
  let (_, g) := g.addNode ⟨.function 1, 0, none⟩
  let (_, g) := g.addNode ⟨.define "x" true, 0, none⟩
  let (_, g) := g.addNode ⟨.literal (.int 2), 0, none⟩
  let (_, g) := g.addNode ⟨.leave, 0, none⟩
  let (_, g) := g.addNode ⟨.call, 0, none⟩
  let (_, g) := g.addNode ⟨.var "f", 0, none⟩
  let (_, g) := g.addNode ⟨.var "x", 1, none⟩
  let (_, g) := g.addEdge 0 1 (.statement 0)
  let (_, g) := g.addEdge 1 2 .value
  let (_, g) := g.addEdge 0 3 (.statement 1)
  let (_, g) := g.addEdge 3 4 .value
  let (_, g) := g.addEdge 0 5 (.statement 2)
  let (_, g) := g.addEdge 5 6 (.statement 0)
  let (_, g) := g.addEdge 6 7 .value
  let (_, g) := g.addEdge 5 8 (.statement 1)
  let (_, g) := g.addEdge 8 9 .value
  let (_, g) := g.addEdge 0 10 (.statement 3)
  let (_, g) := g.addEdge 10 11 .value
  let (_, g) := g.addEdge 11 12 .callee
  ⟨"redefining", g, [(0, ⟨0, mainName, [], some 0, none⟩), (1, ⟨1, "f", [], some 13, some 0⟩)], 2⟩

/-- What the run of this program comes to. -/
theorem run_redefining : ∃ v, Reachable v ∧
    (∃ w, run 20 0 w = some (.ok (.int 2), v)) ∧
    v.control.scopes.graph.node? 23 = some (.closure "f") ∧
    v.control.scopes.captured 23 = [("x", 18)] ∧ v.control.scopes.closureScope 23 = .ok 22 ∧
    v.control.scopes.resolve 22 "x" = .ok (some 24) := by
  let start : Machine := .evaluator .default .silent noNatives
  have hruns : ((load .redefining start).bind fun p => run 20 0 p.2).map (fun p =>
      (p.1, p.2.control.scopes.graph.node? 23, p.2.control.scopes.captured 23,
        p.2.control.scopes.closureScope 23, p.2.control.scopes.resolve 22 "x")) =
      some (.ok (.int 2), some (.closure "f"), [("x", 18)], .ok 22, .ok (some 24)) := by cbv
  obtain ⟨⟨r, v⟩, hv, hfacts⟩ := Option.map_eq_some_iff.1 hruns
  obtain ⟨⟨q, w⟩, hload, hrun⟩ := Option.bind_eq_some_iff.1 hv
  simp only [Prod.mk.injEq] at hfacts
  obtain ⟨rfl, hfacts⟩ := hfacts
  exact ⟨v, .run (.load (.new .default .silent noNatives) hload) hrun, ⟨w, hrun⟩, hfacts⟩

/-- The closure captured the outer variable, and calls see the inner one: the program gives 2, and
not every captured variable is what its name means. -/
theorem captured_variable_overtaken :
    (∃ v, Reachable v ∧ (∃ w, run 20 0 w = some (.ok (.int 2), v)) ∧
      v.control.scopes.captured 23 = [("x", 18)] ∧ v.control.scopes.Means 23 "x" 24) ∧
    ¬∀ w, Reachable w → ∀ c fname, w.control.scopes.graph.node? c = some (.closure fname) →
      ∀ name var, (name, var) ∈ w.control.scopes.captured c →
        w.control.scopes.Means c name var := by
  obtain ⟨v, hv, hrun, hc, hcaptured, hscope, hx⟩ := run_redefining
  refine ⟨⟨v, hv, hrun, hcaptured, hv.regular.means hscope hx⟩, fun hagree => ?_⟩
  have hmem : ("x", 18) ∈ v.control.scopes.captured 23 := hcaptured ▸ List.mem_singleton_self _
  have hcapturedSeen := hv.regular.resolve_of_means hscope (hagree v hv 23 "f" hc "x" 18 hmem)
  rw [hx] at hcapturedSeen
  cases hcapturedSeen

/-- After the run another closure of the function is made in the scope of the unit, and the program
is run again. The closure of the run sees a variable that is nearer than the captured one, and the
other closure sees the captured one. -/
theorem redefining_captures : ∃ v u t x y, Reachable v ∧ Lasting 27 u t ∧
    v.control.scopes.Means 23 "x" x ∧ v.control.scopes.Nearest 23 "x" 18 x ∧
    u.control.scopes.captured 27 = [("x", 18)] ∧ u.control.scopes.Means 27 "x" 18 ∧
    t.control.scopes.captured 27 = [("x", 18)] ∧ t.control.scopes.Means 27 "x" y ∧
    (y = 18 ∨ Scopes.Overtakes u.control.scopes t.control.scopes 17 "x" y) := by
  obtain ⟨hsight, hmakes⟩ := captured_until_overtaken
  let start : Machine := .evaluator .default .silent noNatives
  have hends : (((load .redefining start).bind fun p => run 20 0 p.2).bind fun p =>
      ((eval 5).node ⟨0, .redefining⟩ 7 17 p.2).bind fun q => (run 20 0 q.2).map fun _ =>
        (p.2.control.scopes.graph.node? 23, p.2.control.scopes.captured 23, q.1,
          q.2.control.scopes.captured 27)) =
      some (some (.closure "f"), [("x", 18)], .ok (.normal (.function ⟨0, 1, 27, "f", 0⟩)),
        [("x", 18)]) := by cbv
  obtain ⟨⟨r, v⟩, hv, hends⟩ := Option.bind_eq_some_iff.1 hends
  obtain ⟨⟨r', u⟩, hnode, hends⟩ := Option.bind_eq_some_iff.1 hends
  obtain ⟨⟨r'', t⟩, hagain, hfacts⟩ := Option.map_eq_some_iff.1 hends
  obtain ⟨⟨q, w⟩, hload, hrun⟩ := Option.bind_eq_some_iff.1 hv
  simp only [Prod.mk.injEq] at hfacts
  obtain ⟨hc, hfirst, rfl, hsecond⟩ := hfacts
  have hreachable : Reachable v := .run (.load (.new .default .silent noNatives) hload) hrun
  have hlasting : Lasting 27 u t := .stride .refl (.ends (.run 0) hagain)
  have hmem : ("x", 18) ∈ v.control.scopes.captured 23 := hfirst ▸ List.mem_singleton_self _
  have hmem' : ("x", 18) ∈ u.control.scopes.captured 27 := hsecond ▸ List.mem_singleton_self _
  obtain ⟨x, hx, hnearest⟩ := hsight v hreachable 23 "f" hc "x" 18 hmem
  have ho : Program.redefining.op? 7 = some (.function 1) := by cbv
  obtain ⟨-, hcaptured, hlater⟩ := hmakes v hreachable ⟨0, .redefining⟩ 7 17 1 ho 5 _ u hnode
  obtain ⟨-, hsame, hmeans⟩ := hlater t hlasting
  obtain ⟨y, hy, hcases⟩ := hmeans "x" 18 hmem'
  exact ⟨v, u, t, x, y, hreachable, hlasting, hx, hnearest, hsecond, ((hcaptured "x" 18).1 hmem').2,
    hsame.trans hsecond, hy, hcases⟩

end GraphLang
