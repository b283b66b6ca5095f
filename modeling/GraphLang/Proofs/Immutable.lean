import GraphLang.Proofs.Balance
import GraphLang.Proofs.Course.Later
import GraphLang.Proofs.Scopes.Constant

/-!
# Variables that cannot be written

In every state of an evaluator the scopes are regular. A variable that cannot be written keeps its
value in all later states, as long as no collection removes it: through runs with all their moments,
through the callbacks of rules, and through whatever the host asks of the evaluator. Every attempt
to define or to assign it is refused and changes no scope.
-/

namespace GraphLang

open Eval

variable {w v : Machine} {var : VarId}

/-! ### The regime of constant variables -/

/-- The scopes stay regular, and variables that cannot be written keep their values. -/
def Steadfast (w v : Machine) : Prop :=
  Scopes.Regular none w.control.scopes → Scopes.Regular none v.control.scopes ∧
    ∀ var, Scopes.Constant var w.control.scopes v.control.scopes

namespace Steadfast

theorem of_eq (h : v.control.scopes = w.control.scopes) : Steadfast w v := by
  intro hregular
  rw [h]
  exact ⟨hregular, fun var => .refl var _⟩

theorem trans {u : Machine} (h : Steadfast u w) (h' : Steadfast w v) : Steadfast u v := by
  intro hregular
  obtain ⟨hregular₁, hconstant⟩ := h hregular
  obtain ⟨hregular₂, hconstant'⟩ := h' hregular₁
  exact ⟨hregular₂, fun var => (hconstant var).trans (hconstant' var)⟩

/-- An operation on the scopes that touches a scope or a variable that can be written. -/
theorem of_touches {touched : Scopes → Nat → Prop} {f : Scopes → Scopes}
    (hregular : ∀ {s}, Scopes.Regular none s → Scopes.Regular none (f s))
    (htouches : ∀ {s}, Scopes.Regular none s → Scopes.Touches (touched s) s (f s))
    (hsub : ∀ s x, touched s x → s.isScope x = true ∨ s.Mutable x) :
    Steadfast w (w.withScopes (f w.control.scopes)) :=
  fun h => ⟨hregular h, h.constant (hregular h) ((htouches h).weaken (hsub _))⟩

end Steadfast

/-- The regime that leaves variables that cannot be written as they are. -/
def Regime.steadfast : Regime where
  inv _ := True
  rel := Steadfast
  own _ := True
  refl _ := .of_eq rfl
  trans := .trans
  holds _ := trivial
  aside _ _ _ hscopes _ _ := .of_eq hscopes
  withStore _ _ := .of_eq rfl
  framed _ _ := .of_eq rfl
  unframed _ := .of_eq rfl
  push parent kind _ := by
    have htouches {s : Scopes} (h : Scopes.Regular none s) :
        Scopes.Touches (fun _ => False) s (s.push parent kind).2 :=
      Or.inl (Scopes.confined_push h.sound parent kind)
    refine ⟨?_, fun _ _ => trivial⟩
    exact .of_touches (fun h => h.push parent kind) htouches fun _ _ => False.elim
  pop scope _ := .of_touches (fun h => h.pop scope) (fun _ => Scopes.touches_pop scope)
    fun _ _ => Or.inl
  define name value mutable _ _ :=
    .of_touches (fun h => h.define _ name value mutable)
      (fun h => h.touches_define _ name value mutable)
      fun _ _ hx => hx.imp_left fun ⟨hsame, hscope⟩ => hsame ▸ hscope
  assign scope name value _ :=
    .of_touches (fun h => h.assign scope name value)
      (fun h => h.touches_assign scope name value) fun _ _ => Or.inr
  createClosure scope name names _ := by
    have htouches {s : Scopes} (h : Scopes.Regular none s) :
        Scopes.Touches (fun _ => False) s (s.createClosure scope name names).2 :=
      Or.inl (h.confined_createClosure scope name names)
    exact .of_touches (fun h => h.createClosure scope name names) htouches fun _ _ => False.elim

theorem Regime.free_steadfast : Regime.steadfast.Free := ⟨fun _ => trivial, fun _ => trivial⟩

theorem Steadfast.importVar (scope : ScopeId) (var : VarId) :
    Steadfast w (w.withScopes (w.control.scopes.importVar scope var).2) :=
  .of_touches (fun h => h.importVar scope var) (fun h => h.touches_importVar scope var)
    fun _ _ => Or.inl

theorem Stride.steadfast (h : Stride w v) : Steadfast w v :=
  h.rel Regime.free_steadfast fun scope var _ => .importVar scope var

/-! ### Reachable states -/

/-- The scopes of a new evaluator are regular. -/
theorem Scopes.regular_withPrelude {natives : List Native}
    (hnodup : (natives.map (·.name)).Nodup) : Regular none (withPrelude natives).2 := by
  have hroot := Opens.addNode regular_empty.tidy .prelude
  refine (regular_empty.pushRoot .prelude).natives hroot.opened hnodup fun n _ => ?_
  simp [pushRoot, Scopes.empty]

/-- In every state of an evaluator its scopes are regular. -/
theorem Reachable.regular (h : Reachable w) : Scopes.Regular none w.control.scopes := by
  induction h with
  | new config verbosity natives => exact Scopes.regular_withPrelude (by decide)
  | load _ hload ih => exact ((Stride.load hload).steadfast ih).1
  | run _ hrun ih => exact ((Stride.ends (.run _) hrun).steadfast ih).1
  | callValue _ hcall ih => exact ((Stride.ends (.call _ _) hcall).steadfast ih).1
  | importName _ himport ih => exact ((Stride.importName himport).steadfast ih).1
  | registerNative _ hregister ih => exact ((Stride.registerNative hregister).steadfast ih).1
  | collect _ ih => exact ih.collect _ _
  | withStore s _ ih => exact ih
  | running _ hreach ih => exact ((Stride.comes (.run _) hreach).steadfast ih).1
  | calling _ hreach ih => exact ((Stride.comes (.call _ _) hreach).steadfast ih).1

/-! ### Lasting variables -/

/-- The second world comes after the first one, and no collection in between removes the variable.
The host may change containers on its own. -/
inductive Lasting (var : VarId) (w : Machine) : Machine → Prop
  | refl : Lasting var w w
  /-- The host took an action, or an evaluation went on. -/
  | stride {u v} : Lasting var w u → Stride u v → Lasting var w v
  /-- The host changed containers. -/
  | withStore {u} (s : Store) : Lasting var w u → Lasting var w (u.withStore s)
  /-- Scopes were collected. -/
  | collect {u} : Lasting var w u →
    (u.control.scopes.collect u.store u.control.roots).2.graph.hasNode var = true →
    Lasting var w { u with control := (u.control.collect u.store).2 }

theorem Lasting.constant (h : Lasting var w v)
    (hregular : Scopes.Regular none w.control.scopes) :
    Scopes.Regular none v.control.scopes ∧
      Scopes.Constant var w.control.scopes v.control.scopes := by
  induction h with
  | refl => exact ⟨hregular, .refl var _⟩
  | stride _ hstride ih =>
    obtain ⟨hregular', hconstant⟩ := hstride.steadfast ih.1
    exact ⟨hregular', ih.2.trans (hconstant var)⟩
  | withStore s _ ih => exact ih
  | collect _ hkept ih => exact ⟨ih.1.collect _ _, ih.2.trans (ih.1.constant_collect _ _ hkept)⟩

/-! ### Attempts to write them -/

/-- Every attempt to give the variable another value is refused, and changes no scope: a definition
of its name in its scope, an assignment to a name that means it, and the registration of a procedure
of the host under its name. Programs that attempt it raise an exception. -/
structure Refuses (w : Machine) (var : VarId) : Prop where
  /-- Its scope does not define it anew. -/
  define : ∀ scope name value mutable, w.control.scopes.declared[(scope, name)]? = some var →
    w.control.scopes.define scope name value mutable =
        (.error (.immutable name), w.control.scopes) ∧
      Step.define scope name value mutable w = Step.fault (.binding (.immutable name)) w
  /-- It cannot be assigned. -/
  assign : ∀ scope name value, w.control.scopes.find scope name = .ok var →
    w.control.scopes.assign scope name value = (.error (.immutable name), w.control.scopes) ∧
      Step.assign scope name value w = Step.fault (.binding (.immutable name)) w
  /-- The host does not register it anew. -/
  registerNative : ∀ n : Native,
    w.control.scopes.declared[(w.control.prelude, n.name)]? = some var →
    Eval.registerNative n w = some (.error (.scope (.immutable n.name)), w)

theorem refuses (h : Scopes.Regular none w.control.scopes) {name : String}
    (hvar : w.control.scopes.graph.node? var = some (.variable name false)) : Refuses w var where
  define := by
    intro scope name' value mutable hdeclared
    have hrefused := h.define_constant hvar hdeclared value mutable
    refine ⟨hrefused, ?_⟩
    rw [Step.define, Step.run_bind, Step.run_lift, run_onScopes, hrefused]
    rfl
  assign := by
    intro scope name' value hfind
    have hrefused := Scopes.assign_constant hvar hfind value
    refine ⟨hrefused, ?_⟩
    rw [Step.assign, Step.run_bind, Step.run_lift, run_onScopes, hrefused]
    rfl
  registerNative := by
    intro n hdeclared
    have hrefused := h.define_constant hvar hdeclared (.native n) false
    rw [Eval.registerNative, Act.run_bind, run_session]
    dsimp only
    rw [Act.run_bind, run_onScopes, hrefused]
    rfl

/-- From every state of an evaluator a variable that cannot be written stays as it is for as long as
no collection removes it: it keeps its name and its value, and every attempt to give it another one
is refused, in whatever run, callback or action of the host it is made. -/
theorem immutable_for_ever {name : String} (hw : Reachable w) (hlasting : Lasting var w v)
    (hvar : w.control.scopes.graph.node? var = some (.variable name false)) :
    v.control.scopes.graph.node? var = some (.variable name false) ∧
      (∃ value, w.control.scopes.valueOf? var = some value ∧
        v.control.scopes.valueOf? var = some value) ∧
      Refuses v var := by
  obtain ⟨hregular, hconstant⟩ := hlasting.constant hw.regular
  obtain ⟨hvar', hvalue⟩ := hconstant name hvar
  obtain ⟨value, hvalue'⟩ := hw.regular.exists_valueOf? hvar
  exact ⟨hvar', ⟨value, hvalue', hvalue.trans hvalue'⟩, refuses hregular hvar'⟩

/-- A native cannot be written, through a collection, a program that raises and catches an
exception, and the attempt to register another procedure under its name. -/
theorem print_stays : ∃ w v, Reachable w ∧ Lasting 1 w v ∧
    v.control.scopes.graph.node? 1 = some (.variable "print" false) ∧ Refuses v 1 := by
  let w : Machine := .evaluator .default .silent noNatives
  let c : Machine := { w with control := (w.control.collect w.store).2 }
  have hends : (((load Program.guardedCall c).bind fun p => run 10 0 p.2).bind
      fun p => registerNative (.host "print" none) p.2).isSome = true := by cbv
  obtain ⟨⟨r, v⟩, hv⟩ := Option.isSome_iff_exists.1 hends
  obtain ⟨⟨q, u⟩, hrun, hregister⟩ := Option.bind_eq_some_iff.1 hv
  obtain ⟨⟨p, x⟩, hload, hrun⟩ := Option.bind_eq_some_iff.1 hrun
  have hkept : (w.control.scopes.collect w.store w.control.roots).2.graph.hasNode 1 = true := by cbv
  have hcollected : Lasting 1 w c := .collect .refl hkept
  have hlasting : Lasting 1 w v :=
    ((hcollected.stride (.load hload)).stride (.ends (.run 0) hrun)).stride
      (.registerNative hregister)
  have hw : Reachable w := .new .default .silent noNatives
  have hvar : w.control.scopes.graph.node? 1 = some (.variable "print" false) := by cbv
  obtain ⟨hvar', -, hrefuses⟩ := immutable_for_ever hw hlasting hvar
  exact ⟨w, v, hw, hlasting, hvar', hrefuses⟩

end GraphLang
