import GraphLang.Proofs.Action
import GraphLang.Proofs.Callables

/-!
# Simulations of evaluators

Two evaluators run side by side. A simulation says how their worlds correspond and what the
primitive steps do to corresponding worlds; that corresponding nodes then come to the same result
is proved once for all simulations. Properties of a single evaluator are simulations of it by
itself.
-/

namespace GraphLang

/-! ### Changes of worlds -/

namespace World

/-- The world with other events and another trace. -/
def quiet (w : Machine) (events : Array Event) (trace : Array TraceEntry) : Machine :=
  { w with events := events, control := { w.control with trace := trace } }

/-- The world after an evaluated node was recorded, if nodes are recorded. -/
def recorded (w : Machine) (code : Code) (n : Nat) (o : Op) (s : Signal) : Machine :=
  if w.control.config.traceEnabled then
    let value := match s with
      | .normal v | .returning v => some (w.store.display v)
      | .raised r => some (w.store.display r.exception)
      | .breaking | .continuing => none
    w.quiet w.events (w.control.trace.push
      ⟨code.unit, n, o.display, w.control.frames.length, s.kind, value⟩)
  else w

/-- The world with another store. -/
def withStore (w : Machine) (s : Store) : Machine := { w with store := s }

/-- The world with one more line of output. -/
def printed (w : Machine) (line : String) : Machine := { w with output := w.output.push line }

/-- The world with other rulesets. -/
def withRulesets (w : Machine) (sets : Rulesets) : Machine :=
  { w with control := { w.control with rulesets := sets } }

/-- The world with other scopes. -/
def withScopes (w : Machine) (s : Scopes) : Machine :=
  { w with control := { w.control with scopes := s } }

/-- The world after a scope was left. -/
def left (w : Machine) (scope : ScopeId) : Machine :=
  w.withScopes (w.control.scopes.pop scope).2

/-- The world with one more open frame. -/
def framed (w : Machine) (site : CallSite) : Machine :=
  { w with control := { w.control with
      frames := site :: w.control.frames
      nextFrame := w.control.nextFrame + 1 } }

/-- The world without its innermost frame. -/
def unframed (w : Machine) : Machine :=
  { w with control := { w.control with frames := w.control.frames.tail } }

/-- The world with an error kept aside, or without one. -/
def withFatal (w : Machine) (kept : Option EvalError) : Machine :=
  { w with control := { w.control with pendingFatal := kept } }

theorem noted_eq_quiet (w : Machine) (level : Level) (target message : String)
    (fields : Store → List (String × String)) :
    ∃ events, w.noted level target message fields = w.quiet events w.control.trace := by
  unfold noted
  split
  · exact ⟨_, rfl⟩
  · exact ⟨w.events, rfl⟩

theorem recorded_eq_quiet (w : Machine) (code : Code) (n : Nat) (o : Op) (s : Signal) :
    ∃ trace, w.recorded code n o s = w.quiet w.events trace := by
  unfold recorded
  split
  · exact ⟨_, rfl⟩
  · exact ⟨w.control.trace, rfl⟩

end World

/-! ### Runs of the primitive steps -/

namespace Eval

variable (w : Machine)

@[simp] theorem run_session : session w = some (.ok w.control, w) := rfl

@[simp] theorem run_modifySession (f : Session → Session) :
    modifySession f w = some (.ok (), { w with control := f w.control }) := rfl

@[simp] theorem run_report (level : Level) (message : String)
    (fields : Store → List (String × String)) :
    report level message fields w = some (.ok (), w.noted level target message fields) := rfl

@[simp] theorem run_onScopes {α : Type} (f : Scopes → Except BindingError α × Scopes) :
    onScopes f w =
      some (.ok (f w.control.scopes).1, w.withScopes (f w.control.scopes).2) := rfl

@[simp] theorem run_record (code : Code) (n : Nat) (o : Op) (s : Signal) :
    record code n o s w = some (.ok (), w.recorded code n o s) := rfl

theorem run_unit (id : UnitId) :
    unit id w =
      match w.control.units[id]? with
      | some loaded => some (.ok loaded, w)
      | none => some (.error (.unknownUnit id), w) := by
  unfold unit
  rw [Act.run_bind, run_session]
  dsimp only
  cases w.control.units[id]? <;> rfl

/-- A step on the scopes whose failure ends the evaluation. -/
theorem run_bindingStep {α : Type} (f : Scopes → Except BindingError α × Scopes) :
    (onScopes f >>= ofBinding) w =
      some ((f w.control.scopes).1.mapError .scope, w.withScopes (f w.control.scopes).2) := by
  rw [Act.run_bind, run_onScopes]
  dsimp only
  cases (f w.control.scopes).1 <;> rfl

theorem run_pushScope (parent : ScopeId) (kind : ScopeKind) :
    pushScope parent kind w =
      some ((w.control.scopes.push parent kind).1.mapError .scope,
        w.withScopes (w.control.scopes.push parent kind).2) :=
  run_bindingStep w _

theorem run_popScope (scope : ScopeId) :
    popScope scope w =
      some ((w.control.scopes.pop scope).1.mapError .scope, w.left scope) :=
  run_bindingStep w _

theorem run_defineLocal (scope : ScopeId) (name : String) (value : Value) :
    defineLocal scope name value w =
      some ((w.control.scopes.define scope name value true).1.mapError EvalError.scope |>.map
          fun _ => (),
        w.withScopes (w.control.scopes.define scope name value true).2) := by
  unfold defineLocal
  rw [Act.run_bind, run_onScopes]
  dsimp only
  cases (w.control.scopes.define scope name value true).1 <;> rfl

/-- Opening a scope with variables changes nothing but the scopes. -/
theorem exists_enterScope {w v : Machine} {parent : ScopeId} {kind : ScopeKind}
    {locals : List (String × Value)} {r : Except EvalError ScopeId}
    (h : enterScope parent kind locals w = some (r, v)) : ∃ s, v = w.withScopes s := by
  have hlocals : ∀ (locals : List (String × Value)) (scope : ScopeId) (w v : Machine)
      (r : Except EvalError Unit), defineLocals scope locals w = some (r, v) →
      ∃ s, v = w.withScopes s := by
    intro locals scope
    induction locals with
    | nil =>
      rintro w v r ⟨⟩
      exact ⟨w.control.scopes, rfl⟩
    | cons x locals ih =>
      intro w v r h
      unfold defineLocals at h
      rw [Act.run_bind, run_defineLocal] at h
      cases hdefine : (w.control.scopes.define scope x.1 x.2 true).1 with
      | error e =>
        simp only [hdefine, Except.mapError, Except.map] at h
        cases h
        exact ⟨_, rfl⟩
      | ok a =>
        simp only [hdefine, Except.mapError, Except.map] at h
        obtain ⟨s, rfl⟩ := ih _ _ _ h
        exact ⟨s, rfl⟩
  unfold enterScope at h
  rw [Act.run_bind, run_pushScope] at h
  cases hpush : (w.control.scopes.push parent kind).1 with
  | error e =>
    simp only [hpush, Except.mapError] at h
    cases h
    exact ⟨_, rfl⟩
  | ok scope =>
    simp only [hpush, Except.mapError] at h
    rw [Act.run_bind] at h
    cases hrun : defineLocals scope locals
        (w.withScopes (w.control.scopes.push parent kind).2) with
    | none => simp [hrun] at h
    | some p =>
      obtain ⟨q, u⟩ := p
      obtain ⟨s, rfl⟩ := hlocals _ _ _ _ _ hrun
      cases q <;> simp only [hrun] at h <;> cases h <;> exact ⟨s, rfl⟩

end Eval

/-! ### Signals -/

/-- The condition holds of the values in the signal, and loops are only left where there is one. -/
def Signal.Fits (P : Value → Prop) (loop : Prop) : Signal → Prop
  | .normal v | .returning v => v.Holds P
  | .breaking | .continuing => loop
  | .raised r => r.exception.Holds P

theorem Signal.Fits.mono {P Q : Value → Prop} {loop : Prop} (h : ∀ v, P v → Q v) {s : Signal}
    (hs : s.Fits P loop) : s.Fits Q loop := by
  cases s with
  | normal v => exact Value.Holds.mono h hs
  | returning v => exact Value.Holds.mono h hs
  | raised r => exact Value.Holds.mono h hs
  | breaking => exact hs
  | continuing => exact hs

/-! ### Simulations -/

/-- What two worlds have in common where one evaluator follows another. -/
structure Agree (w w' : Machine) : Prop where
  store : w'.store = w.store
  output : w'.output = w.output
  natives : w'.natives = w.natives
  rulesets : w'.control.rulesets = w.control.rulesets
  frames : w'.control.frames = w.control.frames
  nextFrame : w'.control.nextFrame = w.control.nextFrame
  maxCallDepth : w'.control.config.maxCallDepth = w.control.config.maxCallDepth
  settled : w.control.pendingFatal = none
  settled' : w'.control.pendingFatal = none

/-- How the second of two evaluators follows the first: which worlds correspond, what may be
called, in which scopes nodes are evaluated, and which nodes and bodies correspond. Where `loose`
does not hold, valid programs are meant, and the only error is the limit on the call depth. The
first evaluator may come to an error of `escape` whatever the second one does. -/
structure Simulation where
  /-- The worlds correspond. -/
  rel : Machine → Machine → Prop
  /-- What a finished evaluation may do to the first world. -/
  step : Machine → Machine → Prop
  /-- The function or native may be called. -/
  callee : Machine → Value → Prop
  /-- Nodes may be evaluated in the scope. -/
  live : Machine → ScopeId → Prop
  /-- Malformed programs are meant too. -/
  loose : Prop
  /-- The first evaluator ends with the error, whatever the second one comes to. -/
  escape : EvalError → Machine → Prop
  /-- The second evaluator has no more fuel than the first one. -/
  lockstep : Prop
  /-- The nodes correspond. They stand inside a loop where `loop` holds, and may come to a value
  where `falls` does. -/
  nodes (code code' : Code) (loop falls : Prop) (n n' : Nat) : Prop
  /-- The bodies correspond. -/
  bodies (code code' : Code) (root root' : Nat) : Prop
  /-- Closures of the function may be made. -/
  makes (code code' : Code) (f : FunctionId) : Prop

namespace Simulation

variable (S : Simulation)

/-- The value may be used: so may be everything that can be called from it. -/
def Fine (w : Machine) (v : Value) : Prop := v.Holds (S.callee w)

/-- The error may end an evaluation. -/
def Allows (e : EvalError) : Prop := S.loose ∨ ∃ limit path, e = .recursionLimit limit path

/-- The failure on the scopes becomes an exception, or may end an evaluation. -/
def Tolerates (e : BindingError) : Prop :=
  S.loose ∨ (∃ name, e = .unbound name) ∨ ∃ name, e = .immutable name

/-- The steps on the scopes of two worlds give the same result, and corresponding worlds. -/
structure ScopeStep {α : Type} (w w' : Machine) (f f' : Scopes → Except BindingError α × Scopes)
    (good : α → Machine → Prop) (bad : BindingError → Prop) : Prop where
  same : (f' w'.control.scopes).1 = (f w.control.scopes).1
  rel : S.rel (w.withScopes (f w.control.scopes).2) (w'.withScopes (f' w'.control.scopes).2)
  step : S.step w (w.withScopes (f w.control.scopes).2)
  ok : ∀ a, (f w.control.scopes).1 = .ok a → good a (w.withScopes (f w.control.scopes).2)
  error : ∀ e, (f w.control.scopes).1 = .error e → bad e

/-- The second evaluator has at least as much fuel, and no more where both run in lockstep. -/
def Fuels (fuel fuel' : Nat) : Prop := fuel ≤ fuel' ∧ (S.lockstep → fuel' = fuel)

/-- Both programs have the function with corresponding bodies. -/
def Same (code code' : Code) (f : FunctionId) : Prop :=
  match code.program.function? f, code'.program.function? f with
  | none, none => S.loose
  | some d, some d' =>
    d'.name = d.name ∧ d'.params = d.params ∧
      (match d.body, d'.body with
      | none, none => S.loose
      | some root, some root' => S.bodies code code' root root'
      | _, _ => False)
  | _, _ => False

/-- Both worlds have the unit of a function, and the function in it. -/
def Finds (w w' : Machine) (f : FunctionValue) : Prop :=
  match w.control.units[f.unit]?, w'.control.units[f.unit]? with
  | none, none => S.loose
  | some loaded, some loaded' =>
    S.Same ⟨f.unit, loaded.program⟩ ⟨f.unit, loaded'.program⟩ f.function
  | _, _ => False

/-- A call frame can be opened in both worlds, and left again after any evaluation. -/
structure Framing (w w' : Machine) (site : CallSite) : Prop where
  rel : S.rel (w.framed site) (w'.framed site)
  live : ∀ {scope}, S.live w scope → S.live (w.framed site) scope
  step : ∀ {u}, S.step (w.framed site) u → S.step w u.unframed
  unframed : ∀ {u u'}, S.step (w.framed site) u → S.rel u u' → S.rel u.unframed u'.unframed
  callee : ∀ {u}, S.step (w.framed site) u → ∀ x, S.callee u x → S.callee u.unframed x
  escape : ∀ {u e}, S.step (w.framed site) u → S.escape e u → S.escape e u.unframed

/-- The primitive steps take corresponding worlds to corresponding ones. -/
structure Lawful : Prop where
  step_refl : ∀ w, S.step w w
  step_trans : ∀ {u v w}, S.step u v → S.step v w → S.step u w
  step_withFatal : ∀ {w v} kept, S.step w v → S.step w (v.withFatal kept)
  callee_step : ∀ {w v}, S.step w v → ∀ x, S.callee w x → S.callee v x
  live_step : ∀ {w v scope}, S.step w v → S.live w scope → S.live v scope
  agree : ∀ {w w'}, S.rel w w' → Agree w w'
  store : ∀ {w w'}, S.rel w w' → w.store.Holds (S.callee w)
  rulesets : ∀ {w w'}, S.rel w w' →
    ∀ set ∈ w.control.rulesets, ∀ r ∈ set.rules, r.Holds (S.callee w)
  noted : ∀ {w w'} level target message fields, S.rel w w' →
    S.rel (w.noted level target message fields) (w'.noted level target message fields) ∧
      S.step w (w.noted level target message fields)
  recorded : ∀ {w w' code code'} n o s, code'.unit = code.unit → S.rel w w' →
    S.rel (w.recorded code n o s) (w'.recorded code' n o s) ∧ S.step w (w.recorded code n o s)
  withStore : ∀ {w w' s}, S.rel w w' → s.Holds (S.callee w) →
    S.rel (w.withStore s) (w'.withStore s) ∧ S.step w (w.withStore s)
  printed : ∀ {w w'} line, S.rel w w' →
    S.rel (w.printed line) (w'.printed line) ∧ S.step w (w.printed line)
  withRulesets : ∀ {w w'} {sets : Rulesets}, S.rel w w' →
    (∀ set ∈ sets, ∀ r ∈ set.rules, r.Holds (S.callee w)) →
    S.rel (w.withRulesets sets) (w'.withRulesets sets) ∧ S.step w (w.withRulesets sets)
  host : ∀ {w w' name arity args}, S.rel w w' → S.callee w (.native (.host name arity)) →
    (∀ v ∈ args, S.Fine w v) →
    (w.natives name args w.store).2.Holds (S.callee w) ∧
      (∀ v, (w.natives name args w.store).1 = .ok v → S.Fine w v) ∧
      ∀ v, (w.natives name args w.store).1 = .error v → S.Fine w v
  get : ∀ {w w' scope} name, S.rel w w' → S.live w scope →
    w'.control.scopes.get scope name = w.control.scopes.get scope name ∧
      (∀ v, w.control.scopes.get scope name = .ok v → S.Fine w v) ∧
      ∀ e, w.control.scopes.get scope name = .error e → S.Tolerates e
  define : ∀ {w w' scope value} name mutable, S.rel w w' → S.live w scope → S.Fine w value →
    S.ScopeStep w w' (·.define scope name value mutable) (·.define scope name value mutable)
      (fun _ _ => True) S.Tolerates
  assign : ∀ {w w' scope value} name, S.rel w w' → S.live w scope → S.Fine w value →
    S.ScopeStep w w' (·.assign scope name value) (·.assign scope name value)
      (fun _ _ => True) S.Tolerates
  makes_same : ∀ {code code' f}, S.makes code code' f →
    code'.unit = code.unit ∧ S.Same code code' f
  closure : ∀ {w w' scope code code' f d}, S.makes code code' f →
    code.program.function? f = some d → S.rel w w' → S.live w scope →
    S.ScopeStep w w' (·.createClosure scope d.name (code.program.freeVariables f))
      (·.createClosure scope d.name (code'.program.freeVariables f))
      (fun c v => S.callee v (.function ⟨code.unit, f, c, d.name, d.arity⟩)) (fun _ => S.loose)
  finds : ∀ {w w' f}, S.rel w w' → S.callee w (.function f) → S.Finds w w' f
  closureScope : ∀ {w w' f}, S.rel w w' → S.callee w (.function f) →
    w'.control.scopes.closureScope f.closure = w.control.scopes.closureScope f.closure ∧
      (∀ scope, w.control.scopes.closureScope f.closure = .ok scope → S.live w scope) ∧
      ∀ e, w.control.scopes.closureScope f.closure = .error e → S.loose
  enter : ∀ {w w' parent locals} kind, S.rel w w' → S.live w parent →
    (∀ x ∈ locals, S.Fine w x.2) →
    ∃ scope v v', Eval.enterScope parent kind locals w = some (.ok scope, v) ∧
      Eval.enterScope parent kind locals w' = some (.ok scope, v') ∧
      S.rel v v' ∧ S.live v scope ∧
      ∀ u, S.step v u →
        Eval.popScope scope u = some (.ok (), u.left scope) ∧ S.step w (u.left scope) ∧
        (∀ u', S.rel u u' → Eval.popScope scope u' = some (.ok (), u'.left scope) ∧
          S.rel (u.left scope) (u'.left scope)) ∧
        (∀ x, S.callee u x → S.callee (u.left scope) x) ∧
        ∀ e, S.escape e u → S.escape e (u.left scope)
  frame : ∀ {w w'} site, S.rel w w' →
    w.control.frames.length < w.control.config.maxCallDepth → S.Framing w w' site
  escape_rejected : ∀ {e w} fields, S.escape e w →
    S.escape e (w.noted .debug Eval.target "mutation rejected" fields) ∧
      S.step w (w.noted .debug Eval.target "mutation rejected" fields)
  escape_settled : ∀ {e w}, S.escape e w → w.control.pendingFatal = none

variable {S}

theorem Fuels.exists_succ {fuel fuel' : Nat} (h : S.Fuels (fuel + 1) fuel') :
    ∃ k, fuel' = k + 1 ∧ S.Fuels fuel k := by
  obtain ⟨hle, hlock⟩ := h
  refine ⟨fuel' - 1, by omega, by omega, fun hlockstep => ?_⟩
  have := hlock hlockstep
  omega

end Simulation

end GraphLang
