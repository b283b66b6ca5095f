import GraphLang.Eval.Error
import GraphLang.Eval.Natives
import GraphLang.Rule.Engine
import GraphLang.Scopes.Basic

/-!
# The state of an evaluator

What an evaluator keeps between steps: the scopes, the loaded units, the rulesets,
the open call frames, and the trace. Steps of evaluation act on this state; a step
gives a value, or leaves the normal course with a signal, or ends the evaluation.
-/

namespace GraphLang

/-- How an evaluator works. -/
structure Config where
  /-- Whether evaluated nodes are recorded. -/
  traceEnabled : Bool
  /-- How many calls may be open inside each other. -/
  maxCallDepth : Nat
  /-- Whether units are optimized when they are loaded. -/
  optimize : Bool
deriving Repr, DecidableEq, Inhabited

/-- The usual way of working. -/
def Config.default : Config := ⟨false, 256, false⟩

/-- A unit that was loaded. -/
structure LoadedUnit where
  /-- The program. -/
  program : Program
  /-- The scope of its top level. -/
  scope : ScopeId
deriving Inhabited

/-- The record of one evaluated node. -/
structure TraceEntry where
  /-- The unit of the node. -/
  unit : UnitId
  /-- The node. -/
  node : Nat
  /-- What the node does. -/
  op : String
  /-- How many calls were open. -/
  depth : Nat
  /-- The kind of signal. -/
  signal : String
  /-- The text of the value or exception, if the signal has one. -/
  value : Option String
deriving Repr, DecidableEq, Inhabited

/-- The state of an evaluator. -/
structure Session where
  /-- How it works. -/
  config : Config
  /-- The scopes. -/
  scopes : Scopes
  /-- The scope of the natives. -/
  prelude : ScopeId
  /-- The loaded units. -/
  units : Array LoadedUnit
  /-- The rulesets. -/
  rulesets : Rulesets
  /-- The open call frames, innermost first. -/
  frames : List CallSite
  /-- The number of the next frame. -/
  nextFrame : Nat
  /-- The nodes evaluated so far, if they are recorded. -/
  trace : Array TraceEntry
  /-- The error that ended a callback of a rule, until the rules are left. -/
  pendingFatal : Option EvalError

/-- An action of an evaluator. -/
abbrev Eval := Act Session EvalError

/-- A step of evaluation: a value, or a signal that leaves the normal course. -/
abbrev Step := ExceptT Signal Eval

/-- The code that is evaluated. -/
structure Code where
  /-- The unit. -/
  unit : UnitId
  /-- Its program. -/
  program : Program

namespace Eval

/-- The part of the program that events of the evaluator name. -/
def target : String := "weft_eval::interpreter::state"

/-- Reads the state of the evaluator. -/
def session : Eval Session := return (← get).control

/-- Changes the state of the evaluator. -/
def modifySession (f : Session → Session) : Eval Unit :=
  modify fun w => { w with control := f w.control }

/-- Reports an event of the evaluator. -/
def report (level : Level) (message : String) (fields : Store → List (String × String)) :
    Eval Unit := Act.report level target message fields

/-- A failed step on the scopes ends the evaluation. -/
def ofBinding {α : Type} : Except BindingError α → Eval α
  | .ok a => return a
  | .error cause => throw (.scope cause)

/-- Takes a step on the scopes. They are taken out of the state meanwhile, so that the step can
change them in place. -/
def onScopes {α : Type} (step : Scopes → Except BindingError α × Scopes) :
    Eval (Except BindingError α) :=
  modifyGet fun w =>
    let scopes := w.control.scopes
    let w := { w with control := { w.control with scopes := .empty } }
    let (result, scopes) := step scopes
    (result, { w with control := { w.control with scopes := scopes } })

/-- Opens a scope. -/
def pushScope (parent : ScopeId) (kind : ScopeKind) : Eval ScopeId := do
  ofBinding (← onScopes (·.push parent kind))

/-- Leaves a scope. -/
def popScope (scope : ScopeId) : Eval Unit := do
  ofBinding (← onScopes (·.pop scope))

/-- Defines a variable that can be written, in a scope just opened. -/
def defineLocal (scope : ScopeId) (name : String) (value : Value) : Eval Unit := do
  discard <| ofBinding (← onScopes (·.define scope name value true))

/-- Gives the result of an attempt, or fails as it failed. -/
def ofAttempt {α : Type} : Except EvalError α → Eval α
  | .ok a => return a
  | .error e => throw e

/-- Keeps an error while the rules that called back are left. -/
def keepFatal {ε : Type} (e : EvalError) : Act Session ε Unit :=
  modify fun w => { w with control := { w.control with pendingFatal := some e } }

/-- Takes the error that was kept, if there is one. -/
def takeFatal : Eval (Option EvalError) := do
  let kept := (← session).pendingFatal
  modifySession fun st => { st with pendingFatal := none }
  return kept

/-- Defines variables in a scope just opened, one after the other. -/
def defineLocals (scope : ScopeId) : List (String × Value) → Eval Unit
  | [] => return
  | (name, value) :: rest => do
    defineLocal scope name value
    defineLocals scope rest

/-- Opens a scope with variables of its own. -/
def enterScope (parent : ScopeId) (kind : ScopeKind) (locals : List (String × Value)) :
    Eval ScopeId := do
  let scope ← pushScope parent kind
  defineLocals scope locals
  return scope

/-- Runs an action in a new scope with locals of its own. The scope is left again however the
action ends. -/
def inScope {α : Type} (parent : ScopeId) (kind : ScopeKind) (locals : List (String × Value))
    (body : ScopeId → Eval α) : Eval α := do
  let scope ← enterScope parent kind locals
  let result ← Act.attempt (body scope)
  popScope scope
  ofAttempt result

/-- Runs an action in a new call frame, which is left again however the action ends. -/
def inFrame {α : Type} (site : CallSite) (body : Eval α) : Eval α := do
  modifySession fun st => { st with frames := site :: st.frames, nextFrame := st.nextFrame + 1 }
  let result ← Act.attempt body
  modifySession fun st => { st with frames := st.frames.tail }
  ofAttempt result

/-- The unit of that number. -/
def unit (id : UnitId) : Eval LoadedUnit := do
  match (← session).units[id]? with
  | some loaded => return loaded
  | none => throw (.unknownUnit id)

end Eval

namespace Step

/-- Ends the evaluation. -/
def fatal {α : Type} (e : EvalError) : Step α := ExceptT.lift (throw e)

/-- An action of the evaluator as a step. -/
def lift {α : Type} (action : Eval α) : Step α := ExceptT.lift action

/-- Reads the store. -/
def store : Step Store := lift Act.store

/-- Reads the state of the evaluator. -/
def session : Step Session := lift Eval.session

/-- Changes the state of the evaluator. -/
def modifySession (f : Session → Session) : Step Unit := lift (Eval.modifySession f)

/-- Reports an event of the evaluator. -/
def report (level : Level) (message : String) (fields : Store → List (String × String)) :
    Step Unit := lift (Eval.report level message fields)

/-- Goes on with the value of a normal signal, and passes on any other one. -/
def ofSignal : Signal → Step Value
  | .normal v => return v
  | signal => throw signal

/-- The signal that a step comes to. -/
def toSignal (step : Step Value) : Eval Signal := do
  match ← step.run with
  | .ok v => return .normal v
  | .error signal => return signal

/-- Raises a value. -/
def raise {α : Type} (exception : Value) : Step α := throw (.raised (.new exception))

/-- Raises the exception of a fault. -/
def fault {α : Type} (f : Fault) : Step α := do
  let exception ← lift (Act.faultException f)
  raise exception

/-- Raises the fault of a failure. -/
def ofFault {α : Type} : Except Fault α → Step α
  | .ok a => return a
  | .error f => fault f

/-- Raises an exception where a name cannot be bound or read; other failures on the scopes end the
evaluation. -/
def ofBinding {α : Type} : Except BindingError α → Step α
  | .ok a => return a
  | .error (.unbound name) => fault (.binding (.unbound name))
  | .error (.immutable name) => fault (.binding (.immutable name))
  | .error cause => fatal (.scope cause)

/-- The exception that a raised value becomes: an exception as it is, any other value as the payload
of a new one. -/
def toException (v : Value) : Eval Value := do
  match v with
  | .exception .. => return v
  | other => Act.newException "Error" ((← Act.store).display other) other []

end Step

end GraphLang
