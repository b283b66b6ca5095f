import GraphLang.Eval.Node
import GraphLang.Json.Decode
import GraphLang.Optimize.Basic
import GraphLang.Program.Validation
import GraphLang.Scopes.Collection

/-!
# The host's view of an evaluator

What a host does with an evaluator: it loads units, runs them, lets one unit see a
variable of another, calls values, adds procedures of its own, and collects scopes
that nobody can reach.
-/

namespace GraphLang

/-- The prelude: a scope with the natives that every unit can see. -/
def Scopes.withPrelude (natives : List Native) : ScopeId × Scopes :=
  let (prelude, scopes) := Scopes.empty.pushRoot .prelude
  (prelude, natives.foldl (fun s n => (s.declare prelude n.name (.native n) false).2) scopes)

/-- An evaluator with no units, whose prelude holds the given natives. -/
def Session.new (config : Config) (natives : List Native) : Session :=
  let (prelude, scopes) := Scopes.withPrelude natives
  { config := config
    scopes := scopes
    prelude := prelude
    units := #[]
    rulesets := []
    frames := []
    nextFrame := 0
    trace := #[]
    pendingFatal := none }

/-- The world before anything was done in it. -/
def World.start {σ : Type} (verbosity : Verbosity) (natives : String → HostNative) (control : σ) :
    World σ :=
  ⟨.empty, #[], verbosity, #[], natives, control⟩

/-- The world of a new evaluator with the usual natives. -/
def World.evaluator (config : Config) (verbosity : Verbosity) (natives : String → HostNative) :
    World Session :=
  .start verbosity natives (.new config Native.prelude)

namespace Config

/-- The configuration as a document. -/
def encode (c : Config) : Json :=
  .obj [
    ("trace_enabled", .bool c.traceEnabled),
    ("max_call_depth", .nat c.maxCallDepth),
    ("optimize", .bool c.optimize)]

/-- Reads a configuration; what is missing is as usual. -/
def decode (d : Json) : Option Config := do
  let record := [⟨"trace_enabled", true⟩, ⟨"max_call_depth", true⟩, ⟨"optimize", true⟩]
  match ← d.fields? record with
  | [trace, depth, optimize] =>
    return ⟨← field? Json.toBool? default.traceEnabled trace,
      ← field? Json.toNat64? default.maxCallDepth depth,
      ← field? Json.toBool? default.optimize optimize⟩
  | _ => none
where
  /-- A field, or a default where there is none. -/
  field? {α : Type} (read : Json → Option α) (default : α) : Option Json → Option α
    | some d => read d
    | none => some default

end Config

namespace TraceEntry

/-- The record as a document. -/
def encode (e : TraceEntry) : Json :=
  .obj [
    ("unit", .nat e.unit),
    ("node", .nat e.node),
    ("op", .str e.op),
    ("depth", .nat e.depth),
    ("signal", .str e.signal),
    ("value", .option (e.value.map .str))]

/-- The records of a run, one on each line. -/
def lines (entries : Array TraceEntry) : String :=
  String.join (entries.toList.map fun e => e.encode.compress ++ "\n")

end TraceEntry

namespace Eval

/-- Keeps an event that was reported elsewhere, if events of its level are kept. -/
def relay (e : Event) : Eval Unit := Act.report e.level e.target e.message fun _ => e.fields

/-- Optimizes a program, if the evaluator is to do so. -/
def prepare (p : Program) : Eval Program := do
  if (← session).config.optimize then
    let (changes, optimized, events) := p.optimize
    events.forM relay
    report .debug "unit optimized" fun _ =>
      [("unit", optimized.name), ("report", changes.diagnostic)]
    return optimized
  else return p

/-- Checks a program and gives it a scope inside the prelude. It is not run. -/
def load (p : Program) : Eval UnitId := do
  match p.validate with
  | .error _ => Act.breakDown
  | .ok [] =>
    let program ← prepare p
    let scope ← pushScope (← session).prelude .module
    let id := (← session).units.size
    modifySession fun st => { st with units := st.units.push ⟨program, scope⟩ }
    report .debug "unit loaded" fun _ => [("unit", toString id), ("name", program.name)]
    return id
  | .ok errors =>
    relay (p.rejection errors)
    throw (.construction errors)

/-- What the body of a unit comes to for the host. -/
def leaveUnit (site : CallSite) : Signal → Eval Value
  | .normal v | .returning v => return v
  | .raised r => do
    let r := r.leave site
    report .debug "uncaught exception" fun s => [("exception", s.display r.exception)]
    throw (.uncaught r.exception r.path)
  | signal => throw (.internal (.escapedUnit signal.kind))

/-- Runs the body of a unit with an evaluator, in the scope of the unit. -/
def runBy (ev : Evaluator) (id : UnitId) : Eval Value := do
  let loaded ← unit id
  match (loaded.program.function? mainId).bind (·.body) with
  | none => throw (.internal .unitWithoutBody)
  | some root =>
    let site : CallSite := ⟨mainName, id, mainId, none, (← session).nextFrame⟩
    let signal ← inFrame site (ev.body ⟨id, loaded.program⟩ root loaded.scope)
    leaveUnit site signal

/-- Runs the body of a unit in the scope of the unit, and gives its value. -/
def run (fuel : Nat) (id : UnitId) : Eval Value := runBy (eval fuel) id

/-- Loads a program and runs it. -/
def execute (fuel : Nat) (p : Program) : Eval Value := do
  let id ← load p
  run fuel id

/-- Lets one unit see a variable that another one has defined at its top level. -/
def importName (into source : UnitId) (name : String) : Eval Unit := do
  let intoScope := (← unit into).scope
  let sourceScope := (← unit source).scope
  match ((← session).scopes.contents sourceScope).find? (·.1 == name) with
  | none => throw (.unknownExport source name)
  | some (_, var) =>
    ofBinding (← onScopes (·.importVar intoScope var))

/-- Calls a value from the host with an evaluator. -/
def callBy (ev : Evaluator) (callee : Value) (args : List Value) : Eval Value := do
  match ← call ev callee args none with
  | .normal v => return v
  | .raised r => throw (.uncaught r.exception r.path)
  | signal => throw (.internal (.escapedCall signal.kind))

/-- Calls a value from the host. -/
def callValue (fuel : Nat) (callee : Value) (args : List Value) : Eval Value :=
  callBy (eval fuel) callee args

/-- Lets every unit see a procedure of the host under its own name. -/
def registerNative (n : Native) : Eval Unit := do
  let prelude := (← session).prelude
  discard <| ofBinding (← onScopes (·.define prelude n.name (.native n) false))

/-- The value of a name as seen from the top level of a unit. -/
def lookup (id : UnitId) (name : String) : Eval (Except BindingError Value) := do
  let loaded ← unit id
  return (← session).scopes.get loaded.scope name

/-- A bound on evaluation that no run comes to: more nested steps than there is memory for. -/
def plenty : Nat := Nat.pow 2 62

end Eval

namespace Session

/-- What stays although no open scope leads to it: the prelude, the top level of each unit, and the
closures that rulesets call. -/
def roots (st : Session) : List Nat :=
  st.prelude :: st.units.toList.map (·.scope) ++ st.rulesets.callbacks.filterMap fun callback =>
    match callback with
    | .function f => some f.closure
    | _ => none

/-- Removes the scopes, variables and closures that nobody can reach, and counts them. -/
def collect (st : Session) (store : Store) : Nat × Session :=
  let (removed, scopes) := st.scopes.collect store st.roots
  (removed, { st with scopes := scopes })

end Session

end GraphLang
