import GraphLang.Event
import GraphLang.Store.Copy

/-!
# The world of a run

Everything that a run can change: the store, the lines it has written, the events
it has reported, and the state of whoever drives it. Actions on the world can fail
and can run out of fuel; a failed action keeps what it changed before.
-/

namespace GraphLang

/-- A procedure of the host: from arguments and store to a result or a raised value. -/
abbrev HostNative := List Value → Store → Except Value Value × Store

/-- The state of a run, with the part `σ` of its driver. -/
structure World (σ : Type) where
  /-- The containers. -/
  store : Store
  /-- The lines written so far. -/
  output : Array String
  /-- Which events are kept. -/
  verbosity : Verbosity
  /-- The events kept so far. -/
  events : Array Event
  /-- The procedures of the host, by name. -/
  natives : String → HostNative
  /-- The state of the driver. -/
  control : σ

/-- An action on the world that gives an `α`, or fails with an `ε`, or has no result: it runs out of
fuel or breaks down. -/
abbrev Act (σ ε : Type) := ExceptT ε (StateT (World σ) Option)

namespace Act

variable {σ ε : Type}

/-- Gives up for lack of fuel. -/
def outOfFuel {α : Type} : Act σ ε α := fun _ => none

/-- Ends everything at once, which no one can catch. -/
def breakDown {α : Type} : Act σ ε α := fun _ => none

/-- Reads the store. -/
def store : Act σ ε Store := return (← get).store

/-- Replaces the store. -/
def setStore (s : Store) : Act σ ε Unit := modify fun w => { w with store := s }

/-- Reads a container. -/
def container (g : GraphId) : Act σ ε Container := return (← get).store.get g

/-- Takes a step on the store. It is taken out of the world meanwhile, so that the step can change
it in place. -/
def onStore {α : Type} (step : Store → α × Store) : Act σ ε α :=
  modifyGet fun w =>
    let store := w.store
    let w := { w with store := .empty }
    let (result, store) := step store
    (result, { w with store := store })

/-- Replaces a container. -/
def setContainer (g : GraphId) (c : Container) : Act σ ε Unit :=
  onStore fun s => ((), s.set g c)

/-- Adds a container. -/
def alloc (c : Container) : Act σ ε Value := do
  return .graph (← onStore (·.alloc c))

/-- Makes an exception. -/
def newException (kind message : String) (payload : Value) (path : List CallSite) :
    Act σ ε Value :=
  onStore (·.newException kind message payload path)

/-- Reports an event, if it is kept. -/
def report (level : Level) (target message : String) (fields : Store → List (String × String)) :
    Act σ ε Unit :=
  modify fun w =>
    if w.verbosity.keeps level then
      { w with events := w.events.push ⟨level, target, message, fields w.store⟩ }
    else w

end Act

end GraphLang
