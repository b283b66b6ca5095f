/-!
# Events

What a run reports about itself while it goes on. Events are kept in order, and
only those that someone asked for.
-/

namespace GraphLang

/-- How detailed an event is. -/
inductive Level where
  /-- A step that a user may want to follow. -/
  | debug
  /-- A step of the evaluator. -/
  | trace
deriving Repr, DecidableEq, Inhabited

/-- Which events are kept. -/
inductive Verbosity where
  /-- None. -/
  | silent
  /-- Those of level `debug`. -/
  | debug
  /-- All. -/
  | trace
deriving Repr, DecidableEq, Inhabited

/-- Whether events of that level are kept. -/
def Verbosity.keeps : Verbosity → Level → Bool
  | .silent, _ => false
  | .debug, level => level == .debug
  | .trace, _ => true

/-- One event. -/
structure Event where
  /-- How detailed it is. -/
  level : Level
  /-- The part of the program that reports it. -/
  target : String
  /-- What happened. -/
  message : String
  /-- Named details, in order. -/
  fields : List (String × String)
deriving Repr, DecidableEq, Inhabited

/-- The line that reports an event. -/
def Event.line (e : Event) : String :=
  let level := match e.level with
    | .debug => "DEBUG"
    | .trace => "TRACE"
  let fields := e.fields.map fun (name, value) => " " ++ name ++ "=" ++ value
  level ++ " " ++ e.target ++ ": " ++ e.message ++ String.join fields

end GraphLang
