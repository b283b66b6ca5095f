import GraphLang.Eval.Fault
import GraphLang.Program.Basic

/-!
# Errors that end an evaluation

A program cannot catch these: malformed programs, exceptions that nobody caught, the
limit on the call depth, and requests for things that are not there.
-/

namespace GraphLang

/-- A condition that valid programs do not meet. -/
inductive InternalError where
  /-- The unit has no body. -/
  | unitWithoutBody
  /-- A signal left the body of the unit. -/
  | escapedUnit (signal : String)
  /-- A signal left a call from the host. -/
  | escapedCall (signal : String)
  /-- A signal left a callback of a rule. -/
  | escapedCallback (signal : String)
  /-- A signal left the body of a function. -/
  | escapedFunction (signal name : String)
  /-- There is no such function. -/
  | unknownFunction (f : FunctionId)
  /-- A function has no body. -/
  | functionWithoutBody (name : String)
  /-- There is no such node. -/
  | unknownNode (node : Nat)
  /-- A child is missing. -/
  | missingChild (node : Nat) (role : Role)
  /-- A rule was given up, and nothing else is known about it than a text. -/
  | aborted (text : String)
deriving Repr, DecidableEq, Inhabited

/-- The text of the condition. -/
def InternalError.message : InternalError → String
  | .unitWithoutBody => "unit has no body"
  | .escapedUnit signal => s!"`{signal}` escaped the unit body"
  | .escapedCall signal => s!"`{signal}` escaped a call"
  | .escapedCallback signal => s!"`{signal}` escaped a rule callback"
  | .escapedFunction signal name => s!"`{signal}` escaped function {name}"
  | .unknownFunction f => s!"unknown function {f}"
  | .functionWithoutBody name => s!"function {name} has no body"
  | .unknownNode node => s!"unknown node {node}"
  | .missingChild node role => s!"node {node} has no `{role.display}` child"
  | .aborted text => text

/-- Why an evaluation ended without a value. -/
inductive EvalError where
  /-- The program is malformed. -/
  | construction (errors : List ConstructionError)
  /-- Nobody caught an exception. -/
  | uncaught (exception : Value) (path : List CallSite)
  /-- There were too many calls inside each other. -/
  | recursionLimit (limit : Nat) (path : List CallSite)
  /-- There is no such unit. -/
  | unknownUnit (unit : UnitId)
  /-- The unit defines no such name. -/
  | unknownExport (unit : UnitId) (name : String)
  /-- A step on the scopes failed. -/
  | scope (cause : BindingError)
  /-- The program broke a condition of valid programs. -/
  | internal (cause : InternalError)
deriving Inhabited

namespace EvalError

/-- The name of the kind of error. -/
def code : EvalError → String
  | .construction _ => "Construction"
  | .uncaught .. => "Uncaught"
  | .recursionLimit .. => "RecursionLimitExceeded"
  | .unknownUnit _ => "UnknownUnit"
  | .unknownExport .. => "UnknownExport"
  | .scope _ => "Scope"
  | .internal _ => "Internal"

/-- The call path of the error, innermost first. -/
def path : EvalError → List CallSite
  | .uncaught _ path | .recursionLimit _ path => path
  | _ => []

/-- The lines of a call path. -/
def pathText (path : List CallSite) : String :=
  String.join (path.map fun site => "\n  in " ++ site.display)

/-- The text of the error. -/
def message (s : Store) : EvalError → String
  | .construction errors =>
    "malformed execution graph:" ++ String.join (errors.map fun e => "\n  " ++ e.message)
  | .uncaught exception path => "uncaught exception: " ++ s.display exception ++ pathText path
  | .recursionLimit limit path => s!"recursion depth limit ({limit}) exceeded" ++ pathText path
  | .unknownUnit unit => s!"unknown unit: UnitId({unit})"
  | .unknownExport unit name => s!"'{name}' is not defined in unit {unit}"
  | .scope cause => "scope graph error: " ++ cause.message
  | .internal cause => "internal error: " ++ cause.message

end EvalError

end GraphLang
