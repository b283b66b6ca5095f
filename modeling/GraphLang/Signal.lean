import GraphLang.Value.Basic

/-!
# Control signals

What evaluating a node comes to: a value, or one of the four ways to leave the
normal course. An exception in flight collects the frames that it leaves.
-/

namespace GraphLang

/-- An exception in flight, with the frames it has left, innermost first. -/
structure Raised where
  /-- The value that was raised. -/
  exception : Value
  /-- The frames left so far. -/
  path : List CallSite
deriving Inhabited

namespace Raised

/-- Raises a value. An exception that was caught before goes on with its recorded path. -/
def new (exception : Value) : Raised := ⟨exception, exception.recordedPath⟩

/-- Adds a frame, unless it is the one added last. -/
def leave (r : Raised) (site : CallSite) : Raised :=
  if (r.path.getLast?).map (·.frame) == some site.frame then r
  else { r with path := r.path ++ [site] }

end Raised

/-- The outcome of evaluating a node. -/
inductive Signal where
  /-- A value. -/
  | normal (v : Value)
  /-- The function is left with a value. -/
  | returning (v : Value)
  /-- The loop is left. -/
  | breaking
  /-- The iteration is left. -/
  | continuing
  /-- An exception is in flight. -/
  | raised (r : Raised)
deriving Inhabited

namespace Signal

/-- The signal of a node without a value of its own. -/
def done : Signal := .normal .nil

/-- Whether evaluation goes on in its normal course. -/
def isNormal : Signal → Bool
  | .normal _ => true
  | _ => false

/-- The name of the kind of signal. -/
def kind : Signal → String
  | .normal _ => "normal"
  | .returning _ => "return"
  | .breaking => "break"
  | .continuing => "continue"
  | .raised _ => "raised"

end Signal

end GraphLang
