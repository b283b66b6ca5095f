import GraphLang.Eval.Fault
import GraphLang.Rule.Engine

/-!
# Natives

What the natives of the prelude do, and how a native is called. A host that changes containers
outside of any program has no evaluator at hand: its rules can call natives, and nothing else.
-/

namespace GraphLang

namespace Act

variable {σ ε : Type}

/-- Makes the exception of a fault. -/
def faultException (fault : Fault) : Act σ ε Value :=
  newException fault.kind fault.message .nil []

/-- Raises a fault out of a native. -/
def nativeFault (fault : Fault) : Act σ ε (Except Value Value) :=
  return .error (← faultException fault)

end Act

namespace Native

variable {σ ε : Type}

/-- The part of the program that events of natives name. -/
def target : String := "weft_eval::interpreter::natives"

/-- The whole numbers from zero up to a bound. -/
def upTo (n : Int64) : List Value :=
  (List.range n.toInt.toNat).map fun i => .int (Int64.ofNat i)

/-- Calls a native, whatever the number of arguments. A native that looks at more arguments than
there are sees `none`. -/
def call (n : Native) (args : List Value) : Act σ ε (Except Value Value) := do
  let s ← Act.store
  let first := args.headD .nil
  match n with
  | .print =>
    let line := " ".intercalate (args.map s.display)
    Act.report .debug target "print" fun _ => [("line", line)]
    modify fun w => { w with output := w.output.push line }
    return .ok .nil
  | .len =>
    match first with
    | .graph g => return .ok (.int (Int64.ofNat (s.get g).size))
    | .str t => return .ok (.int (Int64.ofNat t.length))
    | other => Act.nativeFault (.noLength (s.typeOf other))
  | .str => return .ok (.str (s.display first))
  | .typeOf => return .ok (.str (s.typeName first))
  | .range =>
    match first with
    | .int n => return .ok (← Act.alloc (.ofElements (upTo n)))
    | other => Act.nativeFault (.rangeBound (s.typeOf other))
  | .keys =>
    match first with
    | .graph g =>
      match (s.get g).kind with
      | .map => return .ok (← Act.alloc (.ofElements ((s.get g).keys.map Key.toValue)))
      | _ => Act.nativeFault (.keysOf (s.typeOf first))
    | other => Act.nativeFault (.keysOf (s.typeOf other))
  | .exception =>
    let message := (args.drop 1).headD .nil
    match first with
    | .str kind => return .ok (← Act.newException kind (s.display message) message [])
    | other => Act.nativeFault (.exceptionKind (s.typeOf other))
  | .isFrozen =>
    match first with
    | .graph g => return .ok (.bool (s.get g).frozen)
    | _ => return .ok (.bool false)
  | .host name _ =>
    let (result, s) := (← get).natives name args s
    Act.setStore s
    return result

end Native

/-! ### Rules without an evaluator -/

/-- The callee of a rule is no native. -/
structure NotNative where
  /-- The type of the callee. -/
  found : ValueType
deriving Repr, DecidableEq, Inhabited

/-- The text of the error. -/
def NotNative.message (e : NotNative) : String :=
  s!"cannot call a {e.found.display} without an evaluator"

/-- Calls natives as rules do where there is no evaluator: with any number of arguments, and with
what a native raises left as it is. -/
def Native.invoke {σ : Type} : Invoke σ NotNative := fun callee args => do
  match callee with
  | .native n =>
    match ← n.call args with
    | .ok v => return v
    | .error v => throw (.raised (.new v))
  | other => throw (.fatal ⟨(← Act.store).typeOf other⟩)

end GraphLang
