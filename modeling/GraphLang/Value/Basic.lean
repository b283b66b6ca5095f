import GraphLang.Decimal.Style
import GraphLang.Text.Quoted

/-!
# Values

What a program computes with. Scalars are held as they are; lists, maps and user
graphs are numbers of containers in a store, so that two values can name the same
container. An exception carries a serial number, which is its identity.
-/

namespace GraphLang

/-- The number of a container in the store. -/
abbrev GraphId := Nat

/-- The number of a loaded unit. -/
abbrev UnitId := Nat

/-- The number of a function within its unit. -/
abbrev FunctionId := Nat

/-- The number of a closure in the scope graph. -/
abbrev ClosureId := Nat

/-- One frame of a call path. -/
structure CallSite where
  /-- The name of the function, as it was defined. -/
  name : String
  /-- The unit of the function. -/
  unit : UnitId
  /-- The function. -/
  function : FunctionId
  /-- The call node that made the frame, if one did. -/
  callNode : Option Nat
  /-- The serial number of the frame. -/
  frame : Nat
deriving Repr, DecidableEq, Inhabited

/-- The text of a call site. -/
def CallSite.display (site : CallSite) : String :=
  match site.callNode with
  | some node => s!"{site.name} (called at node {node})"
  | none => site.name

/-- A closure: which function to run, and in which environment. -/
structure FunctionValue where
  /-- The unit of the function. -/
  unit : UnitId
  /-- The function. -/
  function : FunctionId
  /-- The closure that holds the environment. -/
  closure : ClosureId
  /-- The name of the function. -/
  name : String
  /-- The number of its parameters. -/
  arity : Nat
deriving Repr, DecidableEq, Inhabited

/-- A procedure that is not written in the language. -/
inductive Native where
  /-- Writes a line of output. -/
  | print
  /-- The number of members or characters. -/
  | len
  /-- The text of a value. -/
  | str
  /-- The name of a value's type. -/
  | typeOf
  /-- The list of the whole numbers below a bound. -/
  | range
  /-- The list of the keys of a map. -/
  | keys
  /-- A new exception. -/
  | exception
  /-- Whether a container is frozen. -/
  | isFrozen
  /-- A procedure that the host provides. -/
  | host (name : String) (arity : Option Nat)
deriving Repr, DecidableEq, Inhabited

/-- The name of a native. -/
def Native.name : Native → String
  | .print => "print"
  | .len => "len"
  | .str => "str"
  | .typeOf => "type_of"
  | .range => "range"
  | .keys => "keys"
  | .exception => "exception"
  | .isFrozen => "is_frozen"
  | .host name _ => name

/-- The number of arguments that a native takes, if it is fixed. -/
def Native.arity : Native → Option Nat
  | .print => none
  | .len | .str | .typeOf | .range | .keys | .isFrozen => some 1
  | .exception => some 2
  | .host _ arity => arity

/-- The natives that every unit can see. -/
def Native.prelude : List Native :=
  [.print, .len, .str, .typeOf, .range, .keys, .exception, .isFrozen]

/-- A value of the language. -/
inductive Value where
  /-- The value `none`. -/
  | nil
  /-- A truth value. -/
  | bool (b : Bool)
  /-- A whole number of 64 bits. -/
  | int (i : Int64)
  /-- A double. -/
  | float (x : Float)
  /-- A text. -/
  | str (s : String)
  /-- A list, a map or a user graph. -/
  | graph (id : GraphId)
  /-- A closure. -/
  | function (f : FunctionValue)
  /-- A native. -/
  | native (n : Native)
  /-- An exception, told from others by its serial number. -/
  | exception (serial : Nat) (kind message : String) (payload : Value) (path : List CallSite)
deriving Inhabited

/-- The types that a program can tell apart. -/
inductive ValueType where
  | nil | bool | int | float | str | list | map | graph | function | exception
deriving Repr, DecidableEq, Inhabited

/-- The name of a type. -/
def ValueType.display : ValueType → String
  | .nil => "none"
  | .bool => "bool"
  | .int => "int"
  | .float => "float"
  | .str => "str"
  | .list => "list"
  | .map => "map"
  | .graph => "graph"
  | .function => "function"
  | .exception => "exception"

/-- A scalar that can be a map key. -/
inductive Key where
  /-- A truth value. -/
  | bool (b : Bool)
  /-- A whole number. -/
  | int (i : Int64)
  /-- A text. -/
  | str (s : String)
deriving DecidableEq, Inhabited

/-- A scalar that can stand in a program. -/
inductive Literal where
  /-- The value `none`. -/
  | nil
  /-- A truth value. -/
  | bool (b : Bool)
  /-- A whole number. -/
  | int (i : Int64)
  /-- A double. -/
  | float (x : Float)
  /-- A text. -/
  | str (s : String)
deriving Inhabited

/-- The decimal text of a whole number. -/
def intText (n : Int) : String :=
  (if n < 0 then "-" else "") ++ Decimal.digitText n.natAbs

/-- The text of a truth value. -/
def boolText (b : Bool) : String := if b then "true" else "false"

namespace Key

/-- The key that a value stands for. -/
def ofValue? : Value → Option Key
  | .bool b => some (.bool b)
  | .int i => some (.int i)
  | .str s => some (.str s)
  | _ => none

/-- The key as a value. -/
def toValue : Key → Value
  | .bool b => .bool b
  | .int i => .int i
  | .str s => .str s

/-- The text of a key. -/
def display : Key → String
  | .bool b => boolText b
  | .int i => intText i.toInt
  | .str s => Text.quoted s

/-- Reading a key back from its value gives the key. -/
@[simp] theorem ofValue?_toValue (k : Key) : ofValue? k.toValue = some k := by
  cases k <;> rfl

end Key

namespace Literal

/-- The literal as a value. -/
def toValue : Literal → Value
  | .nil => .nil
  | .bool b => .bool b
  | .int i => .int i
  | .float x => .float x
  | .str s => .str s

/-- The literal that a value can be written as. -/
def ofValue? : Value → Option Literal
  | .nil => some .nil
  | .bool b => some (.bool b)
  | .int i => some (.int i)
  | .float x => some (.float x)
  | .str s => some (.str s)
  | _ => none

/-- Reading a literal back from its value gives the literal. -/
@[simp] theorem ofValue?_toValue (l : Literal) : ofValue? l.toValue = some l := by
  cases l <;> rfl

/-- The text of a literal, with texts in quotes. -/
def display : Literal → String
  | .nil => "none"
  | .bool b => boolText b
  | .int i => intText i.toInt
  | .float x => Decimal.display x
  | .str s => Text.quoted s

/-- The text of a literal that also shows which kind of literal it is. -/
def diagnostic : Literal → String
  | .nil => "None"
  | .bool b => "Bool(" ++ boolText b ++ ")"
  | .int i => "Int(" ++ intText i.toInt ++ ")"
  | .float x => "Float(" ++ Decimal.Style.diagnostic.write x ++ ")"
  | .str s => "Str(" ++ Text.quoted s ++ ")"

/-- The number that a literal stands for. -/
def number? : Literal → Option Float
  | .int i => some (Decimal.ofInt i.toInt)
  | .float x => some x
  | _ => none

/-- The text of a literal as the value it stands for. -/
def plain : Literal → String
  | .str s => s
  | l => l.display

end Literal

namespace Value

/-- The whole number that a value is. -/
def int? : Value → Option Int64
  | .int i => some i
  | _ => none

/-- The number that a value is, as a double. -/
def number? : Value → Option Float
  | .int i => some (Decimal.ofInt i.toInt)
  | .float x => some x
  | _ => none

/-- The call path that an exception has recorded. -/
def recordedPath : Value → List CallSite
  | .exception _ _ _ _ path => path
  | _ => []

/-- Whether two values are equal to a program. Scalars compare by content, and a whole number equals
a double that it rounds to; everything else compares by identity. -/
def same : Value → Value → Bool
  | .nil, .nil => true
  | .bool a, .bool b => a == b
  | .int a, .int b => a == b
  | .float a, .float b => a == b
  | .int a, .float b => Decimal.ofInt a.toInt == b
  | .float a, .int b => Decimal.ofInt b.toInt == a
  | .str a, .str b => a == b
  | .graph a, .graph b => a == b
  | .function a, .function b =>
    a.unit == b.unit && a.function == b.function && a.closure == b.closure
  | .native a, .native b => a == b
  | .exception a .., .exception b .. => a == b
  | _, _ => false

end Value

end GraphLang
