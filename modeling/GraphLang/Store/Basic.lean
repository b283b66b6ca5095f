import GraphLang.Container.Basic

/-!
# The store

All containers that a program has made, by number, and the number of exceptions
made so far. What a value is to a program (its type, its text, whether it counts
as true) can depend on the containers it names.
-/

namespace GraphLang

/-- The containers of a program. -/
structure Store where
  /-- The containers, by number. -/
  graphs : Array Container
  /-- How many exceptions were made. -/
  exceptions : Nat
deriving Inhabited

namespace Store

/-- The store without containers. -/
def empty : Store := ⟨#[], 0⟩

/-- The container of that number; an empty list where there is none. -/
def get (s : Store) (g : GraphId) : Container := s.graphs[g]?.getD (Container.new .list)

/-- Replaces a container. -/
def set (s : Store) (g : GraphId) (c : Container) : Store :=
  { s with graphs := s.graphs.setIfInBounds g c }

/-- Adds a container and gives its number. -/
def alloc (s : Store) (c : Container) : GraphId × Store :=
  (s.graphs.size, { s with graphs := s.graphs.push c })

/-- Adds a list of the given elements. -/
def allocList (s : Store) (values : List Value) : Value × Store :=
  let (g, s) := s.alloc (.ofElements values)
  (.graph g, s)

/-- A new exception. -/
def newException (s : Store) (kind message : String) (payload : Value) (path : List CallSite) :
    Value × Store :=
  (.exception s.exceptions kind message payload path, { s with exceptions := s.exceptions + 1 })

/-- The type of a value. -/
def typeOf (s : Store) : Value → ValueType
  | .nil => .nil
  | .bool _ => .bool
  | .int _ => .int
  | .float _ => .float
  | .str _ => .str
  | .graph g =>
    match (s.get g).kind with
    | .list => .list
    | .map => .map
    | .user _ => .graph
  | .function _ | .native _ => .function
  | .exception .. => .exception

/-- The name of a value's type. -/
def typeName (s : Store) (v : Value) : String := (s.typeOf v).display

/-- Whether a value counts as true. -/
def isTruthy (s : Store) : Value → Bool
  | .nil => false
  | .bool b => b
  | .int i => i != 0
  | .float x => x != 0.0
  | .str t => !t.isEmpty
  | .graph g => 0 < (s.get g).size
  | .function _ | .native _ | .exception .. => true

/-- How deep the text of a value goes into containers. -/
def displayDepth : Nat := 16

/-- The text of a value, going so many containers deep. A container that is being written to is not
looked into. -/
def displayWithin (s : Store) (inUse : Option GraphId) : Nat → Bool → Value → String
  | _, _, .nil => "none"
  | _, _, .bool b => boolText b
  | _, _, .int i => intText i.toInt
  | _, _, .float x => Decimal.display x
  | _, inQuotes, .str t => if inQuotes then Text.quoted t else t
  | 0, _, .graph _ => "..."
  | depth + 1, _, .graph g =>
    if inUse == some g then "<graph in use>"
    else
      let c := s.get g
      match c.kind with
      | .list => "[" ++ ", ".intercalate (c.elements.map (displayWithin s inUse depth true)) ++ "]"
      | .map =>
        "\x7b" ++ ", ".intercalate (c.entries.map fun (key, value) =>
          key.display ++ ": " ++ displayWithin s inUse depth true value) ++ "\x7d"
      | .user name => s!"<graph {name}: {c.size} members>"
  | _, _, .function f => s!"<function {f.name}>"
  | _, _, .native n => s!"<native {n.name}>"
  | _, _, .exception _ kind message _ _ => kind ++ ": " ++ message

/-- The text of a value. -/
def display (s : Store) (v : Value) : String := s.displayWithin none displayDepth false v

/-- The text of a value that also shows what it is, while a container may be written to. -/
def diagnosticWhile (s : Store) (inUse : Option GraphId) : Value → String
  | .str t => "Str(" ++ Text.quoted t ++ ")"
  | .graph g => "Graph(" ++ s.displayWithin inUse displayDepth true (.graph g) ++ ")"
  | .function f => "Function(" ++ f.name ++ ")"
  | .native n => "Native(" ++ n.name ++ ")"
  | .exception _ kind message _ _ => "Exception(" ++ kind ++ ": " ++ message ++ ")"
  | v => s.displayWithin inUse displayDepth true v

/-- The text of a value that also shows what it is. -/
def diagnostic (s : Store) (v : Value) : String := s.diagnosticWhile none v

/-- Short descriptions of the two kinds of values that hosts handle by reference. -/
def handle? (s : Store) : Value → Option String
  | .graph g =>
    let c := s.get g
    let kind := match c.kind with
      | .list => "List"
      | .map => "Map"
      | .user name => "User(" ++ Text.quoted name ++ ")"
    some s!"GraphRef({kind}, {c.graph.nodeCount} nodes)"
  | .native n =>
    let arity := match n.arity with
      | some k => s!"Some({k})"
      | none => "None"
    some ("NativeFunction \x7b name: " ++ Text.quoted n.name ++ ", arity: " ++ arity ++ " \x7d")
  | _ => none

end Store

/-- The name of a transform, while a container may be written to. -/
def Transform.display (s : Store) (inUse : Option GraphId) : Transform → String
  | .noneToZero => "none_to_zero"
  | .coalesce v => "coalesce(" ++ s.diagnosticWhile inUse v ++ ")"
  | .clamp min max =>
    "validate_range(" ++ s.displayWithin inUse Store.displayDepth false min ++ ", " ++
      s.displayWithin inUse Store.displayDepth false max ++ ")"
  | .round digits => s!"round({digits})"
  | .lowercase => "lowercase"
  | .uppercase => "uppercase"
  | .trim => "trim"
  | .lookup .. => "lookup"
  | .custom name _ => name

/-- The name of a rule, while a container may be written to. -/
def Rule.display (s : Store) (inUse : Option GraphId) : Rule → String
  | .validate v => v.display
  | .transform r => r.display s inUse
  | .conditional _ r _ => "conditional(" ++ r.display s inUse ++ ")"
  | .freeze .rejectMixed => "reject_mixed_freeze"
  | .freeze .copyElements => "copy_elements"

end GraphLang
