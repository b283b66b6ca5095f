import GraphLang.Json.Basic

/-!
# Reading values out of documents

How numbers, records and variants are found in a document. A record is an object
with named fields, or an array of its fields in order. A variant is its name, or an
object whose only member is the name with the content. Where the content of a variant
is a record, only the text of a document may give it as an array.
-/

namespace GraphLang.Json

/-- A whole number below a bound. -/
def toNatBelow? (bound : Nat) : Json → Option Nat
  | .int n => if 0 ≤ n && n < bound then some n.toNat else none
  | _ => none

/-- A whole number of 16 bits. -/
def toNat16? : Json → Option Nat := toNatBelow? UInt16.size

/-- A whole number of 32 bits. -/
def toNat32? : Json → Option Nat := toNatBelow? UInt32.size

/-- A whole number of 64 bits. -/
def toNat64? : Json → Option Nat := toNatBelow? UInt64.size

/-- A whole number of 64 bits with a sign. -/
def toInt64? : Json → Option Int64
  | .int n =>
    if Int64.minValue.toInt ≤ n && n ≤ Int64.maxValue.toInt then some (Int64.ofInt n) else none
  | _ => none

/-- A double; whole numbers are rounded to one. -/
def toFloat? : Json → Option Float
  | .int n => some (Decimal.ofInt n)
  | .float x => some x
  | _ => none

/-- A truth value. -/
def toBool? : Json → Option Bool
  | .bool b => some b
  | _ => none

/-- A text. -/
def toString? : Json → Option String
  | .str s => some s
  | _ => none

/-- An array of things. -/
def toList? {α : Type} (read : Json → Option α) : Json → Option (List α)
  | .arr items => items.mapM read
  | _ => none

/-- A field that may be missing or null. -/
def optionalField? {α : Type} (read : Json → Option α) : Option Json → Option (Option α)
  | none | some .null => some none
  | some d => (read d).map some

/-- The name of a variant, with its content if there is one. -/
def variant? : Json → Option (String × Option Json)
  | .str name => some (name, none)
  | .obj [(name, content)] => some (name, some content)
  | _ => none

/-- Whether the content of a variant without content is as it should be. -/
def isUnit : Option Json → Bool
  | none | some .null => true
  | _ => false

/-- A field of a record: its name, and whether an array may end before it. -/
structure Field where
  /-- The name. -/
  name : String
  /-- Whether an array may end before this field. -/
  mayEnd : Bool

/-- The fields of a record, in order. Other members of an object are ignored, but none of the fields
may occur twice. -/
def fields? (record : List Field) : Json → Option (List (Option Json))
  | .arr items =>
    if items.length ≤ record.length && (record.drop items.length).all (·.mayEnd) then
      some (record.mapIdx fun i _ => items[i]?)
    else none
  | .obj members =>
    if record.all fun f => (members.filter (·.1 == f.name)).length ≤ 1 then
      some (record.map fun f => (members.find? (·.1 == f.name)).map (·.2))
    else none
  | _ => none

/-- Where a document comes from. -/
inductive Origin where
  /-- It was read from a text. -/
  | text
  /-- It is part of another document. -/
  | part
deriving Repr, DecidableEq

/-- The fields of a record that is the content of a variant. An array of them stands for the record
only in a text. -/
def contentFields? (origin : Origin) (record : List Field) : Option Json →
    Option (List (Option Json))
  | none => none
  | some (.arr items) =>
    match origin with
    | .text => fields? record (.arr items)
    | .part => none
  | some d => fields? record d

/-- Fields that must all be in the record. -/
def strict (names : List String) : List Field := names.map fun name => ⟨name, false⟩

end GraphLang.Json
