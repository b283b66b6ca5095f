import GraphLang.Json.Basic
import GraphLang.Text.Quoted

/-!
# Documents with exact doubles

A decimal text is a poor way to tell two doubles apart. Here a double is an object
that holds its sixteen hexadecimal digits, so that equal documents mean equal bits.
-/

namespace GraphLang.Json

/-- A double by its bits; all that are not numbers look alike. -/
def bits (x : Float) : Json :=
  .obj [("f", .str (if x.isNaN then "nan" else Text.hexPadded 16 x.toBits.toNat))]

mutual

/-- The document with every double shown by its bits, and null in the place of those that a document
cannot hold. -/
def exact : Json → Json
  | .float x => if x.isFinite then bits x else .null
  | .arr items => .arr (exactItems items)
  | .obj members => .obj (exactMembers members)
  | d => d

/-- The items of an array, with every double shown by its bits. -/
def exactItems : List Json → List Json
  | [] => []
  | d :: rest => exact d :: exactItems rest

/-- The members of an object, with every double shown by its bits. -/
def exactMembers : List (String × Json) → List (String × Json)
  | [] => []
  | (key, d) :: rest => (key, exact d) :: exactMembers rest

end

end GraphLang.Json
