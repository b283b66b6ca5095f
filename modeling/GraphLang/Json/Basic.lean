import GraphLang.Decimal.Style

/-!
# JSON documents

A document keeps the order of its object members and tells whole numbers from
numbers with a fraction or an exponent. A text may hold parts that are well formed
and stand for no value; a reader may only skip them. Writing is compact or indented.
-/

namespace GraphLang

/-- A JSON document. -/
inductive Json where
  /-- The null document. -/
  | null
  /-- A truth value. -/
  | bool (b : Bool)
  /-- A whole number. -/
  | int (n : Int)
  /-- A number with a fraction or an exponent, or one too large for a word. -/
  | float (x : Float)
  /-- A text. -/
  | str (s : String)
  /-- An array. -/
  | arr (items : List Json)
  /-- An object, its members in the order written. -/
  | obj (members : List (String × Json))
  /-- A part that stands for no value: half of a surrogate pair, a number beyond the range of
  doubles, or more nesting than is allowed. -/
  | unreadable
deriving Inhabited

namespace Json

/-- A natural number as a document. -/
def nat (n : Nat) : Json := .int n

/-- A document, or null where there is none. -/
def option (d : Option Json) : Json := d.getD .null

/-- The first member of that name. -/
def member? (d : Json) (key : String) : Option Json :=
  match d with
  | .obj members => (members.find? (·.1 == key)).map (·.2)
  | _ => none

mutual

/-- How deep a document is nested. -/
def depth : Json → Nat
  | .arr items => depthItems items + 1
  | .obj members => depthMembers members + 1
  | _ => 1

/-- The depth of the deepest item. -/
def depthItems : List Json → Nat
  | [] => 0
  | d :: rest => max (depth d) (depthItems rest)

/-- The depth of the deepest member. -/
def depthMembers : List (String × Json) → Nat
  | [] => 0
  | (_, d) :: rest => max (depth d) (depthMembers rest)

end

/-- How one character is written inside a JSON text. -/
def escapeChar (c : Char) : String :=
  match c with
  | '"' => "\\\""
  | '\\' => "\\\\"
  | '\n' => "\\n"
  | '\r' => "\\r"
  | '\t' => "\\t"
  | '\x08' => "\\b"
  | '\x0c' => "\\f"
  | c =>
    if c.toNat < 32 then
      let digits := Nat.toDigits 16 c.toNat
      "\\u" ++ String.ofList (List.replicate (4 - digits.length) '0' ++ digits)
    else String.singleton c

/-- A text between quotes. -/
def quote (s : String) : String :=
  s.foldl (fun out c => out ++ escapeChar c) "\"" ++ "\""

/-- A double; what is not a number is written as null. -/
def writeFloat (x : Float) : String :=
  if x.isFinite then Decimal.Style.document.write x else "null"

/-- The text of a whole number. -/
def writeInt (n : Int) : String :=
  (if n < 0 then "-" else "") ++ Decimal.digitText n.natAbs

mutual

/-- The text of a document without blanks. -/
def compress : Json → String
  | .null => "null"
  | .bool b => if b then "true" else "false"
  | .int n => writeInt n
  | .float x => writeFloat x
  | .str s => quote s
  | .arr items => "[" ++ compressItems items ++ "]"
  | .obj members => "\x7b" ++ compressMembers members ++ "\x7d"
  | .unreadable => "null"

/-- The texts of array items, with commas between them. -/
def compressItems : List Json → String
  | [] => ""
  | [d] => compress d
  | d :: rest => compress d ++ "," ++ compressItems rest

/-- The texts of object members, with commas between them. -/
def compressMembers : List (String × Json) → String
  | [] => ""
  | [(k, d)] => quote k ++ ":" ++ compress d
  | (k, d) :: rest => quote k ++ ":" ++ compress d ++ "," ++ compressMembers rest

end

/-- A new line followed by `depth` steps of indentation. -/
def newline (depth : Nat) : String :=
  "\n" ++ String.ofList (List.replicate (2 * depth) ' ')

mutual

/-- The text of a document with one item a line, indented by two blanks a level. -/
def prettyAt (depth : Nat) : Json → String
  | .null => "null"
  | .bool b => if b then "true" else "false"
  | .int n => writeInt n
  | .float x => writeFloat x
  | .str s => quote s
  | .arr [] => "[]"
  | .arr items => "[" ++ prettyItems (depth + 1) items ++ newline depth ++ "]"
  | .obj [] => "\x7b\x7d"
  | .obj members => "\x7b" ++ prettyMembers (depth + 1) members ++ newline depth ++ "\x7d"
  | .unreadable => "null"

/-- The lines of array items. -/
def prettyItems (depth : Nat) : List Json → String
  | [] => ""
  | [d] => newline depth ++ prettyAt depth d
  | d :: rest => newline depth ++ prettyAt depth d ++ "," ++ prettyItems depth rest

/-- The lines of object members. -/
def prettyMembers (depth : Nat) : List (String × Json) → String
  | [] => ""
  | [(k, d)] => newline depth ++ quote k ++ ": " ++ prettyAt depth d
  | (k, d) :: rest =>
    newline depth ++ quote k ++ ": " ++ prettyAt depth d ++ "," ++ prettyMembers depth rest

end

/-- The indented text of a document. -/
def pretty (d : Json) : String := prettyAt 0 d

end Json

end GraphLang
