import GraphLang.Decimal.Scan
import GraphLang.Json.Basic

/-!
# Reading JSON

A text is one document with blanks around it. A part of it that is well formed
and stands for no value is kept as such: it matters only to those who read it.
-/

namespace GraphLang.Json

/-- The characters after the blanks at the front. -/
def skipBlanks (text : List Char) : List Char :=
  text.dropWhile fun c => c == ' ' || c == '\n' || c == '\t' || c == '\r'

/-- The value of a hexadecimal digit. -/
def hexValue (c : Char) : Option Nat :=
  if '0' ≤ c && c ≤ '9' then some (c.toNat - 48)
  else if 'a' ≤ c && c ≤ 'f' then some (c.toNat - 87)
  else if 'A' ≤ c && c ≤ 'F' then some (c.toNat - 55)
  else none

/-- Reads a code unit of four hexadecimal digits. -/
def readUnit : List Char → Option (Nat × List Char)
  | a :: b :: c :: d :: rest => do
    let a ← hexValue a
    let b ← hexValue b
    let c ← hexValue c
    let d ← hexValue d
    return (4096 * a + 256 * b + 16 * c + d, rest)
  | _ => none

/-- Reads an escaped code unit that is the lower half of a surrogate pair. -/
def lowHalf? : List Char → Option (Nat × List Char)
  | '\\' :: 'u' :: rest => do
    let (unit, rest) ← readUnit rest
    if 0xDC00 ≤ unit && unit < 0xE000 then return (unit, rest) else none
  | _ => none

/-- Reads what follows a backslash. Half of a surrogate pair is read alone and is no character. -/
def readEscape : List Char → Option (Option Char × List Char)
  | '"' :: rest => some (some '"', rest)
  | '\\' :: rest => some (some '\\', rest)
  | '/' :: rest => some (some '/', rest)
  | 'b' :: rest => some (some '\x08', rest)
  | 'f' :: rest => some (some '\x0c', rest)
  | 'n' :: rest => some (some '\n', rest)
  | 'r' :: rest => some (some '\r', rest)
  | 't' :: rest => some (some '\t', rest)
  | 'u' :: rest =>
    match readUnit rest with
    | none => none
    | some (unit, rest) =>
      if unit < 0xD800 || 0xE000 ≤ unit then some (some (Char.ofNat unit), rest)
      else
        match if unit < 0xDC00 then lowHalf? rest else none with
        | some (low, rest) =>
          some (some (Char.ofNat (0x10000 + 1024 * (unit - 0xD800) + (low - 0xDC00))), rest)
        | none => some (none, rest)
  | _ => none

/-- Reads the rest of a text after its opening quote; `out` holds what was read, last first, as
long as all of it are characters. -/
def readText : Nat → Option (List Char) → List Char → Option (Option String × List Char)
  | 0, _, _ => none
  | _ + 1, _, [] => none
  | fuel + 1, out, c :: rest =>
    if c == '"' then some (out.map fun out => String.ofList out.reverse, rest)
    else if c == '\\' then
      match readEscape rest with
      | some (c, rest) => readText fuel (do return (← c) :: (← out)) rest
      | none => none
    else if c.toNat < 32 then none
    else readText fuel (out.map (c :: ·)) rest

/-- The name of an object member, given also the text after its opening quote. A number must not be
written with escapes, so a name of digits is taken as it is written. -/
def nameAt (text : List Char) (name : String) : String :=
  if name.toList.all Decimal.isDigit then String.ofList (text.take name.length) else name

/-- Reads the name of an object member after its opening quote. -/
def readName (fuel : Nat) (text : List Char) : Option (Option String × List Char) :=
  (readText fuel (some []) text).map fun (name, rest) => (name.map (nameAt text), rest)

/-- The number as a document: a whole number that fits into a word stays one. -/
def ofWritten (w : Decimal.Written) : Json :=
  let magnitude := Decimal.digitsValue w.whole
  let fits :=
    if w.negative then 0 < magnitude && magnitude ≤ Nat.pow 2 63
    else magnitude < UInt64.size
  if w.isInteger && fits then .int (if w.negative then -(magnitude : Int) else magnitude)
  else
    match w.documentValue with
    | some x => .float x
    | none => .unreadable

/-- A document inside so many allowed levels of nesting. -/
def within (depth : Nat) (d : Json) : Json := if depth ≤ 1 then .unreadable else d

/-- An object with the given members, if all their names are texts. -/
def ofMembers (members : List (Option String × Json)) : Json :=
  match members.mapM fun (name, d) => name.map fun name => (name, d) with
  | some members => .obj members
  | none => .unreadable

mutual

/-- Reads one document at the front of the text, inside so many allowed levels of nesting. -/
def readDocument : Nat → Nat → List Char → Option (Json × List Char)
  | 0, _, _ => none
  | fuel + 1, depth, text =>
    match skipBlanks text with
    | 'n' :: 'u' :: 'l' :: 'l' :: rest => some (.null, rest)
    | 't' :: 'r' :: 'u' :: 'e' :: rest => some (.bool true, rest)
    | 'f' :: 'a' :: 'l' :: 's' :: 'e' :: rest => some (.bool false, rest)
    | '"' :: rest => (readText fuel (some []) rest).map fun (s, rest) =>
      ((s.map .str).getD .unreadable, rest)
    | '[' :: rest =>
      match skipBlanks rest with
      | ']' :: rest => some (within depth (.arr []), rest)
      | rest => (readItems fuel (depth - 1) [] rest).map fun (items, rest) =>
        (within depth (.arr items), rest)
    | '\x7b' :: rest =>
      match skipBlanks rest with
      | '\x7d' :: rest => some (within depth (.obj []), rest)
      | rest => (readMembers fuel (depth - 1) [] rest).map fun (members, rest) =>
        (within depth (ofMembers members), rest)
    | rest => (Decimal.scan rest).map fun (w, rest) => (ofWritten w, rest)

/-- Reads the items of an array up to its closing bracket; `out` holds those read, last first. -/
def readItems : Nat → Nat → List Json → List Char → Option (List Json × List Char)
  | 0, _, _, _ => none
  | fuel + 1, depth, out, text =>
    match readDocument fuel depth text with
    | none => none
    | some (d, rest) =>
      match skipBlanks rest with
      | ',' :: rest => readItems fuel depth (d :: out) rest
      | ']' :: rest => some ((d :: out).reverse, rest)
      | _ => none

/-- Reads the members of an object up to its closing brace; `out` holds those read, last first. -/
def readMembers : Nat → Nat → List (Option String × Json) → List Char →
    Option (List (Option String × Json) × List Char)
  | 0, _, _, _ => none
  | fuel + 1, depth, out, text =>
    match skipBlanks text with
    | '"' :: rest =>
      match readName fuel rest with
      | none => none
      | some (name, rest) =>
        match skipBlanks rest with
        | ':' :: rest =>
          match readDocument fuel depth rest with
          | none => none
          | some (d, rest) =>
            match skipBlanks rest with
            | ',' :: rest => readMembers fuel depth ((name, d) :: out) rest
            | '\x7d' :: rest => some (((name, d) :: out).reverse, rest)
            | _ => none
        | _ => none
    | _ => none

end

/-- Reads a text that holds one document. Arrays and objects nested `depth` deep or deeper stand
for no value. -/
def parseWithin (depth : Nat) (text : String) : Option Json :=
  let chars := text.toList
  match readDocument (2 * chars.length + 2) depth chars with
  | some (d, rest) => if (skipBlanks rest).isEmpty then some d else none
  | none => none

/-- How deep the documents of programs may be nested. -/
def nestingLimit : Nat := 128

/-- Reads a text that holds one document of a program. -/
def parse (text : String) : Option Json := parseWithin nestingLimit text

end GraphLang.Json
