import GraphLang.Text.CaseTable
import GraphLang.Text.Cased

/-!
# Lower and upper case of texts

Full case mapping: one character may become several, and a capital sigma becomes
the final form of the letter exactly where it ends a word.
-/

namespace GraphLang.Text

/-- The image of a code point under a case mapping given by runs and expansions. -/
def mapCodePoint (runs : List CaseRun) (expansions : List (Nat × List Nat)) (n : Nat) : List Nat :=
  match expansions.find? (·.1 == n) with
  | some entry => entry.2
  | none =>
    match runs.find? (·.has n) with
    | some run => [((n : Int) + run.shift).toNat]
    | none => [n]

/-- The lower case of one character, whatever its neighbours. -/
def lowerChar (c : Char) : List Char :=
  if c.toNat < 128 then [c.toLower]
  else (mapCodePoint lowerRuns lowerExpansions c.toNat).map Char.ofNat

/-- The upper case of one character. -/
def upperChar (c : Char) : List Char :=
  if c.toNat < 128 then [c.toUpper]
  else (mapCodePoint upperRuns upperExpansions c.toNat).map Char.ofNat

/-- Whether the first character that is not skipped is a letter with case. -/
def reachesCased (chars : List Char) : Bool :=
  match chars.dropWhile isCaseIgnorable with
  | [] => false
  | c :: _ => isCased c

/-- Lower case of `rest`, where `before` holds the characters already passed, nearest first. -/
def lowerFrom (before : List Char) : List Char → List Char
  | [] => []
  | c :: rest =>
    let image :=
      if c = 'Σ' then
        if reachesCased before && !reachesCased rest then ['ς'] else ['σ']
      else lowerChar c
    image ++ lowerFrom (c :: before) rest

/-- The lower case of a text. -/
def lowercase (s : String) : String :=
  String.ofList (lowerFrom [] s.toList)

/-- The upper case of a text. -/
def uppercase (s : String) : String :=
  String.ofList (s.toList.flatMap upperChar)

end GraphLang.Text
