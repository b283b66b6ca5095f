import GraphLang.Text.Unprinted

/-!
# Quoted texts

A text between double quotes, with escapes for the quote, the backslash, the
common controls and every character that has no visible form of its own.
-/

namespace GraphLang.Text

/-- A hexadecimal digit, in lower case. -/
def hexDigit (n : Nat) : Char :=
  if n < 10 then Char.ofNat (48 + n) else Char.ofNat (87 + n)

/-- The hexadecimal digits of a number, without leading zeros. -/
def hex (n : Nat) : String :=
  String.ofList (Nat.toDigits 16 n)

/-- The hexadecimal digits of a number, filled with zeros to the given width. -/
def hexPadded (width n : Nat) : String :=
  let digits := Nat.toDigits 16 n
  String.ofList (List.replicate (width - digits.length) '0' ++ digits)

/-- How one character is written inside quotes. -/
def quoteChar (c : Char) : String :=
  match c with
  | '\x00' => "\\0"
  | '\t' => "\\t"
  | '\r' => "\\r"
  | '\n' => "\\n"
  | '"' => "\\\""
  | '\\' => "\\\\"
  | c => if isUnprinted c then "\\u\x7b" ++ hex c.toNat ++ "\x7d" else String.singleton c

/-- The text between double quotes, with escapes. -/
def quoted (s : String) : String :=
  s.foldl (fun out c => out ++ quoteChar c) "\"" ++ "\""

end GraphLang.Text
