/-!
# The words of a command line

A command line names one of three commands, a file, and options in any order. Words
are read from left to right, and the first one that does not fit, or that asks for
help, decides.
-/

namespace GraphLang

/-- What the command line asks for. -/
inductive Command where
  /-- Run a unit: optimized or not, traced or not, with so many calls inside each other. -/
  | run (file : String) (optimize trace : Bool) (maxDepth : Nat)
  /-- Check a unit and describe it. -/
  | inspect (file : String)
  /-- Optimize a unit, and write it to a file or to the standard output. -/
  | optimize (file : String) (output : Option String)
deriving Repr, DecidableEq, Inhabited

/-- The file that a command reads. -/
def Command.file : Command → String
  | .run file .. | .inspect file | .optimize file _ => file

/-- Why a command line names no command. -/
inductive Usage where
  /-- It asks how the program is used. -/
  | help
  /-- It does not fit. -/
  | misuse
deriving Repr, DecidableEq, Inhabited

/-- The exit code of a command line that names no command. -/
def Usage.code : Usage → Nat
  | .help => 0
  | .misuse => 2

namespace Arguments

/-- An option that takes a value. -/
structure ValueOption where
  /-- Its name, after two dashes. -/
  name : String
  /-- Its letter, after one dash, if it has one. -/
  letter : Option Char
  /-- Which values it takes. -/
  accepts : String → Bool

/-- The options of a command. -/
structure Grammar where
  /-- The names of the options without a value. -/
  flags : List String
  /-- The options with a value. -/
  options : List ValueOption

/-- What was read so far. -/
structure Line where
  /-- The file. -/
  file : Option String
  /-- The options without a value. -/
  flags : List String
  /-- The options with a value. -/
  values : List (String × String)
deriving Repr, DecidableEq, Inhabited

/-- Nothing was read so far. -/
def Line.empty : Line := ⟨none, [], []⟩

/-- What one word is to a command. -/
inductive Word where
  /-- It asks for help. -/
  | help
  /-- An option without a value. -/
  | flag (name : String)
  /-- An option with the value it has in the same word. -/
  | option (option : ValueOption) (value : String)
  /-- An option whose value is the next word. -/
  | pending (option : ValueOption)
  /-- All words after this one are files. -/
  | separator
  /-- A file. -/
  | file (path : String)
  /-- It does not fit. -/
  | unknown

/-- A long option, whose name ends at an equals sign. -/
def longWord (g : Grammar) (letters : List Char) : Word :=
  let name := String.ofList (letters.takeWhile (· != '='))
  let value := match letters.dropWhile (· != '=') with
    | _ :: value => some (String.ofList value)
    | [] => none
  match value, g.options.find? (·.name == name) with
  | some value, some option => .option option value
  | none, some option => .pending option
  | some _, none => .unknown
  | none, none =>
    if name == "help" then .help
    else if g.flags.contains name then .flag name
    else .unknown

/-- A short option. Its value can follow the letter, with or without an equals sign. -/
def shortWord (g : Grammar) (letter : Char) (rest : List Char) : Word :=
  match g.options.find? (·.letter == some letter), rest with
  | some option, [] => .pending option
  | some option, '=' :: value => .option option (String.ofList value)
  | some option, value => .option option (String.ofList value)
  | none, _ => if letter == 'h' then .help else .unknown

/-- Tells what a word is. A single dash is a file. -/
def word (g : Grammar) (text : String) : Word :=
  match text.toList with
  | ['-', '-'] => .separator
  | '-' :: '-' :: letters => longWord g letters
  | '-' :: letter :: rest => shortWord g letter rest
  | _ => .file text

/-- Whether a word can be the value of the option before it. -/
def isValue (text : String) : Bool :=
  match text.toList with
  | '-' :: _ :: _ => false
  | _ => true

namespace Line

/-- Takes a file. There is only one, and it has a name. -/
def takeFile (line : Line) (path : String) : Except Usage Line :=
  if line.file.isSome || path.isEmpty then .error .misuse
  else .ok { line with file := some path }

/-- Takes an option without a value, once. -/
def takeFlag (line : Line) (name : String) : Except Usage Line :=
  if line.flags.contains name then .error .misuse
  else .ok { line with flags := name :: line.flags }

/-- Takes an option with a value, once. -/
def takeValue (line : Line) (option : ValueOption) (value : String) : Except Usage Line :=
  if line.values.any (·.1 == option.name) || !option.accepts value then .error .misuse
  else .ok { line with values := (option.name, value) :: line.values }

end Line

/-- Reads words that are all files. -/
def readFiles (line : Line) (words : List String) : Except Usage Line :=
  words.foldlM Line.takeFile line

/-- Reads the words of a command. -/
def readWords (g : Grammar) : List String → Line → Except Usage Line
  | [], line => .ok line
  | text :: rest, line =>
    match word g text with
    | .help => .error .help
    | .unknown => .error .misuse
    | .separator => readFiles line rest
    | .file path =>
      match line.takeFile path with
      | .ok line => readWords g rest line
      | .error usage => .error usage
    | .flag name =>
      match line.takeFlag name with
      | .ok line => readWords g rest line
      | .error usage => .error usage
    | .option option value =>
      match line.takeValue option value with
      | .ok line => readWords g rest line
      | .error usage => .error usage
    | .pending option =>
      match rest with
      | [] => .error .misuse
      | value :: rest =>
        if isValue value then
          match line.takeValue option value with
          | .ok line => readWords g rest line
          | .error usage => .error usage
        else .error .misuse

/-- Reads a number below `2 ^ 64`, with or without a plus sign. -/
def count? (text : String) : Option Nat :=
  let digits := match text.toList with
    | '+' :: digits => digits
    | digits => digits
  if digits.isEmpty || !digits.all Char.isDigit then none
  else
    let n := digits.foldl (fun n c => 10 * n + (c.toNat - '0'.toNat)) 0
    if n < UInt64.size then some n else none

/-- The option that limits calls inside each other. -/
def maxDepth : ValueOption := ⟨"max-depth", none, fun text => (count? text).isSome⟩

/-- The option that names the file to write. -/
def output : ValueOption := ⟨"output", some 'o', fun text => !text.isEmpty⟩

/-- The limit on calls inside each other where none is given. -/
def defaultMaxDepth : Nat := 256

/-- The options of the command that runs a unit. -/
def runGrammar : Grammar := ⟨["optimize", "trace"], [maxDepth]⟩

/-- The options of the command that describes a unit. -/
def inspectGrammar : Grammar := ⟨[], []⟩

/-- The options of the command that optimizes a unit. -/
def optimizeGrammar : Grammar := ⟨[], [output]⟩

/-- The names of the commands that help can be asked about. -/
def topics : List String := ["run", "inspect", "optimize", "help"]

/-- The value that was read for an option. -/
def Line.value? (line : Line) (option : ValueOption) : Option String :=
  (line.values.find? (·.1 == option.name)).map (·.2)

/-- Reads the words of a command and the file that it needs. -/
def readCommand (g : Grammar) (words : List String) : Except Usage (String × Line) := do
  let line ← readWords g words .empty
  match line.file with
  | some file => return (file, line)
  | none => throw .misuse

/-- Whether words ask for help on a topic that there is. -/
def helpOn : List String → Usage
  | [] => .help
  | [topic] => if topics.contains topic then .help else .misuse
  | _ => .misuse

/-- The start of a word that asks for help before any command. -/
def asksHelp (text : String) : Bool :=
  match text.toList with
  | '-' :: 'h' :: _ => true
  | _ => text == "--help"

end Arguments

open Arguments in
/-- Reads a command line. -/
def Command.parse : List String → Except Usage Command
  | "run" :: words => do
    let (file, line) ← readCommand runGrammar words
    let depth := ((line.value? maxDepth).bind count?).getD defaultMaxDepth
    return .run file (line.flags.contains "optimize") (line.flags.contains "trace") depth
  | "inspect" :: words => do
    let (file, _) ← readCommand inspectGrammar words
    return .inspect file
  | "optimize" :: words => do
    let (file, line) ← readCommand optimizeGrammar words
    return .optimize file (line.value? output)
  | "help" :: topics => .error (helpOn topics)
  | text :: _ => .error (if asksHelp text then .help else .misuse)
  | [] => .error .misuse

end GraphLang
