import GraphLang.Command.Arguments
import GraphLang.Eval.Host
import GraphLang.Program.Document

/-!
# What commands answer

From the text of a file to the exit code, to what is written to the two standard
streams, and to the file that is saved.
-/

namespace GraphLang

/-- The answer of a command. -/
structure Response where
  /-- The exit code. -/
  code : Nat
  /-- What is written to the standard output. -/
  stdout : String
  /-- What is written to the standard error. -/
  stderr : String
  /-- The path and the content of the file to save, if there is one. -/
  save : Option (String × String)
deriving Repr, DecidableEq, Inhabited

/-- Why a file does not hold a program. -/
inductive FileError where
  /-- It cannot be read. -/
  | unreadable (path reason : String)
  /-- Its text, of so many bytes, is no program. -/
  | notProgram (path : String) (bytes : Nat)
deriving Repr, DecidableEq, Inhabited

/-- The words for a level of detail; a word that asks for less than `debug` keeps no events. -/
def Verbosity.ofWord (text : String) : Verbosity :=
  if text == "debug" then .debug else if text == "trace" then .trace else .silent

namespace Command

/-- Lines of text, each with its end. -/
def unlines (lines : List String) : String := String.join (lines.map (· ++ "\n"))

/-- The lines of the events that are kept. -/
def eventLines (verbosity : Verbosity) (events : List Event) : String :=
  unlines ((events.filter fun e => verbosity.keeps e.level).map Event.line)

/-- What is reported when a file was read. -/
def readEvent (path : String) (bytes : Nat) : Event :=
  ⟨.debug, "weft", "read execution graph", [("file", path), ("bytes", toString bytes)]⟩

/-- The answer to a file that holds no program. -/
def fileFailed (verbosity : Verbosity) : FileError → Response
  | .unreadable path reason => ⟨3, "", s!"Error: failed to read '{path}': {reason}\n", none⟩
  | .notProgram path bytes =>
    ⟨2, "", eventLines verbosity [readEvent path bytes] ++
      s!"Error: '{path}' is not an execution graph\n", none⟩

/-- The lines about the faults of a program. -/
def malformed (errors : List ConstructionError) : String :=
  s!"Malformed execution graph with {errors.length} error(s):\n" ++
    unlines (errors.map fun e => "  - " ++ e.message)

/-- Procedures of the host, of which the command line has none. -/
def noNatives : String → HostNative := fun _ _ store => (.ok .nil, store)

/-- What the end of a run adds to the two streams, and the exit code. -/
def finish (store : Store) : Except EvalError Value → Nat × String × String
  | .ok .nil => (0, "", "")
  | .ok v => (0, store.display v ++ "\n", "")
  | .error (.construction errors) => (2, "", malformed errors)
  | .error e => (1, "", e.message store ++ "\n")

/-- Runs a program. -/
def runProgram (p : Program) (config : Config) (verbosity : Verbosity) (fuel : Nat) :
    Option Response := do
  let (result, w) ← Eval.execute fuel p (.evaluator config verbosity noNatives)
  let (code, out, err) := finish w.store result
  return ⟨code, unlines w.output.toList ++ out,
    eventLines verbosity w.events.toList ++ TraceEntry.lines w.control.trace ++ err, none⟩

/-- The description of a function. -/
def describeFunction (p : Program) (d : FunctionDef) : Json :=
  .obj [
    ("free_variables", .arr ((p.freeVariables d.id).map .str)),
    ("id", .nat d.id),
    ("name", .str d.name),
    ("nodes", .nat (p.functionNodes d.id).length),
    ("params", .arr (d.params.map .str)),
    ("parent", .option (d.parent.map .nat))]

/-- The description of a program with the given faults. -/
def describe (p : Program) (errors : List ConstructionError) : Json :=
  .obj [
    ("edges", .nat p.graph.edgeCount),
    ("errors", .arr (errors.map fun e => .str e.message)),
    ("functions", .arr (p.functionDefs.map (describeFunction p))),
    ("live_functions", .nat p.liveFunctions.size),
    ("name", .str p.name),
    ("nodes", .nat p.graph.nodeCount)]

/-- What is reported about the faults of a program, if it has some. -/
def rejections (p : Program) : List ConstructionError → List Event
  | [] => []
  | errors => [p.rejection errors]

/-- Describes a program, unless its check breaks off. -/
def inspectProgram (p : Program) (verbosity : Verbosity) : Option Response :=
  match p.validate with
  | .error _ => none
  | .ok errors =>
    some ⟨if errors.isEmpty then 0 else 2, (describe p errors).pretty ++ "\n",
      eventLines verbosity (rejections p errors), none⟩

/-- Optimizes a program, unless its check breaks off. -/
def optimizeProgram (p : Program) (output : Option String) (verbosity : Verbosity) :
    Option Response :=
  match p.validate with
  | .error _ => none
  | .ok [] =>
    let (report, optimized, events) := p.optimize
    let err := eventLines verbosity events ++ report.encode.compress ++ "\n"
    let text := optimized.encode.pretty
    match output with
    | some path => some ⟨0, "", err, some (path, text)⟩
    | none => some ⟨0, text ++ "\n", err, none⟩
  | .ok errors =>
    some ⟨2, "", eventLines verbosity [p.rejection errors] ++ malformed errors, none⟩

/-- Does what a command asks for with a program. -/
def respondTo (verbosity : Verbosity) (fuel : Nat) (p : Program) : Command → Option Response
  | .run _ optimized traced depth => runProgram p ⟨traced, depth, optimized⟩ verbosity fuel
  | .inspect _ => inspectProgram p verbosity
  | .optimize _ output => optimizeProgram p output verbosity

/-- Reads the program in the text of a file, or in what the file failed with. -/
def readProgram (path : String) : Except String String → Except FileError (Nat × Program)
  | .error reason => .error (.unreadable path reason)
  | .ok text =>
    match Program.parse text with
    | some p => .ok (text.utf8ByteSize, p)
    | none => .error (.notProgram path text.utf8ByteSize)

/-- Answers a command, given what reading its file came to. There is no answer where a run takes
more than the given fuel, or where the check of the program breaks off. -/
def respond (c : Command) (verbosity : Verbosity) (fuel : Nat) (content : Except String String) :
    Option Response :=
  match readProgram c.file content with
  | .error e => some (fileFailed verbosity e)
  | .ok (bytes, p) => do
    let r ← c.respondTo verbosity fuel p
    return { r with stderr := eventLines verbosity [readEvent c.file bytes] ++ r.stderr }

end Command

/-- The answer where the file could not be saved. -/
def Response.unsaved (r : Response) (path reason : String) : Response :=
  { r with
    code := 3
    stderr := r.stderr ++ s!"Error: failed to write '{path}': {reason}\n"
    save := none }

end GraphLang
