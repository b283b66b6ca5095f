import GraphLang.Command.Response

/-!
# The command line program

Reads the file that the command names, writes what the command answers, and saves
the file that it makes.
-/

namespace GraphLang

/-- How the program is used. -/
def Command.usage : String :=
  "Execution graph tools\n\n" ++
  "Usage: weft <COMMAND>\n\n" ++
  "Commands:\n" ++
  "  run FILE [--optimize] [--trace] [--max-depth N]  evaluate a unit and print its value\n" ++
  "  inspect FILE                                     validate a unit and describe it\n" ++
  "  optimize FILE [-o OUTPUT]                        optimize a unit and write it\n" ++
  "  help                                             print this text\n"

/-- Writes an answer and gives its exit code. -/
def Response.emit (r : Response) : IO UInt32 := do
  IO.print r.stdout
  IO.eprint r.stderr
  return r.code.toUInt32

/-- Saves the file of an answer, then writes the answer. -/
def Response.saveAndEmit (r : Response) : IO UInt32 := do
  match r.save with
  | none => r.emit
  | some (path, text) =>
    match ← (IO.FS.writeFile path text).toBaseIO with
    | .ok _ => r.emit
    | .error e => (r.unsaved path (toString e)).emit

end GraphLang

open GraphLang

/-- Reads the command line and answers it. -/
def main (args : List String) : IO UInt32 := do
  match Command.parse args with
  | .error cause =>
    if cause == .help then IO.print Command.usage else IO.eprint Command.usage
    return cause.code.toUInt32
  | .ok command =>
    let verbosity := ((← IO.getEnv "WEFT_LOG").map Verbosity.ofWord).getD .silent
    let content ← (IO.FS.readFile command.file).toBaseIO
    match command.respond verbosity Eval.plenty (content.mapError toString) with
    | some r => r.saveAndEmit
    | none => return 1
