import FoamTray.Task
import FoamTray.Text.Timestamp

/-! # The command line

    `--manifest FILE [--config-file FILE] TASK --workspace FILE`, where the task is `validate`
    (with `--svg FILE` for a drawing), `export` (with `--output FILE`, and `--svg FILE` for a
    drawing) or `normalize` (with `--output FILE`).
-/

namespace FoamTray.CommandLine

open FoamTray

/-- The value that follows one of the given flags. -/
def flag? (names : List String) : List String → Option String
  | name :: value :: rest => if name ∈ names then some value else flag? names (value :: rest)
  | _ => none

/-- The content of a file, if it can be read. -/
def readFile? (path : String) : IO FileContent := do
  try
    return some (← IO.FS.readFile path)
  catch _ => return none

/-- The content of a file that has to be named. -/
def readNamed? (path : Option String) : IO FileContent :=
  match path with
  | some path => readFile? path
  | none => return none

/-- Writes a file, if one is named. -/
def writeNamed (path : Option String) (content : String) : IO Unit :=
  match path with
  | some path => IO.FS.writeFile path content
  | none => return ()

/-- The time at which a file was written. -/
def writtenAt (path : String) : IO Timestamp := do
  let data ← (← IO.FS.realPath path).metadata
  return ⟨data.modified.sec, data.modified.nsec.toNat⟩

/-- Tells why a task ended without an answer. -/
def fail (e : TaskError) : IO UInt32 := do
  IO.eprintln ("Error: " ++ e.message)
  return 1

/-- Validates the layout of a session. -/
def runValidate (x : Session Single) (args : List String) : IO UInt32 := do
  match Task.validate x with
  | .error e => fail e
  | .ok (answer, drawing) =>
      writeNamed (flag? ["--svg"] args) drawing
      IO.println (Task.fileText answer.toJson)
      return if answer.valid then 0 else 1

/-- Orders the layout of a session. -/
def runExport (x : Session Single) (args : List String) : IO UInt32 := do
  let (outcome, drawing) := Task.order x
  writeNamed (flag? ["--svg"] args) drawing
  match outcome with
  | .error e => fail e
  | .ok doc =>
      writeNamed (flag? ["--output", "-o"] args) (Task.fileText doc.toJson)
      return 0

/-- Writes the workspace of a session anew, stamped with the time of writing. -/
def runNormalize (x : Session Single) (args : List String) : IO UInt32 := do
  match flag? ["--output", "-o"] args with
  | none => return 2
  | some output =>
      IO.FS.writeFile output ""
      let stamp ← writtenAt output
      IO.FS.writeFile output (Task.fileText (Task.normalize x stamp.text).toJson)
      return 0

/-- Opens the files that the arguments name and runs the task that they name. -/
def run (args : List String) : IO UInt32 := do
  let settings ← match flag? ["--config-file", "-c"] args with
    | some path => pure (some (← readFile? path))
    | none => pure none
  let manifest ← readNamed? (flag? ["--manifest", "-m"] args)
  let workspace ← readNamed? (flag? ["--workspace", "-w"] args)
  match Task.openFiles settings manifest workspace with
  | .error e => fail e
  | .ok x =>
      if "validate" ∈ args then runValidate x args
      else if "export" ∈ args then runExport x args
      else if "normalize" ∈ args then runNormalize x args
      else
        IO.eprintln "no task given: validate, export or normalize"
        return 2

end FoamTray.CommandLine

/-- Runs the command line. -/
def main (args : List String) : IO UInt32 := FoamTray.CommandLine.run args
