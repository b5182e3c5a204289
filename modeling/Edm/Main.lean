import Edm.Command.Run

/-!
# Main

The command on the files of the system: finds what is at the paths, runs the request, and writes what comes
of it.  Notes are written as they are handed over.
-/

namespace Edm

namespace Command

/-- What is found at a path; a file that cannot be read counts as missing. -/
def find (path : Text) : IO (Except PathError Entry) := do
  try
    return .ok (.file (← IO.FS.readBinFile path.toString).toList)
  catch
    | .inappropriateType _ code _ =>
      return if code = 21 then .ok .directory else .error .notDirectory
    | _ => return .error .missing

/-- Writes a file, with the directories on the way to it. -/
def save (path : FilePath) (content : List Char) : IO Unit := do
  IO.FS.createDirAll { path with names := path.names.dropLast }.text.toString
  IO.FS.writeFile path.text.toString (String.ofList content)

/-- The usage of the command on one line. -/
def usage : String :=
  "usage: edm INPUT [-o DIRECTORY] [-x NAMESPACE] [--no-default-excludes] [--entity-container] "
    ++ "[--policy strict|permissive] [--diagnostics text|json] [--show-annotations] [-v]"

/-- The lines of a note with the marks it is handed over with. -/
def Note.lines : Note → List Text
  | .line pieces => [markedLine pieces]
  | .table rows => rows.map fun row => Text.join "\t" (row.map fun p => p.marked.display)
  | .json document => [Text.ofChars document.indented]

/-- Writes what a run came to and returns its exit code. -/
def deliver (outcome : Outcome) : IO UInt32 := do
  for (path, content) in outcome.file.toList do
    save path content
  IO.print (String.ofList outcome.output)
  for note in outcome.notes do
    for line in note.lines do
      IO.eprintln line.toString
  return outcome.exitCode.toUInt32

/-- Runs the command with a list of arguments. -/
def execute (arguments : List Text) : IO UInt32 := do
  match understand arguments with
  | .refused .usage => IO.eprintln usage; return 2
  | .refused .unusablePath => IO.eprintln (RunError.path .unusable).message.toString; return 1
  | .help => IO.println usage; return 0
  | .request r =>
    let output ← match r.outputDir with
      | some path => find path
      | none => pure (.error .missing)
    match r.run (← find r.input) output .verbatim with
    | .error e => IO.eprintln e.message.toString; return 1
    | .ok outcome =>
      if outcome.exitCode = 2 then IO.eprintln usage
      deliver outcome

end Command

end Edm

/-- The command line. -/
def main (arguments : List String) : IO UInt32 :=
  Edm.Command.execute (arguments.map Edm.Text.ofString)
