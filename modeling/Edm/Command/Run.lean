import Edm.Command.Arguments
import Edm.Command.Note
import Edm.GraphFile
import Edm.Rendering

/-!
# The command

Loads a graph file, renders it, and writes the document to a file or to the output.  What the command has
to say is handed to a console as notes, after the document is out.  A note that the console refuses is the end
of the run.
-/

namespace Edm

namespace Command

/-- How a run ends: with an exit code, or with a note that the console refuses. -/
inductive Ending
  | exit (code : Nat)
  | refused (note : Note)

/-- The status that an ending leaves; a run that breaks off leaves 1. -/
def Ending.status : Ending → Nat
  | exit code => code
  | refused _ => 1

/-- What a run comes to. -/
structure Outcome where
  ending : Ending
  output : List Char := []
  /-- The notes that are printed. -/
  notes : List Note := []
  /-- A file that is written. -/
  file : Option (FilePath × List Char) := none

/-- The exit code that a run leaves. -/
def Outcome.exitCode (o : Outcome) : Nat := o.ending.status

/-- Why a run stops short. -/
inductive RunError
  | path (e : PathError)
  | load (e : LoadError)
  | render (e : RenderError)

/-- What is said about a run that stops short. -/
def RunError.message : RunError → Text
  | .path _ => "a path cannot be used"
  | .load e => e.message.getD "a name or a number cannot be used"
  | .render (.document .notText) => "a name is no text"
  | .render (.document .lacking) => "a node lacks a name or a kind"
  | .render (.write .badName) => "a name cannot be written"
  | .render (.write .notText) => "a value cannot be written"

/-- The status that a run leaves; one that stops short leaves 1. -/
def status : Except RunError Outcome → Nat
  | .ok o => o.exitCode
  | .error _ => 1

/-- The outcome for arguments that are not understood. -/
def usageError : Outcome := { ending := .exit 2 }

/-- The outcome of handing notes to a console and leaving with a code if it prints them all. -/
def Console.conclude (console : Console) (notes : List Note) (code : Nat) : Outcome :=
  { ending := match console.refused? notes with
      | some note => .refused note
      | none => .exit code
    notes := console.printed notes }

/-! ### Notes -/

/-- The first row of a table. -/
def header (titles : List String) : List Piece := titles.map fun t => Piece.plain (Text.ofString t)

/-- The bindings of all annotated nodes. -/
def annotationNote (p : Program) : Note :=
  let rows := p.store.annotatedNodes.flatMap fun node =>
    (p.store.annotationsFor node).map fun (kind, value) =>
      [{ label := p.describe node }, .plain node.tag, { label := kind.name }, .plain value.quoted]
  .table (header ["Node", "Kind", "Annotation", "Value"] :: rows)

/-- The colour of a severity. -/
def colour : Severity → Style
  | .error => .red
  | .warning => .yellow
  | .info => .blue

/-- A diagnostic as a row of a table. -/
def diagnosticRow (d : Diagnostic) : List Piece :=
  [.plain d.code.word, .styled (colour d.severity) d.severity.word, { label := d.site },
    { label := d.message }]

/-- Diagnostics as a table and a summary; nothing if there are none. -/
def textNotes (r : RenderResult) : List Note :=
  if r.diagnostics.isEmpty then []
  else
    let counts : Text := " " ++ Number.integerText r.errorCount ++ " error(s), "
      ++ Number.integerText r.warningCount ++ " warning(s)"
    [.table (header ["Code", "Severity", "Site", "Message"] :: r.diagnostics.map diagnosticRow),
      .line [.styled .bold "Summary:", .plain counts]]

/-- A diagnostic as an object. -/
def diagnosticJson (d : Diagnostic) : Json :=
  .object [("code", .string d.code.word), ("severity", .string d.severity.word), ("site", d.site.toJson),
    ("message", d.message.toJson)]

/-- Diagnostics as a JSON document. -/
def jsonNote (path : Text) (r : RenderResult) : Note :=
  .json (.object [("output", .string path), ("error_count", .number (.integer r.errorCount)),
    ("warning_count", .number (.integer r.warningCount)),
    ("diagnostics", .array (r.diagnostics.map diagnosticJson))])

/-! ### Running -/

/-- The render options of a request. -/
def Request.options (r : Request) : RenderOptions :=
  { excluded := if r.defaultExcludes then defaultExcluded ++ r.excluded else r.excluded
    entityContainer := r.entityContainer }

/-- The path of the file that a request asks for. -/
def Request.target? (r : Request) : Option FilePath := r.outputDir.map r.options.documentPath

/-- What a request that is rendered has to say: where the document is, the annotations, the diagnostics. -/
def Request.notes (r : Request) (p : Program) (result : RenderResult) : List Note :=
  let path : Text := (r.target?.map FilePath.text).getD []
  let written := match r.target? with
    | some _ => [.line [.styled .green "✓", .plain (" Wrote " ++ path)]]
    | none => []
  let annotations := if r.showAnnotations then [annotationNote p] else []
  let diagnostics := if r.jsonDiagnostics then [jsonNote path result] else textNotes result
  written ++ annotations ++ diagnostics

/-- Renders a loaded program as a request asks. -/
def Request.render (r : Request) (p : Program) (console : Console) : Except RunError Outcome :=
  match p.render r.options (some p.routes) with
  | .error e => .error (.render e)
  | .ok result =>
    .ok
      { console.conclude (r.notes p result) (if r.strict && !result.isClean then 1 else 0) with
        output := if r.target?.isSome then [] else result.text ++ ['\n']
        file := r.target?.map fun path => (path, result.text) }

/-- Runs a request on what is found at its input and at its output directory. -/
def Request.run (r : Request) (input output : Except PathError Entry) (console : Console) :
    Except RunError Outcome :=
  match output, input with
  | .ok (.file _), _ => .ok usageError
  | _, .error .unusable => .error (.path .unusable)
  | _, .error _ => .ok usageError
  | _, .ok entry =>
    if r.hasSurplus then .ok usageError
    else match Program.loadFile (FilePath.ofText r.input).text (.ok entry) with
      | .ok p => r.render p console
      | .error e =>
        if e.isAboutDescription then
          let reason := Piece.plain (" " ++ e.message.getD [])
          .ok (console.conclude [.line [.styled .red "Error:", reason]] 1)
        else .error (.load e)

/-- The outcome in a directory, where its file may not be writable. -/
def Outcome.writtenIn (o : Outcome) (d : Directory) : Except RunError Outcome :=
  match o.file.bind fun f => d.obstacle? f.1 with
  | some e => .error (.path e)
  | none => .ok o

/-- Runs the command in a directory.  All notes are printed unless another console is given. -/
def run (d : Directory) (arguments : List Text) (console : Console := .verbatim) : Except RunError Outcome :=
  match understand arguments with
  | .refused .usage => .ok usageError
  | .refused .unusablePath => .error (.path .unusable)
  | .help => .ok { ending := .exit 0 }
  | .request r => do
    let output := (r.outputDir.map d.look).getD (.error .missing)
    (← r.run (d.look r.input) output console).writtenIn d

end Command

end Edm
