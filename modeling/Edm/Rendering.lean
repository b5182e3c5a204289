import Edm.Document
import Edm.FilePath
import Edm.Xml.Envelope

/-!
# Rendering

From a program to the text of a document.  Rendering reads the program and changes nothing in it; what it
has to say about types without a name follows the diagnostics of the program.
-/

namespace Edm

/-- How a document is rendered.  The layout is made of characters, without the halves of surrogate pairs that a `Text`
may have. -/
structure RenderOptions where
  excluded : List Text := defaultExcluded
  indent : List Char := [' ', ' ']
  newline : List Char := ['\r', '\n']
  fileName : Text := "csdl.xml"
  entityContainer : Bool := false

/-- The path of the document that is written into a directory. -/
def RenderOptions.documentPath (options : RenderOptions) (directory : Text) : FilePath :=
  (FilePath.ofText directory).append (FilePath.ofText options.fileName)

/-- A document and what was reported about it. -/
structure RenderResult where
  text : List Char
  diagnostics : List Diagnostic := []

namespace RenderResult

/-- How many errors were reported. -/
def errorCount (r : RenderResult) : Nat := Diagnostic.errorCount r.diagnostics

/-- How many warnings were reported. -/
def warningCount (r : RenderResult) : Nat := Diagnostic.warningCount r.diagnostics

/-- Whether no errors were reported. -/
def isClean (r : RenderResult) : Bool := r.errorCount == 0

end RenderResult

/-- Why a document is not rendered: it cannot be put together, or not be written. -/
inductive RenderError
  | document (fault : DocumentFault)
  | write (e : WriteError)
deriving DecidableEq, Repr

namespace Program

/-- The document of a program.  Routes are used only where the options ask for entity sets. -/
def render (p : Program) (options : RenderOptions) (routes : Option Routes) :
    Except RenderError RenderResult := do
  let routes := if options.entityContainer then routes else none
  if let some fault := p.fault? routes options.excluded Graph.root then throw (.document fault)
  let schemas := p.schemas routes options.excluded Graph.root
  let text ← (Envelope.text options.indent options.newline schemas).mapError RenderError.write
  return { text, diagnostics := p.diagnostics ++ p.fallbacks options.excluded Graph.root }

end Program

end Edm
