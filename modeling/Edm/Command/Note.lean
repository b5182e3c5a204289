import Edm.Json.Indented
import Edm.Label

/-!
# Notes

What the command has to say on the error output, made of pieces that can stand out.  A note is handed to a console
with marks around such pieces (`Piece.marked`); the console may refuse it (`Console.refused?`).
-/

namespace Edm

namespace Command

/-- How a piece of a note stands out. -/
inductive Style
  | plain
  | bold
  | red
  | green
  | yellow
  | blue
deriving DecidableEq, Repr

/-- The name of a style in marks; there are no marks for plain text. -/
def Style.name? : Style → Option Text
  | .plain => none
  | .bold => some "bold"
  | .red => some "red"
  | .green => some "green"
  | .yellow => some "yellow"
  | .blue => some "blue"

/-- A label and how it stands out. -/
structure Piece where
  label : Label
  style : Style := .plain
deriving Repr

namespace Piece

/-- A text that does not stand out. -/
def plain (t : Text) : Piece := { label := .text t }

/-- A text that stands out. -/
def styled (style : Style) (t : Text) : Piece := { label := .text t, style }

/-- The label of a piece between the marks of its style. -/
def marked (p : Piece) : Label :=
  match p.style.name? with
  | none => p.label
  | some name => p.label.enclose ("[" ++ name ++ "]") ("[/" ++ name ++ "]")

end Piece

/-- Something for the error output: a line, a table with its header row first, or a JSON document. -/
inductive Note
  | line (pieces : List Piece)
  | table (rows : List (List Piece))
  | json (document : Json)
deriving Repr

/-- The pieces of a line with their marks. -/
def markedLine (pieces : List Piece) : Text := pieces.flatMap fun p => p.marked.display

/-- The texts of a note in which marks are looked for. -/
def Note.marked : Note → List Text
  | .line pieces => [markedLine pieces]
  | .table rows => rows.flatMap fun row => row.map fun p => p.marked.display
  | .json _ => []

/-! ### Consoles -/

/-- A display for notes.  It lays them out by rules of its own and may refuse one: it looks for marks in all of a text,
also in the names and paths that are part of it. -/
structure Console where
  prints : Note → Bool

namespace Console

/-- The console that prints every note, as it is. -/
def verbatim : Console := { prints := fun _ => true }

/-- The notes that are printed of those that are handed over in turn. -/
def printed (console : Console) (notes : List Note) : List Note := notes.takeWhile console.prints

/-- The first note that is refused. -/
def refused? (console : Console) (notes : List Note) : Option Note := notes.find? fun note => !console.prints note

theorem refused?_eq_none {console : Console} {notes : List Note} :
    console.refused? notes = none ↔ ∀ note ∈ notes, console.prints note = true := by
  simp [refused?]

end Console

end Command

end Edm
