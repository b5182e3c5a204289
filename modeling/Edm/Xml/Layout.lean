import Edm.Text.Blank
import Edm.Text.Word

/-!
# Layout of markup

`Layout.format` puts each tag of a text on a line of its own, indented by its depth.  It sees no tree: the
text is cut wherever a closing bracket, perhaps blanks, and an opening bracket meet, and a piece counts as
an opening or a closing tag by its first and last characters.
-/

namespace Edm

namespace Layout

/-- The pieces with one more character in front of the first. -/
def consFirst (c : Char) : List (List Char) → List (List Char)
  | [] => [[c]]
  | piece :: rest => (c :: piece) :: rest

mutual

/-- The pieces of a text between the places where `>`, blanks and `<` follow each other. -/
def pieces : List Char → List (List Char)
  | [] => [[]]
  | c :: cs =>
    if c = '>' then
      match piecesAfterGap cs with
      | some rest => [] :: rest
      | none => consFirst c (pieces cs)
    else consFirst c (pieces cs)

/-- The pieces of what follows blanks and `<`, if a text starts with these. -/
def piecesAfterGap : List Char → Option (List (List Char))
  | [] => none
  | c :: cs =>
    if c = '<' then some (pieces cs)
    else if Blank.isBlank c then piecesAfterGap cs
    else none

end

/-- A text without the bracket that opens it. -/
def dropOpening : List Char → List Char
  | '<' :: cs => cs
  | cs => cs

/-- A text without the bracket that closes it. -/
def dropClosing (cs : List Char) : List Char :=
  if cs.getLast? = some '>' then cs.dropLast else cs

/-- Pieces without the bracket at the start of the first and the one at the end of the last. -/
def dropOuter : List (List Char) → List (List Char)
  | [] => []
  | first :: rest => match (dropOpening first :: rest).reverse with
    | [] => []
    | last :: before => before.reverse ++ [dropClosing last]

/-- Whether a piece is a closing tag. -/
def isClosing : List Char → Bool
  | '/' :: c :: _ => Word.isWord c
  | _ => false

/-- Whether what follows the first character of a piece lets it be an opening tag: it does not end in a
slash, and it holds no closing bracket before its last character. -/
def isOpenBody (body : List Char) : Bool :=
  body.isEmpty || (body.getLast? != some '/' && !body.dropLast.contains '>')

/-- Whether a piece is an opening tag; a line feed at its end does not count. -/
def isOpening : List Char → Bool
  | [] => false
  | c :: body =>
    Word.isWord c && (isOpenBody body || (body.getLast? == some '\n' && isOpenBody body.dropLast))

/-- The lines for pieces, the first of them at the given depth. -/
def lines (indent : List Char) : (depth : Nat) → List (List Char) → List (List Char)
  | _, [] => []
  | depth, piece :: rest =>
    let depth := if isClosing piece then depth - 1 else depth
    let line := (List.replicate depth indent).flatten ++ '<' :: piece ++ ['>']
    line :: lines indent (if isOpening piece then depth + 1 else depth) rest

/-- A text with one tag to a line, each indented by its depth.  A document consists of characters, so halves of
surrogate pairs (`CodePoint.surrogate`) are left out here and in the layout. -/
def format (indent newline cs : List Char) : List Char :=
  match pieces (Blank.trim cs) with
  | [[]] => []
  | ps => newline.intercalate (lines indent 0 (dropOuter ps))

end Layout

end Edm
