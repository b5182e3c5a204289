import Edm.Document.Element
import Edm.Xml.Character

/-!
# Markup

A tree whose names and values a document can hold, and its compact form: no space between tags, and
references for the characters that would end a value or would not be read back from it.  An element
becomes such a tree (`Element.toMarkup`) unless one of its names is no name or one of its values no text.
-/

namespace Edm

/-- A tree of tags; a value is kept as it is read, without references. -/
inductive Markup
  | node (name : List Char) (attributes : List (List Char × List Char)) (children : List Markup)
deriving Repr, Inhabited

/-- Why an element cannot be written. -/
inductive WriteError
  | badName
  | notText
deriving DecidableEq, Repr

/-! ### From elements -/

namespace Element

/-- An attribute of a document: the value has to be a text, then the name a name. -/
def writeAttribute (a : Text × Label) : Except WriteError (List Char × List Char) :=
  match a.2 with
  | .text value => match Xml.name? a.1 with
    | some name => .ok (name, Xml.safe value)
    | none => .error .badName
  | _ => .error .notText

mutual

/-- The markup of an element, with `declarations` in front of the attributes. -/
def toMarkupWith (declarations : List (List Char × List Char)) : Element → Except WriteError Markup
  | node tag attributes children => match Xml.name? tag with
    | none => .error .badName
    | some name => do
      let attributes ← attributes.mapM writeAttribute
      let children ← toMarkupList children
      return .node name (declarations ++ attributes) children

/-- The markup of the elements of a list. -/
def toMarkupList : List Element → Except WriteError (List Markup)
  | [] => .ok []
  | e :: es => do
    let m ← toMarkupWith [] e
    let ms ← toMarkupList es
    return m :: ms

end

end Element

/-! ### The compact form -/

namespace Markup

/-- A character of a value as it is written between quotation marks. -/
def escape : Char → List Char
  | '&' => "&amp;".toList
  | '<' => "&lt;".toList
  | '>' => "&gt;".toList
  | '"' => "&quot;".toList
  | '\t' => "&#9;".toList
  | '\n' => "&#10;".toList
  | '\r' => "&#13;".toList
  | c => [c]

/-- An attribute with the space in front of it. -/
def attributeText (a : List Char × List Char) : List Char :=
  ' ' :: a.1 ++ '=' :: '"' :: a.2.flatMap escape ++ ['"']

/-- What stands in an opening tag between its brackets. -/
def head (name : List Char) (attributes : List (List Char × List Char)) : List Char :=
  name ++ attributes.flatMap attributeText

mutual

/-- A tree in its compact form; one without children is a single tag. -/
def compact : Markup → List Char
  | node name attributes [] => '<' :: head name attributes ++ ['/', '>']
  | node name attributes (c :: cs) =>
    '<' :: head name attributes ++ '>' :: compactList (c :: cs) ++ '<' :: '/' :: name ++ ['>']

/-- Trees in their compact form, one after the other. -/
def compactList : List Markup → List Char
  | [] => []
  | m :: ms => compact m ++ compactList ms

end

end Markup

end Edm
