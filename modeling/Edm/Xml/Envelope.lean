import Edm.Xml.Layout
import Edm.Xml.Markup

/-!
# The envelope

The schemas of a document stand inside two elements of the packaging vocabulary.  `Envelope.markup` is the
compact form of such a document, and `Envelope.text` the form with one tag to a line.
-/

namespace Edm

namespace Envelope

/-- The vocabulary of schemas. -/
def schemaVocabulary : List Char := "http://docs.oasis-open.org/odata/ns/edm".toList

/-- The vocabulary of the envelope. -/
def packagingVocabulary : List Char := "http://docs.oasis-open.org/odata/ns/edmx".toList

/-- The vocabulary of extensions. -/
def extensionVocabulary : List Char := "http://aggregator.microsoft.com/internal".toList

/-- The version of the packaging format. -/
def version : List Char := "4.0".toList

/-- The declaration in front of the envelope. -/
def declaration : List Char := "<?xml version=\"1.0\" encoding=\"utf-8\"?>".toList

/-- A schema inside an envelope declares its vocabulary. -/
def schemaDeclarations : List (List Char × List Char) := [("xmlns".toList, schemaVocabulary)]

/-- A schema on its own also declares the extensions. -/
def standaloneDeclarations : List (List Char × List Char) :=
  schemaDeclarations ++ [("xmlns:ags".toList, extensionVocabulary)]

/-- The envelope around trees. -/
def wrap (schemas : List Markup) : Markup :=
  .node "edmx:Edmx".toList
    [("xmlns:ags".toList, extensionVocabulary), ("xmlns:edmx".toList, packagingVocabulary),
      ("Version".toList, version)]
    [.node "edmx:DataServices".toList [] schemas]

/-- The tree of a document with the given schemas. -/
def tree (schemas : List Element) : Except WriteError Markup := do
  return wrap (← schemas.mapM (Element.toMarkupWith schemaDeclarations))

/-- The compact form of a document. -/
def markup (schemas : List Element) : Except WriteError (List Char) := do
  return declaration ++ (← tree schemas).compact

/-- A document with one tag to a line. -/
def text (indent newline : List Char) (schemas : List Element) : Except WriteError (List Char) := do
  return Layout.format indent newline (← markup schemas)

/-- The compact form of a schema on its own. -/
def standalone (schema : Element) : Except WriteError (List Char) := do
  return (← schema.toMarkupWith standaloneDeclarations).compact

end Envelope

end Edm
