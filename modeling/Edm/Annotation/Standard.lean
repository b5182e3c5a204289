import Edm.Annotation

/-!
# The standard annotations

The kinds of annotations that shape a document: the key of a property, open models, navigation properties
that contain or refer to their targets, and the routes of interfaces.
-/

namespace Edm

namespace Json

/-- Whether a value is a boolean. -/
def isBoolean : Json → Bool
  | boolean _ => true
  | _ => false

/-- Whether a value is a text. -/
def isText : Json → Bool
  | string _ => true
  | _ => false

/-- Whether a value is a text that is not empty. -/
def isNonEmptyText : Json → Bool
  | string t => !t.isEmpty
  | _ => false

end Json

namespace AnnotationKind

/-- The name of the key that a property is. -/
def key : AnnotationKind where
  id := 0
  name := .text "csdl_render.key"
  targets := [.property]
  accepts := Json.isNonEmptyText
  description := .text "a non-empty string"

/-- Marks a model as open. -/
def openType : AnnotationKind where
  id := 1
  name := .text "csdl_render.openType"
  targets := [.model]
  accepts := Json.isBoolean
  description := .text "a boolean"

/-- Marks a property as navigation to a target that it contains. -/
def contains : AnnotationKind where
  id := 2
  name := .text "csdl_render.contains"
  targets := [.property]
  accepts := Json.isBoolean
  description := .text "a boolean"

/-- Marks a property as navigation to a target that it does not contain. -/
def references : AnnotationKind where
  id := 3
  name := .text "csdl_render.references"
  targets := [.property]
  accepts := Json.isBoolean
  description := .text "a boolean"

/-- The route of an interface. -/
def route : AnnotationKind where
  id := 4
  name := .text "csdl_render.route"
  targets := [.interface]
  accepts := Json.isText
  description := .text "a string"

/-- The kinds above, in the order of their numbers; other kinds have greater numbers. -/
def standard : List AnnotationKind := [key, openType, contains, references, route]

end AnnotationKind

end Edm
