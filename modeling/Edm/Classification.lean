import Edm.Annotation.Standard
import Edm.Graph

/-!
# Classification

How annotations decide the shape of a document: which property is the key of a model, which models are
entities and which are open, and which properties lead to other entities.
-/

namespace Edm

/-- How a model appears: with a key, or without one. -/
inductive ModelClass
  | entity
  | complex
deriving DecidableEq, Repr

/-- The word for a class of models. -/
def ModelClass.word : ModelClass → Text
  | entity => "entity"
  | complex => "complex"

/-- How a property appears: as a value, or as a way to entities that it contains or only refers to. -/
inductive PropertyClass
  | scalar
  | navigation (contained : Bool)
deriving DecidableEq, Repr

namespace PropertyClass

/-- The word for a class of properties. -/
def word : PropertyClass → Text
  | scalar => "scalar"
  | navigation _ => "navigation"

/-- Whether the target belongs to the property. -/
def isContained : PropertyClass → Bool
  | scalar => false
  | navigation contained => contained

end PropertyClass

namespace AnnotationStore

/-- Whether a property is a key. -/
def isKey (s : AnnotationStore) (i : PropertyId) : Bool := s.has .key (.property i)

/-- The name of the key that a property is; its own name where none is bound. -/
def keyName (s : AnnotationStore) (i : PropertyId) (own : Label) : Label :=
  match s.get? .key (.property i) with
  | some v => if v.truthy then Label.ofJson v else own
  | none => own

/-- Whether a model is open. -/
def isOpen (s : AnnotationStore) (i : ModelId) : Bool := s.has .openType (.model i)

/-- The class of a property; containment wins over reference. -/
def propertyClass (s : AnnotationStore) (i : PropertyId) : PropertyClass :=
  if s.has .contains (.property i) then .navigation true
  else if s.has .references (.property i) then .navigation false
  else .scalar

/-- The first property of a model that is a key; what a base model declares does not count. -/
def keyProperty? (s : AnnotationStore) (m : Model) : Option PropertyId :=
  m.properties.values.find? s.isKey

/-- A model with a key is an entity. -/
def modelClass (s : AnnotationStore) (m : Model) : ModelClass :=
  if (s.keyProperty? m).isSome then .entity else .complex

end AnnotationStore

end Edm
