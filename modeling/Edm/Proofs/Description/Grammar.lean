import Edm.Loading
import Edm.Proofs.Description.Outline
import Mathlib.Data.List.Infix

/-!
# The grammar of descriptions

Which values describe a program, said without the steps of loading: which fields an entry has and what may
stand in them.  A reference to a type is well formed in the namespace at a path, given the types that the
whole description declares (`IsReference`, `IsBase`); an entry is well formed if its fields are
(`IsDescription`).
-/

namespace Edm

/-! ### Declared types -/

/-- The types that the entries of a namespace declare: the site and the kind of each. -/
def DeclarationEntries.types (path : List Text) (e : DeclarationEntries) : List (Text × Kind) :=
  let at? (kind : Kind) (name : Label) : Text × Kind := (siteOf (Graph.dotted path) name, kind)
  e.enums.map (fun d => at? .enum d.name) ++ e.models.map (fun d => at? .model d.name)
    ++ e.unions.map (fun d => at? .union d.name) ++ e.interfaces.map (fun d => at? .interface d.name)
    ++ e.operations.map (fun d => at? .operation d.name)

mutual

/-- The types that a namespace declares, and then those that the namespaces inside it declare. -/
def NamespaceEntry.types (outer : List Text) : NamespaceEntry → List (Text × Kind)
  | .entry name declarations children =>
    declarations.types (outer ++ [name]) ++ typesOf (outer ++ [name]) children

/-- The types that some namespaces declare. -/
def NamespaceEntry.typesOf (outer : List Text) : List NamespaceEntry → List (Text × Kind)
  | [] => []
  | n :: ns => n.types outer ++ typesOf outer ns

end

/-! ### References -/

/-- What stands at the end of the name of an array type. -/
def brackets : Text := "[]"

/-- The sites that a name may stand for in the namespace at a path: that in the namespace itself comes first,
then those in the namespaces around it, and last the name by itself. -/
def sitesNamed (scope : List Text) (name : Text) : List Text :=
  scope.inits.reverse.map fun path => Graph.dotted (path ++ [name])

/-- The kind of the type that is declared last at a site. -/
def kindAt? (types : List (Text × Kind)) (site : Text) : Option Kind :=
  (types.reverse.find? fun t => t.1 = site).map Prod.snd

/-- The kind of the type that a name refers to in the namespace at a path: an intrinsic type, a built-in
model, or the declared type at the first site that has one. -/
def kindNamed? (types : List (Text × Kind)) (scope : List Text) (name : Text) : Option Kind :=
  if name ∈ intrinsicTypes then some .intrinsic
  else if name ∈ builtInModels then some .model
  else (sitesNamed scope name).findSome? (kindAt? types)

/-- A value refers to a type in the namespace at a path. -/
inductive IsReference (types : List (Text × Kind)) (scope : List Text) : Json → Prop
  /-- A name that is known. -/
  | named {name : Text} (present : name ≠ []) (bare : ¬ brackets <:+ name)
      (known : (kindNamed? types scope name).isSome) : IsReference types scope (.string name)
  /-- A reference with a pair of square brackets after it. -/
  | listed {name : Text} (item : IsReference types scope (.string name)) :
      IsReference types scope (.string (name ++ brackets))
  | array {data element : Json} (kind : data.field? "kind" = some (.string "Array"))
      (found : data.field? "elementType" = some element) (item : IsReference types scope element) :
      IsReference types scope data
  | union {data : Json} {options : List Json} (kind : data.field? "kind" = some (.string "Union"))
      (found : data.field? "options" = some (.array options))
      (each : ∀ option ∈ options, IsReference types scope option) : IsReference types scope data
  | parameter {data name : Json} (kind : data.field? "kind" = some (.string "TemplateParameter"))
      (found : data.field? "name" = some name) : IsReference types scope data
  | intrinsic {data name : Json} (kind : data.field? "kind" = some (.string "Intrinsic"))
      (found : data.field? "name" = some name) : IsReference types scope data
  | text {data : Json} {value : Text} (kind : data.field? "kind" = some (.string "String"))
      (found : data.field? "value" = some (.string value)) : IsReference types scope data
  | boolean {data : Json} {value : Bool} (kind : data.field? "kind" = some (.string "Boolean"))
      (found : data.field? "value" = some (.boolean value)) : IsReference types scope data
  | number {data : Json} {value : Number} (kind : data.field? "kind" = some (.string "Number"))
      (found : data.field? "value" = some (.number value)) : IsReference types scope data

/-- A value is the name of a model in the namespace at a path. -/
def IsBase (types : List (Text × Kind)) (scope : List Text) (data : Json) : Prop :=
  ∃ name, data = .string name ∧ name ≠ [] ∧ ¬ brackets <:+ name ∧ kindNamed? types scope name = some .model

/-! ### Entries -/

/-- A field is not there, or a list whose items all have a property. -/
def EachItem (key : Text) (data : Json) (P : Json → Prop) : Prop :=
  ∃ items, data.listed? key = some items ∧ ∀ item ∈ items, P item

/-- A name under which a namespace can list something; the empty text is none. -/
def IsListable (name : Json) : Prop := name.truthy = true ∧ name.keyable = true

/-- A decorator: its name, or an object with its name and perhaps a list of arguments. -/
def IsDecorator (data : Json) : Prop :=
  (∃ name, data = .string name)
    ∨ (∃ name, data.field? "name" = some (.string name)) ∧ ∃ arguments, data.listed? "args" = some arguments

/-- The value of an enum member. -/
def IsMemberValue : Json → Prop
  | .null | .string _ | .number _ => True
  | _ => False

/-- An enum member. -/
def IsMember (data : Json) : Prop :=
  (∃ name, data.field? "name" = some name) ∧ ∀ value, data.field? "value" = some value → IsMemberValue value

/-- An enum. -/
def IsEnum (data : Json) : Prop :=
  (∃ name, data.field? "name" = some name ∧ IsListable name) ∧ EachItem "members" data IsMember

section

variable (types : List (Text × Kind)) (scope : List Text)

/-- A property or a parameter. -/
def IsProperty (data : Json) : Prop :=
  (∃ name, data.field? "name" = some name ∧ name.keyable = true)
    ∧ (∃ type, data.field? "type" = some type ∧ IsReference types scope type)
    ∧ EachItem "decorators" data IsDecorator

/-- A model; its base may be left out or null. -/
def IsModel (data : Json) : Prop :=
  (∃ name, data.field? "name" = some name ∧ IsListable name)
    ∧ EachItem "decorators" data IsDecorator
    ∧ (∀ base, data.field? "baseModel" = some base → base = .null ∨ IsBase types scope base)
    ∧ EachItem "properties" data (IsProperty types scope)

/-- A union. -/
def IsUnion (data : Json) : Prop :=
  (∃ name, data.field? "name" = some name ∧ IsListable name)
    ∧ EachItem "options" data (IsReference types scope)

/-- An operation whose name has a property.  One without a return type returns nothing. -/
def IsOperation (nameIs : Json → Prop) (data : Json) : Prop :=
  (∃ name, data.field? "name" = some name ∧ nameIs name)
    ∧ EachItem "parameters" data (IsProperty types scope)
    ∧ ∀ result, data.field? "returnType" = some result → IsReference types scope result

/-- An interface; its route may be left out or null. -/
def IsInterface (data : Json) : Prop :=
  (∃ name, data.field? "name" = some name ∧ IsListable name)
    ∧ EachItem "operations" data (IsOperation types scope fun name => name.keyable = true)
    ∧ ∀ route, data.field? "route" = some route → route = .null ∨ ∃ t, route = .string t

/-- The declarations of the namespace at a path. -/
structure HasDeclarations (data : Json) : Prop where
  enums : EachItem "enums" data IsEnum
  models : EachItem "models" data (IsModel types scope)
  unions : EachItem "unions" data (IsUnion types scope)
  interfaces : EachItem "interfaces" data (IsInterface types scope)
  operations : EachItem "operations" data (IsOperation types scope IsListable)

end

/-- A namespace inside the one at a path. -/
inductive IsNamespace (types : List (Text × Kind)) : (outer : List Text) → Json → Prop
  | intro {outer : List Text} {data : Json} {name : Text} {children : List Json}
      (named : data.field? "name" = some (.string name)) (present : name ≠ [])
      (declarations : HasDeclarations types (outer ++ [name]) data)
      (listed : data.listed? "namespaces" = some children)
      (each : ∀ child ∈ children, IsNamespace types (outer ++ [name]) child) : IsNamespace types outer data

/-- A value describes a program: it is an object whose namespaces are well formed, given the types that all of
them declare. -/
def IsDescription (data : Json) : Prop :=
  (∃ fields, data = .object fields)
    ∧ EachItem "namespaces" data (IsNamespace (NamespaceEntry.typesOf [] data.outline) [])

end Edm
