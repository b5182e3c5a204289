import Edm.Classification
import Edm.Document.Element
import Edm.Document.EntitySet
import Edm.Graph.Flattening
import Edm.Graph.TypeName
import Edm.Program

/-!
# Documents

The elements of a schema: its enums, then its models, then perhaps a container of entity sets.  A model with
a key is an `EntityType`, any other a `ComplexType`; a property is a `NavigationProperty` or a `Property`.
`Program.fallbacks` reports, in the same order, the properties whose type had no name to write, and
`Program.fault?` says whether all of it can be put together.
-/

namespace Edm

namespace Program

/-! ### Elements -/

/-- The text of a mark that is either set or left out. -/
def mark (isSet : Bool) (value : Text) : Label := if isSet then .text value else .raw .null

/-- The element of an enum member. -/
def memberElement (p : Program) (i : MemberId) : Element :=
  let m := p.graph.members.get i
  let value : Label := match m.value with
    | .null => .raw .null
    | v => .text v.schemaText
  Element.build "EnumMember" [("Name", m.name), ("Value", value)] []

/-- The element of an enum. -/
def enumElement (p : Program) (i : EnumId) : Element :=
  let e := p.graph.enums.get i
  Element.build "EnumType" [("Name", e.name)] (e.members.map p.memberElement)

/-- The element of a property. -/
def propertyElement (p : Program) (i : PropertyId) : Element :=
  let q := p.graph.properties.get i
  match p.store.propertyClass i with
  | .navigation contained =>
    Element.build "NavigationProperty"
      [("Name", q.name), ("Type", p.graph.idLabel q.type),
        ("ContainsTarget", mark contained "true")] []
  | .scalar =>
    Element.build "Property"
      [("Name", q.name), ("Type", p.graph.typeName q.type), ("Nullable", mark (!q.optional) "false")] []

/-- The element that names the key of an entity. -/
def keyElement (p : Program) (i : PropertyId) : Element :=
  let name := p.store.keyName i (p.graph.properties.get i).name
  Element.build "Key" [] [Element.build "PropertyRef" [("Name", name)] []]

/-- The element of a model. -/
def modelElement (p : Program) (i : ModelId) : Element :=
  let m := p.graph.models.get i
  let base : Label := match m.base with
    | some b => p.graph.nameOf b
    | none => .raw .null
  let attributes : List (Text × Label) :=
    [("Name", m.name), ("BaseType", base), ("OpenType", mark (p.store.isOpen i) "true")]
  let properties := m.properties.values.map p.propertyElement
  match p.store.keyProperty? m with
  | some key => Element.build "EntityType" attributes (p.keyElement key :: properties)
  | none => Element.build "ComplexType" attributes properties

/-- The element with the entity sets of a namespace, if there are any. -/
def containerElement? (p : Program) (routes : Routes) (i : NamespaceId) : Option Element :=
  match p.graph.entitySets routes i with
  | [] => none
  | sets =>
    some (Element.build "EntityContainer" [("Name", .text "container")]
      (sets.map fun s =>
        Element.build "EntitySet" [("Name", .text s.name), ("EntityType", s.entityType)] []))

/-- The schema of a namespace; entity sets are left out where no routes are given. -/
def schemaElement (p : Program) (routes : Option Routes) (i : NamespaceId) : Element :=
  let n := p.graph.namespaces.get i
  Element.build "Schema" [("Namespace", p.graph.idLabel (.nameSpace i))]
    (n.enums.values.map p.enumElement ++ n.models.values.map p.modelElement
      ++ (routes.bind fun r => p.containerElement? r i).toList)

/-- The schemas of a namespace and all inside it, less the excluded ones. -/
def schemas (p : Program) (routes : Option Routes) (excluded : List Text) (i : NamespaceId) : List Element :=
  (p.graph.flatten excluded i).map (p.schemaElement routes)

/-! ### Types without a name -/

/-- Where a property is, for messages. -/
def propertySite (p : Program) (i : PropertyId) : Label :=
  let q := p.graph.properties.get i
  match q.owner with
  | none => q.name
  | some m =>
    let owner : Label :=
      if (p.graph.models.get m).name.truthy then p.graph.idLabel (.model m) else .text "<anonymous>"
    owner.enclose [] ("." ++ q.name.display)

/-- The text that stands for the type of a property, if the type has no name. -/
def fallbackText? (p : Program) (i : PropertyId) : Option Text :=
  let type := (p.graph.properties.get i).type
  match p.store.propertyClass i with
  | .navigation _ => if type.hasIdentifier then none else some (p.graph.qualifiedId type)
  | .scalar => if p.graph.isUnnameable type then some (p.graph.typeName type).display else none

/-- The report on a property whose type has no name. -/
def fallback? (p : Program) (i : PropertyId) : Option Diagnostic :=
  (p.fallbackText? i).map fun rendered =>
    { code := .unrenderableType
      message := .text ("Type has no naming rule; rendered as '" ++ rendered ++ "'")
      site := p.propertySite i
      severity := .info }

/-- The reports on the properties of a model. -/
def modelFallbacks (p : Program) (i : ModelId) : List Diagnostic :=
  (p.graph.models.get i).properties.values.filterMap p.fallback?

/-- The reports on the models of a namespace. -/
def namespaceFallbacks (p : Program) (i : NamespaceId) : List Diagnostic :=
  (p.graph.namespaces.get i).models.values.flatMap p.modelFallbacks

/-- The reports on the schemas of a namespace and all inside it, less the excluded ones. -/
def fallbacks (p : Program) (excluded : List Text) (i : NamespaceId) : List Diagnostic :=
  (p.graph.flatten excluded i).flatMap p.namespaceFallbacks

/-- A readable label for a node. -/
def describe (p : Program) (node : Node) : Label :=
  match node with
  | .property i =>
    let q := p.graph.properties.get i
    match q.owner with
    | some m =>
      if (p.graph.models.get m).name.truthy then
        (p.graph.idLabel (.model m)).enclose [] ("." ++ q.name.display)
      else q.name
    | none => q.name
  | _ => p.graph.idLabel node

/-! ### Faults -/

/-- Why the element of a property, or the report on it, cannot be made. -/
def propertyFault? (p : Program) (i : PropertyId) : Option DocumentFault :=
  if (p.propertyElement i).isFormed && (p.fallback? i).all (fun d => d.site.isFormed) then none
  else some .notText

/-- Why the base of a model has no name. -/
def baseFault? (p : Program) (i : ModelId) : Option DocumentFault :=
  match (p.graph.models.get i).base with
  | some b => if (p.graph.name? b).isSome then none else some .lacking
  | none => none

/-- The first fault in a model. -/
def modelFault? (p : Program) (i : ModelId) : Option DocumentFault :=
  (p.baseFault? i).or ((p.graph.models.get i).properties.values.findSome? p.propertyFault?)

/-- Why the dotted name of a namespace cannot be formed. -/
def namespaceFault? (p : Program) (i : NamespaceId) : Option DocumentFault :=
  if p.graph.hasTextPath i then none else some .notText

/-- The first fault in the schema of a namespace: in its models, its entity sets, and its name, which comes
last. -/
def schemaFault? (p : Program) (routes : Option Routes) (i : NamespaceId) : Option DocumentFault :=
  ((p.graph.namespaces.get i).models.values.findSome? p.modelFault?).or
    ((routes.bind fun r => p.graph.setsFault? r i).or (p.namespaceFault? i))

/-- The first fault in the schemas of a namespace and all inside it: first in the names of these namespaces,
excluded or not. -/
def fault? (p : Program) (routes : Option Routes) (excluded : List Text) (i : NamespaceId) :
    Option DocumentFault :=
  ((p.graph.expand i).findSome? p.namespaceFault?).or
    ((p.graph.flatten excluded i).findSome? (p.schemaFault? routes))

end Program

end Edm
