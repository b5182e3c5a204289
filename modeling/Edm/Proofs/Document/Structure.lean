import Edm.Document
import Edm.Proofs.Loading.Loaded

/-!
# The structure of a document

Which elements a description gives.  `SchemaFits` says how the schema of a place is put together from the
latest entries that are declared there: enums, then models, then perhaps one container.  The schemas of a
loaded program are those of the places of its description, in their order (`Program.schemas_of_load`).
-/

namespace Edm

/-! ### Elements for entries -/

/-- The element of an enum member; one without a value has none. -/
def MemberEntry.element (m : MemberEntry) : Element :=
  let value : Label := match m.value with
    | .null => .raw .null
    | v => .text v.schemaText
  Element.build "EnumMember" [("Name", m.name), ("Value", value)] []

/-- The element of an enum. -/
def EnumEntry.element (e : EnumEntry) : Element :=
  Element.build "EnumType" [("Name", e.name)] (e.members.map MemberEntry.element)

section

variable (p : Program) (d : Declarations) (scope : List Text)

/-- The elements that a property may have.  It has the type that its expression stands for. -/
inductive PropertyFits (e : PropertyEntry) : Element → Prop
  | scalar {type : Node} : d.Denotes p.graph scope e.type type →
      PropertyFits e (Element.build "Property"
        [("Name", e.name), ("Type", p.graph.typeName type), ("Nullable", Program.mark (!e.optional) "false")] [])
  | navigation {type : Node} (contained : Bool) : d.Denotes p.graph scope e.type type →
      PropertyFits e (Element.build "NavigationProperty"
        [("Name", e.name), ("Type", p.graph.idLabel type), ("ContainsTarget", Program.mark contained "true")] [])

/-- The name of the base of a model, which is left out if there is none. -/
inductive BaseFits : Option TypeExpr → Label → Prop
  | none : BaseFits none (.raw .null)
  | some {type : TypeExpr} {i : ModelId} : d.Denotes p.graph scope type (.model i) →
      BaseFits (some type) (p.graph.models.get i).name

/-- The elements that a model may have: perhaps a key, and then an element for the latest property with each
name. -/
inductive ModelFits (e : ModelEntry) : Element → Prop
  | complex {base : Label} {properties : List Element} (isOpen : Bool) : BaseFits p d scope e.base base →
      List.Forall₂ (PropertyFits p d scope) (latest PropertyEntry.name e.properties) properties →
      ModelFits e (Element.build "ComplexType"
        [("Name", e.name), ("BaseType", base), ("OpenType", Program.mark isOpen "true")] properties)
  | entity {base key : Label} {properties : List Element} (isOpen : Bool) : BaseFits p d scope e.base base →
      List.Forall₂ (PropertyFits p d scope) (latest PropertyEntry.name e.properties) properties →
      ModelFits e (Element.build "EntityType"
        [("Name", e.name), ("BaseType", base), ("OpenType", Program.mark isOpen "true")]
        (Element.build "Key" [] [Element.build "PropertyRef" [("Name", key)] []] :: properties))

/-- The schema that a place may have: an element for the latest enum with each name, an element for the latest
model with each name, perhaps a container, and nothing else. -/
inductive SchemaFits (o : Opening) : Element → Prop
  | schema {models container : List Element} :
      List.Forall₂ (ModelFits p d o.1) (latest ModelEntry.name o.2.models) models →
      (container = [] ∨ ∃ sets, container = [Element.build "EntityContainer" [("Name", .text "container")] sets]) →
      SchemaFits o (Element.build "Schema" [("Namespace", .text (Graph.dotted o.1))]
        ((latest EnumEntry.name o.2.enums).map EnumEntry.element ++ models ++ container))

end

/-- Whether a place gets a schema: something is declared there, and its name starts with nothing excluded. -/
def Opening.isShown (excluded : List Text) (o : Opening) : Bool :=
  o.2.isRenderable && !isExcluded excluded (Graph.dotted o.1)

namespace Program

section

variable {p : Program} {d : Declarations} {space : NamespaceId} {path : List Text}

/-! ### Elements of declarations -/

theorem enumElement_eq (hd : d.Tidy) (h : d.settleAll = .ok p.graph) {i : EnumId} {e : EnumEntry}
    (hat : d.EnumAt space i e) : p.enumElement i = e.element := by
  obtain ⟨members, henum, hmembers⟩ := hat.settled hd h
  have hmap : members.map p.memberElement = e.members.map MemberEntry.element := by
    refine map_eq_of_forall₂ (hmembers.imp fun j m hj => ?_)
    rw [memberElement, Graph.get_member hj]
    rfl
  rw [enumElement, Graph.get_enum henum]
  dsimp only
  rw [hmap, EnumEntry.element]

theorem propertyElement_fits {owner : ModelId} {i : PropertyId} {e : PropertyEntry}
    (hat : d.PropertyIn p.graph path owner i e) : PropertyFits p d path e (p.propertyElement i) := by
  obtain ⟨type, hdenotes, hcell⟩ := hat
  rw [propertyElement, Graph.get_property hcell]
  dsimp only
  cases p.store.propertyClass i with
  | scalar => exact .scalar hdenotes
  | navigation contained => exact .navigation contained hdenotes

theorem baseFits {type? : Option TypeExpr} {base : Option Node} :
    Option.Rel (fun type n => ∃ j, n = .model j ∧ d.Denotes p.graph path type n) type? base →
      BaseFits p d path type? (match base with | some b => p.graph.nameOf b | none => .raw .null) := by
  intro h
  cases h with
  | none => exact .none
  | some hrel =>
    obtain ⟨j, rfl, hdenotes⟩ := hrel
    exact .some hdenotes

theorem modelElement_fits (hd : d.Tidy) (h : d.settleAll = .ok p.graph) {i : ModelId} {e : ModelEntry}
    (hat : d.ModelAt space path i e) : ModelFits p d path e (p.modelElement i) := by
  obtain ⟨properties, base, hmodel, hbase, hproperties⟩ := hat.settled hd h
  have helements := hproperties.forall₂_values fun j q hj => propertyElement_fits hj
  have hfits := baseFits hbase
  rw [modelElement, Graph.get_model hmodel]
  dsimp only
  split
  · exact .entity _ hfits helements
  · exact .complex _ hfits helements

theorem containerElement_eq {routes : Routes} {i : NamespaceId} {e : Element}
    (h : p.containerElement? routes i = some e) :
    ∃ sets, e = Element.build "EntityContainer" [("Name", .text "container")] sets := by
  unfold containerElement? at h
  split at h
  · cases h
  · exact ⟨_, (Option.some.inj h).symm⟩

/-- The schema of a namespace, if its name and what it lists are known. -/
theorem schemaElement_fits (hd : d.Tidy) (h : d.settleAll = .ok p.graph) {s : Namespace} {o : Opening}
    (hs : p.graph.namespaces.get space = s) (hname : p.graph.idLabel (.nameSpace space) = .text (Graph.dotted o.1))
    (hcontents : d.Contents space o.1 s o.2) (routes : Option Routes) :
    SchemaFits p d o (p.schemaElement routes space) := by
  have henums := hcontents.enums.map_values fun i e hi => enumElement_eq hd h hi
  have hmodels := hcontents.models.forall₂_values fun i e hi => modelElement_fits hd h hi
  rw [schemaElement, hs, hname, henums]
  refine .schema hmodels ?_
  cases hcontainer : routes.bind fun r => p.containerElement? r space with
  | none => exact .inl rfl
  | some e =>
    obtain ⟨r, -, he⟩ := Option.bind_eq_some_iff.1 hcontainer
    obtain ⟨sets, rfl⟩ := containerElement_eq he
    exact .inr ⟨sets, rfl⟩

theorem isRenderable_eq {s : Namespace} {e : DeclarationEntries} (h : d.Contents space path s e) :
    s.isRenderable = e.isRenderable := by
  have hempty : ∀ {α β : Type} {At : α → β → Prop} {name : β → Label} {m : Members α} {l : List β},
      Lists At name m l → m.isEmpty = l.isEmpty := by
    intro α β At name m l hl
    rw [Bool.eq_iff_iff, List.isEmpty_iff, List.isEmpty_iff, hl.eq_nil_iff]
  rw [Namespace.isRenderable, hempty h.enums, hempty h.models, hempty h.interfaces, hempty h.operations,
    DeclarationEntries.isRenderable]

end

/-! ### Schemas -/

open Opening NamespaceEntry Declarations

/-- What is declared at a path is what its namespace has. -/
theorem contents_of_path {data : Json} {p : Program} (h : load data = .ok p) (htexts : data.HasTextNames)
    {path : List Text} (hpath : path ∈ paths data.openings) :
    (ofDescription data.outline).Contents (place data.openings path) path
      (p.graph.namespaces.get (place data.openings path)) (declared data.openings path) := by
  have hbuilt := built_of_load h htexts.openings
  obtain ⟨-, hsettle⟩ := settleAll_of_load h
  obtain ⟨s, hs, -, hcontents⟩ := hbuilt.space _ hpath
  rwa [namespaces_of_settleAll hbuilt.tidy hsettle, Graph.get_nameSpace hs]

/-- Everything about the namespace of a place. -/
theorem Structure.of_place {data : Json} {p : Program} (h : load data = .ok p)
    (htexts : data.HasTextNames) {o : Opening} (ho : o ∈ places [] (builtInEntry :: data.outline)) :
    o.1 ∈ paths data.openings ∧ o.1 ≠ []
      ∧ (ofDescription data.outline).Contents (place data.openings o.1) o.1
          (p.graph.namespaces.get (place data.openings o.1)) o.2 := by
  have hbelow : data.openings.filter (isBelow []) = data.openings := filter_isBelow_openingsOf [] _
  obtain ⟨hmem, hne, hdeclared⟩ := of_mem_places hbelow ho
  exact ⟨hmem, hne, hdeclared ▸ contents_of_path h htexts hmem⟩

theorem dotted_ne_nil {path : List Text} (hne : path ≠ []) (hnames : [] ∉ path) : Graph.dotted path ≠ [] := by
  cases path with
  | nil => exact absurd rfl hne
  | cons n rest =>
    have hn : n ≠ [] := fun hn => hnames (hn ▸ List.mem_cons_self ..)
    cases rest with
    | nil => exact hn
    | cons m rest =>
      rw [Graph.dotted, Text.join_cons_cons]
      simp [hn]

/-- The schemas of a loaded program are those of the places of its description that are shown, in their
order. -/
theorem schemas_of_load {data : Json} {p : Program} (h : load data = .ok p) (htexts : data.HasTextNames)
    (routes : Option Routes) (excluded : List Text) :
    List.Forall₂ (SchemaFits p (ofDescription data.outline))
      ((places [] (builtInEntry :: data.outline)).filter (isShown excluded))
      (p.schemas routes excluded Graph.root) := by
  have hbuilt := built_of_load h htexts.openings
  have hlaid := isLaidOut_of_load h htexts.openings
  obtain ⟨-, hsettle⟩ := settleAll_of_load h
  -- the root has an empty name, and namespaces without a name get no schema
  have hroot : p.graph.isIncluded excluded Graph.root = false := by
    have hname := hlaid.namespaceName_eq (nil_mem_paths _)
    rw [place_nil] at hname
    rw [Graph.isIncluded, show p.graph.namespaceName Graph.root = Graph.dotted [] from hname]
    rfl
  have hincluded : ∀ o ∈ places [] (builtInEntry :: data.outline),
      p.graph.isIncluded excluded (place data.openings o.1) = isShown excluded o := by
    intro o ho
    obtain ⟨hmem, hne, hcontents⟩ := Structure.of_place h htexts ho
    have hname : (Graph.dotted o.1).isEmpty = false := by
      rw [List.isEmpty_eq_false_iff]
      exact dotted_ne_nil hne (hlaid.rooted.nil_notMem hmem)
    rw [Graph.isIncluded, hlaid.namespaceName_eq hmem, isRenderable_eq hcontents, hname]
    rfl
  have hflatten : p.graph.flatten excluded Graph.root
      = ((places [] (builtInEntry :: data.outline)).filter (isShown excluded)).map
          fun o => place data.openings o.1 := by
    rw [Graph.flatten, expand_of_load h htexts.openings, List.filter_cons_of_neg (by simp [hroot]),
      List.filter_map]
    exact congrArg _ (List.filter_congr hincluded)
  rw [schemas, hflatten, List.map_map, List.forall₂_map_right_iff, List.forall₂_same]
  intro o ho
  obtain ⟨hmem, -, hcontents⟩ := Structure.of_place h htexts (List.mem_filter.1 ho).1
  exact schemaElement_fits hbuilt.tidy hsettle rfl (hlaid.idLabel_eq hmem) hcontents routes

/-- A description that opens a namespace twice and replaces a model and a property. -/
def reopened : Json := .object [("namespaces", .array [
  .object [("name", .string "A"),
    ("enums", .array [.object [("name", .string "E"), ("members", .array [.object [("name", .string "x")]])]]),
    ("models", .array [
      .object [("name", .string "M"),
        ("properties", .array [.object [("name", .string "a"), ("type", .string "string")]])],
      .object [("name", .string "N"), ("baseModel", .string "M")]]),
    ("namespaces", .array [
      .object [("name", .string "B"), ("enums", .array [.object [("name", .string "F")]])]])],
  .object [("name", .string "A"),
    ("models", .array [.object [("name", .string "M"),
      ("properties", .array [
        .object [("name", .string "b"), ("type", .string "N"), ("optional", .boolean true)],
        .object [("name", .string "a"), ("type", .string "M[]")],
        .object [("name", .string "b"), ("type", .string "int32")]])]])]])]

theorem schemas_of_load_reopened : ∃ p, load reopened = .ok p ∧ reopened.HasTextNames
    ∧ List.Forall₂ (SchemaFits p (ofDescription reopened.outline))
        ((places [] (builtInEntry :: reopened.outline)).filter (isShown defaultExcluded))
        (p.schemas (some p.routes) defaultExcluded Graph.root) := by
  have hok : (load reopened).toOption.isSome = true := by decide +kernel
  have htexts : reopened.HasTextNames := by decide +kernel
  cases hload : load reopened with
  | error e =>
    rw [hload] at hok
    cases hok
  | ok p => exact ⟨p, rfl, htexts, schemas_of_load hload htexts (some p.routes) defaultExcluded⟩

end Program

end Edm
