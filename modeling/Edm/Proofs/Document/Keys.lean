import Edm.Proofs.Document.Decorated
import Edm.Proofs.Document.References

/-!
# Keys and entities

Which models of a description are entities.  `ModelEntry.Shapes` says it for one element: a model is an entity if
an accepted `id` decorates one of its latest properties, whatever its base is; its key is the first such property,
under the name that the last accepted `id` gives.  The models that a loaded program shows are so shaped, namespace
by namespace (`Program.shapes_of_load`).
-/

namespace Edm

/-- Whether an element is that of a model. -/
def Element.isModel (e : Element) : Bool := e.tag == "EntityType" || e.tag == "ComplexType"

/-- What the decorators of an entry say about the element of the model. -/
structure ModelEntry.Shapes (e : ModelEntry) (c : Element) : Prop where
  name : c.get? "Name" = some e.name
  tag : c.tag = "EntityType" ∨ c.tag = "ComplexType"
  entity : c.tag = "EntityType"
    ↔ ∃ q ∈ latest PropertyEntry.name e.properties, ∃ x ∈ q.decorators, (q.keyOf? x).isSome
  keys : c.findAll "Key" = e.key?.toList.map keyElement
  first : ∀ key, e.key? = some key → c.children.head? = some (keyElement key) ∧ key ≠ []
  opened : c.get? "OpenType" = if isMarked e.decorators .openModel then some (.text "true") else none

/-! ### Elements of models -/

section

variable {e : ModelEntry}

theorem PropertyEntry.key?_isSome {q : PropertyEntry} : q.key?.isSome ↔ ∃ x ∈ q.decorators, (q.keyOf? x).isSome := by
  rw [key?, List.getLast?_isSome, Ne, List.filterMap_eq_nil_iff]
  push Not
  simp only [← Option.isSome_iff_ne_none]

/-- A model has a key if an accepted `id` decorates one of its properties. -/
theorem ModelEntry.key?_isSome : e.key?.isSome
    ↔ ∃ q ∈ latest PropertyEntry.name e.properties, ∃ x ∈ q.decorators, (q.keyOf? x).isSome := by
  rw [key?, List.findSome?_isSome_iff]
  simp only [PropertyEntry.key?_isSome]

theorem ModelEntry.key?_ne_nil {key : Text} (h : e.key? = some key) : key ≠ [] := by
  obtain ⟨q, -, hq⟩ := List.exists_of_findSome?_eq_some h
  exact Program.key?_ne_nil hq

theorem PropertyEntry.element_tag (q : PropertyEntry) (type id : Label) :
    (q.element type id).tag = "NavigationProperty" ∨ (q.element type id).tag = "Property" := by
  rw [element]
  split
  · exact .inl rfl
  · exact .inr rfl

theorem Element.get?_mark {tag name t : Text} (before : List (Text × Label)) {children : List Element} (isSet : Bool)
    (h : ∀ a ∈ before, a.1 ≠ name) :
    (build tag (before ++ [(name, Program.mark isSet t)]) children).get? name
      = if isSet then some (.text t) else none := by
  cases isSet with
  | true => exact get?_build before h
  | false =>
    have hnone : (build tag before children).get? name = none := by
      rw [get?, Option.map_eq_none_iff, List.find?_eq_none]
      intro a ha
      have hne := h a (List.mem_filter.1 ha).1
      simpa using hne
    have habsent : (Label.raw .null).isAbsent = true := rfl
    have hsame : build tag (before ++ [(name, Program.mark false t)]) children = build tag before children := by
      simp [build, Program.mark, habsent]
    rw [hsame]
    exact hnone

/-- The only key of a model is the one that its decorators give. -/
theorem ModelEntry.shapes_element {name : Text} (hname : e.name = .text name) (base : Label)
    {properties : List Element} (hproperties : ∀ c ∈ properties, c.tag = "NavigationProperty" ∨ c.tag = "Property") :
    e.Shapes (e.element base properties) := by
  have hno : properties.filter (fun c : Element => c.tag == ("Key" : Text)) = [] := by
    rw [List.filter_eq_nil_iff]
    intro c hc
    rcases hproperties c hc with h | h <;> rw [h] <;> decide
  have hopen : ∀ (tag : Text) (children : List Element),
      (Element.build tag [("Name", e.name), ("BaseType", base),
        ("OpenType", Program.mark (isMarked e.decorators .openModel) "true")] children).get? "OpenType"
        = if isMarked e.decorators .openModel then some (.text "true") else none := by
    intro tag children
    refine Element.get?_mark [("Name", e.name), ("BaseType", base)] _ ?_
    intro a ha
    rcases List.mem_pair.1 ha with rfl | rfl
    · exact show ("Name" : Text) ≠ "OpenType" by decide
    · exact show ("BaseType" : Text) ≠ "OpenType" by decide
  have hgiven : ∀ (tag : Text) (attributes : List (Text × Label)) (children : List Element),
      (Element.build tag (("Name", e.name) :: attributes) children).get? "Name" = some e.name := by
    intro tag attributes children
    rw [hname]
    exact Element.get?_build [] (by simp)
  have hentity := e.key?_isSome
  cases hkey : e.key? with
  | none =>
    rw [hkey] at hentity
    rw [element, hkey]
    exact
      { name := hgiven _ _ _
        tag := .inr rfl
        entity := iff_of_false (show ("ComplexType" : Text) ≠ "EntityType" by decide) (by simpa using hentity)
        keys := by rw [hkey]; exact hno
        first := by simp [hkey]
        opened := hopen _ _ }
  | some key =>
    rw [hkey] at hentity
    rw [element, hkey]
    have hfirst : (Element.build "EntityType" [("Name", e.name), ("BaseType", base),
        ("OpenType", Program.mark (isMarked e.decorators .openModel) "true")]
          (keyElement key :: properties)).findAll "Key" = [keyElement key] := by
      have hpos : ((keyElement key).tag == ("Key" : Text)) = true := rfl
      exact (List.filter_cons_of_pos (p := fun c : Element => c.tag == ("Key" : Text)) hpos).trans
        (congrArg (keyElement key :: ·) hno)
    exact
      { name := hgiven _ _ _
        tag := .inl rfl
        entity := iff_of_true rfl (hentity.1 rfl)
        keys := by rw [hkey]; exact hfirst
        first := by
          intro k hk
          cases hkey.symm.trans hk
          exact ⟨rfl, e.key?_ne_nil hkey⟩
        opened := hopen _ _ }

end

namespace Program

open Declarations Opening NamespaceEntry

section

variable {data : Json} {p : Program}

/-! ### Models of a document -/

theorem isModel_modelElement (p : Program) (i : ModelId) : (p.modelElement i).isModel = true := by
  rw [modelElement]
  split <;> rfl

theorem filter_isModel_children (p : Program) (routes : Option Routes) (i : NamespaceId) :
    (p.schemaElement routes i).children.filter Element.isModel
      = (p.graph.namespaces.get i).models.values.map p.modelElement := by
  have henums : ((p.graph.namespaces.get i).enums.values.map p.enumElement).filter Element.isModel = [] := by
    rw [List.filter_eq_nil_iff]
    intro c hc
    obtain ⟨j, -, rfl⟩ := List.mem_map.1 hc
    exact Bool.false_ne_true
  have hmodels : ((p.graph.namespaces.get i).models.values.map p.modelElement).filter Element.isModel
      = (p.graph.namespaces.get i).models.values.map p.modelElement := by
    rw [List.filter_eq_self]
    intro c hc
    obtain ⟨j, -, rfl⟩ := List.mem_map.1 hc
    exact isModel_modelElement p j
  have hcontainer : (routes.bind fun r => p.containerElement? r i).toList.filter Element.isModel = [] := by
    rw [List.filter_eq_nil_iff]
    intro c hc
    obtain ⟨r, -, hr⟩ := Option.bind_eq_some_iff.1 (Option.mem_toList.1 hc)
    obtain ⟨sets, rfl⟩ := containerElement_eq hr
    exact Bool.false_ne_true
  rw [children_schemaElement, List.filter_append, List.filter_append, henums, hmodels, hcontainer, List.nil_append,
    List.append_nil]

/-- The schema for a path has its dotted name. -/
theorem get?_schemaElement_of_path (h : load data = .ok p) (htexts : data.HasTextNames) (routes : Option Routes)
    {path : List Text} (hpath : path ∈ paths data.openings) :
    (p.schemaElement routes (place data.openings path)).get? "Namespace" = some (.text (Graph.dotted path)) := by
  rw [schemaElement, (isLaidOut_of_load h htexts.openings).idLabel_eq hpath]
  exact Element.get?_build [] (by simp)

theorem shapes_of_shows {d : Declarations} {scope : List Text} {e : ModelEntry} {c : Element}
    (htext : e.name.isText = true) (h : ModelShows p d scope e c) : e.Shapes c := by
  obtain ⟨base, properties, -, hproperties, rfl⟩ := h
  obtain ⟨name, hname⟩ := Label.isText_iff.1 htext
  refine ModelEntry.shapes_element hname base (forall_mem_of_forall₂ hproperties ?_)
  rintro q c ⟨type, -, rfl⟩
  exact q.element_tag _ _

/-- The models of a loaded program are entities by the decorators of their own latest properties. -/
theorem shapes_of_load (h : load data = .ok p) (htexts : data.HasTextNames) (routes : Option Routes)
    (excluded : List Text) :
    List.Forall₂ (fun o s => s.get? "Namespace" = some (.text (Graph.dotted o.1))
        ∧ List.Forall₂ ModelEntry.Shapes (latest ModelEntry.name o.2.models) (s.children.filter Element.isModel))
      ((places [] (builtInEntry :: data.outline)).filter (isShown excluded))
      (p.schemas routes excluded Graph.root) := by
  have hlaid := isLaidOut_of_load h htexts.openings
  rw [schemas, flatten_of_load h htexts, List.map_map, List.forall₂_map_right_iff, List.forall₂_same]
  intro o ho
  have hplace := (List.mem_filter.1 ho).1
  obtain ⟨hmem, -, -⟩ := Structure.of_place h htexts hplace
  have hname := hlaid.idLabel_eq hmem
  constructor
  · rw [Function.comp_apply, schemaElement, hname]
    exact Element.get?_build [] (by simp)
  · have htext : ∀ e ∈ latest ModelEntry.name o.2.models, e.name.isText = true :=
      fun e he => ((Decorated.hasTextNames_of_place htexts hplace).2.1 e (mem_of_mem_latest he)).1
    have hshows := modelElements_of_place h htexts hplace
    rw [Function.comp_apply, filter_isModel_children]
    exact ((List.forall₂_and_left _ _).2 ⟨htext, hshows⟩).imp fun e c hc => shapes_of_shows hc.1 hc.2

/-- A description with a key under a name of its own, a replaced property whose key is gone, and an open model. -/
def keyed : Json := .object [("namespaces", .array [
  .object [("name", .string "A"), ("models", .array [
    .object [("name", .string "Order"), ("properties", .array [
      .object [("name", .string "note"), ("type", .string "string"), ("decorators", .array [.string "id"])],
      .object [("name", .string "number"), ("type", .string "int32"), ("decorators", .array [
        .string "@id", .object [("name", .string "@@id"), ("args", .array [.string "no"])],
        .object [("name", .string "id"), ("args", .array [.boolean true])]])],
      .object [("name", .string "note"), ("type", .string "string")]])],
    .object [("name", .string "Line"), ("baseModel", .string "Order"),
      ("decorators", .array [.string "openModel"])]])]])]

example : (Json.outline keyed).map (fun n => n.declarations.models.map ModelEntry.key?)
    = [[some ("no" : Text), none]] := by
  decide +kernel

theorem shapes_of_load_keyed : ∃ p, load keyed = .ok p ∧ keyed.HasTextNames
    ∧ List.Forall₂ (fun o s => s.get? "Namespace" = some (.text (Graph.dotted o.1))
        ∧ List.Forall₂ ModelEntry.Shapes (latest ModelEntry.name o.2.models) (s.children.filter Element.isModel))
      ((places [] (builtInEntry :: keyed.outline)).filter (isShown defaultExcluded))
      (p.schemas none defaultExcluded Graph.root) := by
  obtain ⟨p, hload⟩ : ∃ p, load keyed = .ok p := Yields.exists_ok (by decide +kernel)
  have htexts : keyed.HasTextNames := by decide +kernel
  exact ⟨p, hload, htexts, shapes_of_load hload htexts none defaultExcluded⟩

end

end Program

end Edm
