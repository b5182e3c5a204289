import Edm.Proofs.Document.Keys
import Edm.Proofs.Document.Rendered
import Edm.Proofs.Graph.Naming

/-!
# Properties of a document

A property is written as a navigation property or as one that holds values, by the decorators of the last entry
with its name in the last entry for its model.  `Json.ShownAs` says what the element of an entry has and what it
lacks, by the fields of the entry and the type that it stands for.  The properties of a loaded program are so shown,
namespace by namespace and model by model (`Program.properties_of_load`), and they are all the properties that a
document has (`Program.filter_isProperty_descendants`).
-/

namespace Edm

open Relation

/-! ### Elements of properties -/

namespace Element

/-- Whether an element is that of a property. -/
def isProperty (e : Element) : Bool := e.tag == "NavigationProperty" || e.tag == "Property"

theorem filter_descendants_build (f : Element → Bool) (tag : Text) (attributes : List (Text × Label))
    (children : List Element) : (build tag attributes children).descendants.filter f
      = [build tag attributes children].filter f ++ children.flatMap fun c => c.descendants.filter f := by
  rw [build, descendants, descendantsOf_eq, List.filter_cons, List.filter_flatMap]
  split
  next h => rw [List.filter_cons_of_pos h, List.filter_nil, List.singleton_append]
  next h => rw [List.filter_cons_of_neg h, List.filter_nil, List.nil_append]

/-- An attribute that an element was not given is not there. -/
theorem get?_eq_none {tag key : Text} {attributes : List (Text × Label)} {children : List Element}
    (h : key ∉ attributes.map Prod.fst) : (build tag attributes children).get? key = none := by
  rw [get?, Option.map_eq_none_iff, List.find?_eq_none]
  intro a ha heq
  exact h (List.mem_map.2 ⟨a, (List.mem_filter.1 ha).1, eq_of_beq heq⟩)

/-- All that an element with a name, a type and one mark has. -/
theorem get?_marked (tag own type key : Text) (isSet : Bool) (value : Text)
    (hkey : key ∉ (["Name", "Type"] : List Text)) :
    let e := build tag [("Name", .text own), ("Type", .text type), (key, Program.mark isSet value)] []
    e.get? "Name" = some (.text own) ∧ e.get? "Type" = some (.text type)
      ∧ (e.get? key = if isSet then some (.text value) else none)
      ∧ ∀ other ∉ (["Name", "Type", key] : List Text), e.get? other = none := by
  refine ⟨get?_build [] (by simp), get?_build [_] (by simp; decide), get?_mark [_, _] isSet fun a ha => ?_,
    fun other hother => get?_eq_none hother⟩
  rintro rfl
  exact hkey (List.mem_map_of_mem ha)

end Element

namespace Program

variable (p : Program)

/-- The properties that a document shows, in its order. -/
def shownProperties (excluded : List Text) : List PropertyId :=
  (p.graph.flatten excluded Graph.root).flatMap fun space =>
    (p.graph.namespaces.get space).models.values.flatMap fun i => (p.graph.models.get i).properties.values

theorem isProperty_propertyElement (j : PropertyId) : (p.propertyElement j).isProperty = true := by
  rw [propertyElement]
  split <;> rfl

theorem filter_isProperty_properties (js : List PropertyId) :
    (js.map p.propertyElement).filter Element.isProperty = js.map p.propertyElement := by
  rw [List.filter_eq_self]
  intro c hc
  obtain ⟨j, -, rfl⟩ := List.mem_map.1 hc
  exact p.isProperty_propertyElement j

/-- The properties that the element of a model has. -/
theorem filter_isProperty_modelElement (i : ModelId) : (p.modelElement i).children.filter Element.isProperty
    = (p.graph.models.get i).properties.values.map p.propertyElement := by
  rw [modelElement]
  split
  next key _ =>
    have hkey : (p.keyElement key).isProperty = false := rfl
    exact (List.filter_cons_of_neg (by simp [hkey])).trans (p.filter_isProperty_properties _)
  next => exact p.filter_isProperty_properties _

theorem filter_descendants_properties (js : List PropertyId) :
    (js.map p.propertyElement).flatMap (fun c => c.descendants.filter Element.isProperty)
      = js.map p.propertyElement := by
  rw [List.flatMap_map, List.map_eq_flatMap]
  refine List.flatMap_congr fun j _ => ?_
  rw [descendants_propertyElement, List.filter_cons_of_pos (p.isProperty_propertyElement j), List.filter_nil]

theorem filter_descendants_modelElement (i : ModelId) : (p.modelElement i).descendants.filter Element.isProperty
    = (p.graph.models.get i).properties.values.map p.propertyElement := by
  have hkey : ∀ j, (p.keyElement j).descendants.filter Element.isProperty = [] := fun _ => rfl
  rw [modelElement]
  split
  · rw [Element.filter_descendants_build, List.flatMap_cons, hkey, p.filter_descendants_properties]
    rfl
  · rw [Element.filter_descendants_build, p.filter_descendants_properties]
    rfl

theorem filter_descendants_schemaElement (routes : Option Routes) (space : NamespaceId) :
    (p.schemaElement routes space).descendants.filter Element.isProperty
      = (p.graph.namespaces.get space).models.values.flatMap fun i =>
        (p.graph.models.get i).properties.values.map p.propertyElement := by
  have henum : ∀ i, (p.enumElement i).descendants.filter Element.isProperty = [] := by
    intro i
    rw [enumElement, Element.filter_descendants_build, List.flatMap_map]
    exact List.flatMap_eq_nil_iff.2 fun j _ => rfl
  have hcontainer : ∀ c ∈ (routes.bind fun r => p.containerElement? r space).toList,
      c.descendants.filter Element.isProperty = [] := by
    intro c hc
    obtain ⟨r, -, hr⟩ := Option.bind_eq_some_iff.1 (Option.mem_toList.1 hc)
    unfold containerElement? at hr
    split at hr
    · cases hr
    · cases hr
      rw [Element.filter_descendants_build, List.flatMap_map]
      exact List.flatMap_eq_nil_iff.2 fun s _ => rfl
  rw [schemaElement, Element.filter_descendants_build, List.flatMap_append, List.flatMap_append,
    List.flatMap_eq_nil_iff.2 hcontainer, List.flatMap_map, List.flatMap_map,
    List.flatMap_eq_nil_iff.2 fun i _ => henum i]
  simp only [filter_descendants_modelElement]
  exact List.append_nil _

/-- The properties of a document are those of the models of the namespaces with a schema. -/
theorem filter_isProperty_descendants (routes : Option Routes) (excluded : List Text) :
    (Element.descendantsOf (p.schemas routes excluded Graph.root)).filter Element.isProperty
      = (p.shownProperties excluded).map p.propertyElement := by
  rw [Element.descendantsOf_eq, schemas, List.flatMap_map, List.filter_flatMap, shownProperties, List.map_flatMap]
  refine List.flatMap_congr fun space _ => ?_
  rw [filter_descendants_schemaElement, List.map_flatMap]

end Program

/-! ### What an entry says -/

namespace Json

/-- Whether an accepted decorator makes an entry one that leads to other entities. -/
def navigates (q : Json) : Bool :=
  isMarked (q.items "decorators") .contains || isMarked (q.items "decorators") .references

/-- What the element of a property has and what it lacks, by the fields of its entry and its type. -/
structure ShownAs (q : Json) (g : Graph) (type : Node) (c : Element) : Prop where
  name : c.get? "Name" = some q.named
  tag : c.tag = if q.navigates then "NavigationProperty" else "Property"
  identifier : q.navigates = true → c.get? "Type" = some (.text (g.qualifiedId type))
  typeName : q.navigates = false → ∃ t, c.get? "Type" = some (.text t) ∧ g.typeName type = .text t
    ∧ ∃ lacking, g.Naming type (.text t) lacking
  contained : c.get? "ContainsTarget"
    = if isMarked (q.items "decorators") .contains then some (.text "true") else none
  nullable : c.get? "Nullable"
    = if q.navigates = false ∧ ∀ v ∈ q.field? "optional", v.truthy = false then some (.text "false") else none
  others : ∀ key, key ∉ (["Name", "Type", "ContainsTarget", "Nullable"] : List Text) → c.get? key = none
  children : c.children = []

/-- Two entries differ in the order and the repetition of their decorators at most, and in those for keys. -/
structure IsAlike (q q' : Json) : Prop where
  named : q'.named = q.named
  optional : (∀ v ∈ q'.field? "optional", v.truthy = false) ↔ ∀ v ∈ q.field? "optional", v.truthy = false
  decorators : ∀ x, Program.bareName x.decoratorName ≠ Decorator.id.word →
    (x ∈ q'.items "decorators" ↔ x ∈ q.items "decorators")

end Json

section

variable {q q' : Json} {g : Graph} {type : Node} {c c' : Element}

/-- Only the decorators for the one kind count, and only that there is one. -/
theorem isMarked_congr {decorators decorators' : List Json} {d : Decorator}
    (h : ∀ x, Program.bareName x.decoratorName = d.word → (x ∈ decorators' ↔ x ∈ decorators)) :
    isMarked decorators' d = isMarked decorators d := by
  rw [Bool.eq_iff_iff, isMarked, isMarked, List.any_eq_true, List.any_eq_true]
  refine exists_congr fun x => ?_
  by_cases hx : Program.bareName x.decoratorName = d.word
  · rw [h x hx]
  · simp [hx]

namespace Json

theorem IsAlike.isMarked_eq (h : q.IsAlike q') {d : Decorator} (hd : d.word ≠ Decorator.id.word) :
    isMarked (q'.items "decorators") d = isMarked (q.items "decorators") d :=
  isMarked_congr fun x hx => h.decorators x (hx ▸ hd)

theorem IsAlike.navigates_eq (h : q.IsAlike q') : q'.navigates = q.navigates := by
  rw [navigates, navigates, h.isMarked_eq (by decide), h.isMarked_eq (by decide)]

/-- Entries that are alike are shown in the same way. -/
theorem ShownAs.eq_of_isAlike (h : q.ShownAs g type c) (h' : q'.ShownAs g type c') (halike : q.IsAlike q') :
    c'.tag = c.tag ∧ ∀ key, c'.get? key = c.get? key := by
  have hnavigates := halike.navigates_eq
  refine ⟨by rw [h.tag, h'.tag, hnavigates], fun key => ?_⟩
  by_cases hkey : key ∈ (["Name", "Type", "ContainsTarget", "Nullable"] : List Text)
  · simp only [List.mem_cons, List.not_mem_nil, or_false] at hkey
    rcases hkey with rfl | rfl | rfl | rfl
    · rw [h.name, h'.name, halike.named]
    · cases hq : q.navigates with
      | true => rw [h.identifier hq, h'.identifier (hnavigates.trans hq)]
      | false =>
        obtain ⟨t, ht, hname, -⟩ := h.typeName hq
        obtain ⟨t', ht', hname', -⟩ := h'.typeName (hnavigates.trans hq)
        cases hname.symm.trans hname'
        rw [ht, ht']
    · rw [h.contained, h'.contained, halike.isMarked_eq (by decide)]
    · simp only [h.nullable, h'.nullable, hnavigates, halike.optional]
  · rw [h.others key hkey, h'.others key hkey]

theorem optional_ofJson (q : Json) :
    (PropertyEntry.ofJson q).optional = false ↔ ∀ v ∈ q.field? "optional", v.truthy = false := by
  rw [PropertyEntry.ofJson]
  cases q.field? "optional" <;> simp [truthy]

/-- The fields of an entry decide on all that its element has. -/
theorem shownAs_element {t own : Text} {lacking : List Node} (hown : q.named = .text own)
    (hname : g.typeName type = .text t) (hnaming : g.Naming type (.text t) lacking)
    (hid : g.idLabel type = .text (g.qualifiedId type)) :
    q.ShownAs g type ((PropertyEntry.ofJson q).element (g.typeName type) (g.idLabel type)) := by
  have hread : (PropertyEntry.ofJson q).name = .text own := hown
  have hdecorators : (PropertyEntry.ofJson q).decorators = q.items "decorators" := rfl
  rw [PropertyEntry.element, hname, hid, hread, hdecorators, ← navigates]
  cases hq : q.navigates with
  | true =>
    rw [if_pos rfl]
    obtain ⟨hn, ht, hc, hothers⟩ := Element.get?_marked "NavigationProperty" own (g.qualifiedId type)
      "ContainsTarget" (isMarked (q.items "decorators") .contains) "true" (by decide)
    have hsubset : (["Name", "Type", "ContainsTarget"] : List Text)
        ⊆ ["Name", "Type", "ContainsTarget", "Nullable"] := by decide
    exact {
      name := by rw [hown, hn]
      tag := by rw [hq]; rfl
      identifier := fun _ => ht
      typeName := fun hno => (Bool.false_ne_true (hno.symm.trans hq)).elim
      contained := hc
      nullable := by
        rw [if_neg fun hno => Bool.false_ne_true (hno.1.symm.trans hq)]
        exact hothers _ (by decide)
      others := fun key hkey => hothers key fun hmem => hkey (hsubset hmem)
      children := rfl }
  | false =>
    rw [if_neg Bool.false_ne_true]
    have hcontained : isMarked (q.items "decorators") .contains = false := (Bool.or_eq_false_iff.1 hq).1
    obtain ⟨hn, ht, hc, hothers⟩ := Element.get?_marked "Property" own t "Nullable"
      (!(PropertyEntry.ofJson q).optional) "false" (by decide)
    have hsubset : (["Name", "Type", "Nullable"] : List Text)
        ⊆ ["Name", "Type", "ContainsTarget", "Nullable"] := by decide
    exact {
      name := by rw [hown, hn]
      tag := by rw [hq]; rfl
      identifier := fun hyes => (Bool.false_ne_true (hq.symm.trans hyes)).elim
      typeName := fun _ => ⟨t, ht, hname, _, hnaming⟩
      contained := by
        rw [hcontained, if_neg Bool.false_ne_true]
        exact hothers _ (by decide)
      nullable := by
        rw [hc]
        simp only [Bool.not_eq_true', optional_ofJson, hq, true_and]
      others := fun key hkey => hothers key fun hmem => hkey (hsubset hmem)
      children := rfl }

end Json

end

/-- An element is that of a property: there is a value that the entry was read from, and a type that the expression
there stands for, and the element is shown by them. -/
def PropertyEntry.Appears (p : Program) (d : Declarations) (scope : List Text) (e : PropertyEntry) (c : Element) :
    Prop :=
  ∃ q type, e = PropertyEntry.ofJson q ∧ d.Denotes p.graph scope e.type type ∧ q.ShownAs p.graph type c

/-- An element is that of a model: it has its name, and a property for the last entry of each name. -/
structure ModelEntry.Appears (p : Program) (d : Declarations) (scope : List Text) (e : ModelEntry) (c : Element) :
    Prop where
  name : c.get? "Name" = some e.name
  properties : List.Forall₂ (PropertyEntry.Appears p d scope) (latest PropertyEntry.name e.properties)
    (c.children.filter Element.isProperty)

theorem Declarations.Consistent.isFinite {d : Declarations} {g : Graph} {n : Node} (hd : d.Consistent)
    (h : d.settleAll = .ok g) (hn : d.ReachedType g n) (hacc : Acc g.IsPartOf n) : g.IsFinite n :=
  ⟨hacc, fun _ hi => hd.lt_size h (hd.reached_parts h hn hi).isMade⟩

namespace Program

open Declarations Opening NamespaceEntry

section

variable {data : Json} {p : Program} {o : Opening}

/-- Each property that is declared at a place was read from a value. -/
theorem exists_ofJson_of_place (h : load data = .ok p) (ho : o ∈ places [] (builtInEntry :: data.outline))
    {m : ModelEntry} (hm : m ∈ o.2.models) {e : PropertyEntry} (he : e ∈ m.properties) :
    ∃ q, e = PropertyEntry.ofJson q := by
  obtain ⟨-, -, hdeclared⟩ := of_mem_places (filter_isBelow_openingsOf [] _) ho
  rw [← hdeclared, declared, DeclarationEntries.united] at hm
  obtain ⟨_, hd, hm⟩ := List.mem_flatMap.1 hm
  obtain ⟨o', ho', rfl⟩ := List.mem_map.1 hd
  rcases mem_openings_of_load h (List.mem_filter.1 ho').1 with rfl | hread
  · obtain ⟨n, -, rfl⟩ := List.mem_map.1 hm
    cases he
  · obtain ⟨x, hx⟩ := hread.read
    rw [DeclarationEntries.read_eq hx] at hm
    obtain ⟨y, -, rfl⟩ := List.mem_map.1 hm
    obtain ⟨q, -, rfl⟩ := List.mem_map.1 he
    exact ⟨q, rfl⟩

/-- The type of a reachable property can be named if no named union comes back to itself. -/
theorem isFinite_propertyType (h : load data = .ok p) (hnames : p.graph.HasTextNames)
    (hacyclic : p.graph.HasAcyclicUnions) {j : PropertyId}
    (hj : (ofDescription data.outline).Reached p.graph (.property j)) :
    p.graph.IsFinite (p.graph.properties.get j).type := by
  obtain ⟨hd, -⟩ := consistent_of_load h
  obtain ⟨-, hsettle⟩ := settleAll_of_load h
  obtain ⟨htype, -⟩ := hd.reached_propertyType hsettle hj
  exact hd.isFinite hsettle htype (hd.acc_isPartOf hsettle hnames hacyclic htype.isMade htype.reaches)

theorem propertyElement_appears (h : load data = .ok p) (hnames : p.graph.HasTextNames)
    (hacyclic : p.graph.HasAcyclicUnions) {path : List Text} {site : Text} {owner : ModelId} {j : PropertyId}
    (hj : (ofDescription data.outline).Reached p.graph (.property j)) {q : Json}
    (hin : (ofDescription data.outline).PropertyIn p.graph path owner j (PropertyEntry.ofJson q))
    (hat : (ofDescription data.outline).PropertyAt path site owner j (PropertyEntry.ofJson q)) :
    (PropertyEntry.ofJson q).Appears p (ofDescription data.outline) path (p.propertyElement j) := by
  obtain ⟨type, hdenotes, hcell⟩ := hin
  have hget := Graph.get_property hcell
  have htype : p.graph.Reaches type := by
    have hreaches := hj.reaches.type rfl (List.mem_singleton_self _)
    rwa [hget] at hreaches
  have hfinite := isFinite_propertyType h hnames hacyclic hj
  rw [hget] at hfinite
  obtain ⟨own, hown⟩ := Label.isText_iff.1 (hnames.isText_of_name? hj.reaches (by simp) rfl)
  rw [hget] at hown
  obtain ⟨t, ht⟩ := Label.isText_iff.1 (hnames.isText_typeName htype)
  obtain ⟨lacking, hnaming, -⟩ := hfinite.exists_naming
  refine ⟨q, type, rfl, hdenotes, ?_⟩
  rw [propertyElement_eq h hcell hat]
  exact Json.shownAs_element hown ht (ht ▸ hnaming) (hnames.idLabel_eq htype)

/-- The element of a model has the properties that the last entry for it says. -/
theorem modelElement_appears (h : load data = .ok p) (htexts : data.HasTextNames) (hnames : p.graph.HasTextNames)
    (hacyclic : p.graph.HasAcyclicUnions) {space : NamespaceId} {path : List Text} {i : ModelId} {e : ModelEntry}
    (hi : (ofDescription data.outline).Reached p.graph (.model i))
    (hat : (ofDescription data.outline).ModelAt space path i e)
    (hread : ∀ q ∈ e.properties, ∃ x, q = PropertyEntry.ofJson x) :
    e.Appears p (ofDescription data.outline) path (p.modelElement i) := by
  obtain ⟨hd, -⟩ := consistent_of_load h
  obtain ⟨-, hsettle⟩ := settleAll_of_load h
  have hbuilt := built_of_load h htexts.openings
  obtain ⟨properties, base, hmodel, -, hproperties⟩ := hat.settledAt hbuilt.tidy hsettle
  have hget := Graph.get_model hmodel
  obtain ⟨own, hown⟩ := Label.isText_iff.1 (hnames.isText_of_name? hi.reaches (by simp) rfl)
  constructor
  · rw [(get?_modelElement hown).2, ← hown, hget]
  · rw [filter_isProperty_modelElement, hget]
    refine (hproperties.and_mem_values.and_of_mem hread).forall₂_values fun j q hj => ?_
    obtain ⟨⟨hmem, hin, hjat⟩, x, rfl⟩ := hj
    have hreached := hd.reached_property hsettle hi (by rwa [hget])
    exact propertyElement_appears h hnames hacyclic hreached hin hjat

/-- The schemas are those of the places that are shown, each with the last entry for each model. -/
theorem schemas_appear (h : load data = .ok p) (htexts : data.HasTextNames) (hnames : p.graph.HasTextNames)
    (hacyclic : p.graph.HasAcyclicUnions) (routes : Option Routes) (excluded : List Text) :
    List.Forall₂ (fun o s => s.get? "Namespace" = some (.text (Graph.dotted o.1))
        ∧ List.Forall₂ (ModelEntry.Appears p (ofDescription data.outline) o.1) (latest ModelEntry.name o.2.models)
          (s.children.filter Element.isModel))
      ((places [] (builtInEntry :: data.outline)).filter (isShown excluded))
      (p.schemas routes excluded Graph.root) := by
  obtain ⟨hd, -⟩ := consistent_of_load h
  obtain ⟨-, hsettle⟩ := settleAll_of_load h
  rw [schemas, flatten_of_load h htexts, List.map_map, List.forall₂_map_right_iff, List.forall₂_same]
  intro o ho
  have hplace := (List.mem_filter.1 ho).1
  obtain ⟨hmem, -, hcontents⟩ := Structure.of_place h htexts hplace
  refine ⟨get?_schemaElement_of_path h htexts routes hmem, ?_⟩
  rw [Function.comp_apply, filter_isModel_children]
  have hspace : place data.openings o.1 ∈ p.graph.expand Graph.root := by
    rw [expand_of_load h htexts.openings]
    exact List.mem_cons_of_mem _ (List.mem_map_of_mem hplace)
  have hread : ∀ e ∈ o.2.models, ∀ q ∈ e.properties, ∃ x, q = PropertyEntry.ofJson x :=
    fun e he q hq => exists_ofJson_of_place h hplace he hq
  refine (hcontents.models.and_mem_values.and_of_mem hread).forall₂_values fun i e hi => ?_
  have hreached := hd.reached_model hsettle (reached_of_mem_expand h hspace) hi.1.1
  exact modelElement_appears h htexts hnames hacyclic hreached hi.1.2 hi.2

/-- The properties of a document stand in the models of its schemas. -/
theorem filter_isProperty_children (p : Program) (routes : Option Routes) (excluded : List Text) :
    (Element.descendantsOf (p.schemas routes excluded Graph.root)).filter Element.isProperty
      = (p.schemas routes excluded Graph.root).flatMap fun s =>
          (s.children.filter Element.isModel).flatMap fun c => c.children.filter Element.isProperty := by
  rw [filter_isProperty_descendants, shownProperties, schemas, List.flatMap_map, List.map_flatMap]
  refine List.flatMap_congr fun space _ => ?_
  rw [filter_isModel_children, List.flatMap_map, List.map_flatMap]
  exact List.flatMap_congr fun i _ => (p.filter_isProperty_modelElement i).symm

/-- Each property of a document is shown by the last entry with its name in the last entry for its model; entries
that differ in the order and the repetition of decorators at most, or in those for keys, are shown in the same way. -/
theorem properties_of_load {options : RenderOptions} {routes : Option Routes} (h : load data = .ok p)
    (htexts : data.HasTextNames) (hnames : p.graph.HasTextNames) (hacyclic : p.graph.HasAcyclicUnions)
    (hroutes : AreRoutes routes) : ∃ result schemas, p.render options routes = .ok result
      ∧ Envelope.text options.indent options.newline schemas = .ok result.text
      ∧ List.Forall₂ (fun o s => s.get? "Namespace" = some (.text (Graph.dotted o.1))
          ∧ List.Forall₂ (ModelEntry.Appears p (ofDescription data.outline) o.1) (latest ModelEntry.name o.2.models)
            (s.children.filter Element.isModel))
        ((places [] (builtInEntry :: data.outline)).filter (isShown options.excluded)) schemas
      ∧ (Element.descendantsOf schemas).filter Element.isProperty = schemas.flatMap (fun s =>
          (s.children.filter Element.isModel).flatMap fun c => c.children.filter Element.isProperty)
      ∧ ∀ (q q' : Json) (type : Node) (c c' : Element), q.IsAlike q' → q.ShownAs p.graph type c →
        q'.ShownAs p.graph type c' → c'.tag = c.tag ∧ ∀ key, c'.get? key = c.get? key := by
  obtain ⟨text, htext, hrender⟩ := (isFit_of_load h hnames).render_eq hroutes options
  exact ⟨_, _, hrender, htext, schemas_appear h htexts hnames hacyclic _ _, p.filter_isProperty_children _ _,
    fun q q' type c c' halike hc hc' => hc.eq_of_isAlike hc' halike⟩

/-- A description with a replaced model and a replaced property that are marked, with markers in both orders and more
than once, with one that is rejected, and with odd values for `optional`. -/
def marked : Json := .object [("namespaces", .array [.object [("name", .string "A"),
  ("models", .array [
    .object [("name", .string "M"), ("properties", .array [
      .object [("name", .string "old"), ("type", .string "string"), ("decorators", .array [.string "contains"])]])],
    .object [("name", .string "M"), ("properties", .array [
      .object [("name", .string "note"), ("type", .string "M"), ("decorators", .array [.string "contains"])],
      .object [("name", .string "note"), ("type", .string "U"), ("optional", .string [])],
      .object [("name", .string "parts"), ("type", .string "M[]"), ("optional", .boolean true),
        ("decorators", .array [.string "references", .string "id", .string "@contains", .string "references"])],
      .object [("name", .string "other"), ("type", .string "M"), ("decorators", .array [.string "@references"])],
      .object [("name", .string "texts"), ("type", .string "string[]"), ("optional", .array [.null]),
        ("decorators", .array [.object [("name", .string "contains"), ("args", .array [.string "no"])]])]])]]),
  ("unions", .array [.object [("name", .string "U"), ("options", .array [.string "string", .string "M"])]])]])]

example : (load marked).toOption.map (fun p => (p.shownProperties defaultExcluded).map fun j =>
      ((p.propertyElement j).tag, ((p.propertyElement j).get? "Nullable").isSome))
    = some [(("Property" : Text), true), ("NavigationProperty", false), ("NavigationProperty", false),
      ("Property", false)] := by
  decide +kernel

/-- The nodes of the program that this description gives. -/
def markedNodes : List Node :=
  (List.range 3).map .nameSpace ++ (List.range 24).map .model ++ (List.range 6).map .property
    ++ [.union 0, .array 1 (.model 23), .array 2 (.model 0)]

theorem properties_of_load_marked : ∃ p, load marked = .ok p ∧ marked.HasTextNames ∧ p.graph.HasTextNames
    ∧ p.graph.HasAcyclicUnions ∧ AreRoutes (some p.routes)
    ∧ ∃ result schemas, p.render {} (some p.routes) = .ok result
      ∧ Envelope.text [' ', ' '] ['\r', '\n'] schemas = .ok result.text
      ∧ List.Forall₂ (fun o s => s.get? "Namespace" = some (.text (Graph.dotted o.1))
          ∧ List.Forall₂ (ModelEntry.Appears p (ofDescription marked.outline) o.1) (latest ModelEntry.name o.2.models)
            (s.children.filter Element.isModel))
        ((places [] (builtInEntry :: marked.outline)).filter (isShown defaultExcluded)) schemas := by
  obtain ⟨p, hload, hnames, hacyclic⟩ : ∃ p, load marked = .ok p ∧ p.graph.HasTextNames ∧ p.graph.HasAcyclicUnions :=
    exists_load_of_closed markedNodes (by decide +kernel) (by decide) (by decide +kernel) (by decide +kernel)
  have htexts : marked.HasTextNames := by decide +kernel
  obtain ⟨result, schemas, hrender, htext, happear, -⟩ :=
    properties_of_load hload htexts hnames hacyclic (areRoutes_routes p)
  exact ⟨p, hload, htexts, hnames, hacyclic, areRoutes_routes p, result, schemas, hrender, htext, happear⟩

end

end Program

end Edm
