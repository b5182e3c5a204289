import Edm.Proofs.Document.Elements
import Edm.Proofs.Loading.Resolved

/-!
# References inside a document

A navigation property refers to the type of its property, and an entity set to the type of the items that its
interface returns (`Program.References`).  The reference is put together from the owner of the type, and the place
that it leads to from what the owner lists.  In a loaded program the two agree: the schema of the owner has an
element with the name of the type, if the owner gets a schema (`Program.references_of_load`).
-/

namespace Edm

/-! ### Layers -/

/-- How many layers of arrays are around what a type is about. -/
def Node.layers : Node → Nat
  | .array _ element => element.layers + 1
  | _ => 0

/-- A text inside layers of collections. -/
def collected (layers : Nat) (item : Text) : Text :=
  (List.replicate layers ("Collection(" : Text)).flatten ++ item ++ List.replicate layers (')' : CodePoint)

namespace Graph

theorem collection_collected (layers : Nat) (item : Text) :
    collection (collected layers item) = collected (layers + 1) item := by
  have hclosing : List.replicate (layers + 1) (')' : CodePoint) = List.replicate layers (')' : CodePoint) ++ ")" :=
    List.replicate_succ'
  rw [collection, collected, collected, List.replicate_succ, List.flatten_cons, hclosing]
  simp only [List.append_assoc]

theorem qualifiedId_eq_collected (g : Graph) (n : Node) :
    g.qualifiedId n = collected n.layers (g.qualifiedId n.core) := by
  induction n with
  | array _ element ih =>
    rw [qualifiedId, ih, collection_collected]
    rfl
  | _ => simp [collected, Node.layers, Node.core]

/-- The namespace that a model or an enum belongs to. -/
def ownerOf? (g : Graph) : Node → Option NamespaceId
  | .model i => (g.models.get i).owner
  | .enum i => (g.enums.get i).owner
  | _ => none

theorem qualifiedId_of_owner {g : Graph} {n : Node} {owner : NamespaceId} {t : Text}
    (howner : g.ownerOf? n = some owner) (hname : g.nameOf n = .text t) :
    g.qualifiedId n = g.namespaceName owner ++ "." ++ t := by
  have hid : ∀ {l : Label}, l = .text t → g.declarationId (some owner) l = g.namespaceName owner ++ "." ++ t := by
    rintro _ rfl
    rw [declarationId, Label.displayOrEmpty_text]
    rfl
  cases n with
  | model i =>
    have howner : (g.models.get i).owner = some owner := howner
    rw [qualifiedId, modelId, howner]
    exact hid hname
  | enum i =>
    have howner : (g.enums.get i).owner = some owner := howner
    rw [qualifiedId, howner]
    exact hid hname
  | _ => cases howner

end Graph

/-- The tags of the elements that declare a type. -/
def Node.declaringTags : Node → List Text
  | .model _ => ["EntityType", "ComplexType"]
  | .enum _ => ["EnumType"]
  | _ => []

namespace Program

/-! ### References -/

/-- An element refers to a type by the value of an attribute. -/
inductive References (p : Program) (routes : Option Routes) (space : NamespaceId) : Element → Text → Node → Prop
  | property {i : ModelId} {j : PropertyId} {contained : Bool} :
      i ∈ (p.graph.namespaces.get space).models.values → j ∈ (p.graph.models.get i).properties.values →
      p.store.propertyClass j = .navigation contained →
      References p routes space (p.propertyElement j) "Type" (p.graph.properties.get j).type
  | entitySet {r : Routes} {i : InterfaceId} {s : EntitySet} {result : Node} : routes = some r →
      i ∈ (p.graph.namespaces.get space).interfaces.values → p.graph.entitySet? r i = some s →
      p.graph.getResult? i = some result → References p routes space (setElement s) "EntityType" result.itemType

/-- A reference leads to the element of a type: if the type is a model or an enum of a namespace with a schema, the
value is its identifier, in as many collections as the type is in arrays, and the schema of this namespace has an
element for a type of this kind and name. -/
def Leads (p : Program) (routes : Option Routes) (excluded : List Text) (e : Element) (key : Text)
    (type : Node) : Prop :=
  ∀ owner, p.graph.ownerOf? type.core = some owner → owner ∈ p.graph.flatten excluded Graph.root →
    ∃ name, p.graph.nameOf type.core = .text name
      ∧ e.get? key = some (.text (collected type.layers (p.graph.namespaceName owner ++ "." ++ name)))
      ∧ ∃ schema ∈ p.schemas routes excluded Graph.root, schema.tag = "Schema"
        ∧ schema.get? "Namespace" = some (.text (p.graph.namespaceName owner))
        ∧ ∃ child ∈ schema.children, child.tag ∈ type.core.declaringTags ∧ child.get? "Name" = some (.text name)

section

variable {p : Program} {routes : Option Routes} {space : NamespaceId} {e : Element} {t : Text}

theorem references_of_shows (h : p.Shows routes space e) (htag : e.tag = "NavigationProperty" ∨ e.tag = "EntitySet") :
    ∃ key type, p.References routes space e key type := by
  have hnot : ∀ tag : Text, e.tag = tag → tag ≠ "NavigationProperty" → tag ≠ "EntitySet" → False := by
    rintro _ rfl hproperty hset
    exact htag.elim hproperty hset
  cases h with
  | schema => exact (hnot "Schema" rfl (by decide) (by decide)).elim
  | enum _ => exact (hnot "EnumType" rfl (by decide) (by decide)).elim
  | member _ _ => exact (hnot "EnumMember" rfl (by decide) (by decide)).elim
  | @model i _ =>
    rw [modelElement] at hnot
    split at hnot
    · exact (hnot "EntityType" rfl (by decide) (by decide)).elim
    · exact (hnot "ComplexType" rfl (by decide) (by decide)).elim
  | key _ _ => exact (hnot "Key" rfl (by decide) (by decide)).elim
  | keyReference _ _ => exact (hnot "PropertyRef" rfl (by decide) (by decide)).elim
  | @property i j hi hj =>
    cases hclass : p.store.propertyClass j with
    | navigation contained => exact ⟨_, _, .property hi hj hclass⟩
    | scalar =>
      rw [propertyElement, hclass] at hnot
      exact (hnot "Property" rfl (by decide) (by decide)).elim
  | container _ hc =>
    unfold containerElement? at hc
    split at hc
    · cases hc
    · cases hc
      exact (hnot "EntityContainer" rfl (by decide) (by decide)).elim
  | @entitySet r i s hr hi hs =>
    obtain ⟨result, hresult, -⟩ := Graph.entitySet?_eq_some hs
    exact ⟨_, _, .entitySet hr hi hs hresult⟩

/-- The value of a reference is the identifier of the type. -/
theorem References.get?_eq {key : Text} {type : Node} (h : p.References routes space e key type)
    (hid : p.graph.idLabel type = .text t) : e.get? key = some (.text t) := by
  cases h with
  | @property i j contained _ _ hclass =>
    rw [propertyElement, hclass]
    dsimp only
    rw [hid]
    exact Element.get?_build [("Name", (p.graph.properties.get j).name)] (by simp; decide)
  | @entitySet r i s result _ _ hs hresult =>
    obtain ⟨result', hresult', hset⟩ := Graph.entitySet?_eq_some hs
    cases hresult.symm.trans hresult'
    rw [setElement, hset, hid]
    exact Element.get?_build [("Name", .text s.name)] (by simp; decide)

/-! ### Declaring elements -/

theorem get?_modelElement {i : ModelId} (hname : (p.graph.models.get i).name = .text t) :
    (p.modelElement i).tag ∈ (Node.model i).declaringTags ∧ (p.modelElement i).get? "Name" = some (.text t) := by
  rw [modelElement, hname]
  split
  · exact ⟨List.mem_cons_self .., Element.get?_build [] (by simp)⟩
  · exact ⟨List.mem_cons_of_mem _ (List.mem_cons_self ..), Element.get?_build [] (by simp)⟩

theorem get?_enumElement {i : EnumId} (hname : (p.graph.enums.get i).name = .text t) :
    (p.enumElement i).tag ∈ (Node.enum i).declaringTags ∧ (p.enumElement i).get? "Name" = some (.text t) := by
  rw [enumElement, hname]
  exact ⟨List.mem_cons_self .., Element.get?_build [] (by simp)⟩

theorem children_schemaElement (p : Program) (routes : Option Routes) (i : NamespaceId) :
    (p.schemaElement routes i).children = (p.graph.namespaces.get i).enums.values.map p.enumElement
      ++ (p.graph.namespaces.get i).models.values.map p.modelElement
      ++ (routes.bind fun r => p.containerElement? r i).toList := rfl

/-- A schema has an element for each model and each enum that its namespace lists under the name of the node. -/
theorem exists_child {n : Node} {k : Kind} (hk : n.declarableKind? = some k) (howner : p.graph.ownerOf? n = some space)
    (hlists : p.graph.ListsNamed space t k) :
    ∃ child ∈ (p.schemaElement routes space).children,
      child.tag ∈ n.declaringTags ∧ child.get? "Name" = some (.text t) := by
  obtain ⟨s, m, c, hs, hl, hc, hname⟩ := hlists
  rw [children_schemaElement, Graph.get_nameSpace hs]
  cases n with
  | model _ =>
    cases hk
    obtain ⟨i, hi, rfl⟩ := Option.map_eq_some_iff.1 hl
    obtain ⟨a, ha, rfl⟩ := Option.map_eq_some_iff.1 hc
    have hget : (p.graph.models.get i).name = .text t := by
      rw [Table.get_of_get? ha]
      exact hname
    have hmem := List.mem_map_of_mem (f := p.modelElement) (Members.mem_values_of_lookup hi)
    exact ⟨_, List.mem_append_left _ (List.mem_append_right _ hmem), get?_modelElement hget⟩
  | enum _ =>
    cases hk
    obtain ⟨i, hi, rfl⟩ := Option.map_eq_some_iff.1 hl
    obtain ⟨a, ha, rfl⟩ := Option.map_eq_some_iff.1 hc
    have hget : (p.graph.enums.get i).name = .text t := by
      rw [Table.get_of_get? ha]
      exact hname
    have hmem := List.mem_map_of_mem (f := p.enumElement) (Members.mem_values_of_lookup hi)
    exact ⟨_, List.mem_append_left _ (List.mem_append_left _ hmem), get?_enumElement hget⟩
  | _ => cases howner

end

/-! ### Loaded programs -/

section

open Declarations

variable {data : Json} {p : Program} {routes : Option Routes} {excluded : List Text} {space : NamespaceId} {e : Element}

theorem reached_of_mem_flatten (h : load data = .ok p) (hspace : space ∈ p.graph.flatten excluded Graph.root) :
    (ofDescription data.outline).Reached p.graph (.nameSpace space) :=
  reached_of_mem_expand h (Graph.mem_flatten.1 hspace).1

theorem References.reachedType {key : Text} {type : Node} (h : load data = .ok p)
    (hspace : (ofDescription data.outline).Reached p.graph (.nameSpace space))
    (href : p.References routes space e key type) : (ofDescription data.outline).ReachedType p.graph type := by
  have hd := (consistent_of_load h).1
  have hsettle := (settleAll_of_load h).2
  cases href with
  | @property i j _ hi hj _ =>
    have hproperty := hd.reached_property hsettle (hd.reached_model hsettle hspace hi) hj
    exact (hd.reached_propertyType hsettle hproperty).1
  | @entitySet r i s result _ hi _ hresult =>
    have hinterface := hd.reached_interface hsettle hspace hi
    exact hd.reached_itemType hsettle (hd.reached_result hsettle hinterface hresult)

/-- A model or an enum with an owner has a record with this owner and its name. -/
private theorem References.record {g : Graph} {n : Node} {owner : NamespaceId} (howner : g.ownerOf? n = some owner) :
    ∃ k c, n.declarableKind? = some k ∧ (k = .model ∨ k = .enum) ∧ g.record? n = some c ∧ c.owner = some owner
      ∧ g.name? n = some c.name ∧ c.name = g.nameOf n := by
  cases n with
  | model i => exact ⟨_, _, rfl, .inl rfl, rfl, howner, rfl, rfl⟩
  | enum i => exact ⟨_, _, rfl, .inr rfl, rfl, howner, rfl, rfl⟩
  | _ => cases howner

/-- Every reference in the document of a loaded program leads to the element of its type. -/
theorem References.leads {key : Text} {type : Node} (h : load data = .ok p) (htexts : p.graph.HasTextNames)
    (hspace : space ∈ p.graph.flatten excluded Graph.root) (href : p.References routes space e key type) :
    p.Leads routes excluded e key type := by
  intro owner howner hflat
  have hd := (consistent_of_load h).1
  have hsettle := (settleAll_of_load h).2
  -- the type is one that the description declares, so its owner lists it, or one that took its place
  have htype := href.reachedType h (reached_of_mem_flatten h hspace)
  have hcore := hd.reached_core hsettle htype
  obtain ⟨k, c, hk, hkind, hrecord, hcowner, hname?, hcname⟩ := References.record howner
  have hk₁ : k ≠ .nameSpace := by rcases hkind with rfl | rfl <;> decide
  have hk₂ : k ≠ .operation := by rcases hkind with rfl | rfl <;> decide
  have hk₃ : k ≠ .union := by rcases hkind with rfl | rfl <;> decide
  have hnot : ∀ i, type.core ≠ .union i := by
    intro i hi
    rw [hi] at hk
    cases hk
    exact hk₃ rfl
  obtain ⟨name, hname⟩ := Label.isText_iff.1 (htexts.isText_of_name? hcore.reaches hnot hname?)
  have hhas := hd.has_of_isMade hcore.isMade hk hk₃
  have hlists := hd.listsNamed hsettle hhas (hd.cell_of_record hsettle hhas hrecord) hk hk₁ hk₂ hcowner hname
  have hnameOf : p.graph.nameOf type.core = .text name := hcname.symm.trans hname
  -- the identifier is made of the same names
  have hvalue := href.get?_eq (htexts.idLabel_eq htype.reaches)
  rw [p.graph.qualifiedId_eq_collected, Graph.qualifiedId_of_owner howner hnameOf] at hvalue
  refine ⟨name, hnameOf, hvalue, p.schemaElement routes owner, List.mem_map_of_mem hflat, rfl, ?_,
    exists_child hk howner hlists⟩
  rw [schemaElement, htexts.idLabel_eq (reached_of_mem_flatten h hflat).reaches]
  exact Element.get?_build [] (by simp)

/-- In the document of a loaded program, every navigation property and every entity set refers to a type, and whatever
type it refers to, if this is a model or an enum of a namespace with a schema, the reference leads to its element there.
-/
theorem references_of_load (h : load data = .ok p) (htexts : p.graph.HasTextNames) (routes : Option Routes)
    (excluded : List Text) (he : e ∈ Element.descendantsOf (p.schemas routes excluded Graph.root))
    (htag : e.tag = "NavigationProperty" ∨ e.tag = "EntitySet") :
    (∃ space ∈ p.graph.flatten excluded Graph.root, ∃ key type, p.References routes space e key type)
      ∧ ∀ space ∈ p.graph.flatten excluded Graph.root, ∀ key type, p.References routes space e key type →
        p.Leads routes excluded e key type := by
  obtain ⟨space, hspace, hshows⟩ := shows_of_mem he
  refine ⟨⟨space, hspace, references_of_shows hshows htag⟩, ?_⟩
  exact fun space hspace key type href => href.leads h htexts hspace

end

/-- A description that replaces a model after another one refers to it, and refers to a built-in one. -/
def linked : Json := .object [("namespaces", .array [
  .object [("name", .string "A"),
    ("enums", .array [.object [("name", .string "E"), ("members", .array [.object [("name", .string "x")]])]]),
    ("models", .array [
      .object [("name", .string "M")],
      .object [("name", .string "N"), ("properties", .array [
        .object [("name", .string "ms"), ("type", .string "M[]"), ("decorators", .array [.string "contains"])],
        .object [("name", .string "e"), ("type", .string "E"), ("decorators", .array [.string "references"])],
        .object [("name", .string "s"), ("type", .string "string"), ("decorators", .array [.string "references"])]])]]),
    ("interfaces", .array [.object [("name", .string "I"), ("route", .string "/api/ns"), ("operations", .array [
      .object [("name", .string "Get"), ("returnType", .string "N[]")]])]])],
  .object [("name", .string "A"), ("models", .array [.object [("name", .string "M"), ("properties", .array [
    .object [("name", .string "key"), ("type", .string "string"), ("decorators", .array [.string "id"])]])]])]])]

/-- The nodes of the program that this description gives. -/
def linkedNodes : List Node :=
  (List.range 3).map .nameSpace ++ (List.range 26).map .model ++ (List.range 4).map .property
    ++ [.enum 0, .member 0, .interface 0, .operation 0, .array 1 (.model 25), .array 2 (.model 23)]

theorem references_of_load_linked : ∃ p, load linked = .ok p ∧ p.graph.HasTextNames
    ∧ ∃ e ∈ Element.descendantsOf (p.schemas (some p.routes) [] Graph.root), e.tag = "NavigationProperty"
      ∧ e.get? "Type" = some (.text "Collection(A.M)")
      ∧ (∃ space ∈ p.graph.flatten [] Graph.root, ∃ key type, p.References (some p.routes) space e key type)
      ∧ ∀ space ∈ p.graph.flatten [] Graph.root, ∀ key type, p.References (some p.routes) space e key type →
        p.Leads (some p.routes) [] e key type := by
  have hok : (load linked).toOption.isSome = true := by decide +kernel
  have hnodes : ∀ p ∈ (load linked).toOption,
      ∀ n ∈ linkedNodes, p.graph.HasTextName n ∧ ∀ m ∈ p.graph.links n, m ∈ linkedNodes := by decide +kernel
  have helement : ∀ p ∈ (load linked).toOption, p.propertyElement 0
      ∈ Element.descendantsOf (p.schemas (some p.routes) [] Graph.root)
      ∧ (p.propertyElement 0).tag = "NavigationProperty"
      ∧ (p.propertyElement 0).get? "Type" = some (.text "Collection(A.M)") := by decide +kernel
  cases hload : load linked with
  | error e =>
    rw [hload] at hok
    cases hok
  | ok p =>
    have hp : p ∈ (load linked).toOption := by
      rw [hload]
      rfl
    have htexts := Graph.hasTextNames_of_closed (by decide) (hnodes p hp)
    obtain ⟨he, htag, htype⟩ := helement p hp
    exact ⟨p, rfl, htexts, _, he, htag, htype,
      references_of_load hload htexts (some p.routes) [] he (.inl htag)⟩

end Program

end Edm
