import Edm.Document

/-!
# The elements of a document

Everything below the schemas of a program is the element of something that one of the shown namespaces declares
(`Program.shows_of_mem`).  What holds of all elements of a document is then read off case by case.
-/

namespace Edm

namespace Element

theorem mem_descendants_build {tag : Text} {attributes : List (Text × Label)} {children : List Element} {e : Element} :
    e ∈ (build tag attributes children).descendants
      ↔ e = build tag attributes children ∨ ∃ c ∈ children, e ∈ c.descendants := by
  rw [build, descendants, descendantsOf_eq, List.mem_cons, List.mem_flatMap]

/-- The value that an attribute with a text was given is found if no attribute before it has its name. -/
theorem get?_build {tag name t : Text} (before : List (Text × Label)) {after : List (Text × Label)}
    {children : List Element} (h : ∀ a ∈ before, a.1 ≠ name) :
    (build tag (before ++ (name, .text t) :: after) children).get? name = some (.text t) := by
  have hbefore : ∀ a ∈ before.filter fun a => !a.2.isAbsent, (a.1 == name) = false := by
    intro a ha
    rw [beq_eq_false_iff_ne]
    exact h a (List.mem_filter.1 ha).1
  have hnone : (before.filter fun a => !a.2.isAbsent).find? (fun a => a.1 == name) = none := by
    rw [List.find?_eq_none]
    intro a ha
    simp [hbefore a ha]
  have hpresent : Label.isAbsent (.text t) = false := rfl
  simp [build, get?, attributes, List.find?_append, hnone, hpresent]

end Element

/-- An entity set is about the items of what its interface returns. -/
theorem Graph.entitySet?_eq_some {g : Graph} {routes : Routes} {i : InterfaceId} {s : EntitySet}
    (h : g.entitySet? routes i = some s) :
    ∃ result, g.getResult? i = some result ∧ s.entityType = g.idLabel result.itemType := by
  obtain ⟨path, -, h⟩ := Option.bind_eq_some_iff.1 h
  split at h
  · obtain ⟨result, hresult, h⟩ := Option.bind_eq_some_iff.1 h
    cases h
    exact ⟨result, hresult, rfl⟩
  · cases h

namespace Program

/-! ### What is shown -/

/-- The element of an entity set. -/
def setElement (s : EntitySet) : Element :=
  Element.build "EntitySet" [("Name", .text s.name), ("EntityType", s.entityType)] []

/-- The element that refers to a key. -/
def keyReference (p : Program) (i : PropertyId) : Element :=
  Element.build "PropertyRef" [("Name", p.store.keyName i (p.graph.properties.get i).name)] []

/-- The elements for what a namespace declares. -/
inductive Shows (p : Program) (routes : Option Routes) (space : NamespaceId) : Element → Prop
  | schema : Shows p routes space (p.schemaElement routes space)
  | enum {i : EnumId} : i ∈ (p.graph.namespaces.get space).enums.values → Shows p routes space (p.enumElement i)
  | member {i : EnumId} {j : MemberId} : i ∈ (p.graph.namespaces.get space).enums.values →
      j ∈ (p.graph.enums.get i).members → Shows p routes space (p.memberElement j)
  | model {i : ModelId} : i ∈ (p.graph.namespaces.get space).models.values → Shows p routes space (p.modelElement i)
  | key {i : ModelId} {j : PropertyId} : i ∈ (p.graph.namespaces.get space).models.values →
      p.store.keyProperty? (p.graph.models.get i) = some j → Shows p routes space (p.keyElement j)
  | keyReference {i : ModelId} {j : PropertyId} : i ∈ (p.graph.namespaces.get space).models.values →
      p.store.keyProperty? (p.graph.models.get i) = some j → Shows p routes space (p.keyReference j)
  | property {i : ModelId} {j : PropertyId} : i ∈ (p.graph.namespaces.get space).models.values →
      j ∈ (p.graph.models.get i).properties.values → Shows p routes space (p.propertyElement j)
  | container {r : Routes} {e : Element} : routes = some r → p.containerElement? r space = some e →
      Shows p routes space e
  | entitySet {r : Routes} {i : InterfaceId} {s : EntitySet} : routes = some r →
      i ∈ (p.graph.namespaces.get space).interfaces.values → p.graph.entitySet? r i = some s →
      Shows p routes space (setElement s)

section

variable {p : Program} {routes : Option Routes} {space : NamespaceId} {e : Element}

theorem shows_of_enum {i : EnumId} (hi : i ∈ (p.graph.namespaces.get space).enums.values)
    (he : e ∈ (p.enumElement i).descendants) : p.Shows routes space e := by
  rw [enumElement, Element.mem_descendants_build] at he
  rcases he with rfl | ⟨c, hc, he⟩
  · exact .enum hi
  · obtain ⟨j, hj, rfl⟩ := List.mem_map.1 hc
    rw [memberElement, Element.mem_descendants_build] at he
    rcases he with rfl | ⟨c, hc, -⟩
    · exact .member hi hj
    · cases hc

theorem descendants_propertyElement (p : Program) (i : PropertyId) :
    (p.propertyElement i).descendants = [p.propertyElement i] := by
  rw [propertyElement]
  split <;> rfl

theorem shows_of_properties {i : ModelId} (hi : i ∈ (p.graph.namespaces.get space).models.values) {c : Element}
    (hc : c ∈ (p.graph.models.get i).properties.values.map p.propertyElement) (he : e ∈ c.descendants) :
    p.Shows routes space e := by
  obtain ⟨j, hj, rfl⟩ := List.mem_map.1 hc
  rw [descendants_propertyElement, List.mem_singleton] at he
  rw [he]
  exact .property hi hj

theorem shows_of_model {i : ModelId} (hi : i ∈ (p.graph.namespaces.get space).models.values)
    (he : e ∈ (p.modelElement i).descendants) : p.Shows routes space e := by
  have hself : p.Shows routes space (p.modelElement i) := .model hi
  rw [modelElement] at he hself
  split at he
  next key hkey =>
    rw [hkey] at hself
    rw [Element.mem_descendants_build] at he
    rcases he with rfl | ⟨c, hc, he⟩
    · exact hself
    · rcases List.mem_cons.1 hc with rfl | hc
      · rw [keyElement, Element.mem_descendants_build] at he
        rcases he with rfl | ⟨c, hc, he⟩
        · exact .key hi hkey
        · rw [List.mem_singleton.1 hc, Element.mem_descendants_build] at he
          rcases he with rfl | ⟨c, hc, -⟩
          · exact .keyReference hi hkey
          · cases hc
      · exact shows_of_properties hi hc he
  next hkey =>
    rw [hkey] at hself
    rw [Element.mem_descendants_build] at he
    rcases he with rfl | ⟨c, hc, he⟩
    · exact hself
    · exact shows_of_properties hi hc he

theorem shows_of_container {r : Routes} {c : Element} (hr : routes = some r)
    (hc : p.containerElement? r space = some c) (he : e ∈ c.descendants) : p.Shows routes space e := by
  have hself : p.Shows routes space c := .container hr hc
  unfold containerElement? at hc
  split at hc
  · cases hc
  · cases hc
    rw [Element.mem_descendants_build] at he
    rcases he with rfl | ⟨c, hc, he⟩
    · exact hself
    · obtain ⟨s, hs, rfl⟩ := List.mem_map.1 hc
      obtain ⟨i, hi, hset⟩ := List.mem_filterMap.1 hs
      rw [Element.mem_descendants_build] at he
      rcases he with rfl | ⟨c, hc, -⟩
      · exact .entitySet hr hi hset
      · cases hc

/-- All elements of a document are for what the namespaces with a schema declare. -/
theorem shows_of_mem {excluded : List Text} {i : NamespaceId}
    (he : e ∈ Element.descendantsOf (p.schemas routes excluded i)) :
    ∃ space ∈ p.graph.flatten excluded i, p.Shows routes space e := by
  rw [Element.descendantsOf_eq, List.mem_flatMap] at he
  obtain ⟨schema, hschema, he⟩ := he
  obtain ⟨space, hspace, rfl⟩ := List.mem_map.1 hschema
  refine ⟨space, hspace, ?_⟩
  rw [schemaElement, Element.mem_descendants_build] at he
  rcases he with rfl | ⟨c, hc, he⟩
  · exact .schema
  · rw [List.mem_append, List.mem_append] at hc
    rcases hc with (hc | hc) | hc
    · obtain ⟨i, hi, rfl⟩ := List.mem_map.1 hc
      exact shows_of_enum hi he
    · obtain ⟨i, hi, rfl⟩ := List.mem_map.1 hc
      exact shows_of_model hi he
    · obtain ⟨r, hr, hc⟩ := Option.bind_eq_some_iff.1 (Option.mem_toList.1 hc)
      exact shows_of_container hr hc he

end

end Program

end Edm
