import Edm.Rendering
import Mathlib.Data.List.Basic
import Mathlib.Data.List.Find

/-!
# Bindings that a document consults

Whether a property is navigation, whether it is a key and of what name, and whether a model is open is asked of the
store at the property and at the model, and nothing else is asked of it.  So two programs over one graph show the same
for a model if their stores agree at the model and at its properties (`Program.modelElement_congr`), and are rendered
alike if they agree everywhere (`Program.render_congr`).
-/

namespace Edm

/-! ### Stores that agree at a node -/

namespace AnnotationStore

/-- Whether two stores bind the same to a node. -/
def AgreesAt (s s' : AnnotationStore) (n : Node) : Prop := ∀ k, s.get? k n = s'.get? k n

section

variable {s s' : AnnotationStore} {i : PropertyId}

theorem AgreesAt.has_eq {n : Node} (h : s.AgreesAt s' n) (k : AnnotationKind) : s.has k n = s'.has k n := by
  rw [has, has, h]

theorem AgreesAt.isKey_eq (h : s.AgreesAt s' (.property i)) : s.isKey i = s'.isKey i := h.has_eq .key

theorem AgreesAt.keyName_eq (h : s.AgreesAt s' (.property i)) (own : Label) : s.keyName i own = s'.keyName i own := by
  rw [keyName, keyName, h]

theorem AgreesAt.propertyClass_eq (h : s.AgreesAt s' (.property i)) : s.propertyClass i = s'.propertyClass i := by
  rw [propertyClass, propertyClass, h.has_eq, h.has_eq]

theorem AgreesAt.isOpen_eq {i : ModelId} (h : s.AgreesAt s' (.model i)) : s.isOpen i = s'.isOpen i := h.has_eq .openType

theorem keyProperty?_congr {m : Model} (h : ∀ i ∈ m.properties.values, s.AgreesAt s' (.property i)) :
    s.keyProperty? m = s'.keyProperty? m :=
  List.find?_congr fun i hi => (h i hi).isKey_eq

end

end AnnotationStore

/-- The nodes whose bindings shape what is shown for a model: the model and its properties. -/
def Graph.shapers (g : Graph) (i : ModelId) : List Node :=
  .model i :: (g.models.get i).properties.values.map .property

namespace Program

variable {p p' : Program} (hgraph : p.graph = p'.graph)

include hgraph

/-! ### Properties and models -/

section

variable {i : PropertyId} (h : p.store.AgreesAt p'.store (.property i))

include h

theorem propertyElement_congr : p.propertyElement i = p'.propertyElement i := by
  rw [propertyElement, propertyElement, hgraph, h.propertyClass_eq]

theorem keyElement_congr : p.keyElement i = p'.keyElement i := by
  rw [keyElement, keyElement, hgraph, h.keyName_eq]

theorem fallback?_congr : p.fallback? i = p'.fallback? i := by
  have hsite : p.propertySite i = p'.propertySite i := by
    rw [propertySite, propertySite, hgraph]
  rw [fallback?, fallback?, fallbackText?, fallbackText?, hgraph, h.propertyClass_eq, hsite]

theorem propertyFault?_congr : p.propertyFault? i = p'.propertyFault? i := by
  rw [propertyFault?, propertyFault?, propertyElement_congr hgraph h, fallback?_congr hgraph h]

end

section

variable {i : ModelId} (h : ∀ n ∈ p.graph.shapers i, p.store.AgreesAt p'.store n)

include h

omit hgraph in
theorem agreesAt_properties :
    ∀ j ∈ (p.graph.models.get i).properties.values, p.store.AgreesAt p'.store (.property j) :=
  fun _ hj => h _ (List.mem_cons_of_mem _ (List.mem_map_of_mem hj))

theorem modelElement_congr : p.modelElement i = p'.modelElement i := by
  have hmodel := h _ (List.mem_cons_self ..)
  have hproperties := agreesAt_properties h
  have helements : (p.graph.models.get i).properties.values.map p.propertyElement
      = (p.graph.models.get i).properties.values.map p'.propertyElement :=
    List.map_congr_left fun j hj => propertyElement_congr hgraph (hproperties j hj)
  have hkey := AnnotationStore.keyProperty?_congr hproperties
  rw [modelElement, modelElement, ← hgraph, helements, hmodel.isOpen_eq, ← hkey]
  cases hfound : p.store.keyProperty? (p.graph.models.get i) with
  | none => rfl
  | some j =>
    have hj := hproperties j (List.mem_of_find?_eq_some hfound)
    dsimp only
    rw [keyElement_congr hgraph hj]

theorem modelFallbacks_congr : p.modelFallbacks i = p'.modelFallbacks i := by
  rw [modelFallbacks, modelFallbacks, ← hgraph]
  exact List.filterMap_congr fun j hj => fallback?_congr hgraph (agreesAt_properties h j hj)

end

/-! ### Elements that depend on the graph alone -/

theorem enumElement_congr : p.enumElement = p'.enumElement := by
  have hmember : p.memberElement = p'.memberElement := by
    funext j
    rw [memberElement, memberElement, hgraph]
  funext i
  rw [enumElement, enumElement, hgraph, hmember]

theorem containerElement?_congr : p.containerElement? = p'.containerElement? := by
  funext r i
  rw [containerElement?, containerElement?, hgraph]

/-- Only the models of a schema depend on what is bound. -/
theorem schemaElement_of_models {i : NamespaceId}
    (h : (p.graph.namespaces.get i).models.values.map p.modelElement
      = (p.graph.namespaces.get i).models.values.map p'.modelElement) (routes : Option Routes) :
    p.schemaElement routes i = p'.schemaElement routes i := by
  rw [schemaElement, schemaElement, ← hgraph, h, enumElement_congr hgraph, containerElement?_congr hgraph]

/-! ### Documents -/

section

variable (h : ∀ n, p.store.AgreesAt p'.store n)

include h

theorem schemaElement_congr (routes : Option Routes) (i : NamespaceId) :
    p.schemaElement routes i = p'.schemaElement routes i :=
  schemaElement_of_models hgraph (List.map_congr_left fun _ _ => modelElement_congr hgraph fun n _ => h n) routes

theorem fault?_congr (routes : Option Routes) (excluded : List Text) (i : NamespaceId) :
    p.fault? routes excluded i = p'.fault? routes excluded i := by
  have hproperties : p.propertyFault? = p'.propertyFault? := funext fun j => propertyFault?_congr hgraph (h _)
  have hmodels : p.modelFault? = p'.modelFault? := by
    funext j
    rw [modelFault?, modelFault?, baseFault?, baseFault?, hgraph, hproperties]
  have hspaces : p.namespaceFault? = p'.namespaceFault? := by
    funext j
    rw [namespaceFault?, namespaceFault?, hgraph]
  have hschemas : p.schemaFault? routes = p'.schemaFault? routes := by
    funext j
    rw [schemaFault?, schemaFault?, hgraph, hmodels, hspaces]
  rw [fault?, fault?, hgraph, hspaces, hschemas]

/-- Programs over one graph whose stores agree are rendered alike: the same document, or the same error. -/
theorem render_congr (options : RenderOptions) (routes : Option Routes) :
    (p.render options routes).map RenderResult.text = (p'.render options routes).map RenderResult.text := by
  have hschemas : ∀ routes excluded, p.schemas routes excluded Graph.root = p'.schemas routes excluded Graph.root := by
    intro routes excluded
    rw [schemas, schemas, hgraph, funext (schemaElement_congr hgraph h routes)]
  rw [render, render]
  dsimp only
  rw [fault?_congr hgraph h, hschemas]
  cases p'.fault? (if options.entityContainer then routes else none) options.excluded Graph.root with
  | some fault => rfl
  | none =>
    cases Envelope.text options.indent options.newline
        (p'.schemas (if options.entityContainer then routes else none) options.excluded Graph.root) <;> rfl

end

omit hgraph in
theorem routes_congr (h : ∀ i, p.store.AgreesAt p'.store (.interface i)) : p.routes = p'.routes := by
  funext i
  rw [routes, routes, routeOf, routeOf, h]

end Program

end Edm
