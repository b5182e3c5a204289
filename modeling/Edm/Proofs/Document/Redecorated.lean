import Edm.Proofs.Document.Consulted
import Edm.Proofs.Document.Keys
import Edm.Proofs.Document.Properties
import Edm.Proofs.Document.Reported
import Edm.Proofs.Loading.Closed
import Edm.Proofs.Loading.Redecorated

/-!
# Decorators of one model

Decorators have an effect on the model that they are written for and on nothing else.  If two descriptions differ in
the decorators of one model and of its properties, then their documents have the same schemas with the same children,
except perhaps for the element of this model; its name, its base and the names of its properties are still the same, and
what is reported about the properties of other models is the same too (`Program.render_redecorated`).
-/

namespace Edm

open Opening Declarations

/-! ### Elements of one model -/

namespace Element

/-- The names of the properties inside an element, in order. -/
def propertyNames (e : Element) : List (Option Label) := (e.children.filter isProperty).map (get? "Name")

/-- Two elements of the model with a name, whose decorators are others. -/
structure IsRevised (t : Text) (e e' : Element) : Prop where
  model : e.isModel = true ∧ e'.isModel = true
  name : e.get? "Name" = some (.text t) ∧ e'.get? "Name" = some (.text t)
  base : e'.get? "BaseType" = e.get? "BaseType"
  properties : e'.propertyNames = e.propertyNames

/-- Two schemas of the namespace at a path: they are the same but perhaps for the element of the model with a name. -/
structure IsRevisedSchema (q : List Text) (t : Text) (s s' : Element) : Prop where
  tag : s'.tag = s.tag
  attributes : s'.attributes = s.attributes
  name : s.get? "Namespace" = some (.text (Graph.dotted q))
  children : SameButOne (IsRevised t) s.children s'.children

/-- Only the attributes with the name matter. -/
theorem get?_build_append {tag key : Text} (before : List (Text × Label)) {after : List (Text × Label)}
    {children : List Element} (h : ∀ a ∈ after, a.1 ≠ key) :
    (build tag (before ++ after) children).get? key = (build [] before []).get? key := by
  have hafter : (after.filter fun a => !a.2.isAbsent).find? (fun a => a.1 == key) = none := by
    rw [List.find?_eq_none]
    intro a ha
    simpa using h a (List.mem_filter.1 ha).1
  simp only [get?, build, attributes, List.filter_append, List.find?_append, hafter, Option.or_none]

end Element

/-- A model that a document shows: the name of its namespace, its element, and the reports on its properties. -/
structure ShownModel where
  space : Text
  element : Element
  reports : List Diagnostic

/-- Two versions of the model with a name in the namespace at a path. -/
structure ShownModel.IsRevised (q : List Text) (t : Text) (m m' : ShownModel) : Prop where
  space : m.space = Graph.dotted q ∧ m'.space = Graph.dotted q
  element : Element.IsRevised t m.element m'.element

namespace Program

/-- The models that the schema of a namespace shows. -/
def shownModelsOf (p : Program) (i : NamespaceId) : List ShownModel :=
  (p.graph.namespaces.get i).models.values.map fun j => ⟨p.graph.namespaceName i, p.modelElement j, p.modelFallbacks j⟩

/-- The models that a document shows. -/
def shownModels (p : Program) (excluded : List Text) : List ShownModel :=
  (p.graph.flatten excluded Graph.root).flatMap p.shownModelsOf

theorem map_element_shownModelsOf (p : Program) (i : NamespaceId) :
    (p.shownModelsOf i).map ShownModel.element = (p.graph.namespaces.get i).models.values.map p.modelElement := by
  rw [shownModelsOf, List.map_map]
  rfl

theorem flatMap_reports_shownModels (p : Program) (excluded : List Text) :
    (p.shownModels excluded).flatMap ShownModel.reports = p.fallbacks excluded Graph.root := by
  rw [shownModels, List.flatMap_assoc, fallbacks]
  refine List.flatMap_congr fun i _ => ?_
  rw [shownModelsOf, List.flatMap_map]
  rfl

section

variable {p p' : Program} (hgraph : p.graph = p'.graph)

theorem propertyNames_modelElement (p : Program) (i : ModelId) : (p.modelElement i).propertyNames
    = (p.graph.models.get i).properties.values.map fun j => (p.propertyElement j).get? "Name" := by
  rw [Element.propertyNames, filter_isProperty_modelElement, List.map_map]
  rfl

/-- Decorators decide on no attribute of a model but the last one. -/
theorem get?_modelElement_eq (p : Program) {key : Text} (hkey : key ≠ "OpenType") (i : ModelId) :
    (p.modelElement i).get? key = (Element.build [] [("Name", (p.graph.models.get i).name),
      ("BaseType", match (p.graph.models.get i).base with
        | some b => p.graph.nameOf b
        | none => .raw .null)] []).get? key := by
  have hopen : ∀ mark : Label, ∀ a ∈ [(("OpenType" : Text), mark)], a.1 ≠ key := by
    intro mark a ha
    rw [List.mem_singleton.1 ha]
    exact hkey.symm
  rw [modelElement]
  cases p.store.keyProperty? (p.graph.models.get i) <;> exact Element.get?_build_append [_, _] (hopen _)

include hgraph

theorem get?_modelElement_congr {key : Text} (hkey : key ≠ "OpenType") (i : ModelId) :
    (p.modelElement i).get? key = (p'.modelElement i).get? key := by
  rw [get?_modelElement_eq p hkey, get?_modelElement_eq p' hkey, hgraph]

theorem get?_propertyElement_congr (j : PropertyId) :
    (p.propertyElement j).get? "Name" = (p'.propertyElement j).get? "Name" := by
  have hname : ∀ p : Program, (p.propertyElement j).get? "Name"
      = (Element.build [] [("Name", (p.graph.properties.get j).name)] []).get? "Name" := by
    intro p
    rw [propertyElement]
    split
    · exact Element.get?_build_append [_] (by simp; decide)
    · exact Element.get?_build_append [_] (by simp; decide)
  rw [hname p, hname p', hgraph]

/-- The elements that two programs over one graph have for one model. -/
theorem isRevised_modelElement {t : Text} {i : ModelId} (hname : (p.graph.models.get i).name = .text t) :
    Element.IsRevised t (p.modelElement i) (p'.modelElement i) := by
  obtain ⟨-, hget⟩ := get?_modelElement hname
  obtain ⟨-, hget'⟩ := get?_modelElement (hgraph ▸ hname)
  exact {
    model := ⟨isModel_modelElement p i, isModel_modelElement p' i⟩
    name := ⟨hget, hget'⟩
    base := (get?_modelElement_congr hgraph (by decide) i).symm
    properties := by
      rw [propertyNames_modelElement, propertyNames_modelElement, hgraph]
      exact List.map_congr_left fun j _ => (get?_propertyElement_congr hgraph j).symm }

end

/-! ### Two descriptions -/

section

variable {data data' : Json} {p p' : Program} {q u : List Text} {t : Text}

/-- Decorators are left for models and properties only. -/
theorem decorators_interface (es : List NamespaceEntry) (i : InterfaceId) :
    ((ofDescription es).view (.interface i)).decorators = [] := by
  have hnone : (ofDescription es).decorations.filter (fun c => c.target = .interface i) = [] := by
    rw [List.filter_eq_nil_iff]
    intro c hc
    obtain ⟨x, -, hx⟩ := exists_mem_of_forall₂ (isLeft_ofDescription es) c hc
    cases hx <;> simp
  rw [view, hnone]
  rfl

/-- Two programs are loaded from descriptions that differ in the decorators of a model at a path. -/
structure AreRedecorated (p p' : Program) (data data' : Json) (q : List Text) (t : Text) : Prop where
  first : load data = .ok p
  second : load data' = .ok p'
  texts : data.HasTextNames
  texts' : data'.HasTextNames
  decorators : data.Redecorates t q data'

namespace AreRedecorated

variable (h : AreRedecorated p p' data data' q t)

include h

theorem graph_eq : p.graph = p'.graph := graph_redecorated h.first h.second h.decorators

theorem paths_eq : paths data.openings = paths data'.openings := paths_redecorated h.decorators.openings

theorem place_eq (u : List Text) : place data.openings u = place data'.openings u := by
  rw [place, place, h.paths_eq]

/-- The same is bound to a node that has the same decorators. -/
theorem agreesAt {n : Node} (hdecorators : ((ofDescription data.outline).view n).decorators
    = ((ofDescription data'.outline).view n).decorators) : p.store.AgreesAt p'.store n := by
  intro k
  rw [get?_or_of_load h.first, get?_or_of_load h.second, hdecorators, store_redecorated h.decorators, h.graph_eq]

/-- The same is bound to a model with the same entry, and to its properties. -/
theorem agreesAt_shapers {space : NamespaceId} {i : ModelId} {e : ModelEntry}
    (hat : (ofDescription data.outline).ModelAt space u i e)
    (hat' : (ofDescription data'.outline).ModelAt space u i e) :
    ∀ n ∈ p.graph.shapers i, p.store.AgreesAt p'.store n := by
  obtain ⟨-, hsettle⟩ := settleAll_of_load h.first
  obtain ⟨-, hsettle'⟩ := settleAll_of_load h.second
  obtain ⟨properties, base, hmodel, -, hproperties⟩ :=
    hat.settledAt (built_of_load h.first h.texts.openings).tidy hsettle
  obtain ⟨properties', base', hmodel', -, hproperties'⟩ :=
    hat'.settledAt (built_of_load h.second h.texts'.openings).tidy hsettle'
  rw [← h.graph_eq, hmodel] at hmodel'
  cases hmodel'
  intro n hn
  rw [Graph.shapers, Graph.get_model hmodel] at hn
  rcases List.mem_cons.1 hn with rfl | hn
  · obtain ⟨_, hview, -⟩ := hat
    obtain ⟨_, hview', -⟩ := hat'
    exact h.agreesAt (by rw [hview, hview'])
  · obtain ⟨j, hj, rfl⟩ := List.mem_map.1 hn
    obtain ⟨m, hm, rfl⟩ := List.mem_map.1 hj
    obtain ⟨x, x', rfl, -, ⟨-, hview⟩, ⟨-, hview'⟩⟩ :=
      hproperties.exists_of_mem (R := Eq) hproperties' (List.forall₂_refl _) m hm
    exact h.agreesAt (congrArg View.decorators (Eq.trans hview (Eq.symm hview')))

/-- A model that a namespace lists is shown in the same way, unless it is the one with the other decorators. -/
theorem shown_model (hu : u ∈ paths data.openings) {m : Label × ModelId}
    (hm : m ∈ (p.graph.namespaces.get (place data.openings u)).models) :
    (p.graph.models.get m.2).name = m.1
      ∧ (u = q ∧ m.1 = .text t
        ∨ p'.modelElement m.2 = p.modelElement m.2 ∧ p'.modelFallbacks m.2 = p.modelFallbacks m.2) := by
  have hcontents := contents_of_path h.first h.texts hu
  have hcontents' := contents_of_path h.second h.texts' (h.paths_eq ▸ hu)
  rw [← h.place_eq, ← h.graph_eq] at hcontents'
  have hentries := forall₂_latest (models_redecorated h.decorators.openings u) fun _ _ he => he.name_eq
  obtain ⟨e, e', he, hname, hat, hat'⟩ := hcontents.models.exists_of_mem hcontents'.models hentries m hm
  obtain ⟨-, hsettle⟩ := settleAll_of_load h.first
  obtain ⟨_, _, hmodel, -, -⟩ := hat.settled (built_of_load h.first h.texts.openings).tidy hsettle
  refine ⟨by rw [Graph.get_model hmodel, hname], ?_⟩
  rcases he with rfl | ⟨hpath, htext, -⟩
  · have hagree := h.agreesAt_shapers hat hat'
    exact .inr ⟨(modelElement_congr h.graph_eq hagree).symm, (modelFallbacks_congr h.graph_eq hagree).symm⟩
  · exact .inl ⟨hpath, hname.trans htext⟩

/-- Namespaces at other paths show the same models. -/
theorem shownModelsOf_eq (hu : u ∈ paths data.openings) (hne : u ≠ q) :
    p'.shownModelsOf (place data.openings u) = p.shownModelsOf (place data.openings u) := by
  rw [shownModelsOf, shownModelsOf, ← h.graph_eq, Members.values, List.map_map, List.map_map]
  refine List.map_congr_left fun m hm => ?_
  obtain ⟨-, hshown⟩ := h.shown_model hu hm
  obtain ⟨helement, hreports⟩ := hshown.resolve_left fun hother => hne hother.1
  rw [Function.comp_apply, Function.comp_apply, helement, hreports]

/-- The namespace at the path shows the same models, but perhaps for the one with the other decorators. -/
theorem shownModelsOf_sameButOne (hq : q ∈ paths data.openings) :
    SameButOne (ShownModel.IsRevised q t) (p.shownModelsOf (place data.openings q))
      (p'.shownModelsOf (place data.openings q)) := by
  have hspace := (isLaidOut_of_load h.first h.texts.openings).namespaceName_eq hq
  have hnodup := (contents_of_path h.first h.texts hq).models.nodup_names
  rw [shownModelsOf, shownModelsOf, ← h.graph_eq, hspace, Members.values, List.map_map, List.map_map]
  refine SameButOne.map_of_nodup (k := .text t) hnodup (fun m hm hne => ?_) fun m hm htext => ?_
  · obtain ⟨-, hshown⟩ := h.shown_model hq hm
    obtain ⟨helement, hreports⟩ := hshown.resolve_left fun hother => hne hother.2
    rw [Function.comp_apply, Function.comp_apply, helement, hreports]
  · obtain ⟨hname, -⟩ := h.shown_model hq hm
    exact ⟨⟨rfl, rfl⟩, isRevised_modelElement h.graph_eq (hname.trans htext)⟩

/-! ### Documents -/

/-- The namespaces of a document are those of paths, each one once. -/
theorem nodup_flatten (excluded : List Text) : ((p.graph.flatten excluded Graph.root).map id).Nodup := by
  rw [List.map_id]
  exact (nodup_expand_of_load h.first h.texts).filter _

theorem exists_path {excluded : List Text} {i : NamespaceId} (hi : i ∈ p.graph.flatten excluded Graph.root) :
    ∃ u ∈ paths data.openings, i = place data.openings u := by
  rw [flatten_of_load h.first h.texts, List.mem_map] at hi
  obtain ⟨o, ho, rfl⟩ := hi
  obtain ⟨hmem, -, -⟩ := Structure.of_place h.first h.texts (List.mem_of_mem_filter ho)
  exact ⟨o.1, hmem, rfl⟩

theorem shownModels_sameButOne (excluded : List Text) :
    SameButOne (ShownModel.IsRevised q t) (p.shownModels excluded) (p'.shownModels excluded) := by
  rw [shownModels, shownModels, ← h.graph_eq]
  refine SameButOne.flatMap_of_nodup (k := place data.openings q) (h.nodup_flatten excluded) (fun i hi hne => ?_)
    fun i hi heq => ?_
  · obtain ⟨u, hu, rfl⟩ := h.exists_path hi
    exact h.shownModelsOf_eq hu fun hq => hne (hq ▸ rfl)
  · obtain ⟨u, hu, rfl⟩ := h.exists_path hi
    obtain rfl : u = q := place_inj hu heq
    exact h.shownModelsOf_sameButOne hu

theorem schemaElement_eq (routes : Option Routes) (hu : u ∈ paths data.openings) (hne : u ≠ q) :
    p'.schemaElement routes (place data.openings u) = p.schemaElement routes (place data.openings u) := by
  have hmodels := congrArg (List.map ShownModel.element) (h.shownModelsOf_eq hu hne)
  rw [map_element_shownModelsOf, map_element_shownModelsOf, ← h.graph_eq] at hmodels
  exact (schemaElement_of_models h.graph_eq hmodels.symm routes).symm

theorem schemaElement_isRevised (routes : Option Routes) (hq : q ∈ paths data.openings) :
    Element.IsRevisedSchema q t (p.schemaElement routes (place data.openings q))
      (p'.schemaElement routes (place data.openings q)) where
  tag := rfl
  attributes := by
    rw [schemaElement, schemaElement, ← h.graph_eq]
    rfl
  name := get?_schemaElement_of_path h.first h.texts routes hq
  children := by
    have hmodels := (h.shownModelsOf_sameButOne hq).map (f := ShownModel.element) fun _ _ hm => hm.element
    rw [map_element_shownModelsOf, map_element_shownModelsOf, ← h.graph_eq] at hmodels
    rw [children_schemaElement, children_schemaElement, ← h.graph_eq, enumElement_congr h.graph_eq,
      containerElement?_congr h.graph_eq]
    exact (hmodels.append_left _).append_right _

theorem schemas_sameButOne (routes : Option Routes) (excluded : List Text) :
    SameButOne (Element.IsRevisedSchema q t) (p.schemas routes excluded Graph.root)
      (p'.schemas routes excluded Graph.root) := by
  rw [schemas, schemas, ← h.graph_eq]
  refine SameButOne.map_of_nodup (k := place data.openings q) (h.nodup_flatten excluded) (fun i hi hne => ?_)
    fun i hi heq => ?_
  · obtain ⟨u, hu, rfl⟩ := h.exists_path hi
    exact h.schemaElement_eq routes hu fun hq => hne (hq ▸ rfl)
  · obtain ⟨u, hu, rfl⟩ := h.exists_path hi
    obtain rfl : u = q := place_inj hu heq
    exact h.schemaElement_isRevised routes hu

theorem routes_eq : p.routes = p'.routes :=
  routes_congr fun i => h.agreesAt (by rw [decorators_interface, decorators_interface])

end AreRedecorated

/-- The decorators of a model have an effect on this model only.  If two descriptions that are loaded differ in the
decorators of one model and of its properties, then the schemas of their documents are the same, but perhaps for one
that is the same but for the element of this model, and the other models and the reports on their properties are the
same.  A rendering reports on no other types without a name. -/
theorem render_redecorated (h : AreRedecorated p p' data data' q t) (routes : Option Routes) (options : RenderOptions) :
    SameButOne (Element.IsRevisedSchema q t) (p.schemas (usedRoutes options routes) options.excluded Graph.root)
        (p'.schemas (usedRoutes options routes) options.excluded Graph.root)
      ∧ SameButOne (ShownModel.IsRevised q t) (p.shownModels options.excluded) (p'.shownModels options.excluded)
      ∧ p.routes = p'.routes
      ∧ ∀ r ∈ [p, p'],
          (∀ d ∈ r.diagnostics, d.code ≠ .unrenderableType)
            ∧ (∀ m ∈ r.shownModels options.excluded, ∀ d ∈ m.reports, d.code = .unrenderableType)
            ∧ (r.graph.HasTextNames → AreRoutes routes → ∃ text,
              Envelope.text options.indent options.newline
                  (r.schemas (usedRoutes options routes) options.excluded Graph.root) = .ok text
                ∧ r.render options routes = .ok ⟨text,
                    r.diagnostics ++ (r.shownModels options.excluded).flatMap ShownModel.reports⟩) := by
  refine ⟨h.schemas_sameButOne _ _, h.shownModels_sameButOne _, h.routes_eq, fun r hr => ?_⟩
  obtain ⟨d, hload⟩ : ∃ d, load d = .ok r := by
    rcases List.mem_pair.1 hr with rfl | rfl
    · exact ⟨_, h.first⟩
    · exact ⟨_, h.second⟩
  refine ⟨fun d hd => (onlyRejects_of_load hload d hd).2, fun m hm d hd => ?_, fun htexts hroutes => ?_⟩
  · obtain ⟨i, -, hm⟩ := List.mem_flatMap.1 hm
    obtain ⟨j, -, rfl⟩ := List.mem_map.1 hm
    exact (of_mem_modelFallbacks hd).2
  · rw [flatMap_reports_shownModels]
    exact (isFit_of_load hload htexts).render_eq hroutes options

/-- A description of a model that another one refers to, with decorators on it and on its property. -/
def sales (own note : List Json) : Json :=
  let order : Json := .object [("name", .string "Order"), ("baseModel", .string "Item"), ("decorators", .array own),
    ("properties", .array [
      .object [("name", .string "note"), ("type", .string "unknown"), ("decorators", .array note)]])]
  let inner : Json := .object [("name", .string "Sales"), ("models", .array [order])]
  let item : Json := .object [("name", .string "Item"), ("properties", .array [
    .object [("name", .string "order"), ("type", .string "Sales.Order"), ("decorators", .array [.string "contains"])]])]
  .object [("namespaces", .array [
    .object [("name", .string "Shop"), ("models", .array [item]), ("namespaces", .array [inner])]])]

theorem redecorates_sales (own own' note note' : List Json) :
    (sales own note).Redecorates "Order" ["Shop", "Sales"] (sales own' note') := by
  refine ⟨?_, .head _ ⟨rfl, ?_, .head _ ⟨rfl, ?_, .head _ ⟨rfl, ?_, .cons ?_ .nil⟩⟩⟩⟩ <;>
    · intro key hkey
      have hne := fun k hk (heq : k = key) => hkey (heq ▸ hk)
      clear hkey
      simp_all [sales, Json.field?, Json.lookup]

/-- The nodes of the program that such a description gives. -/
def salesNodes : List Node :=
  (List.range 4).map .nameSpace ++ (List.range 25).map .model ++ (List.range 2).map .property
    ++ [.intrinsic 1 (.text "unknown")]

theorem render_redecorated_sales : ∃ p p',
    AreRedecorated p p' (sales [] []) (sales [.string "openModel"] [.string "@id"]) ["Shop", "Sales"] "Order"
    ∧ SameButOne (Element.IsRevisedSchema ["Shop", "Sales"] "Order") (p.schemas none defaultExcluded Graph.root)
        (p'.schemas none defaultExcluded Graph.root)
    ∧ p.schemas none defaultExcluded Graph.root ≠ p'.schemas none defaultExcluded Graph.root
    ∧ ∀ r ∈ [p, p'], ∃ result, r.render {} none = .ok result := by
  obtain ⟨p, hload⟩ : ∃ p, load (sales [] []) = .ok p := Yields.exists_ok (by decide +kernel)
  obtain ⟨p', hload'⟩ : ∃ p', load (sales [.string "openModel"] [.string "@id"]) = .ok p' :=
    Yields.exists_ok (by decide +kernel)
  have hredecorated : AreRedecorated p p' (sales [] []) (sales [.string "openModel"] [.string "@id"])
      ["Shop", "Sales"] "Order" := ⟨hload, hload', by decide +kernel, by decide +kernel, redecorates_sales ..⟩
  have hmem : p ∈ (load (sales [] [])).toOption := by
    rw [hload]
    rfl
  have hmem' : p' ∈ (load (sales [.string "openModel"] [.string "@id"])).toOption := by
    rw [hload']
    rfl
  have hnodes : ∀ p ∈ (load (sales [] [])).toOption,
      ∀ n ∈ salesNodes, p.graph.HasTextName n ∧ ∀ m ∈ p.graph.links n, m ∈ salesNodes := by decide +kernel
  have htexts := Graph.hasTextNames_of_closed (by decide) (hnodes p hmem)
  have hdiffer : ∀ p ∈ (load (sales [] [])).toOption,
      ∀ p' ∈ (load (sales [.string "openModel"] [.string "@id"])).toOption,
        p.schemas none defaultExcluded Graph.root ≠ p'.schemas none defaultExcluded Graph.root := by decide +kernel
  obtain ⟨hschemas, -, -, hrender⟩ := render_redecorated hredecorated none {}
  refine ⟨p, p', hredecorated, hschemas, hdiffer p hmem p' hmem', fun r hr => ?_⟩
  have hgraph : r.graph = p.graph := by
    rcases List.mem_pair.1 hr with rfl | rfl
    · rfl
    · exact hredecorated.graph_eq.symm
  obtain ⟨-, -, hresult⟩ := hrender r hr
  obtain ⟨text, -, hresult⟩ := hresult (hgraph ▸ htexts) fun r hr => by cases hr
  exact ⟨_, hresult⟩

end

end Program

end Edm
