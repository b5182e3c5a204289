import Edm.Proofs.Document.Fallbacks
import Edm.Proofs.Document.Reported

/-!
# The types of entity sets

An entity set is about the items of what the `Get` operation of its interface returns, and has their identifier
(`Program.entitySets_of_load`).  A word may stand in for the identifier, since an operation may return anything, and
returns nothing if the description does not say what.  Only properties are ever reported for that, and the reports of
a document do not depend on its entity sets (`Program.not_reported_voided`).
-/

namespace Edm

namespace Program

open Declarations

/-- An element is the entity set of an interface: it shows the set that the route of the interface gives, the `Get`
operation returns a type, and the identifier of the items of that type, for which the words for the kinds of some nodes
stand in, is the value of its attribute. -/
structure IsSetOf (p : Program) (routes : Routes) (e : Element) (i : InterfaceId) (returned : Node)
    (lacking : List Node) : Prop where
  shown : ∃ s, p.graph.entitySet? routes i = some s ∧ e = setElement s
  result : ∃ o, (p.graph.interfaces.get i).operations.lookup (.text "Get") = some o
    ∧ (p.graph.operations.get o).result = some returned
  entityType : e.get? "EntityType" = some (.text (p.graph.qualifiedId returned.itemType))
  identifying : p.graph.Identifying returned.itemType (.text (p.graph.qualifiedId returned.itemType)) lacking

section

variable {data : Json} {p : Program} {options : RenderOptions} {routes : Routes} {space : NamespaceId}

theorem exists_isSetOf (hnames : p.graph.HasTextNames) (hspace : p.graph.Reaches (.nameSpace space)) {e : Element}
    (hshows : p.Shows (some routes) space e) (htag : e.tag = "EntitySet") :
    ∃ i ∈ (p.graph.namespaces.get space).interfaces.values, ∃ returned lacking,
      p.IsSetOf routes e i returned lacking := by
  obtain ⟨key, type, href⟩ := references_of_shows hshows (.inr htag)
  have hhref := href
  cases href with
  | property _ _ hclass =>
    rw [propertyElement, hclass] at htag
    exact absurd htag (show ("NavigationProperty" : Text) ≠ "EntitySet" by decide)
  | @entitySet r i s returned hroutes hi hset hreturned =>
    cases hroutes
    have hreaches := ((reaches_interface hspace hi).getResult? hreturned).itemType
    have hid := hnames.idLabel_eq hreaches
    obtain ⟨lacking, hidentifying, -⟩ := p.graph.exists_identifying returned.itemType
    rw [hid] at hidentifying
    exact ⟨i, hi, returned, lacking, ⟨s, hset, rfl⟩, Option.bind_eq_some_iff.1 hreturned, hhref.get?_eq hid,
      hidentifying⟩

/-- Reports on types are reports on properties. -/
theorem exists_fallback?_of_mem (h : load data = .ok p) {excluded : List Text} {d : Diagnostic}
    (hd : d ∈ p.diagnostics ++ p.fallbacks excluded Graph.root) (hcode : d.code = .unrenderableType) :
    ∃ j ∈ p.shownProperties excluded, p.fallback? j = some d := by
  rcases List.mem_append.1 hd with hd | hd
  · exact absurd hcode (onlyRejects_of_load h d hd).2
  · rw [fallbacks_eq] at hd
    exact List.mem_filterMap.1 hd

/-- Each entity set of a document has the identifier of the items that the `Get` operation of its interface returns.
All reports on types are on properties: rendering says the same with the entity sets as without them. -/
theorem entitySets_of_load (h : load data = .ok p) (hnames : p.graph.HasTextNames)
    (hcontainer : options.entityContainer = true) :
    ∃ result, p.render options (some p.routes) = .ok result
      ∧ Envelope.text options.indent options.newline (p.schemas (some p.routes) options.excluded Graph.root)
        = .ok result.text
      ∧ (∀ e ∈ Element.descendantsOf (p.schemas (some p.routes) options.excluded Graph.root), e.tag = "EntitySet" →
        ∃ space ∈ p.graph.flatten options.excluded Graph.root,
          ∃ i ∈ (p.graph.namespaces.get space).interfaces.values, ∃ returned lacking,
            p.IsSetOf p.routes e i returned lacking ∧ (lacking = [] ↔ returned.itemType.hasIdentifier = true))
      ∧ (∀ d ∈ result.diagnostics, d.code = .unrenderableType →
        ∃ j ∈ p.shownProperties options.excluded, p.fallback? j = some d)
      ∧ ∃ result', p.render { options with entityContainer := false } (some p.routes) = .ok result'
        ∧ result'.diagnostics = result.diagnostics := by
  have hused : usedRoutes options (some p.routes) = some p.routes := by rw [usedRoutes, if_pos hcontainer]
  obtain ⟨text, htext, hrender⟩ := (isFit_of_load h hnames).render_eq (areRoutes_routes p) options
  rw [hused] at htext
  obtain ⟨text', -, hrender'⟩ :=
    (isFit_of_load h hnames).render_eq (areRoutes_routes p) { options with entityContainer := false }
  refine ⟨_, hrender, htext, fun e he htag => ?_, fun d hd hcode => exists_fallback?_of_mem h hd hcode, _,
    hrender', rfl⟩
  obtain ⟨space, hspace, hshows⟩ := shows_of_mem he
  have hreaches := reaches_of_mem_expand (Graph.mem_flatten.1 hspace).1
  obtain ⟨i, hi, returned, lacking, hset⟩ := exists_isSetOf hnames hreaches hshows htag
  refine ⟨space, hspace, i, hi, returned, lacking, hset, ?_⟩
  obtain ⟨-, hfalls⟩ := Graph.of_identifying hset.identifying
  rw [← Bool.not_eq_false, hfalls, not_not]

/-- A description with an operation that does not say what it returns, and with one that returns models. -/
def voided : Json := .object [("namespaces", .array [.object [("name", .string "A"),
  ("models", .array [.object [("name", .string "M"), ("properties", .array [
    .object [("name", .string "p"), ("type", .string "string")]])]]),
  ("interfaces", .array [
    .object [("name", .string "I"), ("route", .string "/api/things"),
      ("operations", .array [.object [("name", .string "Get")]])],
    .object [("name", .string "J"), ("route", .string "/api/ms/"),
      ("operations", .array [.object [("name", .string "Get"), ("returnType", .string "M[]")]])]])]])]

/-- The nodes of the program that this description gives. -/
def voidedNodes : List Node :=
  (List.range 3).map .nameSpace ++ (List.range 25).map .model
    ++ [.property 0, .interface 0, .interface 1, .operation 0, .operation 1, .intrinsic 1 (.text "void"),
      .array 2 (.model 22)]

theorem hasTextNames_voided : ∃ p, load voided = .ok p ∧ p.graph.HasTextNames := by
  obtain ⟨p, hload, hnames, -⟩ : ∃ p, load voided = .ok p ∧ p.graph.HasTextNames ∧ p.graph.HasAcyclicUnions :=
    exists_load_of_closed voidedNodes (by decide +kernel) (by decide) (by decide +kernel) (by decide +kernel)
  exact ⟨p, hload, hnames⟩

theorem entitySets_of_load_voided : ∃ p, load voided = .ok p ∧ p.graph.HasTextNames
    ∧ ∃ result, p.render { entityContainer := true } (some p.routes) = .ok result
      ∧ (∀ e ∈ Element.descendantsOf (p.schemas (some p.routes) defaultExcluded Graph.root), e.tag = "EntitySet" →
        ∃ space ∈ p.graph.flatten defaultExcluded Graph.root,
          ∃ i ∈ (p.graph.namespaces.get space).interfaces.values, ∃ returned lacking,
            p.IsSetOf p.routes e i returned lacking ∧ (lacking = [] ↔ returned.itemType.hasIdentifier = true))
      ∧ (∀ d ∈ result.diagnostics, d.code = .unrenderableType →
        ∃ j ∈ p.shownProperties defaultExcluded, p.fallback? j = some d)
      ∧ ∃ result', p.render {} (some p.routes) = .ok result' ∧ result'.diagnostics = result.diagnostics := by
  obtain ⟨p, hload, hnames⟩ := hasTextNames_voided
  have hcontainer : ({ entityContainer := true } : RenderOptions).entityContainer = true := rfl
  obtain ⟨result, hrender, -, hsets⟩ := entitySets_of_load hload hnames hcontainer
  exact ⟨p, hload, hnames, result, hrender, hsets⟩

/-- A word stands in for the type of the first entity set, and nothing is reported. -/
theorem not_reported_voided : ∃ p result, load voided = .ok p ∧ p.graph.HasTextNames
    ∧ p.render { entityContainer := true } (some p.routes) = .ok result
    ∧ (∃ e ∈ Element.descendantsOf (p.schemas (some p.routes) defaultExcluded Graph.root), e.tag = "EntitySet"
      ∧ ∃ i returned, p.IsSetOf p.routes e i returned [returned.itemType])
    ∧ ∀ d ∈ result.diagnostics, d.code ≠ .unrenderableType := by
  have hfound : ∀ p ∈ (load voided).toOption, (p.graph.entitySet? p.routes 0).isSome = true
      ∧ (∀ s ∈ p.graph.entitySet? p.routes 0,
        setElement s ∈ Element.descendantsOf (p.schemas (some p.routes) defaultExcluded Graph.root)
          ∧ (setElement s).get? "EntityType" = some (.text (p.graph.qualifiedId (.intrinsic 1 (.text "void")))))
      ∧ (p.graph.interfaces.get 0).operations.lookup (.text "Get") = some 0
      ∧ (p.graph.operations.get 0).result = some (.intrinsic 1 (.text "void"))
      ∧ ∀ d ∈ p.diagnostics ++ p.fallbacks defaultExcluded Graph.root, d.code ≠ .unrenderableType := by
    decide +kernel
  obtain ⟨p, hload, hnames⟩ := hasTextNames_voided
  obtain ⟨hsome, helement, hget, hresult, hcodes⟩ := hfound p (by rw [hload]; rfl)
  obtain ⟨s, hset⟩ := Option.isSome_iff_exists.1 hsome
  obtain ⟨he, hvalue⟩ := helement s hset
  obtain ⟨text, -, hrender⟩ := (isFit_of_load hload hnames).render_eq (areRoutes_routes p) { entityContainer := true }
  refine ⟨p, _, hload, hnames, hrender, ⟨setElement s, he, rfl, 0, .intrinsic 1 (.text "void"), ?_⟩, hcodes⟩
  exact ⟨⟨s, hset, rfl⟩, ⟨0, hget, hresult⟩, hvalue, .intrinsic 1 (.text "void")⟩

end

end Program

end Edm
