import Edm.Proofs.Document.Properties

/-!
# Reports on types without a name

What rendering reports is decided by two recursions that say whether a type has a name or an identifier, and what it
writes by two others that put them together.  They agree: the name of a finite type and the identifier of a node are
worked out in one way, and a word stands in for a rule on that way where the former say so.  So the reports on a loaded
program are those on the properties for whose type a word stands in, in the order of the document, each quoting what
is written (`Program.reports_of_load`).
-/

namespace Edm

namespace Program

open Declarations

/-! ### What is written for a type -/

/-- What is written for the type of a property comes out as a label; the words for the kinds of some nodes stand
in. -/
def Typing (p : Program) (j : PropertyId) : Label → List Node → Prop :=
  match p.store.propertyClass j with
  | .navigation _ => p.graph.Identifying (p.graph.properties.get j).type
  | .scalar => p.graph.Naming (p.graph.properties.get j).type

/-- What is reported about a property: nothing if no word stands in, else one thing that quotes what is written. -/
inductive Reports (p : Program) (j : PropertyId) : Option Diagnostic → Prop
  | nothing {t : Text} : p.Typing j (.text t) [] → (p.propertyElement j).get? "Type" = some (.text t) →
      Reports p j none
  | fallback {t : Text} {n : Node} {lacking : List Node} : p.Typing j (.text t) (n :: lacking) →
      (p.propertyElement j).get? "Type" = some (.text t) →
      Reports p j (some {
        code := .unrenderableType
        message := .text ("Type has no naming rule; rendered as '" ++ t ++ "'")
        site := p.propertySite j
        severity := .info })

section

variable {data : Json} {p : Program} {excluded : List Text} {j : PropertyId}

/-- The reports on a document are those on its properties, in its order. -/
theorem fallbacks_eq (p : Program) (excluded : List Text) :
    p.fallbacks excluded Graph.root = (p.shownProperties excluded).filterMap p.fallback? := by
  rw [fallbacks, shownProperties, List.filterMap_flatMap]
  refine List.flatMap_congr fun space _ => ?_
  rw [namespaceFallbacks, List.filterMap_flatMap]
  rfl

theorem reached_of_mem_shown (h : load data = .ok p) (hj : j ∈ p.shownProperties excluded) :
    (ofDescription data.outline).Reached p.graph (.property j) := by
  obtain ⟨space, hspace, hj⟩ := List.mem_flatMap.1 hj
  obtain ⟨i, hi, hj⟩ := List.mem_flatMap.1 hj
  obtain ⟨hd, -⟩ := consistent_of_load h
  obtain ⟨-, hsettle⟩ := settleAll_of_load h
  have hreached := reached_of_mem_expand h (Graph.mem_flatten.1 hspace).1
  exact hd.reached_property hsettle (hd.reached_model hsettle hreached hi) hj

theorem get?_propertyElement_navigation {contained : Bool} {t : Text}
    (hclass : p.store.propertyClass j = .navigation contained)
    (hid : p.graph.idLabel (p.graph.properties.get j).type = .text t) :
    (p.propertyElement j).get? "Type" = some (.text t) := by
  rw [propertyElement, hclass]
  dsimp only
  rw [hid]
  exact Element.get?_build [_] (by simp; decide)

theorem get?_propertyElement_scalar {t : Text} (hclass : p.store.propertyClass j = .scalar)
    (hname : p.graph.typeName (p.graph.properties.get j).type = .text t) :
    (p.propertyElement j).get? "Type" = some (.text t) := by
  rw [propertyElement, hclass]
  dsimp only
  rw [hname]
  exact Element.get?_build [_] (by simp; decide)

theorem fallbackText?_navigation {contained : Bool} (hclass : p.store.propertyClass j = .navigation contained) :
    p.fallbackText? j = if (p.graph.properties.get j).type.hasIdentifier then none
      else some (p.graph.qualifiedId (p.graph.properties.get j).type) := by
  rw [fallbackText?, hclass]

theorem fallbackText?_scalar (hclass : p.store.propertyClass j = .scalar) :
    p.fallbackText? j = if p.graph.isUnnameable (p.graph.properties.get j).type
      then some (p.graph.typeName (p.graph.properties.get j).type).display else none := by
  rw [fallbackText?, hclass]

theorem reports_of_typing {t : Text} {lacking : List Node} (htyping : p.Typing j (.text t) lacking)
    (hget : (p.propertyElement j).get? "Type" = some (.text t))
    (htext : p.fallbackText? j = if lacking = [] then none else some t) : p.Reports j (p.fallback? j) := by
  rw [fallback?, htext]
  cases lacking with
  | nil => exact .nothing htyping hget
  | cons n lacking => exact .fallback htyping hget

/-- What is reported about a property is what the words that stand in for its type ask for. -/
theorem reports_fallback? (hnames : p.graph.HasTextNames)
    (hj : p.graph.Reaches (p.graph.properties.get j).type)
    (hfinite : p.store.propertyClass j = .scalar → p.graph.IsFinite (p.graph.properties.get j).type) :
    p.Reports j (p.fallback? j) := by
  cases hclass : p.store.propertyClass j with
  | navigation contained =>
    have hid := hnames.idLabel_eq hj
    obtain ⟨lacking, hidentifying, hfalls⟩ := p.graph.exists_identifying (p.graph.properties.get j).type
    have htyping : p.Typing j (p.graph.idLabel (p.graph.properties.get j).type) lacking := by
      rw [Typing, hclass]
      exact hidentifying
    rw [hid] at htyping
    refine reports_of_typing htyping (get?_propertyElement_navigation hclass hid) ?_
    rw [fallbackText?_navigation hclass]
    by_cases hlacking : lacking = []
    · have hhas : (p.graph.properties.get j).type.hasIdentifier = true := by simpa [hlacking] using hfalls
      simp [hhas, hlacking]
    · simp [hfalls.2 hlacking, hlacking]
  | scalar =>
    obtain ⟨t, ht⟩ := Label.isText_iff.1 (hnames.isText_typeName hj)
    obtain ⟨lacking, hnaming, hfalls⟩ := (hfinite hclass).exists_naming
    have htyping : p.Typing j (p.graph.typeName (p.graph.properties.get j).type) lacking := by
      rw [Typing, hclass]
      exact hnaming
    rw [ht] at htyping
    refine reports_of_typing htyping (get?_propertyElement_scalar hclass ht) ?_
    rw [fallbackText?_scalar hclass]
    by_cases hlacking : lacking = []
    · have hhas : p.graph.isUnnameable (p.graph.properties.get j).type = false := by simpa [hlacking] using hfalls
      simp [hhas, hlacking]
    · simp [hfalls.2 hlacking, hlacking, ht]

/-- The two predicates say where a word stands in for a rule; the reports of a rendering are what the words that stand
in for the types of properties ask for, in the order of the properties in the document, and nothing else. -/
theorem reports_of_load :
    (∀ (g : Graph) (n : Node), g.IsFinite n → ∃ lacking, g.Naming n (g.typeName n) lacking
      ∧ (∀ l lacking', g.Naming n l lacking' → l = g.typeName n ∧ lacking' = lacking)
      ∧ (g.isUnnameable n = true ↔ lacking ≠ []))
    ∧ (∀ (g : Graph) (n : Node), ∃ lacking, g.Identifying n (g.idLabel n) lacking
      ∧ (∀ l lacking', g.Identifying n l lacking' → l = g.idLabel n ∧ lacking' = lacking)
      ∧ (n.hasIdentifier = false ↔ lacking ≠ []))
    ∧ ∀ (data : Json) (p : Program) (options : RenderOptions) (routes : Option Routes), load data = .ok p →
      p.graph.HasTextNames → AreRoutes routes →
      (∀ j ∈ p.shownProperties options.excluded, p.store.propertyClass j = .scalar →
        Acc p.graph.IsPartOf (p.graph.properties.get j).type) →
      ∃ result reports, p.render options routes = .ok result
        ∧ Envelope.text options.indent options.newline
            (p.schemas (usedRoutes options routes) options.excluded Graph.root) = .ok result.text
        ∧ (Element.descendantsOf (p.schemas (usedRoutes options routes) options.excluded Graph.root)).filter
            Element.isProperty = (p.shownProperties options.excluded).map p.propertyElement
        ∧ List.Forall₂ p.Reports (p.shownProperties options.excluded) reports
        ∧ result.diagnostics = p.diagnostics ++ reports.reduceOption := by
  refine ⟨fun g n hn => ?_, fun g n => ?_, fun data p options routes h hnames hroutes hacc => ?_⟩
  · obtain ⟨lacking, hnaming, hfalls⟩ := hn.exists_naming
    exact ⟨lacking, hnaming, fun l lacking' h' => hnaming.unique h', hfalls⟩
  · obtain ⟨lacking, hidentifying, hfalls⟩ := g.exists_identifying n
    exact ⟨lacking, hidentifying, fun l lacking' h' => hidentifying.unique h', hfalls⟩
  · obtain ⟨hd, -⟩ := consistent_of_load h
    obtain ⟨-, hsettle⟩ := settleAll_of_load h
    obtain ⟨text, htext, hrender⟩ := (isFit_of_load h hnames).render_eq hroutes options
    refine ⟨_, (p.shownProperties options.excluded).map p.fallback?, hrender, htext,
      p.filter_isProperty_descendants _ _, ?_, ?_⟩
    · rw [List.forall₂_map_right_iff, List.forall₂_same]
      intro j hj
      obtain ⟨htype, -⟩ := hd.reached_propertyType hsettle (reached_of_mem_shown h hj)
      exact reports_fallback? hnames htype.reaches fun hclass => hd.isFinite hsettle htype (hacc j hj hclass)
    · have hreported : ((p.shownProperties options.excluded).map p.fallback?).reduceOption
          = (p.shownProperties options.excluded).filterMap p.fallback? := List.filterMap_map
      rw [fallbacks_eq, hreported]

/-- A description with types that have no name: inside a union of a property that holds values, of a navigation
property, and in a namespace inside another one. -/
def unruled : Json := .object [("namespaces", .array [.object [("name", .string "A"),
  ("models", .array [.object [("name", .string "M"), ("properties", .array [
    .object [("name", .string "u"), ("type", .string "U[]")],
    .object [("name", .string "t"), ("type", .object [("kind", .string "TemplateParameter"), ("name", .string "T")])],
    .object [("name", .string "n"), ("type", .object [("kind", .string "TemplateParameter"), ("name", .string "T")]),
      ("decorators", .array [.string "references"])],
    .object [("name", .string "v"), ("type", .string "U"), ("decorators", .array [.string "contains"])]])]]),
  ("unions", .array [.object [("name", .string "U"), ("options", .array [.string "string", .string "unknown[]"])]]),
  ("namespaces", .array [.object [("name", .string "B"), ("models", .array [.object [("name", .string "N"),
    ("properties", .array [.object [("name", .string "x"), ("type", .string "unknown")]])]])]])]])]

example : (load unruled).toOption.map (fun p => (p.fallbacks defaultExcluded Graph.root).map Diagnostic.site)
    = some [.text "A.M.u", .text "A.M.n", .text "A.B.N.x"] := by
  decide +kernel

/-- The nodes of the program that this description gives. -/
def unruledNodes : List Node :=
  (List.range 4).map .nameSpace ++ (List.range 24).map .model ++ (List.range 5).map .property
    ++ [.union 0, .array 1 (.union 0), .parameter 2 (.text "T"), .parameter 3 (.text "T"),
      .intrinsic 4 (.text "unknown"), .array 5 (.intrinsic 4 (.text "unknown")), .intrinsic 6 (.text "unknown")]

theorem reports_of_load_unruled : ∃ p, load unruled = .ok p ∧ p.graph.HasTextNames ∧ AreRoutes (some p.routes)
    ∧ (p.shownProperties defaultExcluded).length = 5
    ∧ (∀ j ∈ p.shownProperties defaultExcluded, ∃ lacking,
        p.graph.Naming (p.graph.properties.get j).type (p.graph.typeName (p.graph.properties.get j).type) lacking
        ∧ (p.graph.isUnnameable (p.graph.properties.get j).type = true ↔ lacking ≠ []))
    ∧ ∃ result reports, p.render { entityContainer := true } (some p.routes) = .ok result
      ∧ List.Forall₂ p.Reports (p.shownProperties defaultExcluded) reports
      ∧ result.diagnostics = p.diagnostics ++ reports.reduceOption := by
  obtain ⟨p, hload, hnames, hacyclic⟩ : ∃ p, load unruled = .ok p ∧ p.graph.HasTextNames ∧ p.graph.HasAcyclicUnions :=
    exists_load_of_closed unruledNodes (by decide +kernel) (by decide) (by decide +kernel) (by decide +kernel)
  have hcount : ∀ p ∈ (load unruled).toOption, (p.shownProperties defaultExcluded).length = 5 := by decide +kernel
  have hfinite : ∀ j ∈ p.shownProperties defaultExcluded, p.graph.IsFinite (p.graph.properties.get j).type :=
    fun j hj => isFinite_propertyType hload hnames hacyclic (reached_of_mem_shown hload hj)
  obtain ⟨hnamed, -, hrendered⟩ := reports_of_load
  refine ⟨p, hload, hnames, areRoutes_routes p, hcount p (by rw [hload]; rfl), fun j hj => ?_, ?_⟩
  · obtain ⟨lacking, hnaming, -, hfalls⟩ := hnamed _ _ (hfinite j hj)
    exact ⟨lacking, hnaming, hfalls⟩
  · obtain ⟨result, reports, hrender, -, -, hreports, hdiagnostics⟩ := hrendered _ p { entityContainer := true }
      (some p.routes) hload hnames (areRoutes_routes p) fun j hj _ => (hfinite j hj).acc
    exact ⟨result, reports, hrender, hreports, hdiagnostics⟩

end

end Program

end Edm
