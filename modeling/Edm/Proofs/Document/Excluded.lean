import Edm.Proofs.Document.Reported

/-!
# Excluded namespaces

Excluding a prefix takes schemas out of a document and does nothing else.  A document consists of its schemas, each
with the reports on the properties that it shows (`Program.parts`); with more prefixes there are those of the same parts
whose `Namespace` starts with none of them, in the same order and unchanged, and it does not matter in which order and
how often the prefixes are given (`Program.render_excluding`).
-/

namespace Edm

/-! ### Prefixes -/

theorem isExcluded_append (E F : List Text) (name : Text) :
    isExcluded (E ++ F) name = (isExcluded E name || isExcluded F name) := List.any_append

theorem isExcluded_congr {E E' : List Text} (h : ∀ t, t ∈ E' ↔ t ∈ E) (name : Text) :
    isExcluded E' name = isExcluded E name := by
  rw [Bool.eq_iff_iff, isExcluded, isExcluded, List.any_eq_true, List.any_eq_true]
  exact exists_congr fun t => and_congr_left fun _ => h t

namespace Graph

variable (g : Graph) (E F : List Text)

theorem isIncluded_append (i : NamespaceId) :
    g.isIncluded (E ++ F) i = (g.isIncluded E i && !isExcluded F (g.namespaceName i)) := by
  rw [isIncluded, isIncluded, isExcluded_append, Bool.not_or, ← Bool.and_assoc]

theorem flatten_append (i : NamespaceId) :
    g.flatten (E ++ F) i = (g.flatten E i).filter fun j => !isExcluded F (g.namespaceName j) := by
  rw [flatten, flatten, List.filter_filter]
  exact List.filter_congr fun j _ => by rw [isIncluded_append, Bool.and_comm]

theorem flatten_congr {E E' : List Text} (h : ∀ t, t ∈ E' ↔ t ∈ E) (i : NamespaceId) :
    g.flatten E' i = g.flatten E i := by
  rw [flatten, flatten]
  exact List.filter_congr fun j _ => by rw [isIncluded, isIncluded, isExcluded_congr h]

end Graph

/-! ### Parts -/

/-- A schema of a document with the reports on the properties that it shows. -/
structure SchemaPart where
  schema : Element
  reports : List Diagnostic

/-- Whether the `Namespace` of a schema starts with one of some prefixes. -/
def SchemaPart.isWithin (prefixes : List Text) (s : SchemaPart) : Bool :=
  match s.schema.get? "Namespace" with
  | some (.text name) => prefixes.any fun part => part.isPrefixOf name
  | _ => false

namespace Program

/-- The parts of a document. -/
def parts (p : Program) (routes : Option Routes) (excluded : List Text) : List SchemaPart :=
  (p.graph.flatten excluded Graph.root).map fun i => ⟨p.schemaElement routes i, p.namespaceFallbacks i⟩

variable {data : Json} {p : Program} {routes : Option Routes}

theorem map_schema_parts (excluded : List Text) :
    (p.parts routes excluded).map SchemaPart.schema = p.schemas routes excluded Graph.root := by
  rw [parts, List.map_map]
  rfl

theorem flatMap_reports_parts (excluded : List Text) :
    (p.parts routes excluded).flatMap SchemaPart.reports = p.fallbacks excluded Graph.root := by
  rw [parts, List.flatMap_map]
  rfl

/-- The `Namespace` of a schema is the dotted name of its namespace. -/
theorem get?_schemaElement (htexts : p.graph.HasTextNames) {space : NamespaceId}
    (hspace : space ∈ p.graph.expand Graph.root) :
    (p.schemaElement routes space).get? "Namespace" = some (.text (p.graph.namespaceName space)) := by
  rw [schemaElement, htexts.idLabel_eq (reaches_of_mem_expand hspace)]
  exact Element.get?_build [] (by simp)

/-- More prefixes leave the parts that start with none of them. -/
theorem parts_append (htexts : p.graph.HasTextNames) (E F : List Text) :
    p.parts routes (E ++ F) = (p.parts routes E).filter fun s => !s.isWithin F := by
  rw [parts, parts, Graph.flatten_append, List.filter_map]
  refine congrArg _ (List.filter_congr fun i hi => ?_)
  rw [Function.comp_apply, SchemaPart.isWithin, get?_schemaElement htexts (Graph.mem_flatten.1 hi).1]
  rfl

theorem render_congr_excluded {E E' : List Text} (h : ∀ t, t ∈ E' ↔ t ∈ E) (options : RenderOptions) :
    p.render { options with excluded := E' } routes = p.render { options with excluded := E } routes := by
  rw [render, render]
  dsimp only
  rw [fault?, fault?, schemas, schemas, fallbacks, fallbacks, p.graph.flatten_congr h]

/-- Exclusions only remove schemas.  What is rendered is the parts of the document that are left, after the reports of
the program; more prefixes leave exactly the parts whose `Namespace` starts with none of them; prefixes can be given in
any order and repeated. -/
theorem render_excluding (h : load data = .ok p) (htexts : p.graph.HasTextNames) (hroutes : AreRoutes routes)
    (options : RenderOptions) (E F : List Text) :
    (∀ excluded, ∃ text,
        Envelope.text options.indent options.newline
            ((p.parts (usedRoutes options routes) excluded).map SchemaPart.schema) = .ok text
          ∧ p.render { options with excluded } routes = .ok ⟨text,
              p.diagnostics ++ (p.parts (usedRoutes options routes) excluded).flatMap SchemaPart.reports⟩)
      ∧ p.parts (usedRoutes options routes) (E ++ F)
          = (p.parts (usedRoutes options routes) E).filter (fun s => !s.isWithin F)
      ∧ (∀ E', (∀ t, t ∈ E' ↔ t ∈ E) →
          p.render { options with excluded := E' } routes = p.render { options with excluded := E } routes)
      ∧ (∀ d ∈ p.diagnostics, d.code ≠ .unrenderableType)
      ∧ ∀ s ∈ p.parts (usedRoutes options routes) E, ∀ d ∈ s.reports, d.code = .unrenderableType := by
  refine ⟨fun excluded => ?_, parts_append htexts E F, fun E' hE' => render_congr_excluded hE' options,
    fun d hd => (onlyRejects_of_load h d hd).2, fun s hs d hd => ?_⟩
  · obtain ⟨text, htext, hrender⟩ := (isFit_of_load h htexts).render_eq hroutes { options with excluded }
    rw [map_schema_parts, flatMap_reports_parts]
    exact ⟨text, htext, hrender⟩
  · obtain ⟨i, -, rfl⟩ := List.mem_map.1 hs
    exact (of_mem_namespaceFallbacks hd).2

/-- A description with a namespace inside another one, and one whose name only starts in the same way. -/
def branches : Json :=
  let space (name : Text) (inner : List Json) : Json := .object [("name", .string name),
    ("models", .array [.object [("name", .string "M"), ("properties", .array [
      .object [("name", .string "x"), ("type", .string "unknown")]])]]), ("namespaces", .array inner)]
  .object [("namespaces", .array [space "A" [space "B" []], space "AB" []])]

/-- The nodes of the program that this description gives. -/
def branchesNodes : List Node :=
  (List.range 5).map .nameSpace ++ (List.range 25).map .model ++ (List.range 3).map .property
    ++ [.intrinsic 1 (.text "unknown"), .intrinsic 2 (.text "unknown"), .intrinsic 3 (.text "unknown")]

theorem render_excluding_branches : ∃ p, load branches = .ok p ∧ p.graph.HasTextNames
    ∧ (p.parts none ["Cadl"]).length = 3 ∧ (p.parts none ["Cadl", "A."]).length = 2
    ∧ p.parts none ["Cadl", "A."] = (p.parts none ["Cadl"]).filter (fun s => !s.isWithin ["A."]) := by
  obtain ⟨p, hload⟩ : ∃ p, load branches = .ok p := Yields.exists_ok (by decide +kernel)
  have hmem : p ∈ (load branches).toOption := by
    rw [hload]
    rfl
  have hnodes : ∀ p ∈ (load branches).toOption,
      ∀ n ∈ branchesNodes, p.graph.HasTextName n ∧ ∀ m ∈ p.graph.links n, m ∈ branchesNodes := by decide +kernel
  have hlengths : ∀ p ∈ (load branches).toOption,
      (p.parts none ["Cadl"]).length = 3 ∧ (p.parts none ["Cadl", "A."]).length = 2 := by decide +kernel
  have htexts := Graph.hasTextNames_of_closed (by decide) (hnodes p hmem)
  have hroutes : AreRoutes none := fun r hr => by cases hr
  obtain ⟨-, hparts, -⟩ := render_excluding hload htexts hroutes {} ["Cadl"] ["A."]
  exact ⟨p, hload, htexts, (hlengths p hmem).1, (hlengths p hmem).2, hparts⟩

end Program

end Edm
