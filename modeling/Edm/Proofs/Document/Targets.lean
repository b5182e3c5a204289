import Edm.Proofs.Document.Fallbacks
import Edm.Proofs.Loading.Closed

/-!
# Targets of navigation properties

What a navigation property of a loaded program leads to, under all layers of arrays, is a literal, a declaration with
a name, or a type without a rule for its identifier, and then this is reported (`Program.targets_of_load`).  There is
one more case: a union that is written in place has no name, but the rule for declarations applies to it all the same.
Its identifier is a dot, and nothing is reported (`Program.not_isAnswered_dangling`).
-/

namespace Edm

/-! ### Identifiers that name something -/

theorem Node.hasIdentifier_core (n : Node) : n.core.hasIdentifier = n.hasIdentifier := by
  induction n with
  | array _ element ih => exact ih
  | _ => rfl

namespace Graph

/-- A node is one whose identifier names something: a literal, a namespace, or a declaration with a name. -/
inductive IsTarget (g : Graph) : Node → Prop
  | literal (serial : Nat) (kind : LiteralKind) (value : Json) : IsTarget g (.literal serial kind value)
  | nameSpace (i : NamespaceId) : IsTarget g (.nameSpace i)
  | declaration {n : Node} {k : Kind} {t : Text} : n.declarableKind? = some k → g.nameOf n = .text t → t ≠ [] →
      IsTarget g n

/-- A node is a union that is written in place. -/
def IsUnnamedUnion (g : Graph) (n : Node) : Prop :=
  ∃ i options, n = .union i ∧ g.cell? (.union i) = some (.union { options })

variable {g : Graph} {n : Node}

theorem IsUnnamedUnion.not_isTarget (h : g.IsUnnamedUnion n) : ¬ g.IsTarget n := by
  obtain ⟨i, options, rfl, hcell⟩ := h
  intro htarget
  cases htarget with
  | declaration _ hname _ =>
    rw [nameOf_of_cell hcell] at hname
    cases hname

/-- The identifier of a union that is written in place has neither a namespace nor a name in it. -/
theorem IsUnnamedUnion.qualifiedId_eq (h : g.IsUnnamedUnion n) : g.qualifiedId n = "." := by
  obtain ⟨i, options, rfl, hcell⟩ := h
  rw [qualifiedId, get_union hcell]
  rfl

theorem IsUnnamedUnion.hasIdentifier (h : g.IsUnnamedUnion n) : n.hasIdentifier = true := by
  obtain ⟨i, options, rfl, -⟩ := h
  rfl

end Graph

namespace Program

open Declarations Opening

/-- A property leads to something, or it is reported that it does not. -/
def IsAnswered (p : Program) (result : RenderResult) (j : PropertyId) : Prop :=
  p.graph.IsTarget (p.graph.properties.get j).type.core
    ∨ ∃ d ∈ result.diagnostics, d.code = .unrenderableType ∧ d.site = p.propertySite j

/-- A property leads to a union that is written in place.  This is not a target, the identifier is a dot, and nothing is
reported about the property. -/
structure IsAdrift (p : Program) (j : PropertyId) : Prop where
  union : p.graph.IsUnnamedUnion (p.graph.properties.get j).type.core
  notTarget : ¬ p.graph.IsTarget (p.graph.properties.get j).type.core
  identifier : p.graph.qualifiedId (p.graph.properties.get j).type.core = "."
  unreported : p.fallback? j = none

section

variable {data : Json} {p : Program} {options : RenderOptions} {routes : Option Routes} {n : Node}

/-! ### What expressions stand for -/

theorem isTarget_of_isNamed (h : load data = .ok p) (htexts : data.HasTextNames) (hn : p.graph.IsNamed n) :
    n.core = n ∧ p.graph.IsTarget n := by
  cases hn with
  | @builtIn name i space hbuiltIn hcell =>
    have hnames : ∀ x ∈ initial.builtIns, x.1 ≠ [] := by decide +kernel
    exact ⟨rfl, .declaration rfl (Graph.nameOf_of_cell hcell) (hnames _ hbuiltIn)⟩
  | @listed space k t _ hspace hlisted hat =>
    obtain ⟨hkind, -⟩ := Namespace.declarableKind?_of_listed? hlisted
    obtain ⟨q, hq, rfl⟩ := (mem_expand_of_load h htexts.openings).1 hspace
    have htruthy := truthy_of_mem_named h (mem_named_of_load h htexts.openings hq hlisted)
    have hne : t ≠ [] := by
      rintro rfl
      cases htruthy
    obtain ⟨c, hcell, hname, -⟩ := hat.cell
    have hcore : n.core = n := by
      cases n with
      | array _ _ => cases hkind
      | _ => rfl
    exact ⟨hcore, .declaration hkind ((Graph.nameOf_of_cell hcell).trans hname) hne⟩

/-- What an expression stands for, under all layers of arrays. -/
theorem core_of_denotes (h : load data = .ok p) (htexts : data.HasTextNames) {scope : List Text} {e : TypeExpr} :
    {n : Node} → (ofDescription data.outline).Denotes p.graph scope e n →
      p.graph.IsTarget n.core ∨ n.hasIdentifier = false ∨ p.graph.IsUnnamedUnion n.core
  | _, .intrinsicName _ _ => .inr (.inl rfl)
  | _, .named _ hknown => by
    obtain ⟨hcore, htarget⟩ := isTarget_of_isNamed h htexts (isNamed_of_known h htexts hknown)
    exact .inl (hcore.symm ▸ htarget)
  | _, .array _ helement => by
    have helement := core_of_denotes h htexts helement
    exact helement
  | _, .union _ hcell _ => .inr (.inr ⟨_, _, rfl, hcell⟩)
  | _, .parameter _ => .inr (.inl rfl)
  | _, .intrinsic _ => .inr (.inl rfl)
  | _, .literal _ => .inl (.literal _ _ _)

/-! ### Documents -/

theorem mem_diagnostics_of_fallback? {result : RenderResult} {j : PropertyId} {d : Diagnostic}
    (hj : j ∈ p.shownProperties options.excluded) (hd : p.fallback? j = some d)
    (hresult : result.diagnostics = p.diagnostics ++ p.fallbacks options.excluded Graph.root) :
    d ∈ result.diagnostics := by
  rw [hresult, fallbacks_eq]
  exact List.mem_append_right _ (List.mem_filterMap.2 ⟨j, hj, hd⟩)

/-- The type of each navigation property of a document is its identifier, in as many collections as it is in arrays.  It
leads to something, or it is reported that it does not, unless it is a union that is written in place. -/
theorem targets_of_load (h : load data = .ok p) (htexts : data.HasTextNames) (hnames : p.graph.HasTextNames)
    (hroutes : AreRoutes routes) : ∃ result, p.render options routes = .ok result
      ∧ (Element.descendantsOf (p.schemas (usedRoutes options routes) options.excluded Graph.root)).filter
          Element.isProperty = (p.shownProperties options.excluded).map p.propertyElement
      ∧ ∀ j ∈ p.shownProperties options.excluded, ∀ contained, p.store.propertyClass j = .navigation contained →
        (p.propertyElement j).get? "Type" = some (.text (collected (p.graph.properties.get j).type.layers
          (p.graph.qualifiedId (p.graph.properties.get j).type.core)))
        ∧ (p.IsAnswered result j ∨ p.IsAdrift j) := by
  obtain ⟨hd, -⟩ := consistent_of_load h
  obtain ⟨-, hsettle⟩ := settleAll_of_load h
  obtain ⟨text, -, hrender⟩ := (isFit_of_load h hnames).render_eq hroutes options
  refine ⟨_, hrender, p.filter_isProperty_descendants _ _, fun j hj contained hclass => ?_⟩
  obtain ⟨htype, -⟩ := hd.reached_propertyType hsettle (reached_of_mem_shown h hj)
  have hid := hnames.idLabel_eq htype.reaches
  refine ⟨?_, ?_⟩
  · rw [get?_propertyElement_navigation hclass hid, p.graph.qualifiedId_eq_collected]
  · obtain ⟨scope, e, hdenotes⟩ := htype.isMade
    rcases core_of_denotes h htexts hdenotes with htarget | hlacks | hunion
    · exact .inl (.inl htarget)
    · have hreport : ∃ d, p.fallback? j = some d ∧ d.code = .unrenderableType ∧ d.site = p.propertySite j := by
        rw [fallback?, fallbackText?_navigation hclass, hlacks, if_neg Bool.false_ne_true]
        exact ⟨_, rfl, rfl, rfl⟩
      obtain ⟨d, hfallback, hcode, hsite⟩ := hreport
      exact .inl (.inr ⟨d, mem_diagnostics_of_fallback? hj hfallback rfl, hcode, hsite⟩)
    · refine .inr ⟨hunion, hunion.not_isTarget, hunion.qualifiedId_eq, ?_⟩
      have hhas : (p.graph.properties.get j).type.hasIdentifier = true :=
        (Node.hasIdentifier_core _).symm.trans hunion.hasIdentifier
      rw [fallback?, fallbackText?_navigation hclass, if_pos hhas, Option.map_none]

/-- A description with a navigation property of a union that is written in place, with one of nothing at all, and with
one of a model. -/
def dangling : Json := .object [("namespaces", .array [.object [("name", .string "A"), ("models", .array [
  .object [("name", .string "M"), ("properties", .array [
    .object [("name", .string "p"), ("type", .object [("kind", .string "Union"),
        ("options", .array [.string "string", .string "int32"])]),
      ("decorators", .array [.string "contains"])],
    .object [("name", .string "q"), ("type", .string "void"), ("decorators", .array [.string "references"])],
    .object [("name", .string "r"), ("type", .string "M[]"), ("decorators", .array [.string "references"])]])]])]])]

/-- The nodes of the program that this description gives. -/
def danglingNodes : List Node :=
  (List.range 3).map .nameSpace ++ (List.range 23).map .model ++ (List.range 3).map .property
    ++ [.union 0, .intrinsic 1 (.text "void"), .array 2 (.model 22)]

theorem hasTextNames_dangling : ∃ p, load dangling = .ok p ∧ dangling.HasTextNames ∧ p.graph.HasTextNames := by
  obtain ⟨p, hload, hnames, -⟩ : ∃ p, load dangling = .ok p ∧ p.graph.HasTextNames ∧ p.graph.HasAcyclicUnions :=
    exists_load_of_closed danglingNodes (by decide +kernel) (by decide) (by decide +kernel) (by decide +kernel)
  exact ⟨p, hload, by decide +kernel, hnames⟩

theorem targets_of_load_dangling : ∃ p, load dangling = .ok p ∧ dangling.HasTextNames ∧ p.graph.HasTextNames
    ∧ AreRoutes (some p.routes) ∧ ∃ result, p.render {} (some p.routes) = .ok result
      ∧ (Element.descendantsOf (p.schemas none defaultExcluded Graph.root)).filter Element.isProperty
        = (p.shownProperties defaultExcluded).map p.propertyElement
      ∧ ∀ j ∈ p.shownProperties defaultExcluded, ∀ contained, p.store.propertyClass j = .navigation contained →
        (p.propertyElement j).get? "Type" = some (.text (collected (p.graph.properties.get j).type.layers
          (p.graph.qualifiedId (p.graph.properties.get j).type.core)))
        ∧ (p.IsAnswered result j ∨ p.IsAdrift j) := by
  obtain ⟨p, hload, htexts, hnames⟩ := hasTextNames_dangling
  exact ⟨p, hload, htexts, hnames, areRoutes_routes p,
    targets_of_load hload htexts hnames (areRoutes_routes p)⟩

/-- The property of the union that is written in place leads to a dot, and no report has its site. -/
theorem not_isAnswered_dangling : ∃ p result, load dangling = .ok p ∧ dangling.HasTextNames ∧ p.graph.HasTextNames
    ∧ p.render {} (some p.routes) = .ok result ∧ ∃ j ∈ p.shownProperties defaultExcluded,
      p.store.propertyClass j = .navigation true ∧ (p.propertyElement j).get? "Type" = some (.text ".")
        ∧ ¬ p.IsAnswered result j := by
  have hfound : ∀ p ∈ (load dangling).toOption, ∃ j ∈ p.shownProperties defaultExcluded,
      p.store.propertyClass j = .navigation true ∧ (p.propertyElement j).get? "Type" = some (.text ".")
        ∧ (p.graph.nameOf (p.graph.properties.get j).type.core = .raw .null
          ∧ (p.graph.properties.get j).type.core = .union 0)
        ∧ ∀ d ∈ p.diagnostics ++ p.fallbacks defaultExcluded Graph.root, d.site ≠ p.propertySite j := by
    decide +kernel
  obtain ⟨p, hload, htexts, hnames⟩ := hasTextNames_dangling
  obtain ⟨j, hj, hclass, htype, ⟨hname, hunion⟩, hsites⟩ := hfound p (by rw [hload]; rfl)
  obtain ⟨text, -, hrender⟩ := (isFit_of_load hload hnames).render_eq (areRoutes_routes p) {}
  refine ⟨p, _, hload, htexts, hnames, hrender, j, hj, hclass, htype, ?_⟩
  rintro (htarget | ⟨d, hd, -, hsite⟩)
  · rw [hunion] at htarget hname
    cases htarget with
    | declaration _ htext _ =>
      rw [hname] at htext
      cases htext
  · exact hsites d hd hsite

end

end Program

end Edm
