import Edm.Proofs.Document.Keys
import Edm.Proofs.Loading.Corresponding

/-!
# The order of declarations

What a description declares may be listed in any order.  If no two declarations have one site, then of two
descriptions that differ in this order either both can be loaded or none, and their documents show the same elements
in the same namespaces (`Program.load_reordered`).
-/

namespace Edm

open Opening NamespaceEntry Declarations

/-! ### Declarations of a namespace -/

section

variable {β : Type} {pick : Declaration → Option β} {name : β → Label} {data data' : Json} {q : List Text}

/-- What is picked of a declaration, if it is at a path. -/
def Declared.at? (q : List Text) (pick : Declaration → Option β) (x : Declared) : Option β :=
  if x.1 = q then pick x.2 else none

theorem filterMap_entries (os : List Opening) (q : List Text) (pick : Declaration → Option β) :
    (entries os).filterMap (Declared.at? q pick) = (os.filter (isAt q)).flatMap fun o => o.2.all.filterMap pick := by
  induction os with
  | nil => rfl
  | cons o os ih =>
    rw [entries_cons, List.filterMap_append, ih, List.filterMap_map]
    by_cases ho : o.1 = q <;> simp [isAt, Declared.at?, ho, Function.comp_def]

theorem enums_declared (os : List Opening) (q : List Text) :
    (declared os q).enums = (entries os).filterMap (Declared.at? q Declaration.enum?) := by
  simp only [filterMap_entries, ← DeclarationEntries.enums_eq_all]
  simp [declared, DeclarationEntries.united, List.flatMap_map]

theorem models_declared (os : List Opening) (q : List Text) :
    (declared os q).models = (entries os).filterMap (Declared.at? q Declaration.model?) := by
  simp only [filterMap_entries, ← DeclarationEntries.models_eq_all]
  simp [declared, DeclarationEntries.united, List.flatMap_map]

/-- Declarations of one kind at one path have distinct names if no two declarations have one site. -/
theorem nodup_names (hname : ∀ x b, pick x = some b → x.name = name b) (hsites : data.HasDistinctSites)
    (q : List Text) : ((data.entries.filterMap (Declared.at? q pick)).map name).Nodup := by
  have hpairs : data.entries.Pairwise fun x y => x.site ≠ y.site := List.pairwise_map.1 hsites.nodup
  refine List.pairwise_map.2 (List.pairwise_filterMap.2 (hpairs.imp ?_))
  intro x y hxy b hb c hc hbc
  have hat : ∀ {z : Declared} {b : β}, z.at? q pick = some b → z.site = siteOf (Graph.dotted q) (name b) := by
    intro z b hz
    obtain ⟨hpath, hpick⟩ := Option.ite_none_right_eq_some.1 hz
    rw [Declared.site, hpath, hname _ _ hpick]
  exact hxy (by rw [hat hb, hat hc, hbc])

/-- In reordered descriptions the latest ones with each name are the same. -/
theorem Reorders.perm_latest (h : Reorders data data') (hsites : data.HasDistinctSites)
    (hname : ∀ x b, pick x = some b → x.name = name b) :
    (latest name ((entries data.openings).filterMap (Declared.at? q pick))).Perm
      (latest name ((entries data'.openings).filterMap (Declared.at? q pick))) := by
  rw [entries_openings, entries_openings, List.filterMap_append, List.filterMap_append]
  exact latest_perm (h.perm.filterMap _) (nodup_names hname hsites q)

theorem Reorders.perm_enums (h : Reorders data data') (hsites : data.HasDistinctSites) (q : List Text) :
    (latest EnumEntry.name (declared data.openings q).enums).Perm
      (latest EnumEntry.name (declared data'.openings q).enums) := by
  rw [enums_declared, enums_declared]
  refine h.perm_latest hsites fun x b hb => ?_
  cases x with
  | enum e =>
    cases hb
    rfl
  | _ => cases hb

theorem Reorders.perm_models (h : Reorders data data') (hsites : data.HasDistinctSites) (q : List Text) :
    (latest ModelEntry.name (declared data.openings q).models).Perm
      (latest ModelEntry.name (declared data'.openings q).models) := by
  rw [models_declared, models_declared]
  refine h.perm_latest hsites fun x b hb => ?_
  cases x with
  | model e =>
    cases hb
    rfl
  | _ => cases hb

/-! ### Namespaces that are shown -/

theorem DeclarationEntries.isRenderable_iff {d : DeclarationEntries} :
    d.isRenderable = true ↔ ∃ x ∈ d.all, x.kind ≠ .union := by
  simp [isRenderable, all, Declaration.kind, or_and_right, exists_or, List.eq_nil_iff_forall_not_mem, or_assoc]

/-- The paths of the namespaces that have a schema. -/
def Json.shownPaths (data : Json) (excluded : List Text) : List (List Text) :=
  ((places [] (builtInEntry :: data.outline)).filter (isShown excluded)).map Prod.fst

theorem Reorders.mem_openings (h : Reorders data data') {x : Declared} :
    x ∈ entries data.openings ↔ x ∈ entries data'.openings := by
  rw [mem_entries_openings, mem_entries_openings, h.perm.mem_iff]

theorem declared_of_place {data : Json} {o : Opening} (ho : o ∈ places [] (builtInEntry :: data.outline)) :
    declared data.openings o.1 = o.2 :=
  (of_mem_places (filter_isBelow_openingsOf [] _) ho).2.2

theorem mem_shownPaths {excluded : List Text} : q ∈ data.shownPaths excluded
    ↔ isExcluded excluded (Graph.dotted q) = false
      ∧ ∃ x : Declaration, (q, x) ∈ entries data.openings ∧ x.kind ≠ .union := by
  have hdeclared : ∀ {o : Opening}, o ∈ places [] (builtInEntry :: data.outline) →
      (o.2.isRenderable = true ↔ ∃ x : Declaration, (o.1, x) ∈ entries data.openings ∧ x.kind ≠ .union) := by
    intro o ho
    simp only [DeclarationEntries.isRenderable_iff, ← declared_of_place ho, mem_all_declared]
  simp only [Json.shownPaths, List.mem_map, List.mem_filter, isShown, Bool.and_eq_true, Bool.not_eq_true']
  constructor
  · rintro ⟨o, ⟨ho, hrenderable, hexcluded⟩, rfl⟩
    exact ⟨hexcluded, (hdeclared ho).1 hrenderable⟩
  · rintro ⟨hexcluded, x, hx, hkind⟩
    obtain ⟨o, ho, hpath, -⟩ := mem_entries.1 hx
    obtain ⟨o', ho', hpath'⟩ := exists_mem_places ho
    cases hpath'.trans hpath
    exact ⟨o', ⟨ho', (hdeclared ho').2 ⟨x, hx, hkind⟩, hexcluded⟩, rfl⟩

theorem Reorders.perm_shownPaths (h : Reorders data data') (excluded : List Text) :
    (data.shownPaths excluded).Perm (data'.shownPaths excluded) := by
  have hnodup : ∀ data : Json, (data.shownPaths excluded).Nodup := fun data =>
    (nodup_places [] (builtInEntry :: data.outline)).sublist (List.filter_sublist.map _)
  refine (List.perm_ext_iff_of_nodup (hnodup data) (hnodup data')).2 fun q => ?_
  simp only [mem_shownPaths, h.mem_openings]

end

/-! ### Elements -/

theorem eq_of_forall₂ {α β : Type} {R S : α → β → Prop} {l : List α} {m n : List β} (hm : List.Forall₂ R l m)
    (hn : List.Forall₂ S l n) (h : ∀ a b c, R a b → S a c → b = c) : m = n := by
  induction hm generalizing n with
  | nil =>
    cases hn
    rfl
  | cons hab _ ih =>
    cases hn with
    | cons hac hrest => rw [h _ _ _ hab hac, ih hrest]

namespace Program

/-- The elements for types that a document shows, each with the name of its schema; there is no container. -/
def typeElements (p : Program) (excluded : List Text) : List (Option Label × Element) :=
  (p.schemas none excluded Graph.root).flatMap fun s => s.children.map fun c => (s.get? "Namespace", c)

section

variable {data data' : Json} {p p' : Program}

/-- A schema has elements for the latest enums and for the latest models that are declared at its path. -/
theorem children_of_shown (h : load data = .ok p) (htexts : data.HasTextNames) {excluded : List Text} {q : List Text}
    (hq : q ∈ data.shownPaths excluded) : ∃ models, (p.schemaElement none (place data.openings q)).children
        = (latest EnumEntry.name (declared data.openings q).enums).map EnumEntry.element ++ models
      ∧ List.Forall₂ (ModelShows p (ofDescription data.outline) q)
          (latest ModelEntry.name (declared data.openings q).models) models := by
  obtain ⟨o, ho, rfl⟩ := List.mem_map.1 hq
  have ho := List.mem_of_mem_filter ho
  have hbuilt := built_of_load h htexts.openings
  obtain ⟨-, hsettle⟩ := settleAll_of_load h
  obtain ⟨-, -, hcontents⟩ := Structure.of_place h htexts ho
  have henums := hcontents.enums.map_values fun _ _ hat => enumElement_eq hbuilt.tidy hsettle hat
  refine ⟨_, ?_, declared_of_place ho ▸ modelElements_of_place h htexts ho⟩
  rw [children_schemaElement, henums, declared_of_place ho]
  exact List.append_nil _

theorem typeElements_eq (h : load data = .ok p) (htexts : data.HasTextNames) (excluded : List Text) :
    p.typeElements excluded = (data.shownPaths excluded).flatMap fun q =>
      (p.schemaElement none (place data.openings q)).children.map fun c => (some (.text (Graph.dotted q)), c) := by
  rw [typeElements, schemas, flatten_of_load h htexts, Json.shownPaths, List.map_map, List.flatMap_map,
    List.flatMap_map]
  refine List.flatMap_congr fun o ho => ?_
  obtain ⟨hpath, -, -⟩ := Structure.of_place h htexts (List.mem_of_mem_filter ho)
  simp only [Function.comp_def, get?_schemaElement_of_path h htexts none hpath]

namespace AreReordered

variable (h : AreReordered p p' data data')

include h

theorem eq_of_baseFits {scope : List Text} {type? : Option TypeExpr} {base base' : Label}
    (hbase : BaseFits p (ofDescription data.outline) scope type? base)
    (hbase' : BaseFits p' (ofDescription data'.outline) scope type? base') : base = base' := by
  cases hbase with
  | none =>
    cases hbase' with
    | none => rfl
  | some hdenotes =>
    cases hbase' with
    | some hdenotes' => exact h.modelName_eq ⟨_, _, hdenotes, hdenotes'⟩

variable (hacyclic : p.graph.HasAcyclicUnions)

include hacyclic

theorem eq_of_propertyShows {scope : List Text} {e : PropertyEntry} {c c' : Element}
    (hc : PropertyShows p (ofDescription data.outline) scope e c)
    (hc' : PropertyShows p' (ofDescription data'.outline) scope e c') : c = c' := by
  obtain ⟨type, hdenotes, rfl⟩ := hc
  obtain ⟨type', hdenotes', rfl⟩ := hc'
  have hagree : Agree p p' data data' type type' := ⟨_, _, hdenotes, hdenotes'⟩
  rw [h.idLabel_eq hagree, h.typeName_eq hagree hacyclic]

/-- Two programs show the same element for the same entry. -/
theorem eq_of_modelShows {scope : List Text} {e : ModelEntry} {c c' : Element}
    (hc : ModelShows p (ofDescription data.outline) scope e c)
    (hc' : ModelShows p' (ofDescription data'.outline) scope e c') : c = c' := by
  obtain ⟨base, properties, hbase, hproperties, rfl⟩ := hc
  obtain ⟨base', properties', hbase', hproperties', rfl⟩ := hc'
  have hsame : properties = properties' :=
    eq_of_forall₂ hproperties hproperties' fun _ _ _ => h.eq_of_propertyShows hacyclic
  rw [h.eq_of_baseFits hbase hbase', hsame]

theorem perm_children {excluded : List Text} {q : List Text} (hq : q ∈ data.shownPaths excluded) :
    (p.schemaElement none (place data.openings q)).children.Perm
      (p'.schemaElement none (place data'.openings q)).children := by
  have hq' := (h.order.perm_shownPaths excluded).mem_iff.1 hq
  obtain ⟨models, hchildren, hmodels⟩ := children_of_shown h.first h.texts hq
  obtain ⟨models', hchildren', hmodels'⟩ := children_of_shown h.second h.texts' hq'
  -- the elements of the second program in the order of the first one
  obtain ⟨sorted, hsorted, hperm⟩ := List.perm_comp_forall₂ (h.order.perm_models h.sites q) hmodels'
  have hsame : models = sorted :=
    eq_of_forall₂ hmodels hsorted fun _ _ _ => h.eq_of_modelShows hacyclic
  rw [hchildren, hchildren', hsame]
  exact ((h.order.perm_enums h.sites q).map _).append hperm

theorem perm_typeElements (excluded : List Text) : (p.typeElements excluded).Perm (p'.typeElements excluded) := by
  rw [typeElements_eq h.first h.texts, typeElements_eq h.second h.texts']
  refine (h.order.perm_shownPaths excluded).flatMap fun q hq => ?_
  exact (h.perm_children hacyclic hq).map _

end AreReordered

end

/-- The order in which a description lists its declarations matters neither for whether it can be loaded nor for
what its document shows in which namespace. -/
theorem load_reordered {data data' : Json} (horder : Reorders data data') (htexts : data.HasTextNames)
    (hsites : data.HasDistinctSites) :
    ((∃ e, load data = .error e) ↔ ∃ e, load data' = .error e)
      ∧ ∀ p p', load data = .ok p → load data' = .ok p' → p.graph.HasAcyclicUnions → ∀ excluded,
          (p.typeElements excluded).Perm (p'.typeElements excluded) := by
  have hfails : ∀ x : Except LoadError Program, (∃ e, x = .error e) ↔ ¬ Yields x fun _ => True := by
    intro x
    cases x <;> simp
  refine ⟨?_, fun p p' h h' => AreReordered.perm_typeElements ⟨h, h', htexts, hsites, horder⟩⟩
  rw [hfails, hfails, horder.yields_load hsites]

/-- A model with a base and types that are declared after it. -/
def orderModel : Json := .object [("name", .string "Order"), ("baseModel", .string "Line"), ("properties", .array [
  .object [("name", .string "choice"), ("type", .string "Choice[]")],
  .object [("name", .string "line"), ("type", .string "Line"), ("decorators", .array [.string "contains"])],
  .object [("name", .string "state"), ("type", .string "Inner.State")]])]

def lineModel : Json := .object [("name", .string "Line"), ("properties", .array [
  .object [("name", .string "number"), ("type", .string "int32"), ("decorators", .array [.string "id"])]])]

def choiceUnion : Json := .object [("name", .string "Choice"), ("options", .array [.string "Rate", .string "Order"])]

def rateUnion : Json := .object [("name", .string "Rate"), ("options", .array [
  .object [("kind", .string "Union"), ("options", .array [.string "int32", .string "string"])]])]

def innerSpace : Json := .object [("name", .string "Inner"), ("enums", .array [
  .object [("name", .string "State"), ("members", .array [.object [("name", .string "open")]])]])]

/-- A description that refers forward only. -/
def forward : Json := .object [("namespaces", .array [
  .object [("name", .string "Shop"), ("models", .array [orderModel, lineModel]),
    ("unions", .array [choiceUnion, rateUnion]), ("namespaces", .array [innerSpace])],
  .object [("name", .string "Shop"), ("models", .array [.object [("name", .string "Last")]])]])]

/-- The same description with the other order in each list. -/
def backward : Json := .object [("namespaces", .array [
  .object [("name", .string "Shop"), ("models", .array [.object [("name", .string "Last")]])],
  .object [("name", .string "Shop"), ("models", .array [lineModel, orderModel]),
    ("unions", .array [rateUnion, choiceUnion]), ("namespaces", .array [innerSpace])]])]

theorem reorders_forward : Reorders forward backward := by
  have hunions : [choiceUnion, rateUnion].Perm [rateUnion, choiceUnion] := .swap _ _ _
  have hmodels : [orderModel, lineModel].Perm [lineModel, orderModel] := .swap _ _ _
  refine .object (.namespaces (.trans (.swap _ _ _) (.cons (.refl _) (.cons (.object ?_) .nil))) .nil)
  refine .same _ (.declarations "models" (by decide) hmodels (.declarations "unions" (by decide) hunions ?_))
  exact .same _ .nil

theorem load_reordered_forward : Reorders forward backward ∧ forward.HasTextNames ∧ forward.HasDistinctSites
    ∧ ((∃ e, load forward = .error e) ↔ ∃ e, load backward = .error e)
    ∧ ∃ p p', load forward = .ok p ∧ load backward = .ok p' ∧ p.graph.HasAcyclicUnions
      ∧ (p.typeElements defaultExcluded).Perm (p'.typeElements defaultExcluded) := by
  have htexts : forward.HasTextNames := by decide +kernel
  have hsites : forward.HasDistinctSites := by decide +kernel
  have hboth := load_reordered reorders_forward htexts hsites
  obtain ⟨p, hload⟩ : ∃ p, load forward = .ok p := Yields.exists_ok (by decide +kernel)
  obtain ⟨p', hload'⟩ : ∃ p, load backward = .ok p := Yields.exists_ok (by decide +kernel)
  have hunions : ∀ p ∈ (load forward).toOption,
      ∀ i < p.graph.unions.size, ∀ n ∈ (p.graph.unions.get i).options, Graph.isAfter i n = true := by decide +kernel
  have hacyclic : p.graph.HasAcyclicUnions := Graph.hasAcyclicUnions_of_later (hunions p (by rw [hload]; rfl))
  exact ⟨reorders_forward, htexts, hsites, hboth.1, p, p', hload, hload', hacyclic,
    hboth.2 p p' hload hload' hacyclic defaultExcluded⟩

end Program

end Edm
