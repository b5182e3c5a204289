import Edm.Proofs.Document.Written
import Edm.Proofs.Loading.Unions
import Edm.Proofs.Xml.Legal
import Edm.Rendering

/-!
# Rendering loaded programs

A loaded program with texts for names, none of whose named unions comes back to itself, can be rendered in every
way: all recursions come to an end, nothing is missing on the way, and what is written consists of characters that
a document may hold (`Program.IsRendered`, `Program.render_of_load`).  Models may refer to each other in circles.
-/

namespace Edm

open Relation

namespace Graph

/-! ### Recursions -/

/-- Going from a type to its items and options comes to an end, and each union on the way is named by all of its
options. -/
structure TypeEnds (g : Graph) (type : Node) : Prop where
  acc : Acc g.IsPartOf type
  typeName_eq : ∀ i, ReflTransGen g.IsPartOf (.union i) type →
    g.typeName (.union i) = Label.join " | " ((g.unions.get i).options.map g.typeName)
  isUnnameable_eq : ∀ i, ReflTransGen g.IsPartOf (.union i) type →
    g.isUnnameable (.union i) = (g.unions.get i).options.any g.isUnnameable

end Graph

theorem Declarations.Consistent.typeEnds {d : Declarations} {g : Graph} {n : Node} (hd : d.Consistent)
    (h : d.settleAll = .ok g) (htexts : g.HasTextNames) (hacyclic : g.HasAcyclicUnions) (hn : d.ReachedType g n) :
    g.TypeEnds n := by
  have hunion : ∀ i, ReflTransGen g.IsPartOf (.union i) n → g.EndsWithin g.unions.size i := by
    intro i hi
    have hpart := hd.reached_parts h hn hi
    exact hd.endsWithin h htexts hacyclic hpart.isMade hpart.reaches
  refine ⟨hd.acc_isPartOf h htexts hacyclic hn.isMade hn.reaches, fun i hi => ?_, fun i hi => ?_⟩
  · exact (hunion i hi).typeName_union
  · exact (hunion i hi).isUnnameable_union

namespace Program

open Declarations

variable {data : Json} {p : Program} {routes : Option Routes} {excluded : List Text}

/-! ### Faults -/

/-- Routes are texts where there are any. -/
def AreRoutes (routes : Option Routes) : Prop := ∀ r ∈ routes, ∀ i, (r i).isText = true ∨ (r i).isAbsent = true

/-- The routes that decorators and descriptions give are texts. -/
theorem areRoutes_routes (p : Program) : AreRoutes (some p.routes) := by
  intro r hr i
  cases hr
  rw [Program.routes]
  split
  · exact .inl rfl
  · exact .inr rfl

section

variable (htexts : p.graph.HasTextNames)

include htexts

theorem namespaceFault?_eq_none {space : NamespaceId} (hspace : p.graph.Reaches (.nameSpace space)) :
    p.namespaceFault? space = none := by
  rw [namespaceFault?, htexts.hasTextPath hspace, if_pos rfl]

/-- Where a reachable property is can be told, in a model with a name or without one. -/
theorem isText_propertySite {i : PropertyId} (hi : p.graph.Reaches (.property i)) :
    (p.propertySite i).isText = true := by
  rw [propertySite]
  dsimp only
  split
  next => exact htexts.isText_of_name? hi (by simp) rfl
  next m hm =>
    have hmodel : p.graph.Reaches (.model m) := by
      refine hi.record rfl (Cell.mem_links.2 (.inr (.inr (List.mem_append_right _ ?_))))
      exact List.mem_map.2 ⟨m, Option.mem_toList.2 hm, rfl⟩
    rw [htexts.idLabel_eq hmodel]
    split
    · rfl
    · rfl

end

theorem isFormed_of_isText {l : Label} (h : l.isText = true) : l.isFormed = true := by
  obtain ⟨t, rfl⟩ := Label.isText_iff.1 h
  rfl

section

variable (h : p.IsFit) {space : NamespaceId} (hspace : space ∈ p.graph.expand Graph.root)

include h hspace

theorem IsFit.propertyFault?_eq_none {i : ModelId} {j : PropertyId}
    (hi : i ∈ (p.graph.namespaces.get space).models.values) (hj : j ∈ (p.graph.models.get i).properties.values) :
    p.propertyFault? j = none := by
  have hproperty := reaches_property (reaches_model (reaches_of_mem_expand hspace) hi) hj
  have hshows : p.Shows none space (p.propertyElement j) := .property hi hj
  have hplain := h.isPlain_of_shows hspace hshows
  have hformed : (p.propertyElement j).isFormed = true :=
    List.all_eq_true.2 fun a ha => isFormed_of_isText (hplain.value_ok a ha)
  have hreport : (p.fallback? j).all (fun d => d.site.isFormed) = true := by
    rw [fallback?, Option.all_map]
    cases p.fallbackText? j with
    | none => rfl
    | some t => exact isFormed_of_isText (isText_propertySite h.texts hproperty)
  rw [propertyFault?, hformed, hreport]
  rfl

theorem IsFit.modelFault?_eq_none {i : ModelId} (hi : i ∈ (p.graph.namespaces.get space).models.values) :
    p.modelFault? i = none := by
  have hbase : p.baseFault? i = none := by
    unfold baseFault?
    split
    next b hb => rw [if_pos (h.bases _ hspace _ hi _ hb)]
    next => rfl
  rw [modelFault?, hbase, Option.none_or, List.findSome?_eq_none_iff]
  exact fun j hj => h.propertyFault?_eq_none hspace hi hj

/-- What an interface returns is a node, and the items have an identifier. -/
theorem IsFit.setFault?_eq_none {r : Routes} (hr : ∀ i, (r i).isText = true ∨ (r i).isAbsent = true) {i : InterfaceId}
    (hi : i ∈ (p.graph.namespaces.get space).interfaces.values) : p.graph.setFault? r i = none := by
  have hroute := hr i
  unfold Graph.setFault?
  split
  next path _ =>
    split
    · rfl
    · split
      next => rfl
      next className hresult => cases h.results _ hspace _ hi _ hresult
      next result hresult =>
        have hinterface := reaches_interface (reaches_of_mem_expand hspace) hi
        rw [h.texts.isIdentifiable (hinterface.getResult? hresult).itemType, if_pos rfl]
  next hnot =>
    rcases hroute with htext | habsent
    · obtain ⟨t, ht⟩ := Label.isText_iff.1 htext
      exact absurd ht (hnot t)
    · rw [Label.isAbsent_iff.1 habsent]
      rfl

theorem IsFit.schemaFault?_eq_none (hroutes : AreRoutes routes) : p.schemaFault? routes space = none := by
  have hmodels : (p.graph.namespaces.get space).models.values.findSome? p.modelFault? = none := by
    rw [List.findSome?_eq_none_iff]
    exact fun i hi => h.modelFault?_eq_none hspace hi
  have hsets : (routes.bind fun r => p.graph.setsFault? r space) = none := by
    rw [Option.bind_eq_none_iff]
    intro r hr
    rw [Graph.setsFault?, List.findSome?_eq_none_iff]
    exact fun i hi => h.setFault?_eq_none hspace (hroutes r hr) hi
  rw [schemaFault?, hmodels, hsets, namespaceFault?_eq_none h.texts (reaches_of_mem_expand hspace)]
  rfl

end

/-- Nothing stands in the way of the document of a program that is fit for one. -/
theorem IsFit.fault?_eq_none (h : p.IsFit) (hroutes : AreRoutes routes) :
    p.fault? routes excluded Graph.root = none := by
  have hnames : (p.graph.expand Graph.root).findSome? p.namespaceFault? = none := by
    rw [List.findSome?_eq_none_iff]
    exact fun i hi => namespaceFault?_eq_none h.texts (reaches_of_mem_expand hi)
  have hschemas : (p.graph.flatten excluded Graph.root).findSome? (p.schemaFault? routes) = none := by
    rw [List.findSome?_eq_none_iff]
    exact fun i hi => h.schemaFault?_eq_none (Graph.mem_flatten.1 hi).1 hroutes
  rw [fault?, hnames, hschemas]
  rfl

theorem fault?_eq_none (h : load data = .ok p) (htexts : p.graph.HasTextNames) (hroutes : AreRoutes routes) :
    p.fault? routes excluded Graph.root = none := (isFit_of_load h htexts).fault?_eq_none hroutes

/-! ### Rendering -/

/-- The routes that are used for a document. -/
def usedRoutes (options : RenderOptions) (routes : Option Routes) : Option Routes :=
  if options.entityContainer then routes else none

theorem render_eq {options : RenderOptions} {text : List Char}
    (hfault : p.fault? (usedRoutes options routes) options.excluded Graph.root = none)
    (htext : Envelope.text options.indent options.newline
      (p.schemas (usedRoutes options routes) options.excluded Graph.root) = .ok text) :
    p.render options routes = .ok ⟨text, p.diagnostics ++ p.fallbacks options.excluded Graph.root⟩ := by
  unfold usedRoutes at hfault htext
  simp only [render, hfault, htext]
  rfl

theorem AreRoutes.used (h : AreRoutes routes) (options : RenderOptions) : AreRoutes (usedRoutes options routes) := by
  unfold usedRoutes
  split
  · exact h
  · exact fun r hr => by cases hr

/-- The document of a program that is fit for one, and what is reported about it. -/
theorem IsFit.render_eq (h : p.IsFit) (hroutes : AreRoutes routes) (options : RenderOptions) :
    ∃ text, Envelope.text options.indent options.newline
        (p.schemas (usedRoutes options routes) options.excluded Graph.root) = .ok text
      ∧ p.render options routes = .ok ⟨text, p.diagnostics ++ p.fallbacks options.excluded Graph.root⟩ := by
  have htext := Envelope.text_eq_lines options.indent options.newline
    fun e (he : e ∈ Element.descendantsOf (p.schemas (usedRoutes options routes) options.excluded Graph.root)) =>
      h.isPlain he
  exact ⟨_, htext, Program.render_eq (h.fault?_eq_none (hroutes.used options)) htext⟩

/-- A program is rendered.  The recursions on the way come to an end, no property is without a type, each entity has
a key with a name, the document is a tree of legal tags, and the result is the text of its schemas, which is legal if
the layout is. -/
structure IsRendered (p : Program) (options : RenderOptions) (routes : Option Routes) : Prop where
  walks : p.graph.WalksEnd
  types : ∀ space ∈ p.graph.expand Graph.root, ∀ i ∈ (p.graph.namespaces.get space).models.values,
    ∀ j ∈ (p.graph.models.get i).properties.values,
      (p.graph.properties.get j).type ≠ .unresolved ∧ p.graph.TypeEnds (p.graph.properties.get j).type
  keys : ∀ space ∈ p.graph.expand Graph.root, ∀ i ∈ (p.graph.namespaces.get space).models.values,
    p.store.modelClass (p.graph.models.get i) = .entity → ∃ key ∈ (p.graph.models.get i).properties.values,
      p.store.keyProperty? (p.graph.models.get i) = some key
        ∧ (p.store.keyName key (p.graph.properties.get key).name).isText = true
  tree : ∃ tree, Envelope.tree (p.schemas (usedRoutes options routes) options.excluded Graph.root) = .ok tree
    ∧ tree.All Markup.IsLegal
  result : ∃ result, p.render options routes = .ok result
    ∧ Envelope.text options.indent options.newline
        (p.schemas (usedRoutes options routes) options.excluded Graph.root) = .ok result.text
    ∧ ((∀ c ∈ options.indent, Xml.isChar c = true) → (∀ c ∈ options.newline, Xml.isChar c = true) →
      ∀ c ∈ result.text, Xml.isChar c = true)

/-- Every loaded program with texts for names and without circles among its named unions is rendered, whatever the
options, and with routes or without. -/
theorem render_of_load (h : load data = .ok p) (htexts : p.graph.HasTextNames)
    (hacyclic : p.graph.HasAcyclicUnions) (options : RenderOptions) (hroutes : AreRoutes routes) :
    p.IsRendered options routes := by
  have hd := (consistent_of_load h).1
  have hsettle := (settleAll_of_load h).2
  have hused : AreRoutes (usedRoutes options routes) := by
    unfold usedRoutes
    split
    · exact hroutes
    · exact fun r hr => by cases hr
  have hplain : ∀ e ∈ Element.descendantsOf (p.schemas (usedRoutes options routes) options.excluded Graph.root),
      e.IsPlain := fun e he => isPlain_of_load h htexts he
  have htext := Envelope.text_eq_lines options.indent options.newline hplain
  exact {
    walks := (hd.isOrdered hsettle).walksEnd
    types := by
      intro space hspace i hi j hj
      have hmodel := hd.reached_model hsettle (reached_of_mem_expand h hspace) hi
      have htype := hd.reached_propertyType hsettle (hd.reached_property hsettle hmodel hj)
      exact ⟨htype.2, hd.typeEnds hsettle htexts hacyclic htype.1⟩
    keys := by
      intro space hspace i hi hentity
      obtain ⟨key, hkey⟩ := AnnotationStore.exists_keyProperty hentity
      obtain ⟨hmem, hiskey⟩ := AnnotationStore.keyProperty?_eq_some hkey
      exact ⟨key, hmem, hkey, AnnotationStore.isText_keyName (accepted_of_load h) hiskey _⟩
    tree := ⟨_, Envelope.tree_eq_seen hplain, Envelope.all_isLegal_seen hplain⟩
    result := by
      refine ⟨_, render_eq (fault?_eq_none h htexts hused) htext, htext, fun hindent hnewline => ?_⟩
      exact Envelope.isChar_text hplain hindent hnewline htext }

/-- A description with models that are based on each other and hold each other, with a union that holds another one
in an array, and with a literal that a document cannot hold. -/
def entwined : Json := .object [("namespaces", .array [.object [("name", .string "A"),
  ("models", .array [
    .object [("name", .string "M"), ("baseModel", .string "N"), ("properties", .array [
      .object [("name", .string "key"), ("type", .string "string"), ("decorators", .array [.string "id"])],
      .object [("name", .string "n"), ("type", .string "N"), ("decorators", .array [.string "contains"])],
      .object [("name", .string "u"), ("type", .string "U[]")]])],
    .object [("name", .string "N"), ("baseModel", .string "M"), ("properties", .array [
      .object [("name", .string "m"), ("type", .string "M[]")]])]]),
  ("unions", .array [
    .object [("name", .string "U"), ("options", .array [.string "V[]", .string "unknown"])],
    .object [("name", .string "V"), ("options", .array [.object [("kind", .string "Union"), ("options", .array [
      .string "M", .object [("kind", .string "String"), ("value", .string [Char.ofNat 1])]])]])]]),
  ("interfaces", .array [.object [("name", .string "I"), ("route", .string "/api/ms/"), ("operations", .array [
    .object [("name", .string "Get"), ("returnType", .string "M[]")]])]])]])]

/-- The nodes of the program that this description gives. -/
def entwinedNodes : List Node :=
  (List.range 3).map .nameSpace ++ (List.range 25).map .model ++ (List.range 4).map .property
    ++ (List.range 3).map .union ++ [.interface 0, .operation 0, .array 1 (.union 0), .array 2 (.model 22),
      .array 3 (.union 1), .intrinsic 4 (.text "unknown"), .literal 5 .text (.string [Char.ofNat 1]),
      .array 6 (.model 22)]

theorem render_of_load_entwined : ∃ p, load entwined = .ok p ∧ p.graph.HasTextNames ∧ p.graph.HasAcyclicUnions
    ∧ AreRoutes (some p.routes) ∧ p.IsRendered { entityContainer := true } (some p.routes) := by
  have hok : (load entwined).toOption.isSome = true := by decide +kernel
  have hnodes : ∀ p ∈ (load entwined).toOption,
      ∀ n ∈ entwinedNodes, p.graph.HasTextName n ∧ ∀ m ∈ p.graph.links n, m ∈ entwinedNodes := by decide +kernel
  have hunions : ∀ p ∈ (load entwined).toOption,
      ∀ i < p.graph.unions.size, ∀ n ∈ (p.graph.unions.get i).options, Graph.isAfter i n = true := by decide +kernel
  cases hload : load entwined with
  | error e =>
    rw [hload] at hok
    cases hok
  | ok p =>
    have hp : p ∈ (load entwined).toOption := by
      rw [hload]
      rfl
    have htexts := Graph.hasTextNames_of_closed (by decide) (hnodes p hp)
    have hacyclic := Graph.hasAcyclicUnions_of_later (hunions p hp)
    exact ⟨p, rfl, htexts, hacyclic, areRoutes_routes p,
      render_of_load hload htexts hacyclic { entityContainer := true } (areRoutes_routes p)⟩

end Program

end Edm
