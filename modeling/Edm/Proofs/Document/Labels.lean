import Edm.Document
import Edm.Proofs.Decorating.Bound
import Edm.Proofs.Loading.Listed
import Edm.Proofs.Loading.ModelEntries

/-!
# Labels of models and properties

A model or a property is called by a label in three places: as the site of its decorators, which is put together
from the names of a description while it is declared; in the listing of annotations (`Program.describe`); and as the
site of a report on its type (`Program.propertySite`).  The last two are put together from owners when the graph is
complete.  For every model and every property that is written in a description, also those that later ones replace, the
labels are the same (`Program.labels_of_load`): nothing that is declared, settled or applied later moves a node to
another owner or gives it another name.
-/

namespace Edm

/-- The decorators of a description as they are applied, in their order. -/
def Json.applications (data : Json) : List Application :=
  (Declarations.ofDescription data.outline).decorations.flatMap Decoration.applications

/-! ### Labels of nodes -/

namespace Graph

open Opening

variable {g : Graph} {os : List Opening} {path : List Text} {i : ModelId} {m : Model}

/-- The identifier of a model is the site at which it is declared. -/
theorem IsLaidOut.qualifiedId_model (h : g.IsLaidOut os) (hpath : path ∈ paths os)
    (hm : g.cell? (.model i) = some (.model m)) (howner : m.owner = some (place os path))
    (htext : m.name.isText = true) : g.qualifiedId (.model i) = siteOf (dotted path) m.name := by
  obtain ⟨t, ht⟩ := Label.isText_iff.1 htext
  rw [qualifiedId, modelId, get_model hm, howner, declarationId, ownerName, h.namespaceName_eq hpath, ht,
    Label.displayOrEmpty_text]
  rfl

theorem IsLaidOut.idLabel_model (h : g.IsLaidOut os) (hpath : path ∈ paths os)
    (hm : g.cell? (.model i) = some (.model m)) (howner : m.owner = some (place os path)) :
    g.idLabel (.model i) = .text (g.qualifiedId (.model i)) := by
  rw [idLabel, isIdentifiable, get_model hm, howner, Option.all_some, if_pos (h.hasTextPath hpath)]

end Graph

namespace Program

open Declarations Opening NamespaceEntry

section

variable {p : Program} {i : ModelId} {j : PropertyId} {id : Text}

/-- A property of a model with a name is called by the identifier of the model and its own name. -/
theorem propertySite_eq (howner : (p.graph.properties.get j).owner = some i)
    (hname : (p.graph.models.get i).name.truthy = true) (hid : p.graph.idLabel (.model i) = .text id) :
    p.propertySite j = .text (siteOf id (p.graph.properties.get j).name) := by
  rw [propertySite]
  dsimp only
  rw [howner]
  dsimp only
  rw [if_pos hname, hid, siteOf, List.append_assoc]
  rfl

theorem describe_property (howner : (p.graph.properties.get j).owner = some i)
    (hname : (p.graph.models.get i).name.truthy = true) :
    p.describe (.property j) = p.propertySite j := by
  rw [describe, propertySite]
  dsimp only
  rw [howner]
  dsimp only
  rw [if_pos hname, if_pos hname]

theorem site_of_fallback? {e : Diagnostic} (h : p.fallback? j = some e) : e.site = p.propertySite j := by
  obtain ⟨rendered, -, rfl⟩ := Option.map_eq_some_iff.1 h
  rfl

end

/-- The node of a model entry: its identifier, what it is called in a listing, and the site of its decorators agree. -/
structure LabelsModel (p : Program) (as : List Application) (i : ModelId) (path : List Text) (e : ModelEntry) :
    Prop where
  name : (p.graph.models.get i).name = e.name
  id : p.graph.qualifiedId (.model i) = Graph.dotted path ++ "." ++ e.name.display
  described : p.describe (.model i) = .text (p.graph.qualifiedId (.model i))
  applied : as.filter (fun a => a.target = .model i)
    = Decoration.applications ⟨p.graph.qualifiedId (.model i), .model i, e.decorators⟩

/-- What a property of a model is called, from the identifier of the model. -/
def propertyLabel (p : Program) (i : ModelId) (name : Label) : Text :=
  p.graph.qualifiedId (.model i) ++ "." ++ name.display

/-- The node of a property entry of a model: what it is called in a listing, the site of a report on its type and the
site of its decorators are the identifier of the model, a dot and the name of the property. -/
structure LabelsProperty (p : Program) (as : List Application) (i : ModelId) (j : PropertyId) (e : PropertyEntry) :
    Prop where
  name : (p.graph.properties.get j).name = e.name
  owner : (p.graph.properties.get j).owner = some i
  described : p.describe (.property j) = .text (p.propertyLabel i e.name)
  site : p.propertySite j = .text (p.propertyLabel i e.name)
  reported : ∀ d ∈ p.fallback? j, d.site = .text (p.propertyLabel i e.name)
  applied : as.filter (fun a => a.target = .property j)
    = Decoration.applications ⟨p.propertyLabel i e.name, .property j, e.decorators⟩

/-- The node of a model entry and the nodes of the properties that are written in it. -/
structure LabelsEntry (p : Program) (as : List Application) (i : ModelId) (path : List Text) (e : ModelEntry) :
    Prop where
  model : p.LabelsModel as i path e
  properties : ∃ ids : List PropertyId, ids.Nodup ∧ List.Forall₂ (p.LabelsProperty as i) ids e.properties

/-! ### Labels of loaded programs -/

variable {data : Json} {p : Program} {i : ModelId}

/-- The decorators that are applied to a node are those of its entry, at the site of the entry. -/
theorem applied_of_decorators {n : Node} {site : Text} {decorators : List Json}
    (h : ((ofDescription data.outline).view n).decorators = decorators.map fun x => (site, x)) :
    data.applications.filter (fun a => a.target = n) = Decoration.applications ⟨site, n, decorators⟩ := by
  rw [Json.applications, filter_applications, h, List.map_map]
  rfl

/-- The model names of a loaded description count as present. -/
theorem truthy_of_modelEntries (h : load data = .ok p) {x : List Text × ModelEntry}
    (hx : x ∈ modelEntries (openingsOf [] data.outline)) : x.2.name.truthy = true := by
  obtain ⟨hread, -⟩ := settleAll_of_load h
  obtain ⟨o, ho, -, he⟩ := mem_modelEntries.1 hx
  refine (isRead_of_readDescription hread o ho).truthy_named (x := (.model, x.2.name)) ?_
  have hname : (Kind.model, x.2.name) ∈ o.2.models.map fun y => (Kind.model, y.name) := List.mem_map.2 ⟨x.2, he, rfl⟩
  exact List.mem_append_left _ (List.mem_append_left _ (List.mem_append_left _ (List.mem_append_right _ hname)))

theorem modelEntries_openings (data : Json) :
    modelEntries data.openings
      = modelEntries (openings [] builtInEntry) ++ modelEntries (openingsOf [] data.outline) := by
  rw [Json.openings, openingsOf, modelEntries, List.flatMap_append]
  rfl

/-- Settling the references leaves the names and the owners of an entry, and so its labels. -/
theorem labelsEntry_of_entryAt (h : load data = .ok p) (htexts : data.HasTextNames) {x : List Text × ModelEntry}
    (hx : x ∈ modelEntries (openingsOf [] data.outline))
    (hat : (ofDescription data.outline).EntryAt (place data.openings x.1) x.1 i x.2) :
    p.LabelsEntry data.applications i x.1 x.2 := by
  obtain ⟨-, hsettle⟩ := settleAll_of_load h
  have hbuilt := built_of_load h htexts.openings
  have hlaid := isLaidOut_of_load h htexts.openings
  have hpath : x.1 ∈ paths data.openings :=
    path_mem_paths (by rw [modelEntries_openings]; exact List.mem_append_right _ hx)
  have htext : x.2.name.isText = true := by
    obtain ⟨o, ho, -, he⟩ := mem_modelEntries.1 hx
    exact ((htexts o ho).2.1 x.2 he).1
  obtain ⟨properties, base, hmodel, -⟩ := hat.model.settled hbuilt.tidy hsettle
  have hid := hlaid.qualifiedId_model hpath hmodel rfl htext
  have hlabel := hlaid.idLabel_model hpath hmodel rfl
  have hname : (p.graph.models.get i).name = x.2.name := congrArg Model.name (Graph.get_model hmodel)
  have htruthy : (p.graph.models.get i).name.truthy = true := by
    rw [hname]
    exact truthy_of_modelEntries h hx
  obtain ⟨_, hview, -⟩ := hat.model
  obtain ⟨ids, hnodup, hproperties⟩ := hat.properties
  rw [← hid] at hproperties
  refine ⟨⟨hname, hid, hlabel, ?_⟩, ids, hnodup, hproperties.imp fun j e hj => ?_⟩
  · rw [hid]
    exact applied_of_decorators (congrArg View.decorators hview)
  · obtain ⟨type, -, hproperty⟩ := PropertyAt.settled hbuilt.tidy hsettle hj
    have hget := Graph.get_property hproperty
    have howner : (p.graph.properties.get j).owner = some i := congrArg Property.owner hget
    have hown : (p.graph.properties.get j).name = e.name := congrArg Property.name hget
    have hsite : p.propertySite j = .text (p.propertyLabel i e.name) := by
      rw [propertySite_eq howner htruthy hlabel, hown]
      rfl
    refine ⟨hown, howner, (describe_property howner htruthy).trans hsite, hsite, fun d hd => ?_, ?_⟩
    · exact (site_of_fallback? hd).trans hsite
    · exact applied_of_decorators (congrArg View.decorators hj)

/-- The labels of a model agree, and so do those of a property.  Each rejected decorator is one error at its site.  For
each model that is written in a description, replaced or not, the site of its decorators and what it is called in a
listing are its identifier.  For each property that is written there, replaced or not, these and the site of a report on
its type are the identifier of its model, a dot and its name. -/
theorem labels_of_load (h : load data = .ok p) (htexts : data.HasTextNames) :
    p = (({ graph := p.graph, store := (ofDescription data.outline).store } : Program).applyAll data.applications).2
      ∧ List.Forall₂ (fun a d => d.severity = .error ∧ d.site = a.site)
          (data.applications.filter fun a => (a.binding? p.graph).isNone) p.diagnostics
      ∧ ∃ ids : List ModelId, ids.Nodup
        ∧ List.Forall₂ (fun i x => p.LabelsEntry data.applications i x.1 x.2) ids
            (modelEntries (openingsOf [] data.outline)) := by
  obtain ⟨hread, -⟩ := settleAll_of_load h
  have hmodels := hasModels_ofDescription (fun o ho => (isRead_of_readDescription hread o ho).named) htexts
  rw [← Json.openings, modelEntries_openings] at hmodels
  obtain ⟨ids, hnodup, hentries⟩ := hmodels.of_append
  have hload := load_eq h
  obtain ⟨added, hadded, hreports⟩ := reports_applyAll { graph := p.graph, store := _ } data.applications
  have hdiagnostics : p.diagnostics = added := by
    rw [hload]
    exact hadded
  rw [hdiagnostics]
  exact ⟨hload, hreports, ids, hnodup, forall₂_imp_mem hentries fun i x hx hi => labelsEntry_of_entryAt h htexts hx hi⟩

/-- A description with rejected decorators on a model that a continued namespace replaces, on one of its properties that
is replaced as well, and inside another namespace. -/
def overwritten : Json := .object [("namespaces", .array [
  .object [("name", .string "A"),
    ("models", .array [.object [("name", .string "M"), ("decorators", .array [.string "contains"]),
      ("properties", .array [
        .object [("name", .string "x"), ("type", .string "string"), ("decorators", .array [.string "openModel"])],
        .object [("name", .string "x"), ("type", .string "unknown"), ("decorators", .array [.string "id"])]])]]),
    ("namespaces", .array [.object [("name", .string "B"),
      ("models", .array [.object [("name", .string "N"), ("properties", .array [
        .object [("name", .string "y"), ("type", .string "unknown"), ("decorators", .array [.string "key"])]])]])]])],
  .object [("name", .string "A"),
    ("models", .array [.object [("name", .string "M"), ("properties", .array [
      .object [("name", .string "x"), ("type", .string "int32"), ("decorators", .array [.string "route"])]])]])]])]

example : (load overwritten).toOption.map (fun p => (p.fallbacks defaultExcluded Graph.root).map Diagnostic.site)
    = some [.text "A.B.N.y"] := by
  decide +kernel

theorem labels_of_load_overwritten : ∃ p, load overwritten = .ok p ∧ overwritten.HasTextNames
    ∧ p.diagnostics.map Diagnostic.site = [.text "A.M", .text "A.M.x", .text "A.B.N.y", .text "A.M.x"]
    ∧ p.diagnostics.length = (overwritten.applications.filter fun a => (a.binding? p.graph).isNone).length
    ∧ ∃ ids : List ModelId, ids.Nodup ∧ ids.length = 3
      ∧ List.Forall₂ (fun i x => p.LabelsEntry overwritten.applications i x.1 x.2) ids
          (modelEntries (openingsOf [] overwritten.outline)) := by
  obtain ⟨p, hload⟩ : ∃ p, load overwritten = .ok p := Yields.exists_ok (by decide +kernel)
  have hsites : ∀ p ∈ (load overwritten).toOption, p.diagnostics.map Diagnostic.site
      = [.text "A.M", .text "A.M.x", .text "A.B.N.y", .text "A.M.x"] := by decide +kernel
  have htexts : overwritten.HasTextNames := by decide +kernel
  obtain ⟨-, hreports, ids, hnodup, hentries⟩ := labels_of_load hload htexts
  exact ⟨p, hload, htexts, hsites p (by rw [hload]; rfl), hreports.length_eq.symm, ids, hnodup, hentries.length_eq,
    hentries⟩

end Program

end Edm
