import Edm.Proofs.Loading.Built

/-!
# Nodes of model entries

A namespace lists the latest model with each name, and a model the latest property.  The entries that are replaced
have nodes as well: each model that is written in a description has one of its own, and so has each property that is
written in it (`Declarations.HasModels`).  Later declarations leave these nodes as they are, also where a namespace is
continued, so that all of them are there when a description is declared (`Declarations.hasModels_ofDescription`).
-/

namespace Edm

/-- The model entries of some openings, each with the path of its namespace. -/
def Opening.modelEntries (os : List Opening) : List (List Text × ModelEntry) :=
  os.flatMap fun o => o.2.models.map fun e => (o.1, e)

namespace Opening

variable {os : List Opening} {o : Opening} {x : List Text × ModelEntry}

theorem mem_modelEntries : x ∈ modelEntries os ↔ ∃ o ∈ os, o.1 = x.1 ∧ x.2 ∈ o.2.models := by
  obtain ⟨path, e⟩ := x
  simp only [modelEntries, List.mem_flatMap, List.mem_map, Prod.mk.injEq]
  constructor
  · rintro ⟨o, ho, y, hy, hpath, rfl⟩
    exact ⟨o, ho, hpath, hy⟩
  · rintro ⟨o, ho, hpath, hy⟩
    exact ⟨o, ho, e, hy, hpath, rfl⟩

theorem path_mem_paths (hx : x ∈ modelEntries os) : x.1 ∈ paths os := by
  obtain ⟨o, ho, hpath, -⟩ := mem_modelEntries.1 hx
  exact List.mem_eraseDups.2 (List.mem_cons_of_mem _ (List.mem_map.2 ⟨o, ho, hpath⟩))

theorem modelEntries_concat (os : List Opening) (o : Opening) :
    modelEntries (os ++ [o]) = modelEntries os ++ o.2.models.map fun e => (o.1, e) := by
  rw [modelEntries, List.flatMap_append, List.flatMap_singleton]
  rfl

/-- An opening that declares nothing adds no entries. -/
theorem modelEntries_concat_empty (os : List Opening) (q : List Text) :
    modelEntries (os ++ [(q, .united [])]) = modelEntries os := by
  rw [modelEntries_concat]
  exact List.append_nil _

end Opening

namespace Declarations

open Opening NamespaceEntry

/-! ### Entries with nodes -/

/-- The node of a model entry, and those of all properties that are written in it. -/
structure EntryAt (d : Declarations) (space : NamespaceId) (path : List Text) (i : ModelId) (e : ModelEntry) :
    Prop where
  model : d.ModelAt space path i e
  properties : d.PropertiesAt path (siteOf (Graph.dotted path) e.name) i e.properties

/-- Each of some entries has a node of its own in the namespace of its path. -/
def HasModels (d : Declarations) (spaces : List Text → NamespaceId) (xs : List (List Text × ModelEntry)) : Prop :=
  ∃ ids : List ModelId, ids.Nodup ∧ List.Forall₂ (fun i x => d.EntryAt (spaces x.1) x.1 i x.2) ids xs

section

variable {touched : Node → Prop} {d d' : Declarations} {space : NamespaceId} {path q : List Text} {i : ModelId}
  {e : ModelEntry} {spaces spaces' : List Text → NamespaceId} {xs : List (List Text × ModelEntry)} {name : Label}
  {n : Node}

theorem EntryAt.has (h : d.EntryAt space path i e) : d.Has (.model i) := by
  obtain ⟨properties, hview, -⟩ := h.model
  exact has_of_cell (congrArg View.cell hview)

theorem EntryAt.mono (h : d.EntryAt space path i e) (hk : Keeps touched d d')
    (ht : ∀ n, touched n → ∃ k, n = .nameSpace k) : d'.EntryAt space path i e := by
  refine ⟨h.model.mono hk ht, h.properties.mono hk fun j hj => ?_⟩
  obtain ⟨k, hk⟩ := ht _ hj
  cases hk

namespace HasModels

theorem nil (d : Declarations) (spaces : List Text → NamespaceId) : d.HasModels spaces [] :=
  ⟨[], List.nodup_nil, .nil⟩

theorem mono (h : d.HasModels spaces xs) (hk : Keeps touched d d')
    (ht : ∀ n, touched n → ∃ k, n = .nameSpace k) : d'.HasModels spaces xs := by
  obtain ⟨ids, hnodup, hat⟩ := h
  exact ⟨ids, hnodup, hat.imp fun _ _ hi => hi.mono hk ht⟩

/-- Only the namespaces of the entries matter. -/
theorem congr (h : d.HasModels spaces xs) (hspaces : ∀ x ∈ xs, spaces' x.1 = spaces x.1) :
    d.HasModels spaces' xs := by
  obtain ⟨ids, hnodup, hat⟩ := h
  refine ⟨ids, hnodup, forall₂_imp_mem hat fun i x hx hi => ?_⟩
  rwa [hspaces x hx]

/-- Some of the entries can be left out. -/
theorem of_append {ys : List (List Text × ModelEntry)} (h : d.HasModels spaces (xs ++ ys)) : d.HasModels spaces ys := by
  obtain ⟨ids, hnodup, hat⟩ := h
  exact ⟨ids.drop xs.length, hnodup.sublist (List.drop_sublist ..), List.forall₂_drop_append ids xs ys hat⟩

/-- An entry that is declared gets a node that no other one has. -/
theorem concat (h : d.HasModels spaces xs) (hd : Declares d d' space name (.model i))
    (hat : d'.EntryAt (spaces q) q i e) : d'.HasModels spaces (xs ++ [(q, e)]) := by
  obtain ⟨ids, hnodup, hold⟩ := h
  have hboth := hold.imp fun j x hj => show d.Has (.model j) ∧ d.EntryAt (spaces x.1) x.1 j x.2 from ⟨hj.has, hj⟩
  have hhas : ∀ j ∈ ids, d.Has (.model j) := ((List.forall₂_and_left ids xs).1 hboth).1
  have hfresh : i ∉ ids := fun hi => hd.fresh (hhas i hi)
  refine ⟨ids ++ [i], ?_, List.rel_append (hold.imp fun _ _ hj => hj.mono hd.grows.keeps fun n hn => ⟨_, hn⟩)
    (.cons hat .nil)⟩
  rw [← List.concat_eq_append]
  exact hnodup.concat hfresh

end HasModels

/-! ### Steps -/

/-- A stage of declaring what is in the namespace of a path, at which some entries have been declared. -/
structure Stage (spaces : List Text → NamespaceId) (q : List Text) (xs : List (List Text × ModelEntry))
    (d : Declarations) : Prop where
  tidy : d.Tidy
  space : ∃ s, d.graph.cell? (.nameSpace (spaces q)) = some (.nameSpace s)
  models : d.HasModels spaces xs

namespace Stage

/-- Declaring something else leaves the entries with their nodes. -/
theorem other (h : Stage spaces q xs d) (hd : Declares d d' (spaces q) name n) : Stage spaces q xs d' := by
  obtain ⟨s, hs⟩ := h.space
  exact ⟨hd.grows.tidy, ⟨_, hd.listed s hs⟩, h.models.mono hd.grows.keeps fun n hn => ⟨_, hn⟩⟩

theorem model (h : Stage spaces q xs d) (hd : Declares d d' (spaces q) name (.model i))
    (hat : d'.EntryAt (spaces q) q i e) : Stage spaces q (xs ++ [(q, e)]) d' := by
  obtain ⟨s, hs⟩ := h.space
  exact ⟨hd.grows.tidy, ⟨_, hd.listed s hs⟩, h.models.concat hd hat⟩

/-- Declaring one model entry after the other. -/
theorem foldl {β : Type} {f : Declarations → β → Declarations} {m : β → ModelEntry} {P : β → Prop}
    (step : ∀ (d : Declarations) (xs : List (List Text × ModelEntry)) (y : β), Stage spaces q xs d → P y →
      Stage spaces q (xs ++ [(q, m y)]) (f d y))
    (h : Stage spaces q xs d) (ys : List β) (hP : ∀ y ∈ ys, P y) :
    Stage spaces q (xs ++ ys.map fun y => (q, m y)) (ys.foldl f d) := by
  induction ys generalizing d xs with
  | nil => simpa using h
  | cons y ys ih =>
    have hrest := ih (step d xs y h (hP y (List.mem_cons_self ..))) fun z hz => hP z (List.mem_cons_of_mem _ hz)
    rwa [List.append_assoc] at hrest

theorem declareEntries (h : Stage spaces q xs d) {x : DeclarationEntries} (hx : x.HasTextNames) :
    Stage spaces q (xs ++ x.models.map fun e => (q, e)) (declareEntries (spaces q) q d x) := by
  obtain ⟨-, hmodels, -, hinterfaces, hoperations⟩ := hx
  have h₁ := List.foldlRecOn (motive := Stage spaces q xs) x.enums (declareEnum (spaces q) q) h fun d h y _ => by
    obtain ⟨s, hs⟩ := h.space
    obtain ⟨i, hd, -⟩ := declareEnum_spec h.tidy hs q y
    exact h.other hd
  have h₂ := h₁.foldl (f := declareModel (spaces q) q) (m := id) (fun d xs y h hy => by
    obtain ⟨s, hs⟩ := h.space
    obtain ⟨i, hd, hat, -, hproperties⟩ := declareModel_spec h.tidy hs q y hy
    exact h.model hd ⟨hat, hproperties⟩) x.models fun y hy => (hmodels y hy).2
  have h₃ := List.foldlRecOn (motive := Stage spaces q _) x.unions (declareUnion (spaces q) q) h₂ fun d h y _ => by
    obtain ⟨s, hs⟩ := h.space
    obtain ⟨i, hd, -⟩ := declareUnion_spec h.tidy hs q y
    exact h.other hd
  have h₄ := List.foldlRecOn (motive := Stage spaces q _) x.interfaces (declareInterface (spaces q) q) h₃
    fun d h y hy => by
      obtain ⟨s, hs⟩ := h.space
      obtain ⟨-, hlisted⟩ := hinterfaces y hy
      obtain ⟨i, hd, -⟩ := declareInterface_spec h.tidy hs q y (fun o ho => (hlisted o ho).1)
        fun o ho => (hlisted o ho).2
      exact h.other hd
  exact List.foldlRecOn (motive := Stage spaces q _) x.operations (declareOwnOperation (spaces q) q) h₄
    fun d h y hy => by
      obtain ⟨s, hs⟩ := h.space
      obtain ⟨i, hd, -⟩ := declareOwnOperation_spec h.tidy hs q y (hoperations y hy).2
      exact h.other hd

theorem declareBuiltIns (h : Stage spaces q xs d) (names : List Text) :
    Stage spaces q (xs ++ (emptyModels names).models.map fun e => (q, e))
      (names.foldl (declareBuiltIn (spaces q)) d) := by
  have hfold := h.foldl (f := declareBuiltIn (spaces q)) (P := fun _ => True)
    (m := fun t => { name := .text t, decorators := [], base := none, properties := [] }) (fun d xs t h _ => by
      obtain ⟨s, hs⟩ := h.space
      obtain ⟨i, hd, hat, -⟩ := declareBuiltIn_spec h.tidy hs q t
      exact h.model hd ⟨hat, [], List.nodup_nil, .nil⟩) names fun _ _ => trivial
  rw [emptyModels, List.map_map]
  exact hfold

end Stage

end

/-! ### Openings -/

section

variable {os : List Opening} {d : Declarations} {p : List Text} {n : Text}

theorem HasModels.openNamespace {xs : List (List Text × ModelEntry)} {spaces : List Text → NamespaceId}
    (h : d.HasModels spaces xs) (hb : Built os d) (hp : p ∈ paths os) :
    HasModels { d with graph := (d.graph.openNamespace (place os p) (.text n)).2 } spaces xs := by
  by_cases hnew : p ++ [n] ∈ paths os
  · rw [hb.openNamespace_old hp hnew]
    exact h
  · obtain ⟨s, hs, hbare, -⟩ := hb.space p hp
    obtain ⟨-, hopened⟩ := hb.isOpened hnew hs hbare
    exact h.mono hopened.keeps fun x hx => ⟨_, hx⟩

/-- Opening a namespace and declaring what is in it keep that each entry has its node. -/
theorem isKept_hasModels : IsKept fun os d => Built os d ∧ d.HasModels (place os) (modelEntries os) where
  opened := fun {os d p n} ⟨hb, h⟩ hp hn => by
    obtain ⟨hid, hbuilt⟩ := hb.openNamespace hp hn
    refine ⟨hid, hbuilt, ?_⟩
    rw [modelEntries_concat_empty]
    exact (h.openNamespace hb hp).congr fun x hx => place_concat (path_mem_paths hx) _
  declared := fun {os d q x} ⟨hb, h⟩ hx => by
    refine ⟨hb.declareEntries hx, ?_⟩
    obtain ⟨s, hs, -⟩ := hb.space q (self_mem_paths os (q, _))
    have hplace := place_concat_congr os q x (.united [])
    rw [modelEntries_concat_empty] at h
    have hstage : Stage (place (os ++ [(q, x)])) q (modelEntries os) d :=
      ⟨hb.tidy, ⟨s, by rw [hplace]; exact hs⟩, h.congr fun y _ => hplace y.1⟩
    rw [modelEntries_concat]
    exact (hstage.declareEntries hx).models

theorem hasModels_initial :
    initial.HasModels (place (openings [] builtInEntry)) (modelEntries (openings [] builtInEntry)) := by
  obtain ⟨hid, hbuilt, hopen⟩ := isKept_hasModels.opened ⟨built_nil, HasModels.nil {} (place [])⟩ (nil_mem_paths [])
    (show builtInNamespace ≠ [] by decide)
  obtain ⟨s, hs, -⟩ := hbuilt.space _ (self_mem_paths [] ([] ++ [builtInNamespace], _))
  rw [place_nil] at hid hbuilt hopen hs
  have hstage : Stage (place [([builtInNamespace], .united [])]) [builtInNamespace] [] _ :=
    ⟨hbuilt.tidy, ⟨s, hs⟩, hopen⟩
  have hmodels := (hstage.declareBuiltIns builtInModels).models
  have hid : (Graph.openNamespace {} Graph.root (.text builtInNamespace)).1
      = place [([builtInNamespace], .united [])] [builtInNamespace] := hid
  unfold initial
  dsimp only
  rw [hid]
  exact hmodels.congr fun x _ => place_concat_congr [] [builtInNamespace] _ _ x.1

/-- When all of a description is declared, each model that is written in it has a node of its own, and so has each of
the properties that are written there. -/
theorem hasModels_ofDescription {es : List NamespaceEntry} (hnames : ∀ o ∈ openingsOf [] es, [] ∉ o.1)
    (htexts : ∀ o ∈ openingsOf [] es, o.2.HasTextNames) :
    (ofDescription es).HasModels (place (openingsOf [] (builtInEntry :: es)))
      (modelEntries (openingsOf [] (builtInEntry :: es))) := by
  have hkept := isKept_hasModels.declareNamespaces ⟨built_initial, hasModels_initial⟩ (nil_mem_paths _) es hnames
    htexts
  rw [place_nil] at hkept
  rw [openingsOf]
  exact hkept.2

end

end Declarations

end Edm
