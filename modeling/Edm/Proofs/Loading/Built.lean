import Edm.Proofs.Description.Places
import Edm.Proofs.Loading.Declared

/-!
# What declaring builds

Once some openings of a description are declared, the graph has one namespace for each of their paths, which
lists the namespaces inside it in the order in which they are first opened, and under each name the latest
declaration (`Declarations.Built`).  Opening a namespace and declaring what is in it keep this up
(`Declarations.Built.openNamespace`, `Declarations.Built.declareEntries`), so that it holds for the whole
description (`Declarations.built_declareNamespaces`).
-/

namespace Edm

namespace DeclarationEntries

theorem append_empty (d : DeclarationEntries) : d ++ united [] = d := by
  show ({ enums := d.enums ++ [], models := d.models ++ [], unions := d.unions ++ [],
          interfaces := d.interfaces ++ [], operations := d.operations ++ [] } : DeclarationEntries) = d
  simp only [List.append_nil]

theorem HasTextNames.united {ds : List DeclarationEntries} (h : ∀ d ∈ ds, d.HasTextNames) :
    (united ds).HasTextNames := by
  refine ⟨fun e he => ?_, fun e he => ?_, fun e he => ?_, fun e he => ?_, fun e he => ?_⟩ <;>
    obtain ⟨d, hd, he⟩ := List.mem_flatMap.1 he
  · exact (h d hd).1 e he
  · exact (h d hd).2.1 e he
  · exact (h d hd).2.2.1 e he
  · exact (h d hd).2.2.2.1 e he
  · exact (h d hd).2.2.2.2 e he

end DeclarationEntries

theorem Opening.hasTextNames_declared {os : List Opening} (h : ∀ o ∈ os, o.2.HasTextNames) (p : List Text) :
    (declared os p).HasTextNames := by
  refine DeclarationEntries.HasTextNames.united fun d hd => ?_
  obtain ⟨o, ho, rfl⟩ := List.mem_map.1 hd
  exact h o (List.mem_filter.1 ho).1

namespace Declarations

/-! ### Contents of a namespace -/

/-- A namespace lists the latest ones of some entries, each as it is declared. -/
structure Contents (d : Declarations) (space : NamespaceId) (path : List Text) (s : Namespace)
    (e : DeclarationEntries) : Prop where
  enums : Lists (d.EnumAt space) EnumEntry.name s.enums e.enums
  models : Lists (d.ModelAt space path) ModelEntry.name s.models e.models
  unions : Lists (d.UnionAt space path) UnionEntry.name s.unions e.unions
  interfaces : Lists (d.InterfaceAt space path) InterfaceEntry.name s.interfaces e.interfaces
  operations : Lists (d.OperationAt path (Graph.dotted path) (some space) none) OperationEntry.name
    s.operations e.operations

/-- A namespace is there, with what it is apart from its declarations, and with its declarations. -/
def SpaceAt (d : Declarations) (space : NamespaceId) (path : List Text) (bare : Namespace)
    (e : DeclarationEntries) : Prop :=
  ∃ s, d.graph.cell? (.nameSpace space) = some (.nameSpace s) ∧ s.bare = bare ∧ d.Contents space path s e

section

variable {touched : Node → Prop} {d d' : Declarations} {space : NamespaceId} {path : List Text}
  {s bare : Namespace} {e : DeclarationEntries}

theorem Contents.mono (h : d.Contents space path s e) (hk : Keeps touched d d')
    (ht : ∀ n, touched n → ∃ k, n = .nameSpace k) : d'.Contents space path s e where
  enums := h.enums.mono fun _ _ hi => hi.mono hk ht
  models := h.models.mono fun _ _ hi => hi.mono hk ht
  unions := h.unions.mono fun _ _ hi => hi.mono hk ht
  interfaces := h.interfaces.mono fun _ _ hi => hi.mono hk ht
  operations := h.operations.mono fun _ _ hi => hi.mono hk fun n hn => .inl (ht n hn)

theorem SpaceAt.mono (h : d.SpaceAt space path bare e) (hk : Keeps touched d d')
    (ht : ∀ n, touched n → ∃ k, n = .nameSpace k) (hspace : ¬ touched (.nameSpace space)) :
    d'.SpaceAt space path bare e := by
  obtain ⟨s, hs, hbare, hcontents⟩ := h
  exact ⟨s, hk.cell_eq hs hspace, hbare, hcontents.mono hk ht⟩

/-- Declaring entries of one kind one after the other, if declaring one of them does what it should. -/
theorem SpaceAt.foldl {β : Type} {f : Declarations → β → Declarations} {P : β → Prop}
    {g : List β → DeclarationEntries}
    (step : ∀ (d : Declarations) (done : List β) (x : β), d.Tidy → d.SpaceAt space path bare (g done) →
      (∀ y ∈ done, P y) → P x →
        Grows (· = .nameSpace space) d (f d x) ∧ (f d x).SpaceAt space path bare (g (done ++ [x])))
    (hd : d.Tidy) {done : List β} (h : d.SpaceAt space path bare (g done)) (xs : List β)
    (hP : ∀ y ∈ done ++ xs, P y) :
    Grows (· = .nameSpace space) d (xs.foldl f d)
      ∧ (xs.foldl f d).SpaceAt space path bare (g (done ++ xs)) := by
  induction xs generalizing d done with
  | nil => exact ⟨Grows.refl hd, by rwa [List.append_nil]⟩
  | cons x xs ih =>
    obtain ⟨hgrows, hspace⟩ := step d done x hd h (fun y hy => hP y (List.mem_append_left _ hy))
      (hP x (List.mem_append_right _ (List.mem_cons_self ..)))
    obtain ⟨hgrows', hspace'⟩ := ih hgrows.tidy hspace (by simpa using hP)
    exact ⟨hgrows.trans hgrows', by simpa using hspace'⟩

theorem SpaceAt.declareEnum (hd : d.Tidy) (h : d.SpaceAt space path bare e) (x : EnumEntry)
    (he : ∀ y ∈ e.enums, y.name.isText = true) (hx : x.name.isText = true) :
    Grows (· = .nameSpace space) d (declareEnum space path d x)
      ∧ (declareEnum space path d x).SpaceAt space path bare { e with enums := e.enums ++ [x] } := by
  obtain ⟨s, hs, hbare, hcontents⟩ := h
  obtain ⟨i, hdeclares, hat, -⟩ := declareEnum_spec hd hs path x
  have hold := hcontents.mono hdeclares.grows.keeps fun n hn => ⟨space, hn⟩
  exact ⟨hdeclares.grows, s.listing x.name (.enum i), hdeclares.listed s hs, hbare,
    ⟨hold.enums.insert he hx hat, hold.models, hold.unions, hold.interfaces, hold.operations⟩⟩

theorem SpaceAt.declareModel (hd : d.Tidy) (h : d.SpaceAt space path bare e) (x : ModelEntry)
    (he : ∀ y ∈ e.models, y.name.isText = true)
    (hx : x.name.isText = true ∧ ∀ q ∈ x.properties, q.name.isText = true) :
    Grows (· = .nameSpace space) d (declareModel space path d x)
      ∧ (declareModel space path d x).SpaceAt space path bare { e with models := e.models ++ [x] } := by
  obtain ⟨s, hs, hbare, hcontents⟩ := h
  obtain ⟨i, hdeclares, hat, -⟩ := declareModel_spec hd hs path x hx.2
  have hold := hcontents.mono hdeclares.grows.keeps fun n hn => ⟨space, hn⟩
  exact ⟨hdeclares.grows, s.listing x.name (.model i), hdeclares.listed s hs, hbare,
    ⟨hold.enums, hold.models.insert he hx.1 hat, hold.unions, hold.interfaces, hold.operations⟩⟩

theorem SpaceAt.declareUnion (hd : d.Tidy) (h : d.SpaceAt space path bare e) (x : UnionEntry)
    (he : ∀ y ∈ e.unions, y.name.isText = true) (hx : x.name.isText = true) :
    Grows (· = .nameSpace space) d (declareUnion space path d x)
      ∧ (declareUnion space path d x).SpaceAt space path bare { e with unions := e.unions ++ [x] } := by
  obtain ⟨s, hs, hbare, hcontents⟩ := h
  obtain ⟨i, hdeclares, hat, -⟩ := declareUnion_spec hd hs path x
  have hold := hcontents.mono hdeclares.grows.keeps fun n hn => ⟨space, hn⟩
  exact ⟨hdeclares.grows, s.listing x.name (.union i), hdeclares.listed s hs, hbare,
    ⟨hold.enums, hold.models, hold.unions.insert he hx hat, hold.interfaces, hold.operations⟩⟩

theorem SpaceAt.declareInterface (hd : d.Tidy) (h : d.SpaceAt space path bare e) (x : InterfaceEntry)
    (he : ∀ y ∈ e.interfaces, y.name.isText = true)
    (hx : x.name.isText = true ∧ ∀ o ∈ x.operations, o.HasTextNames) :
    Grows (· = .nameSpace space) d (declareInterface space path d x)
      ∧ (declareInterface space path d x).SpaceAt space path bare
          { e with interfaces := e.interfaces ++ [x] } := by
  obtain ⟨s, hs, hbare, hcontents⟩ := h
  obtain ⟨i, hdeclares, hat, -⟩ :=
    declareInterface_spec hd hs path x (fun o ho => (hx.2 o ho).1) fun o ho => (hx.2 o ho).2
  have hold := hcontents.mono hdeclares.grows.keeps fun n hn => ⟨space, hn⟩
  exact ⟨hdeclares.grows, s.listing x.name (.interface i), hdeclares.listed s hs, hbare,
    ⟨hold.enums, hold.models, hold.unions, hold.interfaces.insert he hx.1 hat, hold.operations⟩⟩

theorem SpaceAt.declareOwnOperation (hd : d.Tidy) (h : d.SpaceAt space path bare e) (x : OperationEntry)
    (he : ∀ y ∈ e.operations, y.name.isText = true) (hx : x.HasTextNames) :
    Grows (· = .nameSpace space) d (declareOwnOperation space path d x)
      ∧ (declareOwnOperation space path d x).SpaceAt space path bare
          { e with operations := e.operations ++ [x] } := by
  obtain ⟨s, hs, hbare, hcontents⟩ := h
  obtain ⟨i, hdeclares, hat, -⟩ := declareOwnOperation_spec hd hs path x hx.2
  have hold := hcontents.mono hdeclares.grows.keeps fun n hn => ⟨space, hn⟩
  exact ⟨hdeclares.grows, s.listing x.name (.operation i), hdeclares.listed s hs, hbare,
    ⟨hold.enums, hold.models, hold.unions, hold.interfaces, hold.operations.insert he hx.1 hat⟩⟩

/-- Declaring the entries of one opening. -/
theorem SpaceAt.declareEntries (hd : d.Tidy) (h : d.SpaceAt space path bare e) (he : e.HasTextNames)
    {x : DeclarationEntries} (hx : x.HasTextNames) :
    Grows (· = .nameSpace space) d (declareEntries space path d x)
      ∧ (declareEntries space path d x).SpaceAt space path bare (e ++ x) := by
  obtain ⟨henums, hmodels, hunions, hinterfaces, hoperations⟩ := he
  obtain ⟨henums', hmodels', hunions', hinterfaces', hoperations'⟩ := hx
  obtain ⟨hg₁, hs₁⟩ := SpaceAt.foldl (g := fun l => { e with enums := l })
    (fun d done y hd h hdone hy => h.declareEnum hd y hdone hy) hd h x.enums
    (List.forall_mem_append.2 ⟨henums, henums'⟩)
  obtain ⟨hg₂, hs₂⟩ := SpaceAt.foldl (g := fun l => { e with enums := e.enums ++ x.enums, models := l })
    (fun d done y hd h hdone hy => h.declareModel hd y (fun z hz => (hdone z hz).1) hy) hg₁.tidy hs₁ x.models
    (List.forall_mem_append.2 ⟨hmodels, hmodels'⟩)
  obtain ⟨hg₃, hs₃⟩ := SpaceAt.foldl
    (g := fun l => { e with enums := e.enums ++ x.enums, models := e.models ++ x.models, unions := l })
    (fun d done y hd h hdone hy => h.declareUnion hd y hdone hy) hg₂.tidy hs₂ x.unions
    (List.forall_mem_append.2 ⟨hunions, hunions'⟩)
  obtain ⟨hg₄, hs₄⟩ := SpaceAt.foldl
    (g := fun l => { e with enums := e.enums ++ x.enums, models := e.models ++ x.models,
                            unions := e.unions ++ x.unions, interfaces := l })
    (fun d done y hd h hdone hy => h.declareInterface hd y (fun z hz => (hdone z hz).1) hy) hg₃.tidy hs₃
    x.interfaces (List.forall_mem_append.2 ⟨hinterfaces, hinterfaces'⟩)
  obtain ⟨hg₅, hs₅⟩ := SpaceAt.foldl
    (g := fun l => { enums := e.enums ++ x.enums, models := e.models ++ x.models,
                     unions := e.unions ++ x.unions, interfaces := e.interfaces ++ x.interfaces,
                     operations := l })
    (fun d done y hd h hdone hy => h.declareOwnOperation hd y (fun z hz => (hdone z hz).1) hy) hg₄.tidy hs₄
    x.operations (List.forall_mem_append.2 ⟨hoperations, hoperations'⟩)
  exact ⟨(((hg₁.trans hg₂).trans hg₃).trans hg₄).trans hg₅, hs₅⟩

/-- Models without anything in them. -/
def emptyModels (names : List Text) : DeclarationEntries where
  enums := []
  models := names.map fun n => { name := .text n, decorators := [], base := none, properties := [] }
  unions := []
  interfaces := []
  operations := []

theorem SpaceAt.declareBuiltIns (hd : d.Tidy) (h : d.SpaceAt space path bare (.united [])) :
    Grows (· = .nameSpace space) d (builtInModels.foldl (declareBuiltIn space) d)
      ∧ (builtInModels.foldl (declareBuiltIn space) d).SpaceAt space path bare (emptyModels builtInModels) := by
  have h : d.SpaceAt space path bare (emptyModels []) := h
  refine SpaceAt.foldl (P := fun _ => True) (fun d done x hd h _ _ => ?_) hd h builtInModels fun _ _ => trivial
  obtain ⟨s, hs, hbare, hcontents⟩ := h
  obtain ⟨i, hdeclares, hat, -⟩ := declareBuiltIn_spec hd hs path x
  have hold := hcontents.mono hdeclares.grows.keeps fun n hn => ⟨space, hn⟩
  refine ⟨hdeclares.grows, s.listing (.text x) (.model i), hdeclares.listed s hs, hbare,
    ⟨hold.enums, ?_, hold.unions, hold.interfaces, hold.operations⟩⟩
  rw [emptyModels, List.map_append, List.map_singleton]
  refine hold.models.insert (fun y hy => ?_) rfl hat
  obtain ⟨n, -, rfl⟩ := List.mem_map.1 hy
  rfl

end

/-! ### Namespaces for openings -/

open Opening NamespaceEntry

/-- The namespace of a path, without its declarations. -/
def bareAt (os : List Opening) (p : List Text) : Namespace where
  name := .text (p.getLast?.getD [])
  parent := if p = [] then none else some (place os p.dropLast)
  namespaces := (inside os p).eraseDups.map fun n => (.text n, place os (p ++ [n]))

/-- The graph has a namespace for each path of some openings, with what is declared there. -/
structure Built (os : List Opening) (d : Declarations) : Prop where
  tidy : d.Tidy
  rooted : Rooted os
  texts : ∀ o ∈ os, o.2.HasTextNames
  size : d.graph.namespaces.size = (paths os).length
  space : ∀ p ∈ paths os, d.SpaceAt (place os p) p (bareAt os p) (declared os p)

section

variable {os : List Opening} {o : Opening} {d d' : Declarations} {p q : List Text} {n : Text}

theorem built_nil : Built [] {} where
  tidy := ⟨fun r hr => (List.not_mem_nil hr).elim, fun c hc => (List.not_mem_nil hc).elim⟩
  rooted := rooted_nil
  texts := fun o ho => (List.not_mem_nil ho).elim
  size := rfl
  space := fun p hp => by
    have hp : p = [] := by simpa [paths] using hp
    subst hp
    exact ⟨{}, rfl, rfl, Lists.nil, Lists.nil, Lists.nil, Lists.nil, Lists.nil⟩

/-- The paths that a path leads to are opened. -/
theorem mem_paths_of_mem_inside (h : n ∈ (inside os p).eraseDups) : p ++ [n] ∈ paths os :=
  mem_inside_iff.1 (List.mem_eraseDups.1 h)

theorem parent_concat (hos : Rooted os) (hp : p ∈ paths os) (o : Opening) :
    (bareAt (os ++ [o]) p).parent = (bareAt os p).parent := by
  rw [bareAt, bareAt]
  dsimp only
  split
  · rfl
  next hne =>
    have hlast := List.dropLast_append_getLast hne
    rw [place_concat (hos.outer_mem _ _ (by rw [hlast]; exact hp))]

/-- Numbers of paths inside a path are kept. -/
theorem namespaces_concat (os : List Opening) (o : Opening) (p : List Text) :
    ((inside os p).eraseDups.map fun n => ((.text n : Label), place (os ++ [o]) (p ++ [n])))
      = (bareAt os p).namespaces := by
  refine List.map_congr_left fun n hn => ?_
  rw [place_concat (mem_paths_of_mem_inside hn)]

/-- Another opening elsewhere leaves a namespace as it is. -/
theorem bareAt_concat (hos : Rooted os) (hp : p ∈ paths os)
    (hinside : (inside (os ++ [o]) p).eraseDups = (inside os p).eraseDups) :
    bareAt (os ++ [o]) p = bareAt os p := by
  have hparent := parent_concat hos hp o
  have hnamespaces := namespaces_concat os o p
  rw [← hinside] at hnamespaces
  rw [bareAt, bareAt] at *
  dsimp only at hparent hnamespaces
  rw [hparent, hnamespaces]

theorem paths_concat_congr (os : List Opening) (q : List Text) (x y : DeclarationEntries) :
    paths (os ++ [(q, x)]) = paths (os ++ [(q, y)]) := by
  rw [paths, List.map_append, paths, List.map_append]
  rfl

theorem place_concat_congr (os : List Opening) (q : List Text) (x y : DeclarationEntries) (p : List Text) :
    place (os ++ [(q, x)]) p = place (os ++ [(q, y)]) p := by
  rw [place, paths_concat_congr os q x y, place]

/-- What is declared in a namespace may be told later than that it is opened. -/
theorem Built.fill {x y : DeclarationEntries} (h : Built (os ++ [(q, x)]) d)
    (hgrows : Grows (· = .nameSpace (place (os ++ [(q, x)]) q)) d d') (hy : y.HasTextNames)
    (hspace : d'.SpaceAt (place (os ++ [(q, x)]) q) q (bareAt (os ++ [(q, x)]) q) (declared os q ++ y)) :
    Built (os ++ [(q, y)]) d' := by
  -- which paths there are and where they stand does not depend on what is declared at them
  have hpaths := paths_concat_congr os q y x
  have hplace := place_concat_congr os q y x
  have hbare : ∀ p, bareAt (os ++ [(q, y)]) p = bareAt (os ++ [(q, x)]) p := by
    intro p
    rw [bareAt, bareAt, inside_concat, inside_concat]
    simp only [hplace]
    rfl
  refine ⟨hgrows.tidy, ⟨?_, ?_, ?_⟩, fun o ho => ?_, ?_, fun p hp => ?_⟩
  · rw [hpaths]
    exact h.rooted.name_ne
  · rw [hpaths]
    exact h.rooted.outer_mem
  · simp only [hpaths, hplace]
    exact h.rooted.outer_lt
  · rcases List.mem_append.1 ho with ho | ho
    · exact h.texts o (List.mem_append_left _ ho)
    · rw [List.mem_singleton.1 ho]
      exact hy
  · rw [hgrows.size, h.size, hpaths]
  · rw [hpaths] at hp
    rw [hplace, hbare]
    -- only the namespace of the path itself has changed
    by_cases hpq : q = p
    · subst hpq
      rw [declared_concat_self os (q, y)]
      exact hspace
    · have hspace := h.space p hp
      rw [declared_concat_ne hpq] at hspace ⊢
      refine hspace.mono hgrows.keeps (fun n hn => ⟨_, hn⟩) fun heq => hpq ?_
      exact (place_inj hp (Node.nameSpace.inj heq)).symm

/-- A namespace that is there already is not made again. -/
theorem Built.openNamespace_old (h : Built os d) (hp : p ∈ paths os) (hn : p ++ [n] ∈ paths os) :
    d.graph.openNamespace (place os p) (.text n) = (place os (p ++ [n]), d.graph) := by
  obtain ⟨s, hs, hbare, -⟩ := h.space p hp
  have hnamespaces : s.namespaces = (bareAt os p).namespaces := by
    rw [← hbare]
    rfl
  have hlookup : ∀ l : List Text, n ∈ l → Members.lookup (.text n)
      (l.map fun m => ((.text m : Label), place os (p ++ [m]))) = some (place os (p ++ [n])) := by
    intro l hl
    induction l with
    | nil => cases hl
    | cons m l ih =>
      rw [List.map_cons, Members.lookup, Label.sameKey_text]
      by_cases hm : m = n
      · rw [if_pos (by simpa using hm), hm]
      · rw [if_neg (by simpa using hm), ih ((List.mem_cons.1 hl).resolve_left (Ne.symm hm))]
  rw [Graph.openNamespace, Graph.get_nameSpace hs, hnamespaces, bareAt,
    hlookup _ (List.mem_eraseDups.2 (mem_inside_iff.2 hn))]

theorem declared_of_not_mem (h : p ∉ paths os) : declared os p = .united [] := by
  have hnone : os.filter (isAt p) = [] := by
    rw [List.filter_eq_nil_iff]
    intro o ho hat
    have hat : o.1 = p := of_decide_eq_true hat
    exact h (List.mem_eraseDups.2 (List.mem_cons_of_mem _ (List.mem_map.2 ⟨o, ho, hat⟩)))
  rw [declared, hnone, List.map_nil]

/-- A path that was not opened before has nothing in it. -/
theorem bareAt_concat_new (hos : Rooted os) (hp : p ∈ paths os) (hnew : p ++ [n] ∉ paths os)
    (x : DeclarationEntries) :
    bareAt (os ++ [(p ++ [n], x)]) (p ++ [n]) = { name := .text n, parent := some (place os p) } := by
  have hinside : inside (os ++ [(p ++ [n], x)]) (p ++ [n]) = [] := by
    rw [List.eq_nil_iff_forall_not_mem]
    intro m hm
    have hm := mem_inside_iff.1 hm
    rw [paths_concat_new hnew] at hm
    rcases List.mem_append.1 hm with hm | hm
    · exact hnew (hos.outer_mem _ _ hm)
    · simpa using congrArg List.length (List.mem_singleton.1 hm)
  rw [bareAt, hinside, if_neg (by simp), List.dropLast_concat, List.getLast?_concat, place_concat hp]
  rfl

/-- The outer namespace lists one that is opened for the first time last. -/
theorem bareAt_concat_outer (hos : Rooted os) (hp : p ∈ paths os) (hnew : p ++ [n] ∉ paths os)
    (x : DeclarationEntries) :
    bareAt (os ++ [(p ++ [n], x)]) p = { bareAt os p with
      namespaces := (bareAt os p).namespaces ++ [(.text n, (paths os).length)] } := by
  have hparent := parent_concat hos hp (p ++ [n], x)
  have hnamespaces := namespaces_concat os (p ++ [n], x) p
  have hname : nameIn? p (p ++ [n], x) = some n := nameIn?_eq_some_iff.2 rfl
  have hinside : (inside (os ++ [(p ++ [n], x)]) p).eraseDups = (inside os p).eraseDups ++ [n] := by
    rw [inside_concat, hname, Option.toList_some, eraseDups_concat, if_neg fun h => hnew (mem_inside_iff.1 h)]
  rw [bareAt] at hparent ⊢
  dsimp only at hparent
  rw [hparent, hinside, List.map_append, hnamespaces, List.map_singleton, place_concat_new hnew]
  rfl

/-- A name that is not used in a namespace is not found there. -/
theorem lookup_eq_none (hnew : n ∉ inside os p) : (bareAt os p).namespaces.lookup (.text n) = none := by
  have hlookup : ∀ l : List Text, n ∉ l → Members.lookup (.text n)
      (l.map fun m => ((.text m : Label), place os (p ++ [m]))) = none := by
    intro l hl
    induction l with
    | nil => rfl
    | cons m l ih =>
      have hm : m ≠ n := fun hm => hl (hm ▸ List.mem_cons_self ..)
      rw [List.map_cons, Members.lookup, Label.sameKey_text, if_neg (by simpa using hm),
        ih fun h => hl (List.mem_cons_of_mem _ h)]
  exact hlookup _ fun h => hnew (List.mem_eraseDups.1 h)

/-- A graph with one namespace more, which an outer one lists last. -/
structure IsOpened (os : List Opening) (d : Declarations) (p : List Text) (n : Text) (s : Namespace)
    (g : Graph) : Prop where
  fresh : d.graph.cell? (.nameSpace (paths os).length) = none
  size : g.namespaces.size = (paths os).length + 1
  cell : ∀ x, g.cell? x =
    if x = .nameSpace (paths os).length then
      some (.nameSpace { name := .text n, parent := some (place os p) })
    else if x = .nameSpace (place os p) then
      some (.nameSpace { s with namespaces := s.namespaces ++ [(.text n, (paths os).length)] })
    else d.graph.cell? x

section

variable {s : Namespace} {g : Graph}

theorem IsOpened.keeps (h : IsOpened os d p n s g) :
    Keeps (· = .nameSpace (place os p)) d { d with graph := g } := by
  refine keeps_graph fun x hx ht => ?_
  -- the new namespace was not there before, so it is none of the nodes that are kept
  have hne : x ≠ .nameSpace (paths os).length := by
    rintro rfl
    rw [Has, h.fresh] at hx
    cases hx
  rw [h.cell, if_neg hne, if_neg ht]

theorem IsOpened.tidy (h : IsOpened os d p n s g) (hd : d.Tidy) : Tidy { d with graph := g } := by
  refine hd.graph fun x hx => ?_
  rw [h.cell]
  split
  · rfl
  · split
    · rfl
    · exact hx

/-- The new namespace has nothing in it. -/
theorem IsOpened.space_self (h : IsOpened os d p n s g) (hos : Rooted os) (hp : p ∈ paths os)
    (hnew : p ++ [n] ∉ paths os) (x : DeclarationEntries) :
    SpaceAt { d with graph := g } (paths os).length (p ++ [n]) (bareAt (os ++ [(p ++ [n], x)]) (p ++ [n]))
      (.united []) := by
  rw [bareAt_concat_new hos hp hnew]
  refine ⟨_, (h.cell _).trans (if_pos rfl), rfl, ?_⟩
  exact ⟨Lists.nil, Lists.nil, Lists.nil, Lists.nil, Lists.nil⟩

/-- The outer namespace has the new one last, and its declarations as before. -/
theorem IsOpened.space_outer (h : IsOpened os d p n s g) (hos : Rooted os) (hp : p ∈ paths os)
    (hnew : p ++ [n] ∉ paths os) (hbare : s.bare = bareAt os p) {e : DeclarationEntries}
    (hcontents : d.Contents (place os p) p s e) (x : DeclarationEntries) :
    SpaceAt { d with graph := g } (place os p) p (bareAt (os ++ [(p ++ [n], x)]) p) e := by
  have hself := h.cell (.nameSpace (place os p))
  rw [if_neg fun heq => Nat.ne_of_lt (place_lt hp) (Node.nameSpace.inj heq), if_pos rfl] at hself
  have hkept := hcontents.mono h.keeps fun x hx => ⟨_, hx⟩
  refine ⟨_, hself, ?_, ⟨hkept.enums, hkept.models, hkept.unions, hkept.interfaces, hkept.operations⟩⟩
  rw [bareAt_concat_outer hos hp hnew, ← hbare]
  rfl

/-- Any other namespace is as it was. -/
theorem IsOpened.space_other (h : IsOpened os d p n s g) (hos : Rooted os) (hq : q ∈ paths os) (hqp : q ≠ p)
    {e : DeclarationEntries} (hspace : d.SpaceAt (place os q) q (bareAt os q) e) (x : DeclarationEntries) :
    SpaceAt { d with graph := g } (place os q) q (bareAt (os ++ [(p ++ [n], x)]) q) e := by
  have hname : nameIn? q (p ++ [n], x) = none := by
    rw [nameIn?, List.dropLast_concat, if_neg (Ne.symm hqp)]
  have hinside : inside (os ++ [(p ++ [n], x)]) q = inside os q := by
    rw [inside_concat, hname, Option.toList_none, List.append_nil]
  rw [bareAt_concat hos hq (by rw [hinside])]
  refine hspace.mono h.keeps (fun x hx => ⟨_, hx⟩) fun heq => hqp ?_
  exact place_inj hq (Node.nameSpace.inj heq)

end

theorem Built.isOpened (h : Built os d) (hnew : p ++ [n] ∉ paths os) {s : Namespace}
    (hs : d.graph.cell? (.nameSpace (place os p)) = some (.nameSpace s)) (hbare : s.bare = bareAt os p) :
    (d.graph.openNamespace (place os p) (.text n)).1 = (paths os).length
      ∧ IsOpened os d p n s (d.graph.openNamespace (place os p) (.text n)).2 := by
  have hnamespaces : s.namespaces = (bareAt os p).namespaces := by
    rw [← hbare]
    rfl
  have hlookup : s.namespaces.lookup (.text n) = none := by
    rw [hnamespaces]
    exact lookup_eq_none fun hmem => hnew (mem_inside_iff.1 hmem)
  have hfresh : d.graph.cell? (.nameSpace d.graph.namespaces.size) = none := by
    rw [Graph.cell?, Table.get?_size]
    rfl
  obtain ⟨hid, hsize, hcell⟩ := Graph.cell?_openNamespace hs hlookup
  rw [Members.insert_of_lookup hlookup] at hcell
  rw [h.size] at hid hsize hcell hfresh
  exact ⟨hid, hfresh, hsize, hcell⟩

/-- A namespace that is not there is made. -/
theorem Built.openNamespace_new (h : Built os d) (hp : p ∈ paths os) (hn : n ≠ [])
    (hnew : p ++ [n] ∉ paths os) :
    (d.graph.openNamespace (place os p) (.text n)).1 = (paths os).length
      ∧ Built (os ++ [(p ++ [n], .united [])])
          { d with graph := (d.graph.openNamespace (place os p) (.text n)).2 } := by
  obtain ⟨s, hs, hbare, hcontents⟩ := h.space p hp
  obtain ⟨hid, hopened⟩ := h.isOpened hnew hs hbare
  have hplace := place_concat_new (o := (p ++ [n], .united [])) hnew
  have hpaths := paths_concat_new (o := (p ++ [n], .united [])) hnew
  refine ⟨hid, hopened.tidy h.tidy, h.rooted.concat rfl hp hn, fun o ho => ?_, ?_, fun q hq => ?_⟩
  · rcases List.mem_append.1 ho with ho | ho
    · exact h.texts o ho
    · rw [List.mem_singleton.1 ho]
      exact DeclarationEntries.HasTextNames.united fun d hd => (List.not_mem_nil hd).elim
  · rw [hopened.size, hpaths, List.length_append]
    rfl
  · -- the path is an old one, the one that the new namespace is inside or another, or it is the new one
    rw [hpaths] at hq
    rcases List.mem_append.1 hq with hq | hq
    · have hne : p ++ [n] ≠ q := fun heq => hnew (heq ▸ hq)
      rw [place_concat hq, declared_concat_ne hne]
      by_cases hqp : q = p
      · subst hqp
        exact hopened.space_outer h.rooted hp hnew hbare hcontents _
      · exact hopened.space_other h.rooted hq hqp (h.space q hq) _
    · rw [List.mem_singleton.1 hq, hplace, declared_concat_self os (p ++ [n], _), declared_of_not_mem hnew]
      exact hopened.space_self h.rooted hp hnew _

/-- Opening a namespace that is there already changes nothing. -/
theorem Built.reopen (h : Built os d) (hp : p ∈ paths os) (hn : p ++ [n] ∈ paths os) :
    Built (os ++ [(p ++ [n], .united [])]) d := by
  have hpaths := paths_concat_old (o := (p ++ [n], .united [])) hn
  have hrooted := h.rooted.concat (o := (p ++ [n], .united [])) rfl hp (h.rooted.name_ne p n hn)
  refine ⟨h.tidy, hrooted, fun o ho => ?_, ?_, fun q hq => ?_⟩
  · rcases List.mem_append.1 ho with ho | ho
    · exact h.texts o ho
    · rw [List.mem_singleton.1 ho]
      exact DeclarationEntries.HasTextNames.united fun d hd => (List.not_mem_nil hd).elim
  · rw [h.size, hpaths]
  · rw [hpaths] at hq
    have hinside : (inside (os ++ [(p ++ [n], .united [])]) q).eraseDups = (inside os q).eraseDups := by
      rw [inside_concat]
      -- a path that was opened before is already listed in the one outside it
      cases hname : nameIn? q (p ++ [n], .united []) with
      | none => rw [Option.toList_none, List.append_nil]
      | some m =>
        have hpath : p ++ [n] = q ++ [m] := nameIn?_eq_some_iff.1 hname
        rw [Option.toList_some, eraseDups_concat, if_pos (mem_inside_iff.2 (hpath ▸ hn))]
    have hdeclared : declared (os ++ [(p ++ [n], .united [])]) q = declared os q := by
      by_cases hq : p ++ [n] = q
      · subst hq
        rw [declared_concat_self os (p ++ [n], _), DeclarationEntries.append_empty]
      · exact declared_concat_ne hq
    rw [place_concat hq, bareAt_concat h.rooted hq hinside, hdeclared]
    exact h.space q hq

/-- Opening a namespace. -/
theorem Built.openNamespace (h : Built os d) (hp : p ∈ paths os) (hn : n ≠ []) :
    (d.graph.openNamespace (place os p) (.text n)).1 = place (os ++ [(p ++ [n], .united [])]) (p ++ [n])
      ∧ Built (os ++ [(p ++ [n], .united [])])
          { d with graph := (d.graph.openNamespace (place os p) (.text n)).2 } := by
  by_cases hnew : p ++ [n] ∈ paths os
  · rw [h.openNamespace_old hp hnew, place_concat hnew]
    exact ⟨rfl, h.reopen hp hnew⟩
  · obtain ⟨hid, hbuilt⟩ := h.openNamespace_new hp hn hnew
    rw [hid, place_concat_new (o := (p ++ [n], .united [])) hnew]
    exact ⟨rfl, hbuilt⟩

/-- Declaring what is in an opening. -/
theorem Built.declareEntries {x : DeclarationEntries} (h : Built (os ++ [(q, .united [])]) d)
    (hx : x.HasTextNames) : Built (os ++ [(q, x)]) (declareEntries (place (os ++ [(q, x)]) q) q d x) := by
  have hspace := h.space q (self_mem_paths os (q, _))
  have htexts : (declared os q).HasTextNames :=
    hasTextNames_declared (fun o ho => h.texts o (List.mem_append_left _ ho)) q
  rw [declared_concat_self os (q, _), DeclarationEntries.append_empty] at hspace
  obtain ⟨hgrows, hspace'⟩ := hspace.declareEntries h.tidy htexts hx
  rw [place_concat_congr os q x (.united [])]
  exact h.fill hgrows hx hspace'

/-- A property of openings and of the declarations that they make, which opening a namespace keeps, and
declaring what is in an opening. -/
structure IsKept (I : List Opening → Declarations → Prop) : Prop where
  opened : ∀ {os d p n}, I os d → p ∈ paths os → n ≠ [] →
    (d.graph.openNamespace (place os p) (.text n)).1 = place (os ++ [(p ++ [n], .united [])]) (p ++ [n])
      ∧ I (os ++ [(p ++ [n], .united [])])
          { d with graph := (d.graph.openNamespace (place os p) (.text n)).2 }
  declared : ∀ {os d q} {x : DeclarationEntries}, I (os ++ [(q, .united [])]) d → x.HasTextNames →
    I (os ++ [(q, x)]) (Declarations.declareEntries (place (os ++ [(q, x)]) q) q d x)

mutual

/-- Declaring a namespace and all that is inside it keeps what its steps keep. -/
theorem IsKept.declareNamespace {I : List Opening → Declarations → Prop} (hI : IsKept I)
    {os : List Opening} {d : Declarations} {p : List Text} (h : I os d) (hp : p ∈ paths os) :
    (e : NamespaceEntry) → (∀ o ∈ openings p e, [] ∉ o.1) → (∀ o ∈ openings p e, o.2.HasTextNames) →
        I (os ++ openings p e) (Declarations.declareNamespace (place os p) p d e)
  | .entry n x cs, hnames, htexts => by
    rw [openings] at hnames htexts ⊢
    rw [Declarations.declareNamespace]
    have hn : n ≠ [] := fun hn => hnames _ (List.mem_cons_self ..) (by simp [hn])
    -- first the namespace, then its declarations, then the namespaces inside it
    obtain ⟨hid, hopen⟩ := hI.opened h hp hn
    dsimp only
    rw [hid, place_concat_congr os (p ++ [n]) (.united []) x]
    have hdeclared := hI.declared hopen (htexts _ (List.mem_cons_self ..))
    have hchildren := hI.declareNamespaces hdeclared (self_mem_paths os (p ++ [n], x)) cs
      (fun o ho => hnames o (List.mem_cons_of_mem _ ho)) fun o ho => htexts o (List.mem_cons_of_mem _ ho)
    rwa [List.append_assoc] at hchildren

/-- Declaring namespaces one after the other keeps what the steps keep. -/
theorem IsKept.declareNamespaces {I : List Opening → Declarations → Prop} (hI : IsKept I)
    {os : List Opening} {d : Declarations} {p : List Text} (h : I os d) (hp : p ∈ paths os) :
    (es : List NamespaceEntry) → (∀ o ∈ openingsOf p es, [] ∉ o.1) →
      (∀ o ∈ openingsOf p es, o.2.HasTextNames) →
        I (os ++ openingsOf p es) (Declarations.declareNamespaces (place os p) p d es)
  | [], _, _ => by
    rw [openingsOf, Declarations.declareNamespaces, List.append_nil]
    exact h
  | e :: es, hnames, htexts => by
    rw [openingsOf] at hnames htexts ⊢
    rw [Declarations.declareNamespaces, ← List.append_assoc]
    have hfirst := hI.declareNamespace h hp e (fun o ho => hnames o (List.mem_append_left _ ho))
      fun o ho => htexts o (List.mem_append_left _ ho)
    have hmem : p ∈ paths (os ++ openings p e) := mem_paths_append hp _
    have hrest := hI.declareNamespaces hfirst hmem es (fun o ho => hnames o (List.mem_append_right _ ho))
      fun o ho => htexts o (List.mem_append_right _ ho)
    rwa [place_append hp] at hrest

end

theorem isKept_built : IsKept Built := ⟨Built.openNamespace, Built.declareEntries⟩

/-- What is declared before a description is read. -/
def builtInEntry : NamespaceEntry := .entry builtInNamespace (emptyModels builtInModels) []

theorem built_initial : Built (openings [] builtInEntry) initial := by
  obtain ⟨hid, hopen⟩ := built_nil.openNamespace (nil_mem_paths []) (show builtInNamespace ≠ [] by decide)
  rw [place_nil] at hid hopen
  have hspace := hopen.space _ (self_mem_paths [] ([] ++ [builtInNamespace], _))
  rw [declared_concat_self [] (_, _)] at hspace
  obtain ⟨hgrows, hspace'⟩ := hspace.declareBuiltIns hopen.tidy
  have htexts : (emptyModels builtInModels).HasTextNames := by decide
  have hfill := hopen.fill hgrows htexts hspace'
  rw [← hid] at hfill
  exact hfill

/-- The declarations that a description makes. -/
def ofDescription (es : List NamespaceEntry) : Declarations := declareNamespaces Graph.root [] initial es

theorem built_ofDescription {es : List NamespaceEntry} (hnames : ∀ o ∈ openingsOf [] es, [] ∉ o.1)
    (htexts : ∀ o ∈ openingsOf [] es, o.2.HasTextNames) :
    Built (openingsOf [] (builtInEntry :: es)) (ofDescription es) := by
  have hbuilt := isKept_built.declareNamespaces built_initial (nil_mem_paths _) es hnames htexts
  rw [place_nil] at hbuilt
  rw [openingsOf]
  exact hbuilt

end

end Declarations

end Edm
