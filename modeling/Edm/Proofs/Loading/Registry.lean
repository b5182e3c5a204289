import Edm.Proofs.Graph.Listing
import Edm.Proofs.Loading.Acceptance
import Edm.Proofs.Loading.Built

/-!
# Which declarations are known

Loading keeps the declared types twice: a namespace lists them by kind and name, and the flat table that
references are looked up in has them by site.  `Declarations.Registry` relates the two at every step of
declaring.  Whatever is found in the table is listed at this time, also after a later declaration has taken the
place of an earlier one; and whatever is listed is in the table, unless it is built in
(`Declarations.registry_ofDescription`).
-/

namespace Edm

/-! ### Looking up -/

section

variable {α β : Type} {At : α → β → Prop} {name : β → Label} {members : Members α} {entries : List β} {t : Text}

/-- A member that is found stands for an entry with its name. -/
theorem Lists.of_lookup {a : α} (h : Lists At name members entries) (hl : members.lookup (.text t) = some a) :
    ∃ e ∈ latest name entries, name e = .text t ∧ At a e := by
  unfold Lists at h
  generalize latest name entries = found at h
  induction h with
  | nil => cases hl
  | @cons m e members found hm hrest ih =>
    obtain ⟨n, v⟩ := m
    obtain ⟨hn, hv⟩ := hm
    rw [Members.lookup] at hl
    split at hl
    next hkey =>
      cases hl
      exact ⟨e, List.mem_cons_self .., by rw [← hn, Label.eq_of_sameKey_text hkey], hv⟩
    next =>
      obtain ⟨e', he', hname, hat⟩ := ih hl
      exact ⟨e', List.mem_cons_of_mem _ he', hname, hat⟩

end

namespace Declarations

open Opening NamespaceEntry

/-! ### The invariant -/

/-- The table of declared types fits what the namespaces list. -/
structure Registry (os : List Opening) (d : Declarations) : Prop where
  tidy : d.Tidy
  space : ∀ p ∈ paths os, ∃ s, d.graph.cell? (.nameSpace (place os p)) = some (.nameSpace s)
  found : ∀ {site : Text} {n : Node}, find site d.types = some n → ∃ p ∈ paths os, ∃ k t,
    d.graph.listed? (place os p) t k = some n ∧ site = siteOf (Graph.dotted p) (.text t)
  known : ∀ p ∈ paths os, ∀ {k : Kind} {t : Text} {n : Node}, d.graph.listed? (place os p) t k = some n →
    (siteOf (Graph.dotted p) (.text t), n) ∈ d.types ∨ ∃ b, (b, n) ∈ d.builtIns
  builtIn : ∀ {b : Text} {n : Node}, (b, n) ∈ d.builtIns → [builtInNamespace] ∈ paths os ∧ ∃ i, n = .model i
    ∧ d.view n = { cell := some (.model { name := .text b, owner := some (place os [builtInNamespace]) }) }
  apart : ∀ {site b : Text} {n : Node}, (site, n) ∈ d.types → (b, n) ∉ d.builtIns

section

variable {os os' : List Opening} {d d' : Declarations} {p q : List Text} {n : Node} {k : Kind} {t : Text}

theorem registry_nil : Registry [] {} where
  tidy := built_nil.tidy
  space := fun p hp => by
    obtain ⟨s, hs, -⟩ := built_nil.space p hp
    exact ⟨s, hs⟩
  found := fun h => by cases h
  known := fun p hp {k t n} h => by
    have hp : p = [] := by simpa [paths] using hp
    subst hp
    have hnone : Graph.listed? {} (place [] []) t k = none := by
      cases k <;> rfl
    rw [hnone] at h
    cases h
  builtIn := fun h => by cases h
  apart := fun h => by cases h

/-- The invariant depends only on which paths there are and where they stand. -/
theorem Registry.congr (h : Registry os d) (hpaths : paths os' = paths os)
    (hplace : ∀ p ∈ paths os, place os' p = place os p) : Registry os' d where
  tidy := h.tidy
  space := fun p hp => by
    rw [hpaths] at hp
    rw [hplace p hp]
    exact h.space p hp
  found := fun hfind => by
    obtain ⟨p, hp, k, t, hl, hsite⟩ := h.found hfind
    exact ⟨p, by rwa [hpaths], k, t, by rwa [hplace p hp], hsite⟩
  known := fun p hp {k t n} hl => by
    rw [hpaths] at hp
    rw [hplace p hp] at hl
    exact h.known p hp hl
  builtIn := fun hb => by
    obtain ⟨hpath, i, hi, hview⟩ := h.builtIn hb
    exact ⟨by rwa [hpaths], i, hi, by rwa [hplace _ hpath]⟩
  apart := h.apart

/-! ### Steps -/

/-- What namespaces list after something is declared. -/
theorem Registry.listed?_declares (h : Registry os d) (hq : q ∈ paths os)
    (hd : Declares d d' (place os q) (.text t) n) (hn : n.declarableKind? = some k) (hk : k ≠ .nameSpace)
    (hp : p ∈ paths os) (u : Text) (k' : Kind) : d'.graph.listed? (place os p) u k'
      = if p = q ∧ k = k' ∧ t = u then some n else d.graph.listed? (place os p) u k' := by
  obtain ⟨s, hs⟩ := h.space p hp
  by_cases hpq : p = q
  · subst hpq
    rw [Graph.listed?, Graph.get_nameSpace (hd.listed s hs), Namespace.listed?_listing hn hk, Graph.listed?,
      Graph.get_nameSpace hs]
    simp
  · have hkeep : d'.graph.cell? (.nameSpace (place os p)) = some (.nameSpace s) :=
      hd.grows.keeps.cell_eq hs fun heq => hpq (place_inj hp (Node.nameSpace.inj heq))
    rw [Graph.listed?, Graph.get_nameSpace hkeep, if_neg fun h => hpq h.1, Graph.listed?, Graph.get_nameSpace hs]

theorem Registry.space_declares (h : Registry os d) (hd : Declares d d' (place os q) (.text t) n) (hp : p ∈ paths os) :
    ∃ s, d'.graph.cell? (.nameSpace (place os p)) = some (.nameSpace s) := by
  obtain ⟨s, hs⟩ := h.space p hp
  by_cases hpq : place os p = place os q
  · rw [hpq] at hs ⊢
    exact ⟨_, hd.listed s hs⟩
  · exact ⟨s, hd.grows.keeps.cell_eq hs fun heq => hpq (Node.nameSpace.inj heq)⟩

theorem Registry.builtIn_declares (h : Registry os d) (hd : Declares d d' (place os q) (.text t) n) {b : Text}
    {m : Node} (hb : (b, m) ∈ d.builtIns) : [builtInNamespace] ∈ paths os ∧ ∃ i, m = .model i
      ∧ d'.view m = { cell := some (.model { name := .text b, owner := some (place os [builtInNamespace]) }) } := by
  obtain ⟨hpath, i, rfl, hview⟩ := h.builtIn hb
  exact ⟨hpath, i, rfl, hd.grows.keeps.view_eq hview rfl (by simp)⟩

/-- Declaring a type lists it and puts it in the table in one. -/
theorem Registry.declares (h : Registry os d) (hq : q ∈ paths os)
    (hd : Declares d d' (place os q) (.text t) n) (hn : n.declarableKind? = some k) (hk : k ≠ .nameSpace)
    (htypes : d'.types = (siteOf (Graph.dotted q) (.text t), n) :: d.types)
    (hbuiltIns : d'.builtIns = d.builtIns) : Registry os d' where
  tidy := hd.grows.tidy
  space := fun p hp => h.space_declares hd hp
  found := fun {site m} hfind => by
    rw [htypes, find] at hfind
    split at hfind
    next hsite =>
      cases hfind
      exact ⟨q, hq, k, t, by rw [h.listed?_declares hq hd hn hk hq, if_pos ⟨rfl, rfl, rfl⟩], hsite.symm⟩
    next hsite =>
      -- what is found under another site stands at another path or has another name
      obtain ⟨p, hp, k', u, hl, rfl⟩ := h.found hfind
      refine ⟨p, hp, k', u, ?_, rfl⟩
      rw [h.listed?_declares hq hd hn hk hp, if_neg, hl]
      rintro ⟨rfl, -, rfl⟩
      exact hsite rfl
  known := fun p hp {k' u m} hl => by
    rw [h.listed?_declares hq hd hn hk hp] at hl
    rw [htypes, hbuiltIns]
    split at hl
    next heq =>
      obtain ⟨rfl, rfl, rfl⟩ := heq
      cases hl
      exact .inl (List.mem_cons_self ..)
    next => exact (h.known p hp hl).imp_left fun hmem => List.mem_cons_of_mem _ hmem
  builtIn := fun hb => by
    rw [hbuiltIns] at hb
    exact h.builtIn_declares hd hb
  apart := fun {site b m} hmem hb => by
    rw [htypes] at hmem
    rw [hbuiltIns] at hb
    rcases List.mem_cons.1 hmem with heq | hmem
    · -- the declared node is new, and the built-in models are there already
      cases heq
      obtain ⟨-, i, -, hview⟩ := h.builtIn hb
      exact hd.fresh (has_of_cell (by rw [← cell_view, hview]))
    · exact h.apart hmem hb

/-- Declaring a built-in model lists it; the table of declared types, which is empty then, stays so. -/
theorem Registry.declareBuiltIn (h : Registry os d) (hpath : [builtInNamespace] ∈ paths os)
    (hnone : d.types = []) (b : Text) : Registry os (declareBuiltIn (place os [builtInNamespace]) d b) := by
  obtain ⟨s, hs⟩ := h.space _ hpath
  obtain ⟨i, hd, -, hview, hbuiltIns⟩ := declareBuiltIn_spec h.tidy hs [builtInNamespace] b
  have htypes : (Declarations.declareBuiltIn (place os [builtInNamespace]) d b).types = [] := hnone
  refine ⟨hd.grows.tidy, fun p hp => h.space_declares hd hp, fun {site m} hfind => ?_,
    fun p hp {k u m} hl => ?_, fun {c m} hb => ?_, fun {site c m} hmem => ?_⟩
  · rw [htypes] at hfind
    cases hfind
  · rw [h.listed?_declares hpath hd rfl (by decide) hp] at hl
    rw [hbuiltIns]
    split at hl
    next =>
      cases hl
      exact .inr ⟨b, List.mem_append_right _ (List.mem_singleton_self _)⟩
    next =>
      rcases h.known p hp hl with hmem | ⟨c, hc⟩
      · rw [hnone] at hmem
        cases hmem
      · exact .inr ⟨c, List.mem_append_left _ hc⟩
  · rw [hbuiltIns] at hb
    rcases List.mem_append.1 hb with hb | hb
    · exact h.builtIn_declares hd hb
    · cases List.mem_singleton.1 hb
      exact ⟨hpath, i, rfl, hview⟩
  · rw [htypes] at hmem
    cases hmem

theorem Registry.declareBuiltIns (h : Registry os d) (hpath : [builtInNamespace] ∈ paths os)
    (hnone : d.types = []) (names : List Text) :
    Registry os (names.foldl (Declarations.declareBuiltIn (place os [builtInNamespace])) d) := by
  induction names generalizing d with
  | nil => exact h
  | cons b names ih => exact ih (h.declareBuiltIn hpath hnone b) hnone

/-! ### Openings -/

theorem Registry.declareEntries (h : Registry os d) (hq : q ∈ paths os) {e : DeclarationEntries}
    (he : e.HasTextNames) : Registry os (declareEntries (place os q) q d e) := by
  obtain ⟨henums, hmodels, hunions, hinterfaces, hoperations⟩ := he
  have htext : ∀ {l : Label}, l.isText = true → ∃ t, l = .text t := by
    intro l hl
    cases l with
    | text t => exact ⟨t, rfl⟩
    | _ => cases hl
  have h₁ := List.foldlRecOn (motive := Registry os) e.enums (declareEnum (place os q) q) h fun d h x hx => by
    obtain ⟨s, hs⟩ := h.space q hq
    obtain ⟨i, hd, -, htypes⟩ := declareEnum_spec h.tidy hs q x
    obtain ⟨t, ht⟩ := htext (henums x hx)
    rw [ht] at hd htypes
    exact h.declares hq hd rfl (by decide) htypes (@adds_enum [] _ _ _ x).builtIns
  have h₂ := List.foldlRecOn (motive := Registry os) e.models (declareModel (place os q) q) h₁ fun d h x hx => by
    obtain ⟨s, hs⟩ := h.space q hq
    obtain ⟨i, hd, -, htypes, -⟩ := declareModel_spec h.tidy hs q x (hmodels x hx).2
    obtain ⟨t, ht⟩ := htext (hmodels x hx).1
    rw [ht] at hd htypes
    exact h.declares hq hd rfl (by decide) htypes (@adds_model [] _ _ _ x).builtIns
  have h₃ := List.foldlRecOn (motive := Registry os) e.unions (declareUnion (place os q) q) h₂ fun d h x hx => by
    obtain ⟨s, hs⟩ := h.space q hq
    obtain ⟨i, hd, -, htypes⟩ := declareUnion_spec h.tidy hs q x
    obtain ⟨t, ht⟩ := htext (hunions x hx)
    rw [ht] at hd htypes
    exact h.declares hq hd rfl (by decide) htypes (@adds_union [] _ _ _ x).builtIns
  have h₄ := List.foldlRecOn (motive := Registry os) e.interfaces (declareInterface (place os q) q) h₃
    fun d h x hx => by
      obtain ⟨s, hs⟩ := h.space q hq
      obtain ⟨hname, hlisted⟩ := hinterfaces x hx
      obtain ⟨i, hd, -, htypes⟩ := declareInterface_spec h.tidy hs q x (fun o ho => (hlisted o ho).1)
        fun o ho => (hlisted o ho).2
      obtain ⟨t, ht⟩ := htext hname
      rw [ht] at hd htypes
      exact h.declares hq hd rfl (by decide) htypes (@adds_interface [] _ _ _ x).builtIns
  exact List.foldlRecOn (motive := Registry os) e.operations (declareOwnOperation (place os q) q) h₄
    fun d h x hx => by
      obtain ⟨s, hs⟩ := h.space q hq
      obtain ⟨i, hd, -, htypes⟩ := declareOwnOperation_spec h.tidy hs q x (hoperations x hx).2
      obtain ⟨t, ht⟩ := htext (hoperations x hx).1
      rw [ht] at hd htypes
      exact h.declares hq hd rfl (by decide) htypes (@adds_ownOperation [] _ _ _ x).builtIns

/-- Opening a namespace changes nothing that is listed, and a new one lists nothing. -/
theorem IsOpened.listed?_eq {m : Text} {s : Namespace} {g : Graph} (h : IsOpened os d p m s g)
    (hs : d.graph.cell? (.nameSpace (place os p)) = some (.nameSpace s)) (hreg : Registry os d)
    (hq : q ∈ paths os) (t : Text) (k : Kind) : g.listed? (place os q) t k = d.graph.listed? (place os q) t k := by
  have hcell := h.cell (.nameSpace (place os q))
  rw [if_neg fun heq => Nat.ne_of_lt (place_lt hq) (Node.nameSpace.inj heq)] at hcell
  by_cases hpq : place os q = place os p
  · rw [hpq] at hcell ⊢
    rw [if_pos rfl] at hcell
    rw [Graph.listed?, Graph.get_nameSpace hcell, Graph.listed?, Graph.get_nameSpace hs]
    exact Namespace.listed?_congr rfl rfl rfl rfl rfl t k
  · obtain ⟨r, hr⟩ := hreg.space q hq
    rw [if_neg fun heq => hpq (Node.nameSpace.inj heq), hr] at hcell
    rw [Graph.listed?, Graph.get_nameSpace hcell, Graph.listed?, Graph.get_nameSpace hr]

theorem Registry.openNamespace {m : Text} (h : Registry os d) (hb : Built os d) (hp : p ∈ paths os) :
    Registry (os ++ [(p ++ [m], .united [])])
      { d with graph := (d.graph.openNamespace (place os p) (.text m)).2 } := by
  by_cases hnew : p ++ [m] ∈ paths os
  · rw [hb.openNamespace_old hp hnew]
    exact h.congr (paths_concat_old (o := (p ++ [m], _)) hnew) fun q hq => place_concat hq _
  · obtain ⟨s, hs, hbare, -⟩ := hb.space p hp
    obtain ⟨-, hopened⟩ := hb.isOpened hnew hs hbare
    have hpaths := paths_concat_new (o := (p ++ [m], .united [])) hnew
    have hplace := place_concat_new (o := (p ++ [m], .united [])) hnew
    generalize (d.graph.openNamespace (place os p) (.text m)).2 = g at hopened
    have hself : g.cell? (.nameSpace (paths os).length)
        = some (.nameSpace { name := .text m, parent := some (place os p) }) := (hopened.cell _).trans (if_pos rfl)
    have hnone : ∀ t k, g.listed? (paths os).length t k = none := by
      intro t k
      rw [Graph.listed?, Graph.get_nameSpace hself]
      cases k <;> rfl
    refine ⟨hopened.tidy h.tidy, fun q hq => ?_, fun {site n} hfind => ?_, fun q hq {k t n} hl => ?_,
      fun {b n} hb => ?_, h.apart⟩
    · rw [hpaths] at hq
      rcases List.mem_append.1 hq with hq | hq
      · rw [place_concat hq]
        have hcell := hopened.cell (.nameSpace (place os q))
        rw [if_neg fun heq => Nat.ne_of_lt (place_lt hq) (Node.nameSpace.inj heq)] at hcell
        obtain ⟨r, hr⟩ := h.space q hq
        split at hcell
        · exact ⟨_, hcell⟩
        · exact ⟨r, hcell.trans hr⟩
      · rw [List.mem_singleton.1 hq, hplace]
        exact ⟨_, hself⟩
    · obtain ⟨q, hq, k, t, hl, hsite⟩ := h.found hfind
      refine ⟨q, mem_paths_concat hq _, k, t, ?_, hsite⟩
      rw [place_concat hq]
      exact (hopened.listed?_eq hs h hq t k).trans hl
    · rw [hpaths] at hq
      rcases List.mem_append.1 hq with hq | hq
      · rw [place_concat hq] at hl
        exact h.known q hq ((hopened.listed?_eq hs h hq t k).symm.trans hl)
      · rw [List.mem_singleton.1 hq, hplace] at hl
        cases (hnone t k).symm.trans hl
    · obtain ⟨hpath, i, rfl, hview⟩ := h.builtIn hb
      refine ⟨mem_paths_concat hpath _, i, rfl, ?_⟩
      rw [place_concat hpath]
      exact hopened.keeps.view_eq hview rfl (by simp)

end

theorem isKept_registry : IsKept fun os d => Built os d ∧ Registry os d where
  opened := fun ⟨hb, h⟩ hp hn => by
    obtain ⟨hid, hbuilt⟩ := hb.openNamespace hp hn
    exact ⟨hid, hbuilt, h.openNamespace hb hp⟩
  declared := fun {os d q x} ⟨hb, h⟩ hx => by
    have hreg : Registry (os ++ [(q, x)]) d :=
      h.congr (paths_concat_congr os q _ _) fun p _ => place_concat_congr os q _ _ p
    exact ⟨hb.declareEntries hx, hreg.declareEntries (self_mem_paths os (q, x)) hx⟩

theorem registry_initial : Registry (openings [] builtInEntry) initial := by
  have hopen := registry_nil.openNamespace (m := builtInNamespace) built_nil (nil_mem_paths [])
  have hpath : [builtInNamespace] ∈ paths [([builtInNamespace], .united [])] :=
    self_mem_paths [] ([builtInNamespace], .united [])
  have hid : (Graph.openNamespace {} Graph.root (.text builtInNamespace)).1
      = place [([builtInNamespace], .united [])] [builtInNamespace] :=
    (built_nil.openNamespace (nil_mem_paths []) (show builtInNamespace ≠ [] by decide)).1
  have hmodels := hopen.declareBuiltIns hpath rfl builtInModels
  rw [place_nil] at hmodels
  unfold initial
  dsimp only
  rw [hid]
  exact hmodels.congr (paths_concat_congr [] [builtInNamespace] _ _)
    fun p _ => place_concat_congr [] [builtInNamespace] _ _ p

/-- When all of a description is declared, what is known by site is what is listed. -/
theorem registry_ofDescription {es : List NamespaceEntry} (hnames : ∀ o ∈ openingsOf [] es, [] ∉ o.1)
    (htexts : ∀ o ∈ openingsOf [] es, o.2.HasTextNames) :
    Registry (openingsOf [] (builtInEntry :: es)) (ofDescription es) := by
  have hkept := isKept_registry.declareNamespaces ⟨built_initial, registry_initial⟩ (nil_mem_paths _) es hnames
    htexts
  rw [place_nil] at hkept
  rw [openingsOf]
  exact hkept.2

end Declarations

end Edm
