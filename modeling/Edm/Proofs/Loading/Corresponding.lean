import Edm.Proofs.Graph.Alike
import Edm.Proofs.Loading.Closed
import Edm.Proofs.Loading.Reordered
import Edm.Proofs.Loading.Unions

/-!
# Two programs with the same declarations

A node of a loaded program stands for a declaration if a namespace lists it under the name and with the path of
the declaration (`Program.Embodies`).  If no two declarations have one site, what is known at a site stands for
the declaration with this site (`Program.embodies_of_find`).  So in two programs with the same declarations, in
whatever order, a name leads to nodes for one declaration, and an expression stands for types that look alike
(`Program.AreReordered.aligns`): they have the same name and the same identifier (`Program.AreReordered.typeName_eq`,
`Program.AreReordered.idLabel_eq`).
-/

namespace Edm

open Relation Opening NamespaceEntry Declarations

/-! ### Declarations by path -/

namespace DeclarationEntries

theorem named_eq_all (d : DeclarationEntries) : d.named = d.all.map fun x => (x.kind, x.name) := by
  simp [named, all, Declaration.kind, Declaration.name, Function.comp_def]

theorem mem_all_united {ds : List DeclarationEntries} {x : Declaration} :
    x ∈ (united ds).all ↔ ∃ d ∈ ds, x ∈ d.all := by
  cases x <;> simp [all, united]

end DeclarationEntries

theorem Opening.mem_all_declared {os : List Opening} {path : List Text} {x : Declaration} :
    x ∈ (declared os path).all ↔ (path, x) ∈ entries os := by
  rw [declared, DeclarationEntries.mem_all_united, mem_entries]
  simp [isAt]

/-- The declaration of a built-in model. -/
def builtInDeclaration (name : Text) : Declared :=
  ([builtInNamespace], .model { name := .text name, decorators := [], base := none, properties := [] })

theorem entries_openings (data : Json) :
    Opening.entries data.openings = builtInModels.map builtInDeclaration ++ data.entries := by
  have hbuiltIn : Opening.entries (openings [] builtInEntry) = builtInModels.map builtInDeclaration := by
    simp [builtInEntry, openings, openingsOf, Opening.entries, emptyModels, DeclarationEntries.all,
      builtInDeclaration, Function.comp_def]
  rw [Json.openings, openingsOf, entries_append, hbuiltIn, Json.entries]

theorem mem_entries_openings {data : Json} {x : Declared} :
    x ∈ Opening.entries data.openings ↔ (∃ b ∈ builtInModels, x = builtInDeclaration b) ∨ x ∈ data.entries := by
  rw [entries_openings, List.mem_append, List.mem_map]
  simp only [eq_comm]

theorem siteOf_eq (outer : Text) (name : Label) : siteOf outer name = outer ++ dot :: name.display :=
  List.append_assoc outer "." name.display

/-- Nothing else has the site of a built-in model, as neither its name nor that of its namespace has a dot. -/
theorem eq_of_site_builtIn {x : Declared} {b : Text} (hpath : x.1 ≠ []) (hb : b ∈ builtInModels)
    (hsite : x.site = (builtInDeclaration b).site) : x.1 = [builtInNamespace] ∧ x.2.name.display = b := by
  have hspace : dot ∉ builtInNamespace := by decide
  have hdots : ∀ b ∈ builtInModels, dot ∉ b := by decide
  have hparts : builtInNamespace = Graph.dotted x.1 ∧ dot = dot ∧ b = x.2.name.display := by
    rw [Declared.site, Declared.site, siteOf_eq, siteOf_eq] at hsite
    exact (List.append_cons_inj_of_notMem hspace (hdots b hb)).1 hsite.symm
  refine ⟨?_, hparts.2.2.symm⟩
  cases hx : x.1 with
  | nil => exact absurd hx hpath
  | cons n rest =>
    cases rest with
    | nil =>
      rw [hx] at hparts
      rw [hparts.1]
      rfl
    | cons m rest =>
      have hdot : dot ∈ Graph.dotted x.1 := by
        rw [hx, dotted_cons_cons]
        exact List.mem_append_left _ (List.mem_append_right _ (List.mem_singleton_self dot))
      rw [← hparts.1] at hdot
      exact absurd hdot hspace

theorem Declaration.exists_union {x : Declaration} (h : x.kind = .union) : ∃ e, x = .union e := by
  cases x with
  | union e => exact ⟨e, rfl⟩
  | enum _ | model _ | interface _ | operation _ => cases h

theorem Node.exists_union {n : Node} (h : n.declarableKind? = some .union) : ∃ i, n = .union i := by
  cases n with
  | union i => exact ⟨i, rfl⟩
  | _ => cases h

theorem Node.eq_union_of_core {n : Node} {k : Kind} {i : UnionId} (h : n.declarableKind? = some k)
    (hcore : n.core = .union i) : k = .union := by
  cases n with
  | union i =>
    cases h
    rfl
  | array _ _ => cases h
  | _ => cases hcore

/-- A union that is written in place has no name and belongs to no namespace. -/
theorem Graph.idLabel_inPlace {g : Graph} {i : UnionId} {options : List Node}
    (h : g.cell? (.union i) = some (.union { options })) : g.idLabel (.union i) = .text "." := by
  rw [idLabel, isIdentifiable, qualifiedId, get_union h]
  rfl

theorem Declaration.kind_ne_nameSpace (x : Declaration) : x.kind ≠ .nameSpace := by
  cases x <;> exact nofun

theorem Declaration.HasTextNames.name {x : Declaration} (h : x.HasTextNames) : x.name.isText = true := by
  cases x with
  | enum _ | union _ => exact h
  | model _ | interface _ | operation _ => exact h.1

namespace Program

/-- A node of a program stands for a declaration of its description, or for a built-in one. -/
structure Embodies (p : Program) (data : Json) (x : Declared) (n : Node) : Prop where
  path : x.1 ∈ paths data.openings
  kind : n.declarableKind? = some x.2.kind
  listed : ∃ t, x.2.name = .text t ∧ p.graph.IsListed (place data.openings x.1) x.2.kind t n
  options : ∀ e i, x.2 = .union e → n = .union i →
    (ofDescription data.outline).DenoteAll p.graph x.1 e.options (p.graph.unions.get i).options

section

variable {data : Json} {p : Program} {n : Node}

theorem exists_entry_of_find {site : Text} (hfind : find site (ofDescription data.outline).types = some n) :
    ∃ x ∈ data.entries, x.site = site ∧ n.kind? = some x.2.kind := by
  obtain ⟨o, ho, y, hy, hsite, hkind⟩ := exists_of_mem_types (mem_of_find hfind)
  rw [DeclarationEntries.named_eq_all] at hy
  obtain ⟨x, hx, rfl⟩ := List.mem_map.1 hy
  exact ⟨(o.1, x), mem_entries.2 ⟨o, ho, rfl, hx⟩, hsite.symm, hkind⟩

theorem eq_of_site (hsites : data.HasDistinctSites) {x y : Declared} (hx : x ∈ data.entries) (hy : y ∈ data.entries)
    (hsite : x.site = y.site) : x = y :=
  List.inj_on_of_nodup_map hsites.nodup hx hy hsite

theorem exists_name (htexts : data.HasTextNames) {x : Declared} (hx : x ∈ data.entries) : ∃ t, x.2.name = .text t := by
  obtain ⟨o, ho, -, hmem⟩ := mem_entries.1 hx
  exact Label.isText_iff.1 (DeclarationEntries.hasTextNames_iff_all.1 (htexts o ho) _ hmem).name

section

variable (h : load data = .ok p) (htexts : data.HasTextNames) {q : List Text} {t : Text} {k : Kind}
  (hq : q ∈ paths data.openings) (hl : p.graph.listed? (place data.openings q) t k = some n)

include h htexts hq hl

theorem exists_entry_of_listed? : ∃ x, (q, x) ∈ Opening.entries data.openings ∧ x.kind = k ∧ x.name = .text t := by
  have hnamed := mem_named_of_load h htexts.openings hq hl
  rw [DeclarationEntries.named_eq_all] at hnamed
  obtain ⟨x, hx, hname⟩ := List.mem_map.1 hnamed
  exact ⟨x, mem_all_declared.1 hx, congrArg Prod.fst hname, congrArg Prod.snd hname⟩

/-- What is listed with the site of a declaration is listed under its name and with its path. -/
theorem eq_of_listed? (hsites : data.HasDistinctSites) {x : Declared} (hx : x ∈ data.entries)
    (hsite : x.site = siteOf (Graph.dotted q) (.text t)) : x.1 = q ∧ x.2.name = .text t := by
  obtain ⟨y, hy, -, hname⟩ := exists_entry_of_listed? h htexts hq hl
  rw [← hname] at hsite ⊢
  rcases mem_entries_openings.1 hy with ⟨b, hb, hbuiltIn⟩ | hy
  · have hpath : x.1 ≠ [] := by
      obtain ⟨o, ho, hpath, -⟩ := mem_entries.1 hx
      exact hpath ▸ ne_nil_of_mem_openingsOf ho
    cases hbuiltIn
    obtain ⟨hpath, hdisplay⟩ := eq_of_site_builtIn hpath hb hsite
    obtain ⟨u, hu⟩ := exists_name htexts hx
    refine ⟨hpath, ?_⟩
    rw [hu] at hdisplay ⊢
    exact congrArg Label.text hdisplay
  · cases eq_of_site hsites hx hy hsite
    exact ⟨rfl, rfl⟩

end

/-- The options of a listed union are what the declaration with its site says. -/
theorem denoteAll_of_listed? (h : load data = .ok p) (htexts : data.HasTextNames) (hsites : data.HasDistinctSites)
    {q : List Text} {t : Text} {i : UnionId} (hq : q ∈ paths data.openings)
    (hl : p.graph.listed? (place data.openings q) t .union = some (.union i)) {e : UnionEntry}
    (he : (q, .union e) ∈ data.entries) (hname : e.name = .text t) :
    (ofDescription data.outline).DenoteAll p.graph q e.options (p.graph.unions.get i).options := by
  have hbuilt := built_of_load h htexts.openings
  obtain ⟨-, hsettle⟩ := settleAll_of_load h
  obtain ⟨s, hs, -, hcontents⟩ := hbuilt.space q hq
  rw [listed?_of_load h htexts.openings, Graph.listed?, Graph.get_nameSpace hs] at hl
  obtain ⟨j, hlookup, hj⟩ := Option.map_eq_some_iff.1 hl
  cases hj
  obtain ⟨e', he', hname', hat⟩ := hcontents.unions.of_lookup hlookup
  have hmem : (q, .union e') ∈ data.entries := by
    have hall : Declaration.union e' ∈ (declared data.openings q).all := by
      simp [DeclarationEntries.all, mem_of_mem_latest he']
    rcases mem_entries_openings.1 (mem_all_declared.1 hall) with ⟨b, -, hb⟩ | hmem
    · cases hb
    · exact hmem
  have hsame : (q, Declaration.union e') = (q, Declaration.union e) := by
    refine eq_of_site hsites hmem he ?_
    rw [Declared.site, Declared.site]
    exact congrArg (siteOf (Graph.dotted q)) (hname'.trans hname.symm)
  cases hsame
  obtain ⟨c, hc, hmeets⟩ := meets_of_settleAll hbuilt.tidy hsettle hat rfl rfl
  cases hmeets with
  | options hpending hdenote =>
    cases hpending
    rw [Graph.get_union hc]
    exact hdenote

/-- What is known at a site stands for the declaration with this site. -/
theorem embodies_of_find (h : load data = .ok p) (htexts : data.HasTextNames) (hsites : data.HasDistinctSites)
    {site : Text} (hfind : find site (ofDescription data.outline).types = some n) :
    ∃ x ∈ data.entries, x.site = site ∧ p.Embodies data x n := by
  obtain ⟨q, hq, k, t, hl, hsite⟩ := (registry_of_load h htexts.openings).found hfind
  rw [← listed?_of_load h htexts.openings] at hl
  have hlisted := isListed_of_load h htexts.openings hq hl
  obtain ⟨x, hx, hxsite, hkind⟩ := exists_entry_of_find hfind
  obtain ⟨hpath, hname⟩ := eq_of_listed? h htexts hq hl hsites hx (hxsite.trans hsite)
  have hk : x.2.kind = k := Option.some.inj (hkind.symm.trans hlisted.kind)
  refine ⟨x, hx, hxsite, hpath ▸ hq, ?_, ⟨t, hname, ?_⟩, ?_⟩
  · rw [hk]
    exact (Namespace.declarableKind?_of_listed? hl).1
  · rw [hk, hpath]
    exact hlisted
  · rintro e i he rfl
    obtain ⟨path, declaration⟩ := x
    dsimp only at he hpath hname hk
    subst he hpath hk
    exact denoteAll_of_listed? h htexts hsites hq hl hx hname

/-- A built-in model stands for its declaration. -/
theorem embodies_of_builtIn (h : load data = .ok p) (htexts : data.HasTextNames) {b : Text}
    (hb : (b, n) ∈ (ofDescription data.outline).builtIns) : p.Embodies data (builtInDeclaration b) n := by
  have hregistry := registry_of_load h htexts.openings
  obtain ⟨-, hsettle⟩ := settleAll_of_load h
  obtain ⟨hpath, i, rfl, hview⟩ := hregistry.builtIn hb
  have hcell := cell_of_settleAll hregistry.tidy hsettle hview rfl rfl
  exact ⟨hpath, rfl, ⟨b, rfl, rfl, _, hcell, rfl, rfl⟩, fun _ _ he => nomatch he⟩

end

/-! ### Names that are known -/

theorem Embodies.idLabel_eq {data : Json} {p : Program} {x : Declared} {n : Node} (hn : p.Embodies data x n)
    (h : load data = .ok p) (htexts : data.HasTextNames) : p.graph.idLabel n = .text x.site := by
  obtain ⟨t, hname, hlisted⟩ := hn.listed
  have hlaid := isLaidOut_of_load h htexts.openings
  rw [Graph.idLabel, hlisted.isIdentifiable_eq hn.kind x.2.kind_ne_nameSpace, if_pos (hlaid.hasTextPath hn.path),
    hlisted.qualifiedId_eq hn.kind x.2.kind_ne_nameSpace, hlaid.namespaceName_eq hn.path, Declared.site, hname]

/-- No union that a loaded program refers to leads through options without an end, if the listed ones do not. -/
theorem endsWithin_of_load {data : Json} {p : Program} (h : load data = .ok p) (htexts : data.HasTextNames)
    (hacyclic : p.graph.HasAcyclicUnions) {i : UnionId} (hi : (ofDescription data.outline).IsMade p.graph (.union i)) :
    p.graph.EndsWithin p.graph.unions.size i := by
  obtain ⟨hconsistent, -⟩ := consistent_of_load h
  obtain ⟨-, hsettle⟩ := settleAll_of_load h
  refine hconsistent.endsWithin_of_declared hsettle (fun k hik hk => ?_) hi
  obtain ⟨scope, e, hdenotes⟩ := hconsistent.isMade_holdsUnions hsettle hi hik
  cases hdenotes with
  | named _ hknown =>
    cases isNamed_of_known h htexts hknown with
    | listed hspace hl hlisted =>
      have hreached := reached_of_mem_expand h hspace
      have hmember := hconsistent.reached_listed hsettle hreached (Namespace.mem_members_of_listed? hl)
      obtain ⟨c, hc, hname, -⟩ := hlisted.cell
      obtain ⟨u, hu, rfl⟩ := Option.map_eq_some_iff.1 hc
      refine hacyclic k hmember.reaches ?_
      rw [Table.get_of_get? hu]
      exact Label.isText_iff.2 ⟨_, hname⟩
  | union hfresh _ _ => exact absurd hk hfresh

section

variable {data data' : Json} {p p' : Program}

/-- Nodes of two programs stand for one declaration. -/
def Correspond (p p' : Program) (data data' : Json) (n n' : Node) : Prop :=
  ∃ x, p.Embodies data x n ∧ p'.Embodies data' x n'

/-- Nodes of two programs stand for one expression in the namespaces at one path. -/
def Agree (p p' : Program) (data data' : Json) (n n' : Node) : Prop :=
  ∃ scope e, (ofDescription data.outline).Denotes p.graph scope e n
    ∧ (ofDescription data'.outline).Denotes p'.graph scope e n'

theorem rel_findFrom {R : Node → Node → Prop} {types types' : List (Text × Node)}
    (h : ∀ site, Option.Rel R (find site types) (find site types')) (name : Text) :
    (inward : List Text) → Option.Rel R (findFrom types name inward) (findFrom types' name inward)
  | [] => h name
  | n :: outer => by
    have hsite := h (Graph.dotted (outer.reverse ++ [n]) ++ "." ++ name)
    rw [findFrom, findFrom]
    generalize find _ types = found at hsite
    generalize find _ types' = found' at hsite
    cases hsite with
    | none => exact rel_findFrom h name outer
    | some hR => exact .some hR

theorem forall₂_of_denoteAll {scope : List Text} : {es : List TypeExpr} → {ns ns' : List Node} →
    (ofDescription data.outline).DenoteAll p.graph scope es ns →
    (ofDescription data'.outline).DenoteAll p'.graph scope es ns' → List.Forall₂ (Agree p p' data data') ns ns'
  | _, _, _, .nil, .nil => .nil
  | _, _, _, .cons hn hns, .cons hn' hns' => .cons ⟨_, _, hn, hn'⟩ (forall₂_of_denoteAll hns hns')

/-- Two programs are loaded from descriptions that differ in the order of their declarations only, no two of which
have one site. -/
structure AreReordered (p p' : Program) (data data' : Json) : Prop where
  first : load data = .ok p
  second : load data' = .ok p'
  texts : data.HasTextNames
  sites : data.HasDistinctSites
  order : Reorders data data'

namespace AreReordered

variable (h : AreReordered p p' data data')

include h

theorem texts' : data'.HasTextNames := h.order.hasTextNames h.texts

theorem sites' : data'.HasDistinctSites := h.order.hasDistinctSites h.sites

theorem rel_find (site : Text) : Option.Rel (Correspond p p' data data')
    (find site (ofDescription data.outline).types) (find site (ofDescription data'.outline).types) := by
  have hkinds : (find site (ofDescription data.outline).types).map Node.kind?
      = (find site (ofDescription data'.outline).types).map Node.kind? := by
    have hknows : (ofDescription data.outline).Knows (typesOf [] data.outline) := knows_declareNamespaces _
    have hknows' : (ofDescription data'.outline).Knows (typesOf [] data'.outline) := knows_declareNamespaces _
    rw [hknows.find_types, hknows'.find_types, h.order.kindAt?_eq h.sites]
  cases hfind : find site (ofDescription data.outline).types with
  | none =>
    rw [hfind] at hkinds
    rw [Option.map_eq_none_iff.1 hkinds.symm]
    exact .none
  | some n =>
    rw [hfind] at hkinds
    obtain ⟨n', hfind', -⟩ := Option.map_eq_some_iff.1 hkinds.symm
    obtain ⟨x, hx, hsite, hn⟩ := embodies_of_find h.first h.texts h.sites hfind
    obtain ⟨x', hx', hsite', hn'⟩ := embodies_of_find h.second h.texts' h.sites' hfind'
    -- both descriptions declare the same, and nothing else has this site
    cases eq_of_site h.sites hx (h.order.perm.mem_iff.2 hx') (hsite.trans hsite'.symm)
    rw [hfind']
    exact .some ⟨x, hn, hn'⟩

theorem rel_known? (scope : List Text) (name : Text) : Option.Rel (Correspond p p' data data')
    ((ofDescription data.outline).known? scope name) ((ofDescription data'.outline).known? scope name) := by
  have hsame : (ofDescription data'.outline).builtIns = (ofDescription data.outline).builtIns := by
    rw [builtIns_eq_initial, builtIns_eq_initial]
  rw [known?, known?, hsame]
  cases hfind : find name (ofDescription data.outline).builtIns with
  | none => exact rel_findFrom h.rel_find name scope.reverse
  | some n =>
    have hmem := mem_of_find hfind
    have hmem' : (name, n) ∈ (ofDescription data'.outline).builtIns := hsame ▸ hmem
    exact .some ⟨_, embodies_of_builtIn h.first h.texts hmem, embodies_of_builtIn h.second h.texts' hmem'⟩

theorem correspond_of_known? {scope : List Text} {name : Text} {n n' : Node}
    (hknown : (ofDescription data.outline).known? scope name = some n)
    (hknown' : (ofDescription data'.outline).known? scope name = some n') : Correspond p p' data data' n n' := by
  have hrel := h.rel_known? scope name
  rw [hknown, hknown'] at hrel
  cases hrel with
  | some hcorrespond => exact hcorrespond

/-- Nodes for one declaration look alike. -/
theorem isAlike {n n' : Node} (hn : Correspond p p' data data' n n') :
    p.graph.IsAlike p'.graph (Agree p p' data data') n n' := by
  obtain ⟨x, hx, hx'⟩ := hn
  have hid : p.graph.idLabel n = p'.graph.idLabel n' := by
    rw [hx.idLabel_eq h.first h.texts, hx'.idLabel_eq h.second h.texts']
  obtain ⟨t, hname, hlisted⟩ := hx.listed
  obtain ⟨t', hname', hlisted'⟩ := hx'.listed
  cases hname.symm.trans hname'
  by_cases hunion : x.2.kind = .union
  · obtain ⟨e, he⟩ := Declaration.exists_union hunion
    obtain ⟨i, rfl⟩ := Node.exists_union (hunion ▸ hx.kind)
    obtain ⟨i', rfl⟩ := Node.exists_union (hunion ▸ hx'.kind)
    exact .union hid (forall₂_of_denoteAll (hx.options e i he rfl) (hx'.options e i' he rfl))
  · refine .plain (fun i hcore => ?_) (fun name name' => ?_) hid
    · exact hunion (Node.eq_union_of_core hx'.kind hcore)
    · rw [hlisted.typeNameWith_eq hx.kind x.2.kind_ne_nameSpace hunion,
        hlisted'.typeNameWith_eq hx'.kind x.2.kind_ne_nameSpace hunion]

/-- What one expression stands for in two programs looks alike. -/
theorem aligns : p.graph.Aligns p'.graph (Agree p p' data data') := by
  rintro n n' ⟨scope, e, hn, hn'⟩
  cases hn with
  | intrinsicName serial hname =>
    cases hn' with
    | intrinsicName serial' _ => exact .plain (fun i => nofun) (fun _ _ => rfl) rfl
    | named hnot _ =>
      rw [hname] at hnot
      cases hnot
  | named hnot hknown =>
    cases hn' with
    | intrinsicName serial' hname =>
      rw [hname] at hnot
      cases hnot
    | named _ hknown' =>
      exact h.isAlike (h.correspond_of_known? hknown hknown')
  | array serial helement =>
    cases hn' with
    | array serial' helement' => exact .array _ _ ⟨_, _, helement, helement'⟩
  | union _ hcell hoptions =>
    cases hn' with
    | union _ hcell' hoptions' =>
      refine .union ?_ ?_
      · rw [Graph.idLabel_inPlace hcell, Graph.idLabel_inPlace hcell']
      · rw [Graph.get_union hcell, Graph.get_union hcell']
        exact forall₂_of_denoteAll hoptions hoptions'
  | parameter serial =>
    cases hn' with
    | parameter serial' => exact .plain (fun i => nofun) (fun _ _ => rfl) rfl
  | intrinsic serial =>
    cases hn' with
    | intrinsic serial' => exact .plain (fun i => nofun) (fun _ _ => rfl) rfl
  | literal serial =>
    cases hn' with
    | literal serial' => exact .plain (fun i => nofun) (fun _ _ => rfl) rfl

/-! ### Names and identifiers -/

variable {n n' : Node} (hn : Agree p p' data data' n n')

include hn

theorem idLabel_eq : p.graph.idLabel n = p'.graph.idLabel n' :=
  h.aligns.idLabel_eq hn

theorem typeName_eq (hacyclic : p.graph.HasAcyclicUnions) : p.graph.typeName n = p'.graph.typeName n' := by
  obtain ⟨scope, e, hdenotes, hdenotes'⟩ := id hn
  obtain ⟨hconsistent, -⟩ := consistent_of_load h.first
  obtain ⟨hconsistent', -⟩ := consistent_of_load h.second
  obtain ⟨-, hsettle'⟩ := settleAll_of_load h.second
  refine h.aligns.typeName_eq (fun i hcore => ?_) (fun i j hcore hij => ?_) hn
  · have hmade := hconsistent.isMade_core ⟨scope, e, hdenotes⟩
    rw [hcore] at hmade
    exact endsWithin_of_load h.first h.texts hacyclic hmade
  · have hmade := hconsistent'.isMade_core ⟨scope, e, hdenotes'⟩
    rw [hcore] at hmade
    exact hconsistent'.lt_size hsettle' (hconsistent'.isMade_holdsUnions hsettle' hmade hij)

omit hn in
/-- Models that an expression stands for have one name. -/
theorem modelName_eq {i i' : ModelId} (hi : Agree p p' data data' (.model i) (.model i')) :
    (p.graph.models.get i).name = (p'.graph.models.get i').name := by
  obtain ⟨scope, e, hdenotes, hdenotes'⟩ := hi
  cases hdenotes with
  | named hnot hknown =>
    cases hdenotes' with
    | named _ hknown' =>
      obtain ⟨x, hx, hx'⟩ := h.correspond_of_known? hknown hknown'
      obtain ⟨t, hname, hlisted⟩ := hx.listed
      obtain ⟨t', hname', hlisted'⟩ := hx'.listed
      cases hname.symm.trans hname'
      rw [hlisted.modelName_eq, hlisted'.modelName_eq]

end AreReordered

end

end Program

end Edm
