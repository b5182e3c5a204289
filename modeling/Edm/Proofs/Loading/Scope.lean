import Edm.Proofs.Loading.Listed
import Mathlib.Data.List.Infix

/-!
# Identifiers as references

The identifier of a declared type is the path of its namespace and its name, with dots between them.  Where no
name holds a dot, the path and the name can be told from it (`Graph.dotted_inj`), so that it leads back to the
type that it was made from: from the root to this very type, and from any other namespace to it or to the type
that an inner scope has in its place (`Program.resolve_qualifiedId`).
-/

namespace Edm

/-! ### Dotted names -/

/-- The code point between the names of a path. -/
def dot : CodePoint := '.'

theorem Text.join_eq_intercalate (separator : Text) (ts : List Text) :
    Text.join separator ts = separator.intercalate ts := by
  induction ts with
  | nil => rfl
  | cons t ts ih =>
    cases ts with
    | nil => simp [Text.join]
    | cons u ts => rw [Text.join_cons_cons, ih, List.intercalate_cons_cons]

namespace Graph

/-- A dotted name can be taken apart at the dots. -/
theorem splitOn_dotted {p : List Text} (hp : p ≠ []) (hdots : ∀ n ∈ p, dot ∉ n) :
    (dotted p).splitOn dot = p := by
  rw [dotted, Text.join_eq_intercalate]
  exact List.splitOn_intercalate dot hdots hp

theorem dotted_inj {p q : List Text} (hp : p ≠ []) (hq : q ≠ []) (hpdots : ∀ n ∈ p, dot ∉ n)
    (hqdots : ∀ n ∈ q, dot ∉ n) (h : dotted p = dotted q) : p = q := by
  rw [← splitOn_dotted hp hpdots, h, splitOn_dotted hq hqdots]

theorem siteOf_dotted {p : List Text} (hp : p ≠ []) (l : Label) : siteOf (dotted p) l = dotted (p ++ [l.display]) :=
  (Declarations.dotted_append_singleton hp l.display).symm

/-- The path and the name can be told from a site. -/
theorem siteOf_inj {p q : List Text} {l m : Label} (hp : p ≠ []) (hq : q ≠ [])
    (hpdots : ∀ n ∈ p ++ [l.display], dot ∉ n) (hqdots : ∀ n ∈ q ++ [m.display], dot ∉ n)
    (h : siteOf (dotted p) l = siteOf (dotted q) m) : p = q ∧ l.display = m.display := by
  rw [siteOf_dotted hp, siteOf_dotted hq] at h
  have hsame := dotted_inj (by simp) (by simp) hpdots hqdots h
  exact ⟨List.append_inj_left' hsame rfl, by simpa using List.append_inj_right' hsame rfl⟩

end Graph

/-! ### Descriptions with simple names -/

open Opening NamespaceEntry

/-- Whether no name at an opening holds a dot, and the name of no type ends in square brackets. -/
def Opening.IsSimple (o : Opening) : Prop :=
  (∀ n ∈ o.1, dot ∉ n) ∧ ∀ x ∈ o.2.named, dot ∉ x.2.display ∧ ¬ brackets <:+ x.2.display

theorem Opening.IsSimple.dots {o : Opening} (h : o.IsSimple) {x : Kind × Label} (hx : x ∈ o.2.named) :
    ∀ n ∈ o.1 ++ [x.2.display], dot ∉ n := by
  intro n hn
  rcases List.mem_append.1 hn with hn | hn
  · exact h.1 n hn
  · rw [List.mem_singleton.1 hn]
    exact (h.2 x hx).1

instance : DecidablePred Opening.IsSimple := fun _ => inferInstanceAs (Decidable (_ ∧ _))

/-- Whether no namespace and no type of a description has a dot in its name, and the name of no type ends in
square brackets. -/
def Json.HasSimpleNames (data : Json) : Prop := ∀ o ∈ openingsOf [] data.outline, o.IsSimple

instance : DecidablePred Json.HasSimpleNames := fun _ => inferInstanceAs (Decidable (∀ o ∈ _, _))

/-- Whether no namespace of a description declares types of two kinds with one name. -/
def Json.HasDistinctKinds (data : Json) : Prop :=
  ∀ o ∈ openingsOf [] data.outline, ∀ o' ∈ openingsOf [] data.outline, o.1 = o'.1 →
    ∀ x ∈ o.2.named, ∀ y ∈ o'.2.named, x.2 = y.2 → x.1 = y.1

instance : DecidablePred Json.HasDistinctKinds := fun _ => inferInstanceAs (Decidable (∀ o ∈ _, _))

theorem Json.HasSimpleNames.openings {data : Json} (h : data.HasSimpleNames) : ∀ o ∈ data.openings, o.IsSimple := by
  intro o ho
  rw [Json.openings, openingsOf] at ho
  rcases List.mem_append.1 ho with ho | ho
  · have hbuiltIn : ∀ o ∈ NamespaceEntry.openings [] Declarations.builtInEntry, Opening.IsSimple o := by
      decide +kernel
    exact hbuiltIn o ho
  · exact h o ho

theorem ne_nil_of_mem_openingsOf {es : List NamespaceEntry} {o : Opening} (ho : o ∈ openingsOf [] es) : o.1 ≠ [] := by
  obtain ⟨n, -, rest, hrest⟩ := path_of_mem_openingsOf es ho
  rw [hrest]
  simp

mutual

theorem types_eq_openings (outer : List Text) : (e : NamespaceEntry) →
    e.types outer = (openings outer e).flatMap fun o => o.2.types o.1
  | .entry n d cs => by
    rw [NamespaceEntry.types, openings, List.flatMap_cons, typesOf_eq_openings _ cs]

theorem typesOf_eq_openings (outer : List Text) : (es : List NamespaceEntry) →
    typesOf outer es = (openingsOf outer es).flatMap fun o => o.2.types o.1
  | [] => by
    rw [typesOf, openingsOf, List.flatMap_nil]
  | e :: es => by
    rw [typesOf, openingsOf, List.flatMap_append, types_eq_openings outer e, typesOf_eq_openings outer es]

end

namespace Declarations

/-! ### The table of declared types -/

theorem find_of_mem {site : Text} {n : Node} {nodes : List (Text × Node)} (h : (site, n) ∈ nodes) :
    ∃ m, find site nodes = some m := by
  induction nodes with
  | nil => cases h
  | cons x nodes ih =>
    obtain ⟨s, m⟩ := x
    rw [find]
    split
    next => exact ⟨m, rfl⟩
    next hs =>
      refine ih ((List.mem_cons.1 h).resolve_left fun heq => hs ?_)
      exact (congrArg Prod.fst heq).symm

/-- A node in the table was made for a declaration of its kind. -/
theorem exists_of_mem_types {es : List NamespaceEntry} {site : Text} {n : Node}
    (h : (site, n) ∈ (ofDescription es).types) : ∃ o ∈ openingsOf [] es, ∃ x ∈ o.2.named,
      site = siteOf (Graph.dotted o.1) x.2 ∧ n.kind? = some x.1 := by
  have hkinds : (site, n.kind?) ∈ kindsOf (ofDescription es).types := List.mem_map.2 ⟨_, h, rfl⟩
  rw [ofDescription, (knows_declareNamespaces es).types, List.mem_reverse, typesOf_eq_openings] at hkinds
  obtain ⟨x, hx, heq⟩ := List.mem_map.1 hkinds
  obtain ⟨o, ho, hx⟩ := List.mem_flatMap.1 hx
  rw [DeclarationEntries.types_eq_named] at hx
  obtain ⟨y, hy, rfl⟩ := List.mem_map.1 hx
  obtain ⟨hsite, hkind⟩ := Prod.mk.inj heq
  exact ⟨o, ho, y, hy, hsite.symm, hkind.symm⟩

/-- The innermost scope in which a name is known, from a path outward, or else the name by itself. -/
theorem findFrom_cases (types : List (Text × Node)) (name : Text) (scope : List Text) :
    (∃ inner n, inner ≠ [] ∧ inner <+: scope ∧ find (Graph.dotted inner ++ "." ++ name) types = some n
        ∧ (∀ path, path <+: scope → path ≠ [] → (find (Graph.dotted path ++ "." ++ name) types).isSome →
            path <+: inner)
        ∧ findFrom types name scope.reverse = some n)
      ∨ (∀ path, path <+: scope → path ≠ [] → find (Graph.dotted path ++ "." ++ name) types = none)
        ∧ findFrom types name scope.reverse = find name types := by
  induction scope using List.reverseRecOn with
  | nil =>
    refine .inr ⟨fun path hpath hne => ?_, rfl⟩
    exact absurd (List.prefix_nil.1 hpath) hne
  | append_singleton scope n ih =>
    rw [List.reverse_concat, findFrom, List.reverse_reverse]
    cases hfind : find (Graph.dotted (scope ++ [n]) ++ "." ++ name) types with
    | some m => exact .inl ⟨_, m, by simp, List.prefix_rfl, hfind, fun path hpath _ _ => hpath, rfl⟩
    | none =>
      -- nothing is known in the namespace itself, so what counts is the one around it
      have hshorter : ∀ path, path <+: scope ++ [n] → (find (Graph.dotted path ++ "." ++ name) types).isSome →
          path <+: scope := by
        intro path hpath hsome
        refine (List.prefix_concat_iff.1 hpath).resolve_left ?_
        rintro rfl
        rw [hfind] at hsome
        cases hsome
      rcases ih with ⟨inner, m, hne, hinner, hfound, hinnermost, hfrom⟩ | ⟨hnone, hfrom⟩
      · exact .inl ⟨inner, m, hne, hinner.trans (List.prefix_append ..), hfound,
          fun path hpath hne' hsome => hinnermost path (hshorter path hpath hsome) hne' hsome, hfrom⟩
      · refine .inr ⟨fun path hpath hne => ?_, hfrom⟩
        rcases List.prefix_concat_iff.1 hpath with rfl | hpath
        · exact hfind
        · exact hnone path hpath hne

/-- A name with a dot is that of no intrinsic type and of no built-in model. -/
theorem resolveName_of_dot {es : List NamespaceEntry} {scope : List Text} {site name : Text} {g : Graph} {n : Node}
    (hdot : dot ∈ name) (h : findFrom (ofDescription es).types name scope.reverse = some n) :
    (ofDescription es).resolveName scope site name g = .ok (n, g) := by
  have hintrinsic : intrinsicTypes.contains name = false := by
    have hdots : ∀ t ∈ intrinsicTypes, dot ∉ t := by decide
    rw [Bool.eq_false_iff]
    intro hmem
    exact hdots name (by simpa using hmem) hdot
  have hbuiltIn : find name (ofDescription es).builtIns = none := by
    have hdots : ∀ t ∈ builtInModels, dot ∉ t := by decide
    have hkind := (knows_declareNamespaces es).find_builtIn name
    rw [if_neg fun hmem => hdots name hmem hdot] at hkind
    exact Option.map_eq_none_iff.1 hkind
  rw [resolveName, hintrinsic, hbuiltIn, h]
  rfl

end Declarations

/-! ### Declared types -/

namespace Program

/-- A declared type of a program: a namespace of its tree lists it, and it is not built in. -/
def IsDeclared (p : Program) (data : Json) (n : Node) : Prop :=
  (∃ i ∈ p.graph.expand Graph.root, ∃ t k, p.graph.listed? i t k = some n)
    ∧ ∀ x ∈ (Declarations.ofDescription data.outline).builtIns, x.2 ≠ n

/-- A declared type of a program has an identifier. -/
def HasId (p : Program) (data : Json) (n : Node) (id : Text) : Prop :=
  p.IsDeclared data n ∧ p.graph.qualifiedId n = id

section

variable {data : Json} {p : Program} {q : List Text} {t : Text} {k : Kind} {n : Node} {id : Text}

/-- What is listed in a namespace is declared in one of its openings. -/
private theorem Scope.exists_opening (h : load data = .ok p) (htexts : data.HasTextNames)
    (hq : q ∈ paths data.openings) (hl : p.graph.listed? (place data.openings q) t k = some n) :
    ∃ o ∈ data.openings, o.1 = q ∧ (k, .text t) ∈ o.2.named := by
  have hnamed := mem_named_of_load h htexts.openings hq hl
  rw [declared, DeclarationEntries.mem_named_united] at hnamed
  obtain ⟨d, hd, hnamed⟩ := hnamed
  obtain ⟨o, ho, rfl⟩ := List.mem_map.1 hd
  obtain ⟨ho, hat⟩ := List.mem_filter.1 ho
  exact ⟨o, ho, of_decide_eq_true hat, hnamed⟩

/-- What is in the table under the site of a path and a name is declared there. -/
private theorem Scope.exists_declared (htexts : data.HasTextNames) (hsimple : data.HasSimpleNames) (hne : q ≠ [])
    (hdots : ∀ m ∈ q ++ [t], dot ∉ m)
    (hmem : (siteOf (Graph.dotted q) (.text t), n) ∈ (Declarations.ofDescription data.outline).types) :
    ∃ o ∈ openingsOf [] data.outline, o.1 = q ∧ ∃ k, (k, .text t) ∈ o.2.named ∧ n.kind? = some k := by
  obtain ⟨o, ho, ⟨k, l⟩, hx, hsite, hkind⟩ := Declarations.exists_of_mem_types hmem
  obtain ⟨hpath, hname⟩ :=
    Graph.siteOf_inj (l := .text t) hne (ne_nil_of_mem_openingsOf ho) hdots ((hsimple o ho).dots hx) hsite
  have htext : l.isText = true := DeclarationEntries.isText_of_mem_named (htexts o ho) hx
  cases l with
  | text u =>
    have hname : t = u := hname
    exact ⟨o, ho, hpath.symm, k, by rwa [hname], hkind⟩
  | raw v => cases htext
  | unformed => cases htext

/-- The identifier of what is listed is made of simple names. -/
private theorem Scope.simple (h : load data = .ok p) (htexts : data.HasTextNames) (hsimple : data.HasSimpleNames)
    (hq : q ∈ paths data.openings) (hl : p.graph.listed? (place data.openings q) t k = some n) :
    q ≠ [] ∧ (∀ m ∈ q ++ [t], dot ∉ m) ∧ ¬ brackets <:+ t := by
  obtain ⟨o, ho, rfl, hnamed⟩ := Scope.exists_opening h htexts hq hl
  have ho' := hsimple.openings o ho
  exact ⟨ne_nil_of_mem_openingsOf ho, ho'.dots hnamed, (ho'.2 _ hnamed).2⟩

private theorem Scope.find_of_isDeclared (h : load data = .ok p) (htexts : data.HasTextNames)
    (hsimple : data.HasSimpleNames) (hkinds : data.HasDistinctKinds) (hn : p.IsDeclared data n) :
    Declarations.find (p.graph.qualifiedId n) (Declarations.ofDescription data.outline).types = some n := by
  obtain ⟨⟨i, hi, t, k, hl⟩, hbuiltIn⟩ := hn
  obtain ⟨q, hq, rfl⟩ := (mem_expand_of_load h htexts.openings).1 hi
  obtain ⟨hne, hdots, -⟩ := Scope.simple h htexts hsimple hq hl
  have hregistry := registry_of_load h htexts.openings
  -- the type was put in the table when it was declared
  have hmem : (siteOf (Graph.dotted q) (.text t), n) ∈ (Declarations.ofDescription data.outline).types := by
    rw [listed?_of_load h htexts.openings] at hl
    refine (hregistry.known q hq hl).resolve_right ?_
    rintro ⟨b, hb⟩
    exact hbuiltIn _ hb rfl
  rw [qualifiedId_of_load h htexts.openings hq hl]
  obtain ⟨m, hm⟩ := Declarations.find_of_mem hmem
  rw [hm]
  -- what is found there is listed under the same path and name, and its kind is the same
  obtain ⟨q', hq', k', t', hl', hsite⟩ := hregistry.found hm
  rw [← listed?_of_load h htexts.openings] at hl'
  obtain ⟨hne', hdots', -⟩ := Scope.simple h htexts hsimple hq' hl'
  obtain ⟨rfl, rfl⟩ : q = q' ∧ t = t' :=
    Graph.siteOf_inj (l := .text t) (m := .text t') hne hne' hdots hdots' hsite
  obtain ⟨o, ho, hpath, j, hj, hkind⟩ := Scope.exists_declared htexts hsimple hne hdots hmem
  obtain ⟨o', ho', hpath', j', hj', hkind'⟩ :=
    Scope.exists_declared htexts hsimple hne hdots (Declarations.mem_of_find hm)
  have hk : k = j := Option.some.inj ((isListed_of_load h htexts.openings hq hl).kind.symm.trans hkind)
  have hk' : k' = j' := Option.some.inj ((isListed_of_load h htexts.openings hq hl').kind.symm.trans hkind')
  have hsame : j = j' := hkinds o ho o' ho' (hpath.trans hpath'.symm) _ hj _ hj' rfl
  rw [hk, hsame, ← hk'] at hl
  exact hl'.symm.trans hl

/-- What is found in the table is a declared type, and is found under its identifier. -/
private theorem Scope.find_iff (h : load data = .ok p) (htexts : data.HasTextNames)
    (hsimple : data.HasSimpleNames) (hkinds : data.HasDistinctKinds) (id : Text) :
    Declarations.find id (Declarations.ofDescription data.outline).types = some n ↔ p.HasId data n id := by
  constructor
  · intro hfind
    have hregistry := registry_of_load h htexts.openings
    obtain ⟨q, hq, k, t, hl, rfl⟩ := hregistry.found hfind
    rw [← listed?_of_load h htexts.openings] at hl
    refine ⟨⟨⟨_, (mem_expand_of_load h htexts.openings).2 ⟨q, hq, rfl⟩, t, k, hl⟩, ?_⟩,
      qualifiedId_of_load h htexts.openings hq hl⟩
    rintro ⟨b, m⟩ hb rfl
    exact hregistry.apart (Declarations.mem_of_find hfind) hb
  · rintro ⟨hn, rfl⟩
    exact Scope.find_of_isDeclared h htexts hsimple hkinds hn

private theorem Scope.ofText_qualifiedId (h : load data = .ok p) (htexts : data.HasTextNames)
    (hsimple : data.HasSimpleNames) (hn : p.IsDeclared data n) :
    dot ∈ p.graph.qualifiedId n
      ∧ TypeExpr.ofText (p.graph.qualifiedId n) = .named (p.graph.qualifiedId n) := by
  obtain ⟨⟨i, hi, t, k, hl⟩, -⟩ := hn
  obtain ⟨q, hq, rfl⟩ := (mem_expand_of_load h htexts.openings).1 hi
  obtain ⟨-, -, hbrackets⟩ := Scope.simple h htexts hsimple hq hl
  have hid : p.graph.qualifiedId n = Graph.dotted q ++ dot :: t := by
    rw [qualifiedId_of_load h htexts.openings hq hl, siteOf, List.append_assoc]
    rfl
  rw [hid]
  refine ⟨by simp, TypeExpr.ofText_of_bare (by simp) fun hsuffix => ?_⟩
  -- square brackets at the end would be those of the name, as a dot stands in front of it
  have hdot : dot ∉ brackets := by decide
  rcases List.suffix_or_suffix_of_suffix hsuffix (List.suffix_append ..) with hname | hname
  · rcases List.suffix_cons_iff.1 hname with heq | hname
    · exact hdot (heq ▸ List.mem_cons_self ..)
    · exact hbrackets hname
  · exact hdot (hname.mem (List.mem_cons_self ..))

/-- A path is the innermost one with a property, from a given path outward; the root does not count. -/
structure IsInnermost (P : List Text → Prop) (path inner : List Text) : Prop where
  ne_nil : inner ≠ []
  outward : inner <+: path
  holds : P inner
  innermost : ∀ q, q <+: path → q ≠ [] → P q → q <+: inner

/-- The identifier of a declared type leads back to it from the root, and no other declared type has it.  From
any other namespace it leads to what is declared under it in the innermost scope that has such a type, or else
to the type itself. -/
theorem resolve_qualifiedId (h : load data = .ok p) (htexts : data.HasTextNames) (hsimple : data.HasSimpleNames)
    (hkinds : data.HasDistinctKinds) (hn : p.IsDeclared data n) (site : Text) (g : Graph) :
    let d := Declarations.ofDescription data.outline
    let id := p.graph.qualifiedId n
    let inner (path : List Text) : Text := Graph.dotted path ++ "." ++ id
    d.resolve (p.graph.path Graph.root) site (.ofText id) g = .ok (n, g)
      ∧ (∀ m, p.HasId data m id → m = n)
      ∧ ∀ i ∈ p.graph.expand Graph.root, ∃ m, d.resolve (p.graph.path i) site (.ofText id) g = .ok (m, g)
        ∧ ((∃ path, IsInnermost (fun path => ∃ u, p.HasId data u (inner path)) (p.graph.path i) path
              ∧ p.HasId data m (inner path))
          ∨ (∀ path, path <+: p.graph.path i → path ≠ [] → ¬ ∃ u, p.HasId data u (inner path)) ∧ m = n) := by
  dsimp only
  have hiff := fun {m : Node} id => Scope.find_iff (n := m) h htexts hsimple hkinds id
  have hself := (hiff (m := n) (p.graph.qualifiedId n)).2 ⟨hn, rfl⟩
  obtain ⟨hdot, hexpr⟩ := Scope.ofText_qualifiedId h htexts hsimple hn
  have hscope : ∀ scope, ∃ m, (Declarations.ofDescription data.outline).resolve scope site
        (.ofText (p.graph.qualifiedId n)) g = .ok (m, g)
      ∧ ((∃ path, IsInnermost (fun path => ∃ u, p.HasId data u (Graph.dotted path ++ "." ++ p.graph.qualifiedId n))
              scope path ∧ p.HasId data m (Graph.dotted path ++ "." ++ p.graph.qualifiedId n))
        ∨ (∀ path, path <+: scope → path ≠ [] →
            ¬ ∃ u, p.HasId data u (Graph.dotted path ++ "." ++ p.graph.qualifiedId n)) ∧ m = n) := by
    intro scope
    rw [hexpr]
    simp only [Declarations.resolve]
    rcases Declarations.findFrom_cases (Declarations.ofDescription data.outline).types (p.graph.qualifiedId n) scope
      with ⟨path, m, hne, hpath, hfound, hinnermost, hfrom⟩ | ⟨hnone, hfrom⟩
    · have hm := (hiff _).1 hfound
      refine ⟨m, Declarations.resolveName_of_dot hdot hfrom, .inl ⟨path, ⟨hne, hpath, ⟨m, hm⟩, ?_⟩, hm⟩⟩
      rintro q hq hqne ⟨u, hu⟩
      exact hinnermost q hq hqne (by rw [(hiff _).2 hu]; rfl)
    · rw [hself] at hfrom
      refine ⟨n, Declarations.resolveName_of_dot hdot hfrom, .inr ⟨?_, rfl⟩⟩
      rintro q hq hqne ⟨u, hu⟩
      cases (hnone q hq hqne).symm.trans ((hiff _).2 hu)
  refine ⟨?_, fun m hm => Option.some.inj (((hiff _).2 hm).symm.trans hself), fun i _ => hscope _⟩
  have hroot : p.graph.path Graph.root = [] := by
    have hpath := (isLaidOut_of_load h htexts.openings).path_eq (nil_mem_paths _)
    rwa [place_nil] at hpath
  rw [hroot]
  obtain ⟨m, hm, ⟨path, hinnermost, -⟩ | ⟨-, rfl⟩⟩ := hscope []
  · exact absurd (List.prefix_nil.1 hinnermost.outward) hinnermost.ne_nil
  · exact hm

end

/-- A description that replaces a model, opens its namespace again, and has a namespace inside it in which the
identifier of the model leads elsewhere. -/
def shadowed : Json := .object [("namespaces", .array [
  .object [("name", .string "A"),
    ("models", .array [.object [("name", .string "M")], .object [("name", .string "M")]]),
    ("namespaces", .array [.object [("name", .string "B"), ("namespaces", .array [
      .object [("name", .string "A"), ("models", .array [.object [("name", .string "M")]])]])]])],
  .object [("name", .string "A"), ("enums", .array [.object [("name", .string "E")]])]])]

theorem resolve_qualifiedId_shadowed : ∃ p, load shadowed = .ok p ∧ shadowed.HasTextNames
    ∧ shadowed.HasSimpleNames ∧ shadowed.HasDistinctKinds ∧ p.IsDeclared shadowed (.model 23)
    ∧ (Declarations.ofDescription shadowed.outline).resolve (p.graph.path Graph.root) "A.B"
        (.ofText (p.graph.qualifiedId (.model 23))) p.graph = .ok (.model 23, p.graph)
    ∧ (∀ m, p.HasId shadowed m (p.graph.qualifiedId (.model 23)) → m = .model 23)
    ∧ 3 ∈ p.graph.expand Graph.root ∧ p.graph.path 3 = [("A" : Text), "B"]
    ∧ (Declarations.ofDescription shadowed.outline).resolve (p.graph.path 3) "A.B"
        (.ofText (p.graph.qualifiedId (.model 23))) p.graph = .ok (.model 24, p.graph) := by
  have hok : (load shadowed).toOption.isSome = true := by decide +kernel
  have hlisted : ∀ p ∈ (load shadowed).toOption, p.graph.expand Graph.root = [0, 1, 2, 3, 4]
      ∧ p.graph.listed? 2 "M" .model = some (.model 23) ∧ p.graph.listed? 4 "M" .model = some (.model 24)
      ∧ p.graph.path 3 = [("A" : Text), "B"]
      ∧ p.graph.qualifiedId (.model 24) = Graph.dotted ["A", "B"] ++ "." ++ p.graph.qualifiedId (.model 23) := by
    decide +kernel
  have hbuiltIn : ∀ n ∈ [Node.model 23, .model 24],
      ∀ x ∈ (Declarations.ofDescription shadowed.outline).builtIns, x.2 ≠ n := by decide +kernel
  have htexts : shadowed.HasTextNames := by decide +kernel
  have hsimple : shadowed.HasSimpleNames := by decide +kernel
  have hkinds : shadowed.HasDistinctKinds := by decide +kernel
  cases hload : load shadowed with
  | error e =>
    rw [hload] at hok
    cases hok
  | ok p =>
    obtain ⟨hexpand, houter, hinner, hpath, hid⟩ := hlisted p (by rw [hload]; rfl)
    have hn : p.IsDeclared shadowed (.model 23) :=
      ⟨⟨2, by simp [hexpand], _, _, houter⟩, hbuiltIn _ (List.mem_cons_self ..)⟩
    have hm : p.IsDeclared shadowed (.model 24) :=
      ⟨⟨4, by simp [hexpand], _, _, hinner⟩, hbuiltIn _ (List.mem_cons_of_mem _ (List.mem_cons_self ..))⟩
    have h3 : 3 ∈ p.graph.expand Graph.root := by simp [hexpand]
    obtain ⟨hroot, hself, hscopes⟩ := resolve_qualifiedId hload htexts hsimple hkinds hn "A.B" p.graph
    obtain ⟨-, honly, -⟩ := resolve_qualifiedId hload htexts hsimple hkinds hm "A.B" p.graph
    refine ⟨p, rfl, htexts, hsimple, hkinds, hn, hroot, hself, h3, hpath, ?_⟩
    obtain ⟨m, hresolve, ⟨path, hinnermost, hhas⟩ | ⟨hnone, -⟩⟩ := hscopes 3 h3
    · rw [hpath] at hinnermost
      have hshadows := hinnermost.innermost _ (List.prefix_refl _) (by simp) ⟨.model 24, hm, hid⟩
      have hlength := List.IsPrefix.eq_of_length_le hinnermost.outward hshadows.length_le
      rw [hlength] at hhas
      rw [hresolve, honly m ⟨hhas.1, hhas.2.trans hid.symm⟩]
    · exact absurd ⟨.model 24, hm, hid⟩ (hnone ["A", "B"] (by rw [hpath]) (by simp))

end Program

end Edm
