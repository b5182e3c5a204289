import Edm.Proofs.Description.Outline
import Edm.Proofs.Graph.Latest

/-!
# Merged namespaces

A description may open a namespace more than once.  `openingsOf` lists all openings in the order of the
description, each with its path.  `places` is the tree that they make up together: a namespace takes in all
later openings of its path, and stands where it is first opened.
-/

namespace Edm

/-! ### Entries -/

namespace DeclarationEntries

/-- The declarations of several openings, one after the other. -/
def united (ds : List DeclarationEntries) : DeclarationEntries where
  enums := ds.flatMap enums
  models := ds.flatMap models
  unions := ds.flatMap unions
  interfaces := ds.flatMap interfaces
  operations := ds.flatMap operations

instance : Append DeclarationEntries where
  append d e :=
    { enums := d.enums ++ e.enums
      models := d.models ++ e.models
      unions := d.unions ++ e.unions
      interfaces := d.interfaces ++ e.interfaces
      operations := d.operations ++ e.operations }

theorem united_concat (ds : List DeclarationEntries) (d : DeclarationEntries) :
    united (ds ++ [d]) = united ds ++ d := by
  simp only [united, List.flatMap_append, List.flatMap_singleton]
  rfl

/-- Whether there is something that a schema shows or that operations belong to. -/
def isRenderable (d : DeclarationEntries) : Bool :=
  !(d.enums.isEmpty && d.models.isEmpty && d.interfaces.isEmpty && d.operations.isEmpty)

end DeclarationEntries

/-- Whether an operation and its parameters have texts for names. -/
def OperationEntry.HasTextNames (e : OperationEntry) : Prop :=
  e.name.isText = true ∧ ∀ q ∈ e.parameters, q.name.isText = true

/-- Whether everything that is listed by name has a text for a name. -/
def DeclarationEntries.HasTextNames (d : DeclarationEntries) : Prop :=
  (∀ e ∈ d.enums, e.name.isText = true)
    ∧ (∀ e ∈ d.models, e.name.isText = true ∧ ∀ q ∈ e.properties, q.name.isText = true)
    ∧ (∀ e ∈ d.unions, e.name.isText = true)
    ∧ (∀ e ∈ d.interfaces, e.name.isText = true ∧ ∀ o ∈ e.operations, o.HasTextNames)
    ∧ ∀ o ∈ d.operations, o.HasTextNames

instance : DecidablePred OperationEntry.HasTextNames :=
  fun _ => inferInstanceAs (Decidable (_ ∧ _))

instance : DecidablePred DeclarationEntries.HasTextNames :=
  fun _ => inferInstanceAs (Decidable (_ ∧ _))

/-! ### Openings -/

/-- A path with what is declared there. -/
abbrev Opening := List Text × DeclarationEntries

namespace NamespaceEntry

/-- The name of the namespace. -/
def name : NamespaceEntry → Text
  | entry n _ _ => n

/-- What is declared in it. -/
def declarations : NamespaceEntry → DeclarationEntries
  | entry _ d _ => d

/-- The namespaces inside it. -/
def children : NamespaceEntry → List NamespaceEntry
  | entry _ _ cs => cs

mutual

/-- The openings that a namespace inside the one at a path makes, itself first. -/
def openings (outer : List Text) : NamespaceEntry → List Opening
  | entry n d cs => (outer ++ [n], d) :: openingsOf (outer ++ [n]) cs

/-- The openings that namespaces inside the one at a path make. -/
def openingsOf (outer : List Text) : List NamespaceEntry → List Opening
  | [] => []
  | e :: es => openings outer e ++ openingsOf outer es

end

mutual

/-- How many openings a namespace makes. -/
def weight : NamespaceEntry → Nat
  | entry _ _ cs => weightOf cs + 1

/-- How many openings namespaces make. -/
def weightOf : List NamespaceEntry → Nat
  | [] => 0
  | e :: es => weight e + weightOf es

end

theorem weightOf_append (es fs : List NamespaceEntry) : weightOf (es ++ fs) = weightOf es + weightOf fs := by
  induction es with
  | nil => simp [weightOf]
  | cons e es ih =>
    rw [List.cons_append, weightOf, weightOf, ih]
    omega

theorem weight_eq (e : NamespaceEntry) : e.weight = weightOf e.children + 1 := by
  cases e
  rw [weight, children]

/-- The namespaces with a name. -/
def called (n : Text) (es : List NamespaceEntry) : List NamespaceEntry := es.filter fun e => e.name = n

/-- The namespaces with other names. -/
def notCalled (n : Text) (es : List NamespaceEntry) : List NamespaceEntry := es.filter fun e => e.name ≠ n

/-- The namespaces inside those with a name. -/
def childrenOf (n : Text) (es : List NamespaceEntry) : List NamespaceEntry := (called n es).flatMap children

section

variable {m n : Text} {d : DeclarationEntries} {cs es : List NamespaceEntry}

theorem called_cons_self : called n (entry n d cs :: es) = entry n d cs :: called n es :=
  List.filter_cons_of_pos (by simp [name])

theorem called_cons_ne (h : m ≠ n) : called n (entry m d cs :: es) = called n es :=
  List.filter_cons_of_neg fun he => h (of_decide_eq_true he)

theorem childrenOf_cons_self : childrenOf n (entry n d cs :: es) = cs ++ childrenOf n es := by
  rw [childrenOf, called_cons_self, List.flatMap_cons, childrenOf, children]

theorem childrenOf_cons_ne (h : m ≠ n) : childrenOf n (entry m d cs :: es) = childrenOf n es := by
  rw [childrenOf, called_cons_ne h, childrenOf]

end

theorem weightOf_filter_le (f : NamespaceEntry → Bool) (es : List NamespaceEntry) :
    weightOf (es.filter f) ≤ weightOf es := by
  induction es with
  | nil => exact Nat.le_refl _
  | cons e es ih =>
    rw [List.filter_cons, weightOf]
    split
    · rw [weightOf]
      omega
    · omega

theorem weightOf_children_le (es : List NamespaceEntry) :
    weightOf (es.flatMap children) + es.length ≤ weightOf es := by
  induction es with
  | nil => exact Nat.le_refl _
  | cons e es ih =>
    have he := weight_eq e
    rw [List.flatMap_cons, weightOf_append, weightOf, List.length_cons]
    omega

theorem weightOf_childrenOf_le (n : Text) (es : List NamespaceEntry) :
    weightOf (childrenOf n es) + (called n es).length ≤ weightOf es :=
  Nat.le_trans (weightOf_children_le _) (weightOf_filter_le _ es)

/-- The openings of one path together, for all paths below a given one, in pre-order.  The first namespace
takes in the others with its name. -/
def places (path : List Text) : List NamespaceEntry → List Opening
  | [] => []
  | e :: es =>
    (path ++ [e.name], .united (e.declarations :: (called e.name es).map declarations))
      :: places (path ++ [e.name]) (e.children ++ childrenOf e.name es)
      ++ places path (notCalled e.name es)
termination_by es => weightOf es
decreasing_by
  · have he := weight_eq e
    have hchildren := weightOf_childrenOf_le e.name es
    rw [weightOf_append, weightOf]
    omega
  · have he := weight_eq e
    have hothers : weightOf (notCalled e.name es) ≤ weightOf es := weightOf_filter_le _ es
    rw [weightOf]
    omega

/-- The places by the names that are used directly below a path. -/
theorem places_eq (path : List Text) (es : List NamespaceEntry) :
    places path es = (es.map name).eraseDups.flatMap fun n =>
      (path ++ [n], .united ((called n es).map declarations)) :: places (path ++ [n]) (childrenOf n es) := by
  -- the entries with the name of the first one are taken out, so the induction is on the length
  induction h : es.length using Nat.strongRecOn generalizing es with
  | _ k ih =>
    cases es with
    | nil => simp [places]
    | cons e es =>
      obtain ⟨m, d, cs⟩ := e
      have hlength : (notCalled m es).length < k := by
        have hle : (notCalled m es).length ≤ es.length := List.length_filter_le _ es
        rw [List.length_cons] at h
        omega
      have hnames : ((entry m d cs :: es).map name).eraseDups = m :: ((notCalled m es).map name).eraseDups := by
        rw [List.map_cons, List.eraseDups_cons, List.filter_map, notCalled]
        refine congrArg (fun l => m :: (List.map name l).eraseDups) (List.filter_congr fun x _ => ?_)
        rw [Function.comp_apply, decide_not, beq_eq_decide]
        rfl
      rw [places, hnames, List.flatMap_cons, called_cons_self, childrenOf_cons_self]
      refine congrArg₂ (· ++ ·) rfl ((ih _ hlength _ rfl).trans (List.flatMap_congr fun n hn => ?_))
      have hne : m ≠ n := by
        obtain ⟨x, hx, rfl⟩ := List.mem_map.1 (List.mem_eraseDups.1 hn)
        have hx := (List.mem_filter.1 hx).2
        exact fun h => (of_decide_eq_true hx) h.symm
      have hcalled : called n (notCalled m es) = called n es := by
        rw [called, called, notCalled, List.filter_filter]
        refine List.filter_congr fun x _ => ?_
        by_cases hx : x.name = n <;> simp [hx, Ne.symm hne]
      rw [called_cons_ne hne, childrenOf_cons_ne hne, childrenOf, hcalled, childrenOf]

theorem openingsOf_append (outer : List Text) (es fs : List NamespaceEntry) :
    openingsOf outer (es ++ fs) = openingsOf outer es ++ openingsOf outer fs := by
  induction es with
  | nil => simp [openingsOf]
  | cons e es ih => rw [List.cons_append, openingsOf, openingsOf, ih, List.append_assoc]

/-! ### Paths of openings -/

section

variable {o : Opening}

mutual

/-- An opening is at the path of its namespace or below it. -/
theorem path_of_mem_openings {outer : List Text} : (e : NamespaceEntry) → o ∈ openings outer e →
    ∃ rest, o.1 = outer ++ e.name :: rest
  | entry n d cs, h => by
    rw [openings] at h
    rcases List.mem_cons.1 h with rfl | h
    · exact ⟨[], rfl⟩
    · obtain ⟨m, -, rest, hrest⟩ := path_of_mem_openingsOf cs h
      exact ⟨m :: rest, by rw [hrest, List.append_assoc]; rfl⟩

theorem path_of_mem_openingsOf {outer : List Text} : (es : List NamespaceEntry) → o ∈ openingsOf outer es →
    ∃ n ∈ es.map name, ∃ rest, o.1 = outer ++ n :: rest
  | [], h => by
    rw [openingsOf] at h
    cases h
  | e :: es, h => by
    rw [openingsOf] at h
    rcases List.mem_append.1 h with h | h
    · obtain ⟨rest, hrest⟩ := path_of_mem_openings e h
      exact ⟨e.name, List.mem_cons_self .., rest, hrest⟩
    · obtain ⟨n, hn, hrest⟩ := path_of_mem_openingsOf es h
      exact ⟨n, List.mem_cons_of_mem _ hn, hrest⟩

end

end

end NamespaceEntry

namespace Opening

/-- Whether an opening is at a path. -/
def isAt (p : List Text) (o : Opening) : Bool := o.1 = p

/-- Whether an opening is below a path. -/
def isBelow (p : List Text) (o : Opening) : Bool := p <+: o.1 ∧ o.1 ≠ p

/-- The name of an opening that is directly inside a path. -/
def nameIn? (p : List Text) (o : Opening) : Option Text := if o.1.dropLast = p then o.1.getLast? else none

/-- All that is declared at a path. -/
def declared (os : List Opening) (p : List Text) : DeclarationEntries :=
  .united ((os.filter (isAt p)).map Prod.snd)

/-- The names that are used directly inside a path, as often as they are used. -/
def inside (os : List Opening) (p : List Text) : List Text := os.filterMap (nameIn? p)

/-- The path of the root and those of the openings, each once. -/
def paths (os : List Opening) : List (List Text) := ([] :: os.map Prod.fst).eraseDups

section

variable {p : List Text} {n : Text} {o : Opening}

theorem nameIn?_eq_some_iff : o.nameIn? p = some n ↔ o.1 = p ++ [n] := by
  unfold nameIn?
  constructor
  · intro h
    split at h
    next hp => rw [← hp, List.dropLast_append_getLast? n h]
    next => cases h
  · intro h
    rw [h, List.dropLast_concat, if_pos rfl, List.getLast?_concat]

theorem isBelow_iff : o.isBelow p = true ↔ ∃ m rest, o.1 = p ++ m :: rest := by
  rw [isBelow, decide_eq_true_iff]
  constructor
  · rintro ⟨⟨rest, hrest⟩, hne⟩
    cases rest with
    | nil => exact absurd (by rw [← hrest, List.append_nil]) hne
    | cons m rest => exact ⟨m, rest, hrest.symm⟩
  · rintro ⟨m, rest, h⟩
    exact ⟨⟨_, h.symm⟩, by simp [h]⟩

theorem isBelow_of_nameIn? (h : o.nameIn? p = some n) : o.isBelow p = true :=
  isBelow_iff.2 ⟨n, [], nameIn?_eq_some_iff.1 h⟩

/-- What is below a path inside another one is below that one. -/
theorem filter_isBelow_filter (os : List Opening) (p : List Text) (n : Text) :
    (os.filter (isBelow p)).filter (isBelow (p ++ [n])) = os.filter (isBelow (p ++ [n])) := by
  rw [List.filter_filter]
  refine List.filter_congr fun o _ => ?_
  by_cases h : o.isBelow (p ++ [n]) = true
  · obtain ⟨m, rest, hrest⟩ := isBelow_iff.1 h
    have hp : o.isBelow p = true := isBelow_iff.2 ⟨n, m :: rest, by rw [hrest, List.append_assoc]; rfl⟩
    rw [h, hp]
    rfl
  · simp [h]

theorem filter_isAt_filter (os : List Opening) (p : List Text) (n : Text) :
    (os.filter (isBelow p)).filter (isAt (p ++ [n])) = os.filter (isAt (p ++ [n])) := by
  rw [List.filter_filter]
  refine List.filter_congr fun o _ => ?_
  by_cases h : o.isAt (p ++ [n]) = true
  · have hp : o.isBelow p = true := isBelow_iff.2 ⟨n, [], of_decide_eq_true h⟩
    rw [h, hp]
    rfl
  · simp [h]

theorem inside_filter (os : List Opening) (p : List Text) : inside (os.filter (isBelow p)) p = inside os p := by
  rw [inside, List.filterMap_filter]
  refine List.filterMap_congr fun o _ => ?_
  cases h : o.nameIn? p with
  | none => simp
  | some n => rw [if_pos (isBelow_of_nameIn? h)]

end

/-! ### Openings of entries -/

open NamespaceEntry

variable (p : List Text) (n : Text)

/-- All openings of a namespace are below the path that it is inside. -/
theorem filter_isBelow_openingsOf (es : List NamespaceEntry) :
    (openingsOf p es).filter (isBelow p) = openingsOf p es := by
  rw [List.filter_eq_self]
  intro o ho
  obtain ⟨m, -, rest, hrest⟩ := path_of_mem_openingsOf es ho
  exact isBelow_iff.2 ⟨m, rest, hrest⟩

/-- Below a path inside a given one are the namespaces inside those with its name. -/
theorem filter_isBelow_concat (es : List NamespaceEntry) :
    (openingsOf p es).filter (isBelow (p ++ [n])) = openingsOf (p ++ [n]) (childrenOf n es) := by
  induction es with
  | nil => rfl
  | cons e es ih =>
    obtain ⟨m, d, cs⟩ := e
    have hhead : isBelow (p ++ [n]) (p ++ [m], d) = false := by
      rw [Bool.eq_false_iff]
      intro h
      obtain ⟨k, rest, hrest⟩ := isBelow_iff.1 h
      simpa using congrArg List.length hrest
    rw [openingsOf, List.filter_append, ih, openings, List.filter_cons_of_neg (by simp [hhead])]
    by_cases hm : m = n
    · subst hm
      rw [filter_isBelow_openingsOf, childrenOf_cons_self, openingsOf_append]
    · have hnone : (openingsOf (p ++ [m]) cs).filter (isBelow (p ++ [n])) = [] := by
        rw [List.filter_eq_nil_iff]
        intro o ho h
        obtain ⟨k, -, rest, hrest⟩ := path_of_mem_openingsOf cs ho
        obtain ⟨k', rest', hrest'⟩ := isBelow_iff.1 h
        rw [hrest, List.append_assoc, List.append_assoc] at hrest'
        exact hm (List.cons.inj (List.append_cancel_left hrest')).1
      rw [hnone, childrenOf_cons_ne hm]
      rfl

/-- At a path inside a given one are the declarations of the namespaces with its name. -/
theorem filter_isAt_concat (es : List NamespaceEntry) :
    (openingsOf p es).filter (isAt (p ++ [n])) = (called n es).map fun e => (p ++ [n], e.declarations) := by
  induction es with
  | nil => rfl
  | cons e es ih =>
    obtain ⟨m, d, cs⟩ := e
    -- what is inside an entry is at least two names longer than the path
    have hnone : (openingsOf (p ++ [m]) cs).filter (isAt (p ++ [n])) = [] := by
      rw [List.filter_eq_nil_iff]
      intro o ho h
      obtain ⟨k, -, rest, hrest⟩ := path_of_mem_openingsOf cs ho
      have hpath : o.1 = p ++ [n] := of_decide_eq_true h
      simpa using congrArg List.length (hrest.symm.trans hpath)
    rw [openingsOf, List.filter_append, ih, openings]
    by_cases hm : m = n
    · subst hm
      rw [List.filter_cons_of_pos (by simp [isAt]), hnone, called_cons_self]
      rfl
    · rw [List.filter_cons_of_neg (by simpa [isAt] using hm), hnone, called_cons_ne hm]
      rfl

/-- Directly inside a path are the namespaces that are given for it. -/
theorem inside_openingsOf (es : List NamespaceEntry) : inside (openingsOf p es) p = es.map name := by
  induction es with
  | nil => rfl
  | cons e es ih =>
    obtain ⟨m, d, cs⟩ := e
    have hnone : inside (openingsOf (p ++ [m]) cs) p = [] := by
      rw [inside, List.filterMap_eq_nil_iff]
      intro o ho
      cases h : o.nameIn? p with
      | none => rfl
      | some k =>
        obtain ⟨k', -, rest, hrest⟩ := path_of_mem_openingsOf cs ho
        simpa using congrArg List.length (hrest.symm.trans (nameIn?_eq_some_iff.1 h))
    have hhead : nameIn? p (p ++ [m], d) = some m := nameIn?_eq_some_iff.2 rfl
    rw [inside] at ih hnone
    rw [inside, openingsOf, List.filterMap_append, ih, openings, List.filterMap_cons_some hhead, hnone]
    rfl

/-! ### Numbered paths -/

section

variable {os : List Opening} {o : Opening} {p q : List Text} {m n : Text}

theorem mem_inside_iff : n ∈ inside os p ↔ p ++ [n] ∈ paths os := by
  rw [inside, List.mem_filterMap, paths, List.mem_eraseDups, List.mem_cons, List.mem_map]
  constructor
  · rintro ⟨o, ho, h⟩
    exact .inr ⟨o, ho, nameIn?_eq_some_iff.1 h⟩
  · rintro (h | ⟨o, ho, h⟩)
    · simp at h
    · exact ⟨o, ho, nameIn?_eq_some_iff.2 h⟩

/-- The places below a path are paths below it, each with what is declared there. -/
theorem of_mem_places {es : List NamespaceEntry} (hos : os.filter (isBelow p) = openingsOf p es)
    (ho : o ∈ places p es) : o.1 ∈ paths os ∧ o.1 ≠ [] ∧ declared os o.1 = o.2 := by
  -- namespaces with one name are taken together, so the induction is on the number of all of them
  induction h : weightOf es using Nat.strongRecOn generalizing p es with
  | _ k ih =>
    rw [places_eq, List.mem_flatMap] at ho
    obtain ⟨n, hn, ho⟩ := ho
    have hn : n ∈ es.map name := List.mem_eraseDups.1 hn
    rcases List.mem_cons.1 ho with rfl | ho
    · refine ⟨?_, by simp, ?_⟩
      · rw [← mem_inside_iff, ← inside_filter, hos, inside_openingsOf]
        exact hn
      · rw [declared, ← filter_isAt_filter, hos, filter_isAt_concat, List.map_map]
        rfl
    · obtain ⟨e, he, hname⟩ := List.mem_map.1 hn
      have hcalled : e ∈ called n es := List.mem_filter.2 ⟨he, decide_eq_true hname⟩
      have hpos := List.length_pos_of_mem hcalled
      have hweight := weightOf_childrenOf_le n es
      refine ih (weightOf (childrenOf n es)) (by omega) ?_ ho rfl
      rw [← filter_isBelow_filter, hos, filter_isBelow_concat]

/-- Every opening has a place. -/
theorem exists_mem_places {es : List NamespaceEntry} (ho : o ∈ openingsOf p es) : ∃ x ∈ places p es, x.1 = o.1 := by
  -- the induction is on the number of openings, as the places take those with one name together
  induction h : weightOf es using Nat.strongRecOn generalizing p es with
  | _ k ih =>
    obtain ⟨n, hn, rest, hrest⟩ := path_of_mem_openingsOf es ho
    simp only [places_eq p es, List.mem_flatMap, List.mem_cons]
    cases rest with
    | nil => exact ⟨_, ⟨n, List.mem_eraseDups.2 hn, .inl rfl⟩, hrest.symm⟩
    | cons m rest =>
      have hbelow : o ∈ openingsOf (p ++ [n]) (childrenOf n es) := by
        rw [← filter_isBelow_concat, List.mem_filter, isBelow_iff]
        exact ⟨ho, m, rest, by rw [hrest, List.append_assoc]; rfl⟩
      obtain ⟨e, he, hname⟩ := List.mem_map.1 hn
      have hpos : 0 < (called n es).length :=
        List.length_pos_of_mem (List.mem_filter.2 ⟨he, decide_eq_true hname⟩)
      have hweight := weightOf_childrenOf_le n es
      obtain ⟨x, hx, hpath⟩ := ih (weightOf (childrenOf n es)) (by omega) hbelow rfl
      exact ⟨x, ⟨n, List.mem_eraseDups.2 hn, .inr hx⟩, hpath⟩

theorem path_of_mem_places {es : List NamespaceEntry} (ho : o ∈ places p es) : ∃ n rest, o.1 = p ++ n :: rest := by
  obtain ⟨hmem, hne, -⟩ := of_mem_places (filter_isBelow_openingsOf _ es) ho
  obtain ⟨x, hx, hpath⟩ := List.mem_map.1 ((List.mem_cons.1 (List.mem_eraseDups.1 hmem)).resolve_left hne)
  obtain ⟨n, -, rest, hrest⟩ := path_of_mem_openingsOf es hx
  exact ⟨n, rest, hpath ▸ hrest⟩

/-- Each path has one place. -/
theorem nodup_places (p : List Text) (es : List NamespaceEntry) : ((places p es).map Prod.fst).Nodup := by
  induction h : weightOf es using Nat.strongRecOn generalizing p es with
  | _ k ih =>
    have hbelow : ∀ n, ∀ q ∈ (p ++ [n]) :: (places (p ++ [n]) (childrenOf n es)).map Prod.fst,
        ∃ rest, q = p ++ n :: rest := by
      intro n q hq
      rcases List.mem_cons.1 hq with rfl | hq
      · exact ⟨[], rfl⟩
      · obtain ⟨o, ho, rfl⟩ := List.mem_map.1 hq
        obtain ⟨m, rest, hrest⟩ := path_of_mem_places ho
        exact ⟨m :: rest, by rw [hrest, List.append_assoc]; rfl⟩
    simp only [places_eq p es, List.map_flatMap, List.map_cons, List.nodup_flatMap]
    refine ⟨fun n hn => List.nodup_cons.2 ⟨fun hmem => ?_, ?_⟩, (nodup_eraseDups _).imp fun {n n'} hne q hq hq' => ?_⟩
    · obtain ⟨o, ho, hpath⟩ := List.mem_map.1 hmem
      obtain ⟨m, rest, hrest⟩ := path_of_mem_places ho
      rw [hpath] at hrest
      simpa using congrArg List.length hrest
    · obtain ⟨e, he, hname⟩ := List.mem_map.1 (List.mem_eraseDups.1 hn)
      have hpos : 0 < (called n es).length := List.length_pos_of_mem (List.mem_filter.2 ⟨he, decide_eq_true hname⟩)
      have hweight := weightOf_childrenOf_le n es
      exact ih (weightOf (childrenOf n es)) (by omega) _ _ rfl
    · obtain ⟨rest, hrest⟩ := hbelow n q hq
      obtain ⟨rest', hrest'⟩ := hbelow n' q hq'
      exact hne (List.cons.inj (List.append_cancel_left (hrest.symm.trans hrest'))).1

/-- The number of a path, in the order in which paths are first opened; the root is first. -/
def place (os : List Opening) (p : List Text) : Nat := (paths os).idxOf p

theorem nil_mem_paths (os : List Opening) : [] ∈ paths os := List.mem_eraseDups.2 (List.mem_cons_self ..)

theorem place_nil (os : List Opening) : place os [] = 0 := by
  rw [place, paths, List.eraseDups_cons, List.idxOf_cons_self]

theorem place_lt (h : p ∈ paths os) : place os p < (paths os).length := List.idxOf_lt_length_of_mem h

theorem place_inj (hp : p ∈ paths os) (h : place os p = place os q) : p = q := (List.idxOf_inj hp).1 h

theorem paths_concat (os : List Opening) (o : Opening) :
    paths (os ++ [o]) = if o.1 ∈ paths os then paths os else paths os ++ [o.1] := by
  have hmem : o.1 ∈ paths os ↔ o.1 ∈ [] :: os.map Prod.fst := List.mem_eraseDups
  rw [paths, List.map_append, ← List.cons_append, List.map_singleton, eraseDups_concat]
  simp only [hmem]
  rfl

theorem paths_concat_old (h : o.1 ∈ paths os) : paths (os ++ [o]) = paths os := by
  rw [paths_concat, if_pos h]

theorem paths_concat_new (h : o.1 ∉ paths os) : paths (os ++ [o]) = paths os ++ [o.1] := by
  rw [paths_concat, if_neg h]

theorem mem_paths_concat (h : p ∈ paths os) (o : Opening) : p ∈ paths (os ++ [o]) := by
  rw [paths_concat]
  split
  · exact h
  · exact List.mem_append_left _ h

theorem self_mem_paths (os : List Opening) (o : Opening) : o.1 ∈ paths (os ++ [o]) := by
  rw [paths_concat]
  split
  next h => exact h
  next => exact List.mem_append_right _ (List.mem_singleton_self _)

/-- Later openings do not change the number of a path. -/
theorem place_concat (h : p ∈ paths os) (o : Opening) : place (os ++ [o]) p = place os p := by
  rw [place, paths_concat]
  split
  · rfl
  · rw [List.idxOf_append_of_mem h, place]

theorem mem_paths_append (h : p ∈ paths os) (os' : List Opening) : p ∈ paths (os ++ os') := by
  induction os' using List.reverseRecOn with
  | nil => rwa [List.append_nil]
  | append_singleton os' o ih =>
    rw [← List.append_assoc]
    exact mem_paths_concat ih o

theorem place_append (h : p ∈ paths os) (os' : List Opening) : place (os ++ os') p = place os p := by
  induction os' using List.reverseRecOn with
  | nil => rw [List.append_nil]
  | append_singleton os' o ih => rw [← List.append_assoc, place_concat (mem_paths_append h os'), ih]

theorem place_concat_new (h : o.1 ∉ paths os) : place (os ++ [o]) o.1 = (paths os).length := by
  rw [place, paths_concat_new h, List.idxOf_append_of_notMem h, List.idxOf_cons_self, Nat.add_zero]

theorem inside_concat (os : List Opening) (o : Opening) (p : List Text) :
    inside (os ++ [o]) p = inside os p ++ (o.nameIn? p).toList := by
  rw [inside, List.filterMap_append, inside]
  cases h : o.nameIn? p with
  | none => rw [List.filterMap_cons_none h]; rfl
  | some n => rw [List.filterMap_cons_some h]; rfl

theorem declared_concat_self (os : List Opening) (o : Opening) :
    declared (os ++ [o]) o.1 = declared os o.1 ++ o.2 := by
  rw [declared, List.filter_append, List.filter_cons_of_pos (by simp [isAt]), List.map_append, List.filter_nil,
    List.map_singleton, DeclarationEntries.united_concat, declared]

theorem declared_concat_ne (h : o.1 ≠ p) : declared (os ++ [o]) p = declared os p := by
  rw [declared, List.filter_append, List.filter_cons_of_neg (by simpa [isAt] using h), List.filter_nil,
    List.append_nil, declared]

/-- Openings that start from the root: each namespace has a name and is inside one that is opened earlier. -/
structure Rooted (os : List Opening) : Prop where
  name_ne : ∀ p n, p ++ [n] ∈ paths os → n ≠ []
  outer_mem : ∀ p n, p ++ [n] ∈ paths os → p ∈ paths os
  outer_lt : ∀ p n, p ++ [n] ∈ paths os → place os p < place os (p ++ [n])

theorem rooted_nil : Rooted [] := by
  refine ⟨fun p n h => ?_, fun p n h => ?_, fun p n h => ?_⟩ <;> simp [paths] at h

/-- One more opening inside a namespace that is there. -/
theorem Rooted.concat (h : Rooted os) (ho : o.1 = q ++ [m]) (hq : q ∈ paths os) (hm : m ≠ []) :
    Rooted (os ++ [o]) := by
  -- a path is an old one, or the one that is opened here for the first time
  have hcases : ∀ p n, p ++ [n] ∈ paths (os ++ [o]) →
      p ++ [n] ∈ paths os ∨ o.1 ∉ paths os ∧ p = q ∧ n = m := by
    intro p n hp
    by_cases hold : o.1 ∈ paths os
    · rw [paths_concat_old hold] at hp
      exact .inl hp
    · rw [paths_concat_new hold] at hp
      rcases List.mem_append.1 hp with hp | hp
      · exact .inl hp
      · have hpq := (List.mem_singleton.1 hp).trans ho
        exact .inr ⟨hold, List.append_inj_left' hpq rfl, by simpa using List.append_inj_right' hpq rfl⟩
  refine ⟨fun p n hp => ?_, fun p n hp => ?_, fun p n hp => ?_⟩
  · rcases hcases p n hp with hp | ⟨_, rfl, rfl⟩
    · exact h.name_ne p n hp
    · exact hm
  · rcases hcases p n hp with hp | ⟨_, rfl, rfl⟩
    · exact mem_paths_concat (h.outer_mem p n hp) o
    · exact mem_paths_concat hq o
  · rcases hcases p n hp with hp | ⟨hnew, rfl, rfl⟩
    · rw [place_concat hp, place_concat (h.outer_mem p n hp)]
      exact h.outer_lt p n hp
    · rw [← ho, place_concat_new hnew, place_concat hq]
      exact place_lt hq

theorem Rooted.nil_notMem (h : Rooted os) (hp : p ∈ paths os) : [] ∉ p := by
  induction p using List.reverseRecOn with
  | nil => exact List.not_mem_nil
  | append_singleton p n ih =>
    intro hmem
    rcases List.mem_append.1 hmem with hmem | hmem
    · exact ih (h.outer_mem p n hp) hmem
    · exact h.name_ne p n hp (List.mem_singleton.1 hmem).symm

/-- A path that is opened is not longer than its number. -/
theorem Rooted.length_le (h : Rooted os) (hp : p ∈ paths os) : p.length ≤ place os p := by
  induction p using List.reverseRecOn with
  | nil => exact Nat.zero_le _
  | append_singleton p n ih =>
    have hlt := h.outer_lt p n hp
    have hle := ih (h.outer_mem p n hp)
    rw [List.length_append, List.length_singleton]
    omega

end

end Opening

/-! ### What is read -/

namespace NamespaceEntry

theorem name_ne_of_checkName {data : Json} {name : Text} (h : checkName data = .ok name) : name ≠ [] := by
  rintro rfl
  rw [checkName_eq h] at h
  cases h

/-- An opening that comes from a description: its path has no empty name, and its declarations were read. -/
structure IsRead (o : Opening) : Prop where
  named : [] ∉ o.1
  read : ∃ data, DeclarationEntries.read (Graph.dotted o.1) data = .ok o.2

mutual

/-- What is read comes from a description. -/
theorem isRead_of_read {outer : List Text} (ho : [] ∉ outer) {e : NamespaceEntry} :
    (data : Json) → read outer data = .ok e → ∀ o ∈ openings outer e, IsRead o
  | .object fields, h => by
    rw [read] at h
    obtain ⟨value, -, h⟩ := bind_eq_ok h
    obtain ⟨name, hn, h⟩ := bind_eq_ok h
    obtain ⟨declarations, hd, h⟩ := bind_eq_ok h
    obtain ⟨children, hc, h⟩ := bind_eq_ok h
    have hpath : [] ∉ outer ++ [name] := by
      simpa [Ne.symm (name_ne_of_checkName hn)] using ho
    cases h
    intro o hmem
    rw [openings] at hmem
    rcases List.mem_cons.1 hmem with rfl | hmem
    · exact ⟨hpath, _, hd⟩
    · exact isRead_of_readChildren hpath fields hc o hmem
  | .null, h | .boolean _, h | .number _, h | .string _, h | .array _, h => by
    rw [read] at h
    · cases h
    · simp

theorem isRead_of_readChildren {path : List Text} (ho : [] ∉ path) {es : List NamespaceEntry} :
    (fields : List (Text × Json)) → readChildren path fields = .ok es → ∀ o ∈ openingsOf path es, IsRead o
  | [], h => by
    rw [readChildren] at h
    cases h
    simp [openingsOf]
  | (key, value) :: rest, h => by
    rw [readChildren] at h
    split at h
    next => exact isRead_of_readItems ho value h
    next => exact isRead_of_readChildren ho rest h

theorem isRead_of_readItems {path : List Text} (ho : [] ∉ path) {es : List NamespaceEntry} :
    (data : Json) → readItems path data = .ok es → ∀ o ∈ openingsOf path es, IsRead o
  | .array items, h => by
    rw [readItems] at h
    exact isRead_of_readList ho items h
  | .null, h | .boolean _, h | .number _, h | .string _, h | .object _, h => by
    rw [readItems] at h
    · cases h
    · simp

theorem isRead_of_readList {path : List Text} (ho : [] ∉ path) {es : List NamespaceEntry} :
    (items : List Json) → readList path items = .ok es → ∀ o ∈ openingsOf path es, IsRead o
  | [], h => by
    rw [readList] at h
    cases h
    simp [openingsOf]
  | item :: rest, h => by
    rw [readList] at h
    obtain ⟨n, hn, h⟩ := bind_eq_ok h
    obtain ⟨ns, hns, h⟩ := bind_eq_ok h
    cases h
    intro o hmem
    rw [openingsOf] at hmem
    rcases List.mem_append.1 hmem with hmem | hmem
    · exact isRead_of_read ho item hn o hmem
    · exact isRead_of_readList ho rest hns o hmem

end

end NamespaceEntry

/-- The openings of a description that can be read are read, each at a path without an empty name. -/
theorem isRead_of_readDescription {data : Json} {es : List NamespaceEntry} (h : readDescription data = .ok es) :
    ∀ o ∈ NamespaceEntry.openingsOf [] es, NamespaceEntry.IsRead o := by
  cases data with
  | object fields => exact NamespaceEntry.isRead_of_readChildren List.not_mem_nil fields h
  | _ => cases h

end Edm
