import Edm.Proofs.Loading.Scope

/-!
# Descriptions in another order

Two descriptions are reordered if they differ only in the order in which namespaces and what these declare are
listed (`Reorders`).  Then they declare the same things at the same paths (`perm_entries`); if no two of these
have one site, the same names are known with the same kinds, so that one of the descriptions can be loaded if and
only if the other one can (`Reorders.yields_load`).
-/

namespace Edm

open NamespaceEntry

/-! ### Entries of all kinds -/

/-- What a namespace may declare. -/
inductive Declaration
  | enum (e : EnumEntry)
  | model (e : ModelEntry)
  | union (e : UnionEntry)
  | interface (e : InterfaceEntry)
  | operation (e : OperationEntry)

namespace Declaration

def kind : Declaration → Kind
  | enum _ => .enum
  | model _ => .model
  | union _ => .union
  | interface _ => .interface
  | operation _ => .operation

def name : Declaration → Label
  | enum e => e.name
  | model e => e.name
  | union e => e.name
  | interface e => e.name
  | operation e => e.name

def enum? : Declaration → Option EnumEntry
  | enum e => some e
  | _ => none

def model? : Declaration → Option ModelEntry
  | model e => some e
  | _ => none

/-- Whether everything that is listed by name has a text for a name. -/
def HasTextNames : Declaration → Prop
  | enum e => e.name.isText = true
  | model e => e.name.isText = true ∧ ∀ q ∈ e.properties, q.name.isText = true
  | union e => e.name.isText = true
  | interface e => e.name.isText = true ∧ ∀ o ∈ e.operations, o.HasTextNames
  | operation e => e.HasTextNames

end Declaration

namespace DeclarationEntries

/-- All declarations of a namespace. -/
def all (d : DeclarationEntries) : List Declaration :=
  d.enums.map .enum ++ d.models.map .model ++ d.unions.map .union ++ d.interfaces.map .interface
    ++ d.operations.map .operation

theorem types_eq_all (path : List Text) (d : DeclarationEntries) :
    d.types path = d.all.map fun x => (siteOf (Graph.dotted path) x.name, x.kind) := by
  simp [types, all, Declaration.name, Declaration.kind, Function.comp_def]

theorem enums_eq_all (d : DeclarationEntries) : d.enums = d.all.filterMap Declaration.enum? := by
  simp [all, List.filterMap_append, List.filterMap_map, Declaration.enum?, Function.comp_def]

theorem models_eq_all (d : DeclarationEntries) : d.models = d.all.filterMap Declaration.model? := by
  simp [all, List.filterMap_append, List.filterMap_map, Declaration.model?, Function.comp_def]

theorem hasTextNames_iff_all {d : DeclarationEntries} : d.HasTextNames ↔ ∀ x ∈ d.all, x.HasTextNames := by
  simp only [HasTextNames, all, List.forall_mem_append, List.forall_mem_map, Declaration.HasTextNames, and_assoc]

end DeclarationEntries

/-- A path with one declaration there. -/
abbrev Declared := List Text × Declaration

/-- The site of a declaration at a path. -/
def Declared.site (x : Declared) : Text := siteOf (Graph.dotted x.1) x.2.name

namespace Opening

/-- The declarations of some openings, each with its path. -/
def entries (os : List Opening) : List Declared := os.flatMap fun o => o.2.all.map fun x => (o.1, x)

theorem mem_entries {os : List Opening} {x : Declared} : x ∈ entries os ↔ ∃ o ∈ os, o.1 = x.1 ∧ x.2 ∈ o.2.all := by
  obtain ⟨path, d⟩ := x
  simp only [entries, List.mem_flatMap, List.mem_map, Prod.mk.injEq]
  constructor
  · rintro ⟨o, ho, y, hy, hpath, rfl⟩
    exact ⟨o, ho, hpath, hy⟩
  · rintro ⟨o, ho, hpath, hd⟩
    exact ⟨o, ho, d, hd, hpath, rfl⟩

theorem entries_cons (o : Opening) (os : List Opening) :
    entries (o :: os) = (o.2.all.map fun x => (o.1, x)) ++ entries os :=
  List.flatMap_cons

theorem entries_append (os os' : List Opening) : entries (os ++ os') = entries os ++ entries os' :=
  List.flatMap_append

theorem types_eq_entries (os : List Opening) :
    (os.flatMap fun o => o.2.types o.1) = (entries os).map fun x => (x.site, x.2.kind) := by
  simp [entries, DeclarationEntries.types_eq_all, List.map_flatMap, Declared.site, Function.comp_def]

end Opening

/-! ### Reordered descriptions -/

/-- The lists of what a namespace declares. -/
def declarationKeys : List Text := ["models", "enums", "unions", "interfaces", "operations"]

mutual

/-- Two values describe a namespace in the same way, apart from the order of its declarations and of the
namespaces inside it, at any level. -/
inductive Reorders : Json → Json → Prop
  | refl (data : Json) : Reorders data data
  | object {fields fields' : List (Text × Json)} : ReordersFields fields fields' →
      Reorders (.object fields) (.object fields')

/-- The fields of two such values, which are in the same order. -/
inductive ReordersFields : List (Text × Json) → List (Text × Json) → Prop
  | nil : ReordersFields [] []
  | same (field : Text × Json) {rest rest' : List (Text × Json)} : ReordersFields rest rest' →
      ReordersFields (field :: rest) (field :: rest')
  | declarations (key : Text) {items items' : List Json} {rest rest' : List (Text × Json)} :
      key ∈ declarationKeys → items.Perm items' → ReordersFields rest rest' →
      ReordersFields ((key, .array items) :: rest) ((key, .array items') :: rest')
  | namespaces {items items' : List Json} {rest rest' : List (Text × Json)} :
      ReordersItems items items' → ReordersFields rest rest' →
      ReordersFields (("namespaces", .array items) :: rest) (("namespaces", .array items') :: rest')

/-- The namespaces inside two such values: those of one are, one by one, such values for those of the other, in
any order. -/
inductive ReordersItems : List Json → List Json → Prop
  | nil : ReordersItems [] []
  | cons {item item' : Json} {rest rest' : List Json} : Reorders item item' → ReordersItems rest rest' →
      ReordersItems (item :: rest) (item' :: rest')
  | swap (item item' : Json) (rest : List Json) : ReordersItems (item :: item' :: rest) (item' :: item :: rest)
  | trans {items items' items'' : List Json} : ReordersItems items items' → ReordersItems items' items'' →
      ReordersItems items items''

end

section

variable {fields fields' : List (Text × Json)} {key : Text}

/-- A field is the same in both values, or it is a list of declarations. -/
theorem ReordersFields.lookup : {fields fields' : List (Text × Json)} → ReordersFields fields fields' →
    key ≠ "namespaces" → Json.lookup key fields = Json.lookup key fields'
      ∨ key ∈ declarationKeys ∧ ∃ items items', Json.lookup key fields = some (.array items)
          ∧ Json.lookup key fields' = some (.array items') ∧ items.Perm items'
  | _, _, .nil, _ => .inl rfl
  | _, _, .same (k, v) h, hkey => by
    by_cases hk : k = key
    · simp [Json.lookup, hk]
    · simpa [Json.lookup, hk] using h.lookup hkey
  | _, _, .declarations k hmem hperm h, hkey => by
    by_cases hk : k = key
    · subst hk
      exact .inr ⟨hmem, _, _, by simp [Json.lookup], by simp [Json.lookup], hperm⟩
    · simpa [Json.lookup, hk] using h.lookup hkey
  | _, _, .namespaces _ h, hkey => by simpa [Json.lookup, Ne.symm hkey] using h.lookup hkey

theorem ReordersFields.field?_eq (h : ReordersFields fields fields') (hnamespaces : key ≠ "namespaces")
    (hkey : key ∉ declarationKeys) : (Json.object fields).field? key = (Json.object fields').field? key := by
  rcases h.lookup hnamespaces with hsame | ⟨hmem, -⟩
  · exact hsame
  · exact absurd hmem hkey

theorem ReordersFields.each_iff (h : ReordersFields fields fields') (hkey : key ≠ "namespaces") (P : Json → Prop) :
    EachItem key (.object fields) P ↔ EachItem key (.object fields') P := by
  rcases h.lookup hkey with hsame | ⟨-, items, items', hitems, hitems', hperm⟩
  · simp only [EachItem, Json.listed?, Json.field?, hsame]
  · simp [EachItem, Json.listed?, Json.field?, hitems, hitems', hperm.mem_iff]

theorem ReordersFields.perm_items (h : ReordersFields fields fields') (hkey : key ≠ "namespaces") :
    ((Json.object fields).items key).Perm ((Json.object fields').items key) := by
  rcases h.lookup hkey with hsame | ⟨-, items, items', hitems, hitems', hperm⟩
  · simp only [Json.items, Json.listed?, Json.field?, hsame]
    exact .refl _
  · simpa [Json.items, Json.listed?, Json.field?, hitems, hitems'] using hperm

/-- Both values declare the same. -/
theorem ReordersFields.perm_all (h : ReordersFields fields fields') :
    (DeclarationEntries.ofJson (.object fields)).all.Perm (DeclarationEntries.ofJson (.object fields')).all := by
  have hitems : ∀ key : Text, key ≠ "namespaces" →
      ((Json.object fields).items key).Perm ((Json.object fields').items key) := fun _ => h.perm_items
  simp only [DeclarationEntries.all, DeclarationEntries.ofJson]
  have henums := ((hitems "enums" (by decide)).map EnumEntry.ofJson).map Declaration.enum
  have hmodels := ((hitems "models" (by decide)).map ModelEntry.ofJson).map Declaration.model
  have hunions := ((hitems "unions" (by decide)).map UnionEntry.ofJson).map Declaration.union
  have hinterfaces := ((hitems "interfaces" (by decide)).map InterfaceEntry.ofJson).map Declaration.interface
  have hoperations := ((hitems "operations" (by decide)).map OperationEntry.ofJson).map Declaration.operation
  exact (((henums.append hmodels).append hunions).append hinterfaces).append hoperations

theorem ReordersFields.nameOf_eq (h : ReordersFields fields fields') :
    nameOf (.object fields) = nameOf (.object fields') := by
  rw [nameOf, nameOf, h.field?_eq (by decide) (by decide)]

end

/-! ### What is declared where -/

open Opening

mutual

theorem Reorders.perm_entries {outer : List Text} : {data data' : Json} → Reorders data data' →
    (entries (openings outer (ofJson data))).Perm (entries (openings outer (ofJson data')))
  | _, _, .refl _ => .refl _
  | _, _, .object h => by
    rw [ofJson, ofJson, h.nameOf_eq, openings, openings, entries_cons, entries_cons]
    exact (h.perm_all.map _).append h.perm_entries

theorem ReordersFields.perm_entries {path : List Text} : {fields fields' : List (Text × Json)} →
    ReordersFields fields fields' →
      (entries (openingsOf path (ofFields fields))).Perm (entries (openingsOf path (ofFields fields')))
  | _, _, .nil => .refl _
  | _, _, .same (key, value) h => by
    rw [ofFields, ofFields]
    split
    next => exact .refl _
    next => exact h.perm_entries
  | _, _, .declarations key hmem _ h => by
    have hkey : key ≠ "namespaces" := by
      rintro rfl
      exact absurd hmem (by decide)
    rw [ofFields, ofFields, if_neg hkey, if_neg hkey]
    exact h.perm_entries
  | _, _, .namespaces hitems _ => by
    rw [ofFields, ofFields, if_pos rfl, if_pos rfl, ofValue, ofValue]
    exact hitems.perm_entries

theorem ReordersItems.perm_entries {path : List Text} : {items items' : List Json} → ReordersItems items items' →
    (entries (openingsOf path (ofItems items))).Perm (entries (openingsOf path (ofItems items')))
  | _, _, .nil => .refl _
  | _, _, .cons h hrest => by
    simp only [ofItems, openingsOf, entries_append]
    exact h.perm_entries.append hrest.perm_entries
  | _, _, .swap item item' rest => by
    simp only [ofItems, openingsOf, entries_append, ← List.append_assoc]
    exact List.perm_append_comm.append_right _
  | _, _, .trans h h' => h.perm_entries.trans h'.perm_entries

end

/-- The declarations of a description, each with its path. -/
def Json.entries (data : Json) : List Declared := Opening.entries (openingsOf [] data.outline)

theorem Reorders.perm {data data' : Json} : Reorders data data' → data.entries.Perm data'.entries
  | .refl _ => .refl _
  | .object h => by
    rw [Json.entries, Json.entries, Json.outline, Json.outline, ← ofFields_eq, ← ofFields_eq]
    exact h.perm_entries

theorem Json.hasTextNames_iff {data : Json} : data.HasTextNames ↔ ∀ x ∈ data.entries, x.2.HasTextNames := by
  simp only [HasTextNames, DeclarationEntries.hasTextNames_iff_all, entries, mem_entries]
  constructor
  · rintro h x ⟨o, ho, -, hx⟩
    exact h o ho _ hx
  · intro h o ho x hx
    exact h (o.1, x) ⟨o, ho, rfl, hx⟩

theorem Reorders.hasTextNames {data data' : Json} (h : Reorders data data') (htexts : data.HasTextNames) :
    data'.HasTextNames :=
  Json.hasTextNames_iff.2 fun x hx => Json.hasTextNames_iff.1 htexts x (h.perm.mem_iff.2 hx)

/-! ### What is well formed -/

section

variable {types types' : List (Text × Kind)} {scope : List Text}

theorem kindNamed?_congr (h : ∀ site, kindAt? types site = kindAt? types' site) (name : Text) :
    kindNamed? types scope name = kindNamed? types' scope name := by
  have hkinds : kindAt? types = kindAt? types' := funext h
  rw [kindNamed?, kindNamed?, hkinds]

private theorem Reordered.isReference (h : ∀ name, kindNamed? types scope name = kindNamed? types' scope name)
    {data : Json} (hdata : IsReference types scope data) : IsReference types' scope data := by
  induction hdata with
  | named present bare known => exact .named present bare (h _ ▸ known)
  | listed _ ih => exact .listed ih
  | array kind found _ ih => exact .array kind found ih
  | union kind found _ ih => exact .union kind found ih
  | parameter kind found => exact .parameter kind found
  | intrinsic kind found => exact .intrinsic kind found
  | text kind found => exact .text kind found
  | boolean kind found => exact .boolean kind found
  | number kind found => exact .number kind found

theorem hasDeclarations_iff {data : Json} : HasDeclarations types scope data
    ↔ EachItem "enums" data IsEnum ∧ EachItem "models" data (IsModel types scope)
      ∧ EachItem "unions" data (IsUnion types scope) ∧ EachItem "interfaces" data (IsInterface types scope)
      ∧ EachItem "operations" data (IsOperation types scope IsListable) := by
  constructor
  · rintro ⟨henums, hmodels, hunions, hinterfaces, hoperations⟩
    exact ⟨henums, hmodels, hunions, hinterfaces, hoperations⟩
  · rintro ⟨henums, hmodels, hunions, hinterfaces, hoperations⟩
    exact ⟨henums, hmodels, hunions, hinterfaces, hoperations⟩

/-- The grammar of declarations depends on the kinds of the known names only. -/
theorem hasDeclarations_congr (h : ∀ site, kindAt? types site = kindAt? types' site) {data : Json} :
    HasDeclarations types scope data ↔ HasDeclarations types' scope data := by
  have hnamed : ∀ name, kindNamed? types scope name = kindNamed? types' scope name := kindNamed?_congr h
  have hreference : IsReference types scope = IsReference types' scope :=
    funext fun data => propext ⟨Reordered.isReference hnamed, Reordered.isReference fun name => (hnamed name).symm⟩
  have hbase : IsBase types scope = IsBase types' scope := by
    funext data
    simp only [IsBase, hnamed]
  have hproperty : IsProperty types scope = IsProperty types' scope := by
    funext data
    simp only [IsProperty, hreference]
  have hmodel : IsModel types scope = IsModel types' scope := by
    funext data
    simp only [IsModel, hbase, hproperty]
  have hunion : IsUnion types scope = IsUnion types' scope := by
    funext data
    simp only [IsUnion, hreference]
  have hoperation : IsOperation types scope = IsOperation types' scope := by
    funext nameIs data
    simp only [IsOperation, hreference, hproperty]
  have hinterface : IsInterface types scope = IsInterface types' scope := by
    funext data
    simp only [IsInterface, hoperation]
  simp only [hasDeclarations_iff, hmodel, hunion, hinterface, hoperation]

theorem ReordersFields.hasDeclarations_iff {fields fields' : List (Text × Json)} (h : ReordersFields fields fields') :
    HasDeclarations types scope (.object fields) ↔ HasDeclarations types scope (.object fields') := by
  have heach : ∀ (key : Text) P, key ≠ "namespaces" →
      (EachItem key (.object fields) P ↔ EachItem key (.object fields') P) := fun _ P hkey => h.each_iff hkey P
  rw [Edm.hasDeclarations_iff, Edm.hasDeclarations_iff, heach "enums" _ (by decide), heach "models" _ (by decide),
    heach "unions" _ (by decide), heach "interfaces" _ (by decide), heach "operations" _ (by decide)]

end

theorem isNamespace_iff {types : List (Text × Kind)} {outer : List Text} {data : Json} : IsNamespace types outer data
    ↔ ∃ name, data.field? "name" = some (.string name) ∧ name ≠ [] ∧ HasDeclarations types (outer ++ [name]) data
        ∧ EachItem "namespaces" data (IsNamespace types (outer ++ [name])) := by
  constructor
  · rintro ⟨hname, present, hdeclarations, hlisted, heach⟩
    exact ⟨_, hname, present, hdeclarations, _, hlisted, heach⟩
  · rintro ⟨name, hname, present, hdeclarations, children, hlisted, heach⟩
    exact .intro hname present hdeclarations hlisted heach

section

variable {types types' : List (Text × Kind)} (h : ∀ site, kindAt? types site = kindAt? types' site)

include h

theorem isNamespace_congr {outer : List Text} {data : Json} (hdata : IsNamespace types outer data) :
    IsNamespace types' outer data := by
  induction hdata with
  | intro named present declarations listed _ ih =>
    exact .intro named present ((hasDeclarations_congr h).1 declarations) listed ih

end

section

variable {types : List (Text × Kind)}

mutual

theorem Reorders.isNamespace_iff {outer : List Text} : {data data' : Json} → Reorders data data' →
    (IsNamespace types outer data ↔ IsNamespace types outer data')
  | _, _, .refl _ => Iff.rfl
  | _, _, .object h => by
    rw [Edm.isNamespace_iff, Edm.isNamespace_iff, h.field?_eq (by decide) (by decide)]
    simp only [h.hasDeclarations_iff, h.eachNamespace_iff]

theorem ReordersFields.eachNamespace_iff {path : List Text} : {fields fields' : List (Text × Json)} →
    ReordersFields fields fields' → (EachItem "namespaces" (.object fields) (IsNamespace types path)
      ↔ EachItem "namespaces" (.object fields') (IsNamespace types path))
  | _, _, .nil => Iff.rfl
  | _, _, .same (key, value) h => by
    have hrest : EachItem "namespaces" (.object _) (IsNamespace types path)
        ↔ EachItem "namespaces" (.object _) (IsNamespace types path) := h.eachNamespace_iff
    by_cases hkey : key = "namespaces"
    · simp [EachItem, Json.listed?, Json.field?, Json.lookup, hkey]
    · simpa [EachItem, Json.listed?, Json.field?, Json.lookup, hkey] using hrest
  | _, _, .declarations key hmem _ h => by
    have hkey : key ≠ "namespaces" := by
      rintro rfl
      exact absurd hmem (by decide)
    have hrest : EachItem "namespaces" (.object _) (IsNamespace types path)
        ↔ EachItem "namespaces" (.object _) (IsNamespace types path) := h.eachNamespace_iff
    simpa [EachItem, Json.listed?, Json.field?, Json.lookup, hkey] using hrest
  | _, _, .namespaces hitems _ => by
    have heach : (∀ item ∈ _, IsNamespace types path item) ↔ ∀ item ∈ _, IsNamespace types path item :=
      hitems.each_iff
    simpa [EachItem, Json.listed?, Json.field?, Json.lookup] using heach

theorem ReordersItems.each_iff {path : List Text} : {items items' : List Json} → ReordersItems items items' →
    ((∀ item ∈ items, IsNamespace types path item) ↔ ∀ item ∈ items', IsNamespace types path item)
  | _, _, .nil => Iff.rfl
  | _, _, .cons h hrest => by
    rw [List.forall_mem_cons, List.forall_mem_cons, h.isNamespace_iff, hrest.each_iff]
  | _, _, .swap _ _ _ => by
    rw [List.forall_mem_cons, List.forall_mem_cons, List.forall_mem_cons, List.forall_mem_cons, and_left_comm]
  | _, _, .trans h h' => h.each_iff.trans h'.each_iff

end

end

/-! ### Distinct sites -/

/-- No two declarations of a description have one site. -/
def Json.HasDistinctSites (data : Json) : Prop := ((typesOf [] data.outline).map Prod.fst).Nodup

instance : DecidablePred Json.HasDistinctSites := fun _ => inferInstanceAs (Decidable (List.Nodup _))

theorem Json.types_eq_entries (data : Json) :
    typesOf [] data.outline = data.entries.map fun x => (x.site, x.2.kind) := by
  rw [typesOf_eq_openings, Opening.types_eq_entries, Json.entries]

section

variable {data data' : Json}

theorem Json.HasDistinctSites.nodup (h : data.HasDistinctSites) : (data.entries.map Declared.site).Nodup := by
  rw [HasDistinctSites, types_eq_entries, List.map_map] at h
  exact h

theorem Reorders.hasDistinctSites (h : Reorders data data') (hsites : data.HasDistinctSites) :
    data'.HasDistinctSites := by
  rw [Json.HasDistinctSites, Json.types_eq_entries, List.map_map] at hsites ⊢
  exact (h.perm.map _).nodup_iff.1 hsites

theorem Reorders.kindAt?_eq (h : Reorders data data') (hsites : data.HasDistinctSites) (site : Text) :
    kindAt? (typesOf [] data.outline) site = kindAt? (typesOf [] data'.outline) site := by
  have hperm : (typesOf [] data.outline).reverse.Perm (typesOf [] data'.outline).reverse := by
    rw [Json.types_eq_entries, Json.types_eq_entries]
    exact ((List.reverse_perm _).trans (h.perm.map _)).trans (List.reverse_perm _).symm
  have hnodup : ((typesOf [] data.outline).reverse.map Prod.fst).Nodup := by
    rw [List.map_reverse]
    exact List.nodup_reverse.2 hsites
  rw [kindAt?, kindAt?, find?_perm hperm hnodup]

theorem Program.yields_load_iff (data : Json) : (Yields (Program.load data) fun _ => True)
    ↔ (∃ fields, data = .object fields)
      ∧ EachItem "namespaces" data (IsNamespace (typesOf [] data.outline) []) := by
  rw [Program.Acceptance.yields_load, ← yields_readDescription]
  refine Yields.congr_ok fun es hes => ?_
  rw [readDescription_eq hes]

/-- One of two reordered descriptions can be loaded if and only if the other one can. -/
theorem Reorders.yields_load (h : Reorders data data') (hsites : data.HasDistinctSites) :
    (Yields (Program.load data) fun _ => True) ↔ Yields (Program.load data') fun _ => True := by
  have hkinds := h.kindAt?_eq hsites
  have hnamespace : IsNamespace (typesOf [] data.outline) [] = IsNamespace (typesOf [] data'.outline) [] :=
    funext fun item => propext ⟨isNamespace_congr hkinds, isNamespace_congr fun site => (hkinds site).symm⟩
  rw [Program.yields_load_iff, Program.yields_load_iff, ← hnamespace]
  cases h with
  | refl => exact Iff.rfl
  | object h =>
    rw [h.eachNamespace_iff]
    simp only [Json.object.injEq, exists_eq', true_and]

end

end Edm
