import Edm.Proofs.Description.Grammar
import Mathlib.Tactic.SplitIfs

/-!
# Reading by the grammar

Reading a value succeeds, with an entry whose references and decorators are sound, exactly if the value is
well formed (`NamespaceEntry.yields_read`).  Whether an entry is sound depends on the declared types alone.
-/

namespace Edm

/-! ### Sound entries -/

namespace TypeExpr

section

variable (types : List (Text × Kind)) (scope : List Text)

mutual

/-- An expression refers to a type in the namespace at a path. -/
def Resolves : TypeExpr → Prop
  | named name => (kindNamed? types scope name).isSome
  | array element => Resolves element
  | union options => AllResolve options
  | parameter _ | intrinsic _ | literal _ _ => True
  | invalid _ | optionsNotList | unnamed => False

/-- Each of some expressions refers to a type in the namespace at a path. -/
def AllResolve : List TypeExpr → Prop
  | [] => True
  | e :: es => Resolves e ∧ AllResolve es

end

/-- An expression is the name of a model in the namespace at a path. -/
def ResolvesToModel : TypeExpr → Prop
  | named name => kindNamed? types scope name = some .model
  | _ => False

end

variable {types : List (Text × Kind)} {scope : List Text}

theorem allResolve_iff (es : List TypeExpr) : AllResolve types scope es ↔ ∀ e ∈ es, Resolves types scope e := by
  induction es with
  | nil => simp [AllResolve]
  | cons e es ih => rw [AllResolve, ih, List.forall_mem_cons]

end TypeExpr

section

variable (types : List (Text × Kind)) (scope : List Text)

def PropertyEntry.Sound (e : PropertyEntry) : Prop :=
  e.type.Resolves types scope ∧ ∀ d ∈ e.decorators, IsDecorator d

def ModelEntry.Sound (e : ModelEntry) : Prop :=
  (∀ d ∈ e.decorators, IsDecorator d) ∧ (∀ base ∈ e.base, base.ResolvesToModel types scope)
    ∧ ∀ q ∈ e.properties, q.Sound types scope

def UnionEntry.Sound (e : UnionEntry) : Prop := ∀ option ∈ e.options, option.Resolves types scope

def OperationEntry.Sound (e : OperationEntry) : Prop :=
  (∀ q ∈ e.parameters, q.Sound types scope) ∧ e.result.Resolves types scope

def InterfaceEntry.Sound (e : InterfaceEntry) : Prop := ∀ o ∈ e.operations, o.Sound types scope

def DeclarationEntries.Sound (e : DeclarationEntries) : Prop :=
  (∀ m ∈ e.models, m.Sound types scope) ∧ (∀ u ∈ e.unions, u.Sound types scope)
    ∧ (∀ i ∈ e.interfaces, i.Sound types scope) ∧ ∀ o ∈ e.operations, o.Sound types scope

mutual

/-- The references of a namespace inside the one at a path lead to types, and the bases to models; its
decorators can be applied. -/
def NamespaceEntry.Sound (outer : List Text) : NamespaceEntry → Prop
  | .entry name declarations children =>
    declarations.Sound types (outer ++ [name]) ∧ AllSound (outer ++ [name]) children

/-- Each of some namespaces is sound. -/
def NamespaceEntry.AllSound (outer : List Text) : List NamespaceEntry → Prop
  | [] => True
  | n :: ns => n.Sound outer ∧ AllSound outer ns

end

end

/-! ### References -/

section

variable {types : List (Text × Kind)} {scope : List Text}

theorem sizeOf_lookup_lt {key : Text} {fields : List (Text × Json)} {value : Json}
    (h : Json.lookup key fields = some value) : sizeOf value < sizeOf fields := by
  induction fields with
  | nil => cases h
  | cons f rest ih =>
    obtain ⟨k, v⟩ := f
    rw [Json.lookup] at h
    split at h
    · cases h
      simp
      omega
    · have := ih h
      simp
      omega

namespace TypeExpr

theorem elementOf_eq (fields : List (Text × Json)) :
    elementOf fields = ((Json.lookup "elementType" fields).map ofJson).getD (invalid .null) := by
  induction fields with
  | nil => rfl
  | cons f rest ih =>
    obtain ⟨key, value⟩ := f
    by_cases h : key = "elementType"
    · simp [elementOf, Json.lookup, h]
    · simp [elementOf, Json.lookup, h, ih]

theorem optionsOf_eq (fields : List (Text × Json)) :
    optionsOf fields = (Json.lookup "options" fields).bind itemsOf := by
  induction fields with
  | nil => rfl
  | cons f rest ih =>
    obtain ⟨key, value⟩ := f
    by_cases h : key = "options"
    · simp [optionsOf, Json.lookup, h]
    · simp [optionsOf, Json.lookup, h, ih]

/-- A pair of square brackets at the end makes an array type. -/
theorem ofText_append_brackets (t : Text) : ofText (t ++ brackets) = array (ofText t) := by
  rw [ofText, List.reverse_append]
  rfl

theorem ofText_of_bare {t : Text} (present : t ≠ []) (bare : ¬ brackets <:+ t) : ofText t = named t := by
  unfold ofText
  generalize hr : t.reverse = r
  have ht : t = r.reverse := by rw [← hr, List.reverse_reverse]
  unfold ofReversed
  split
  next => exact absurd ht present
  next rest =>
    refine absurd ⟨rest.reverse, ?_⟩ bare
    rw [ht, List.reverse_cons, List.reverse_cons, List.append_assoc]
    rfl
  next => rw [ht]

theorem ofJson_of_form {fields : List (Text × Json)} {e : TypeExpr} (h : formOf fields = .other e) :
    ofJson (.object fields) = e := by
  rw [ofJson, h]

end TypeExpr

private theorem Reading.object_of_field {data value : Json} {key : Text} (h : data.field? key = some value) :
    ∃ fields, data = .object fields ∧ Json.lookup key fields = some value := by
  cases data with
  | object fields => exact ⟨fields, rfl, h⟩
  | _ => cases h

/-- A well-formed reference refers to a type. -/
theorem IsReference.resolves {v : Json} (h : IsReference types scope v) :
    (TypeExpr.ofJson v).Resolves types scope := by
  induction h with
  | named present bare known =>
    rw [TypeExpr.ofJson, TypeExpr.ofText_of_bare present bare]
    exact known
  | listed _ ih =>
    rw [TypeExpr.ofJson, TypeExpr.ofText_append_brackets]
    rw [TypeExpr.ofJson] at ih
    exact ih
  | array kind found _ ih =>
    obtain ⟨fields, rfl, hkind⟩ := Reading.object_of_field kind
    rw [Json.field?] at found
    have hform : TypeExpr.formOf fields = .array := by
      rw [TypeExpr.formOf, hkind]
      rfl
    rw [TypeExpr.ofJson, hform]
    show (TypeExpr.elementOf fields).Resolves types scope
    rw [TypeExpr.elementOf_eq, found]
    exact ih
  | @union _ options kind found _ ih =>
    obtain ⟨fields, rfl, hkind⟩ := Reading.object_of_field kind
    rw [Json.field?] at found
    have hform : TypeExpr.formOf fields = .union := by
      rw [TypeExpr.formOf, hkind]
      rfl
    have hoptions : TypeExpr.optionsOf fields = some (options.map TypeExpr.ofJson) := by
      rw [TypeExpr.optionsOf_eq, found, Option.bind_some, TypeExpr.itemsOf, TypeExpr.ofItems_eq_map]
    rw [TypeExpr.ofJson, hform, hoptions]
    show TypeExpr.AllResolve types scope (options.map TypeExpr.ofJson)
    rw [TypeExpr.allResolve_iff]
    exact List.forall_mem_map.2 ih
  | @parameter _ name kind found =>
    obtain ⟨fields, rfl, hkind⟩ := Reading.object_of_field kind
    rw [Json.field?] at found
    have hform : TypeExpr.formOf fields = .other (.parameter (Label.ofJson name)) := by
      rw [TypeExpr.formOf, hkind, TypeExpr.ofName, found]
      rfl
    rw [TypeExpr.ofJson_of_form hform]
    trivial
  | @intrinsic _ name kind found =>
    obtain ⟨fields, rfl, hkind⟩ := Reading.object_of_field kind
    rw [Json.field?] at found
    have hform : TypeExpr.formOf fields = .other (.intrinsic (Label.ofJson name)) := by
      simp only [TypeExpr.formOf, hkind, TypeExpr.ofName, found]
      rfl
    rw [TypeExpr.ofJson_of_form hform]
    trivial
  | @text _ value kind found =>
    obtain ⟨fields, rfl, hkind⟩ := Reading.object_of_field kind
    rw [Json.field?] at found
    have hform : TypeExpr.formOf fields = .other (.literal .text (.string value)) := by
      simp only [TypeExpr.formOf, hkind, TypeExpr.ofValue, found]
      rfl
    rw [TypeExpr.ofJson_of_form hform]
    trivial
  | @boolean _ value kind found =>
    obtain ⟨fields, rfl, hkind⟩ := Reading.object_of_field kind
    rw [Json.field?] at found
    have hform : TypeExpr.formOf fields = .other (.literal .boolean (.boolean value)) := by
      simp only [TypeExpr.formOf, hkind, TypeExpr.ofValue, found]
      rfl
    rw [TypeExpr.ofJson_of_form hform]
    trivial
  | @number _ value kind found =>
    obtain ⟨fields, rfl, hkind⟩ := Reading.object_of_field kind
    rw [Json.field?] at found
    have hform : TypeExpr.formOf fields = .other (.literal .number (.number value)) := by
      simp only [TypeExpr.formOf, hkind, TypeExpr.ofValue, found]
      rfl
    rw [TypeExpr.ofJson_of_form hform]
    trivial

/-- A text that refers to a type is a well-formed reference. -/
private theorem Reading.isReference_string (t : Text) (h : (TypeExpr.ofText t).Resolves types scope) :
    IsReference types scope (.string t) := by
  -- one pair of brackets is taken off at a time, until the name is bare
  by_cases hbare : brackets <:+ t
  · obtain ⟨name, hname⟩ := hbare
    have hlt : name.length < t.length := by
      rw [← hname, List.length_append]
      exact Nat.lt_add_of_pos_right (by decide)
    rw [← hname, TypeExpr.ofText_append_brackets] at h
    rw [← hname]
    exact .listed (Reading.isReference_string name h)
  · have present : t ≠ [] := by
      rintro rfl
      exact h
    rw [TypeExpr.ofText_of_bare present hbare] at h
    exact .named present hbare h
termination_by t.length

private theorem Reading.lookup_of_ofName {make : Label → TypeExpr} {fields : List (Text × Json)}
    (h : (TypeExpr.ofName make fields).Resolves types scope) : ∃ name, Json.lookup "name" fields = some name := by
  unfold TypeExpr.ofName at h
  split at h
  next name hname => exact ⟨name, hname⟩
  next => exact h.elim

private theorem Reading.lookup_of_ofValue {kind : LiteralKind} {fields : List (Text × Json)}
    (h : (TypeExpr.ofValue kind fields).Resolves types scope) :
    ∃ value, Json.lookup "value" fields = some value ∧ kind.fits value = true := by
  unfold TypeExpr.ofValue at h
  split at h
  next value hvalue =>
    split at h
    next hfits => exact ⟨value, hvalue, hfits⟩
    next => exact h.elim
  next => exact h.elim

private theorem Reading.lookup_of_array {fields : List (Text × Json)} (h : TypeExpr.formOf fields = .array) :
    Json.lookup "kind" fields = some (.string "Array") := by
  unfold TypeExpr.formOf at h
  split at h
  next kind hkind =>
    split_ifs at h with harray
    rw [hkind, harray]
  next => cases h

private theorem Reading.lookup_of_union {fields : List (Text × Json)} (h : TypeExpr.formOf fields = .union) :
    Json.lookup "kind" fields = some (.string "Union") := by
  unfold TypeExpr.formOf at h
  split at h
  next kind hkind =>
    split_ifs at h with _ hunion
    rw [hkind, hunion]
  next => cases h

private theorem Reading.isReference_other {fields : List (Text × Json)} {e : TypeExpr}
    (h : TypeExpr.formOf fields = .other e) (he : e.Resolves types scope) :
    IsReference types scope (.object fields) := by
  unfold TypeExpr.formOf at h
  split at h
  next kind hkind =>
    split_ifs at h with _ _ hparameter htext hboolean hnumber hintrinsic <;> cases h
    · obtain ⟨name, hfound⟩ := Reading.lookup_of_ofName he
      exact .parameter (hparameter ▸ hkind) hfound
    · obtain ⟨value, hfound, hfits⟩ := Reading.lookup_of_ofValue he
      cases value with
      | string t => exact .text (htext ▸ hkind) hfound
      | _ => cases hfits
    · obtain ⟨value, hfound, hfits⟩ := Reading.lookup_of_ofValue he
      cases value with
      | boolean b => exact .boolean (hboolean ▸ hkind) hfound
      | _ => cases hfits
    · obtain ⟨value, hfound, hfits⟩ := Reading.lookup_of_ofValue he
      cases value with
      | number n => exact .number (hnumber ▸ hkind) hfound
      | _ => cases hfits
    · obtain ⟨name, hfound⟩ := Reading.lookup_of_ofName he
      exact .intrinsic (hintrinsic ▸ hkind) hfound
    · exact he.elim
  next =>
    cases h
    exact he.elim

/-- A value that refers to a type is a well-formed reference. -/
theorem IsReference.of_resolves : (v : Json) → (TypeExpr.ofJson v).Resolves types scope →
    IsReference types scope v
  | .string t, h => Reading.isReference_string t (by rw [TypeExpr.ofJson] at h; exact h)
  | .object fields, h => by
    rw [TypeExpr.ofJson] at h
    split at h
    next hform =>
      have h : (TypeExpr.elementOf fields).Resolves types scope := h
      rw [TypeExpr.elementOf_eq] at h
      cases hfound : Json.lookup "elementType" fields with
      | none =>
        rw [hfound] at h
        exact h.elim
      | some element =>
        have hlt : sizeOf element < sizeOf fields := sizeOf_lookup_lt hfound
        rw [hfound] at h
        exact .array (Reading.lookup_of_array hform) hfound (IsReference.of_resolves element h)
    next hform =>
      rw [TypeExpr.optionsOf_eq] at h
      cases hfound : Json.lookup "options" fields with
      | none =>
        rw [hfound] at h
        exact h.elim
      | some value =>
        rw [hfound, Option.bind_some] at h
        cases value with
        | array options =>
          rw [TypeExpr.itemsOf] at h
          have h : TypeExpr.AllResolve types scope (TypeExpr.ofItems options) := h
          rw [TypeExpr.allResolve_iff, TypeExpr.ofItems_eq_map, List.forall_mem_map] at h
          have hlt := sizeOf_lookup_lt hfound
          refine .union (Reading.lookup_of_union hform) hfound fun option hoption => ?_
          have hmem := List.sizeOf_lt_of_mem hoption
          exact IsReference.of_resolves option (h option hoption)
        | _ => exact h.elim
    next e hform => exact Reading.isReference_other hform h
  | .null, h | .boolean _, h | .number _, h | .array _, h => h.elim
termination_by v => sizeOf v
decreasing_by
  · simp only [Json.object.sizeOf_spec]
    omega
  · simp only [Json.object.sizeOf_spec, Json.array.sizeOf_spec] at *
    omega

/-- The well-formed references are the values that refer to a type. -/
theorem isReference_iff {v : Json} : IsReference types scope v ↔ (TypeExpr.ofJson v).Resolves types scope :=
  ⟨IsReference.resolves, IsReference.of_resolves v⟩

private theorem Reading.ofJson_ne_named {fields : List (Text × Json)} {name : Text} :
    TypeExpr.ofJson (.object fields) ≠ .named name := by
  intro h
  rw [TypeExpr.ofJson] at h
  split at h
  next => cases h
  next => split at h <;> cases h
  next e hform =>
    subst h
    unfold TypeExpr.formOf at hform
    split at hform
    next =>
      have hname : ∀ make, (∀ l, make l ≠ .named name) → TypeExpr.ofName make fields ≠ .named name := by
        intro make hmake
        unfold TypeExpr.ofName
        split
        · exact hmake _
        · simp
      have hvalue : ∀ kind, TypeExpr.ofValue kind fields ≠ .named name := by
        intro kind
        unfold TypeExpr.ofValue
        split
        · split <;> simp
        · simp
      split_ifs at hform <;> injection hform with hform
      · exact hname _ (by simp) hform
      · exact hvalue _ hform
      · exact hvalue _ hform
      · exact hvalue _ hform
      · exact hname _ (by simp) hform
      · cases hform
    next => cases hform

theorem isBase_iff {v : Json} : IsBase types scope v ↔ (TypeExpr.ofJson v).ResolvesToModel types scope := by
  constructor
  · rintro ⟨name, rfl, present, bare, known⟩
    rw [TypeExpr.ofJson, TypeExpr.ofText_of_bare present bare]
    exact known
  · intro h
    -- only a text can stand for a name; an object never does
    cases hv : TypeExpr.ofJson v with
    | named name =>
      rw [hv] at h
      cases v with
      | string t =>
        rw [TypeExpr.ofJson] at hv
        have bare : ¬ brackets <:+ t := by
          rintro ⟨s, rfl⟩
          rw [TypeExpr.ofText_append_brackets] at hv
          cases hv
        have present : t ≠ [] := by
          rintro rfl
          cases hv
        rw [TypeExpr.ofText_of_bare present bare] at hv
        cases hv
        exact ⟨_, rfl, present, bare, h⟩
      | object fields => exact absurd hv Reading.ofJson_ne_named
      | _ => cases hv
    | _ =>
      rw [hv] at h
      exact h.elim

end

/-! ### Fields -/

section

variable {key site outer : Text} {data : Json}

theorem keyable_ofJson (v : Json) : (Label.ofJson v).keyable = v.keyable := by
  cases v <;> rfl

theorem truthy_ofJson (v : Json) : (Label.ofJson v).truthy = v.truthy := by
  cases v <;> rfl

theorem yields_requireField {P : Json → Prop} :
    Yields (requireField key site data) P ↔ ∃ v, data.field? key = some v ∧ P v := by
  unfold requireField
  cases data.field? key <;> simp

theorem yields_listField {P : List Json → Prop} :
    Yields (listField key site data) P ↔ ∃ items, data.listed? key = some items ∧ P items := by
  unfold listField Json.listed?
  split <;> simp [*]

theorem yields_nameField {P : Label → Prop} :
    Yields (nameField site data) P ↔ ∃ name, data.field? "name" = some name ∧ P (Label.ofJson name) := by
  simp only [nameField, Yields.bind_iff, yields_requireField, Yields.pure_iff]

theorem checkName_eq_ok {kind : Kind} {name : Label} :
    Graph.checkName kind name = .ok () ↔ name.truthy = true ∧ name.keyable = true := by
  unfold Graph.checkName
  split <;> (try split) <;> simp_all

theorem checkName_ofJson (kind : Kind) (name : Json) :
    Graph.checkName kind (Label.ofJson name) = .ok () ↔ IsListable name := by
  rw [checkName_eq_ok, truthy_ofJson, keyable_ofJson]
  exact Iff.rfl

theorem yields_declaredName {kind : Kind} {P : Label → Prop} :
    Yields (declaredName kind site data) P
      ↔ ∃ name, data.field? "name" = some name ∧ IsListable name ∧ P (Label.ofJson name) := by
  simp only [declaredName, Yields.bind_iff, yields_nameField]
  refine exists_congr fun name => and_congr_right fun _ => ?_
  rw [← checkName_ofJson kind]
  split
  next h => simp [h]
  next e h => simp [h]

theorem yields_checkKey {name : Label} {P : Unit → Prop} :
    Yields (checkKey name) P ↔ name.keyable = true ∧ P () := by
  unfold checkKey
  split <;> simp [*]

end

/-! ### Entries -/

section

variable {types : List (Text × Kind)} {scope : List Text} {site outer : Text} {data : Json}

private theorem Reading.yields_memberValue : (Yields (memberValue site data) fun _ => True)
    ↔ ∀ value, data.field? "value" = some value → IsMemberValue value := by
  unfold memberValue
  split <;> simp_all [IsMemberValue]

theorem yields_readMember : (Yields (MemberEntry.read site data) fun _ => True) ↔ IsMember data := by
  have hsplit := Yields.and_left (x := memberValue site data) (A := ∃ name, data.field? "name" = some name)
    (P := fun _ => True)
  rw [Reading.yields_memberValue] at hsplit
  simp only [MemberEntry.read, Yields.bind_iff, yields_nameField, Yields.pure_iff, and_true]
  simp only [and_true] at hsplit
  exact hsplit

theorem yields_readEnum : (Yields (EnumEntry.read outer data) fun _ => True) ↔ IsEnum data := by
  simp only [EnumEntry.read, Yields.bind_iff, yields_declaredName, yields_listField, Yields.pure_iff,
    Yields.mapM_const_iff, yields_readMember, and_true]
  constructor
  · rintro ⟨name, hname, hlist, hmembers⟩
    exact ⟨⟨name, hname, hlist⟩, hmembers⟩
  · rintro ⟨⟨name, hname, hlist⟩, hmembers⟩
    exact ⟨name, hname, hlist, hmembers⟩

theorem yields_readProperty :
    (Yields (PropertyEntry.read site data) fun e => e.Sound types scope) ↔ IsProperty types scope data := by
  simp only [PropertyEntry.read, Yields.bind_iff, yields_nameField, yields_requireField, yields_checkKey,
    yields_listField, Yields.pure_iff, PropertyEntry.Sound, ← isReference_iff, keyable_ofJson]
  constructor
  · rintro ⟨name, hname, type, htype, hkey, decorators, hlisted, href, hdec⟩
    exact ⟨⟨name, hname, hkey⟩, ⟨type, htype, href⟩, decorators, hlisted, hdec⟩
  · rintro ⟨⟨name, hname, hkey⟩, ⟨type, htype, href⟩, decorators, hlisted, hdec⟩
    exact ⟨name, hname, type, htype, hkey, decorators, hlisted, href, hdec⟩

private theorem Reading.forall_base :
    (∀ base ∈ (presentField "baseModel" data).map TypeExpr.ofJson, base.ResolvesToModel types scope)
      ↔ ∀ base, data.field? "baseModel" = some base → base = .null ∨ IsBase types scope base := by
  unfold presentField
  cases hbase : data.field? "baseModel" with
  | none => simp
  | some base => cases base <;> simp [isBase_iff]

theorem yields_readModel :
    (Yields (ModelEntry.read outer data) fun e => e.Sound types scope) ↔ IsModel types scope data := by
  simp only [ModelEntry.read, Yields.bind_iff, yields_declaredName, yields_listField, Yields.pure_iff,
    ModelEntry.Sound, Reading.forall_base, Yields.and_left, Yields.mapM_iff, yields_readProperty]
  constructor
  · rintro ⟨name, hname, hlist, decorators, hlisted, hdec, hbase, hproperties⟩
    exact ⟨⟨name, hname, hlist⟩, ⟨decorators, hlisted, hdec⟩, hbase, hproperties⟩
  · rintro ⟨⟨name, hname, hlist⟩, ⟨decorators, hlisted, hdec⟩, hbase, hproperties⟩
    exact ⟨name, hname, hlist, decorators, hlisted, hdec, hbase, hproperties⟩

theorem yields_readUnion :
    (Yields (UnionEntry.read outer data) fun e => e.Sound types scope) ↔ IsUnion types scope data := by
  simp only [UnionEntry.read, Yields.bind_iff, yields_declaredName, yields_listField, Yields.pure_iff,
    UnionEntry.Sound, List.forall_mem_map, ← isReference_iff]
  constructor
  · rintro ⟨name, hname, hlist, hoptions⟩
    exact ⟨⟨name, hname, hlist⟩, hoptions⟩
  · rintro ⟨⟨name, hname, hlist⟩, hoptions⟩
    exact ⟨name, hname, hlist, hoptions⟩

/-- A return type that is left out is `void`. -/
private theorem Reading.result_iff :
    (TypeExpr.ofJson ((data.field? "returnType").getD (.string "void"))).Resolves types scope
      ↔ ∀ result, data.field? "returnType" = some result → IsReference types scope result := by
  cases data.field? "returnType" with
  | none => simp; rfl
  | some result => simp [isReference_iff]

/-- Reading an operation, and what is asked of its name afterwards. -/
private theorem Reading.yields_readOperation (outer : Text) (labelIs : Label → Prop) {nameIs : Json → Prop}
    (h : ∀ v, labelIs (Label.ofJson v) ↔ nameIs v) :
    (Yields (OperationEntry.read outer data) fun e => labelIs e.name ∧ e.Sound types scope)
      ↔ IsOperation types scope nameIs data := by
  simp only [OperationEntry.read, Yields.bind_iff, yields_nameField, yields_listField, Yields.pure_iff,
    OperationEntry.Sound, Reading.result_iff, Yields.and_left, Yields.and_right, Yields.mapM_iff,
    yields_readProperty, h]
  exact Iff.rfl

theorem yields_readListed :
    (Yields (OperationEntry.readListed outer data) fun e => e.Sound types scope)
      ↔ IsOperation types scope (fun name => name.keyable = true) data := by
  have hkeyable : ∀ v, (Label.ofJson v).keyable = true ↔ v.keyable = true := fun v => by rw [keyable_ofJson]
  refine Iff.trans ?_ (Reading.yields_readOperation outer (fun l => l.keyable = true) hkeyable)
  simp only [OperationEntry.readListed, Yields.bind_iff, yields_checkKey, Yields.pure_iff]

theorem yields_readDeclared :
    (Yields (OperationEntry.readDeclared outer data) fun e => e.Sound types scope)
      ↔ IsOperation types scope IsListable data := by
  refine Iff.trans ?_ (Reading.yields_readOperation outer (fun l => Graph.checkName .operation l = .ok ())
    (checkName_ofJson .operation))
  simp only [OperationEntry.readDeclared, Yields.bind_iff]
  refine Yields.congr fun e => ?_
  split
  next h => simp [h]
  next e h => simp [h]

private theorem Reading.route_iff :
    (∀ route, data.field? "route" = some route → route = .null ∨ ∃ t, route = .string t)
      ↔ presentField "route" data = none ∨ ∃ t, presentField "route" data = some (.string t) := by
  unfold presentField
  cases hroute : data.field? "route" with
  | none => simp
  | some route => cases route <;> simp

theorem yields_readInterface :
    (Yields (InterfaceEntry.read outer data) fun e => e.Sound types scope) ↔ IsInterface types scope data := by
  simp only [InterfaceEntry.read, Yields.bind_iff, yields_declaredName, yields_listField, IsInterface,
    Reading.route_iff]
  cases hroute : presentField "route" data with
  | none =>
    simp only [Yields.pure_iff, InterfaceEntry.Sound, Yields.mapM_iff, yields_readListed]
    constructor
    · rintro ⟨name, hname, hlist, hoperations⟩
      exact ⟨⟨name, hname, hlist⟩, hoperations, .inl trivial⟩
    · rintro ⟨⟨name, hname, hlist⟩, hoperations, -⟩
      exact ⟨name, hname, hlist, hoperations⟩
  | some route =>
    cases route with
    | string t =>
      simp only [Yields.pure_iff, InterfaceEntry.Sound, Yields.mapM_iff, yields_readListed]
      constructor
      · rintro ⟨name, hname, hlist, hoperations⟩
        exact ⟨⟨name, hname, hlist⟩, hoperations, .inr ⟨t, rfl⟩⟩
      · rintro ⟨⟨name, hname, hlist⟩, hoperations, -⟩
        exact ⟨name, hname, hlist, hoperations⟩
    | _ =>
      constructor
      · rintro ⟨_, _, _, _, _, h⟩
        obtain ⟨_, _, h⟩ := h
        exact (Yields.throw_iff.1 h).elim
      · rintro ⟨-, -, h | ⟨_, h⟩⟩ <;> cases h

theorem yields_readDeclarations :
    (Yields (DeclarationEntries.read outer data) fun e => e.Sound types scope)
      ↔ HasDeclarations types scope data := by
  simp only [DeclarationEntries.read, Yields.bind_iff, yields_listField, Yields.pure_iff,
    DeclarationEntries.Sound, Yields.and_left, Yields.and_right, Yields.mapM_iff, yields_readModel,
    yields_readUnion, yields_readInterface, yields_readDeclared, Yields.mapM_const_iff, yields_readEnum]
  constructor
  · rintro ⟨hmodels, hunions, hinterfaces, henums, hoperations⟩
    exact ⟨henums, hmodels, hunions, hinterfaces, hoperations⟩
  · rintro ⟨henums, hmodels, hunions, hinterfaces, hoperations⟩
    exact ⟨hmodels, hunions, hinterfaces, henums, hoperations⟩

theorem yields_checkName {P : Text → Prop} :
    Yields (NamespaceEntry.checkName data) P ↔ ∃ name, data = .string name ∧ name ≠ [] ∧ P name := by
  unfold NamespaceEntry.checkName
  split
  next => simp
  next name hname => simp_all
  next hempty hname =>
    split
    · simp_all
    · split <;> simp_all

end

/-! ### Namespaces -/

section

variable {types : List (Text × Kind)}

namespace NamespaceEntry

mutual

/-- Reading a namespace yields a sound entry exactly if the value is well formed. -/
theorem yields_read {outer : List Text} : (data : Json) →
    ((Yields (read outer data) fun e => e.Sound types outer) ↔ IsNamespace types outer data)
  | .object fields => by
    simp only [read, Yields.bind_iff, yields_requireField, yields_checkName, Yields.pure_iff,
      NamespaceEntry.Sound, Yields.and_left, Yields.and_right, yields_readDeclarations,
      yields_readChildren fields]
    constructor
    · rintro ⟨_, hname, name, rfl, present, declarations, children, hlisted, heach⟩
      exact .intro hname present declarations hlisted heach
    · rintro ⟨hname, present, declarations, hlisted, heach⟩
      exact ⟨_, hname, _, rfl, present, declarations, _, hlisted, heach⟩
  | .null | .boolean _ | .number _ | .string _ | .array _ => by
    rw [read] <;> try simp
    rintro ⟨hname, -, -, -, -⟩
    cases hname

theorem yields_readChildren {path : List Text} : (fields : List (Text × Json)) →
    ((Yields (readChildren path fields) fun es => AllSound types path es)
      ↔ EachItem "namespaces" (.object fields) (IsNamespace types path))
  | [] => by
    simp [readChildren, AllSound, EachItem, Json.listed?, Json.field?, Json.lookup]
  | (key, value) :: rest => by
    rw [readChildren]
    by_cases hkey : key = "namespaces"
    · rw [if_pos hkey, yields_readItems value]
      cases value <;> simp [EachItem, Json.listed?, Json.field?, Json.lookup, hkey]
    · rw [if_neg hkey, yields_readChildren rest]
      simp [EachItem, Json.listed?, Json.field?, Json.lookup, hkey]

theorem yields_readItems {path : List Text} : (data : Json) →
    ((Yields (readItems path data) fun es => AllSound types path es)
      ↔ ∃ items, data = .array items ∧ ∀ item ∈ items, IsNamespace types path item)
  | .array items => by
    rw [readItems, yields_readList items]
    simp
  | .null | .boolean _ | .number _ | .string _ | .object _ => by
    rw [readItems] <;> simp

theorem yields_readList {path : List Text} : (items : List Json) →
    ((Yields (readList path items) fun es => AllSound types path es)
      ↔ ∀ item ∈ items, IsNamespace types path item)
  | [] => by
    simp [readList, AllSound]
  | item :: rest => by
    simp only [readList, Yields.bind_iff, Yields.pure_iff, AllSound, Yields.and_left, Yields.and_right,
      yields_read item, yields_readList rest, List.forall_mem_cons]

end

end NamespaceEntry

/-- Reading a description yields sound entries exactly if its namespaces are well formed. -/
theorem yields_readDescription {data : Json} :
    (Yields (readDescription data) fun es => NamespaceEntry.AllSound types [] es)
      ↔ (∃ fields, data = .object fields) ∧ EachItem "namespaces" data (IsNamespace types []) := by
  cases data with
  | object fields =>
    rw [readDescription, NamespaceEntry.yields_readChildren]
    simp
  | _ => simp [readDescription]

end

end Edm
