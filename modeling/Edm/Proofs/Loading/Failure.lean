import Edm.Proofs.Description.Reading

/-!
# How loading fails

Most failures of loading say what is wrong with a description.  The others come from a name that cannot serve
as one: it is absent where something is listed under it, it cannot be a key, or it is no text where a text is
put together from it.  `FailsOnly P x` says that the computation `x` has no failure without the property `P`;
like what a computation yields, it is read off step by step.  Each failure of loading is about the description
or is due to one of its names (`Program.fault_of_load`).
-/

namespace Edm

/-! ### Failures of a computation -/

/-- Each failure of a computation has a property. -/
def FailsOnly {ε α : Type} (P : ε → Prop) (x : Except ε α) : Prop := ∀ e, x = .error e → P e

namespace FailsOnly

variable {ε α β : Type} {P Q : ε → Prop}

theorem ok (a : α) : FailsOnly P (.ok a) := by
  intro e h
  cases h

theorem error {e : ε} (h : P e) : FailsOnly P (.error e : Except ε α) := by
  intro e' h'
  cases h'
  exact h

theorem mono {x : Except ε α} (h : FailsOnly P x) (hPQ : ∀ e, P e → Q e) : FailsOnly Q x :=
  fun e he => hPQ e (h e he)

/-- A computation in two steps fails where one of them does. -/
theorem bind {x : Except ε α} {f : α → Except ε β} (hx : FailsOnly P x)
    (hf : ∀ a, x = .ok a → FailsOnly P (f a)) : FailsOnly P (x >>= f) := by
  cases x with
  | error e => exact error (hx e rfl)
  | ok a => exact hf a rfl

theorem mapM {f : α → Except ε β} {l : List α} (h : ∀ a ∈ l, FailsOnly P (f a)) : FailsOnly P (l.mapM f) := by
  induction l with
  | nil => exact ok []
  | cons a l ih =>
    rw [List.mapM_cons]
    refine (h a (List.mem_cons_self ..)).bind fun b _ => ?_
    exact (ih fun c hc => h c (List.mem_cons_of_mem _ hc)).bind fun bs _ => ok (b :: bs)

theorem foldlM {f : β → α → Except ε β} (l : List α) (h : ∀ s, ∀ a ∈ l, FailsOnly P (f s a)) (s : β) :
    FailsOnly P (l.foldlM f s) := by
  induction l generalizing s with
  | nil => exact ok s
  | cons a l ih =>
    rw [List.foldlM_cons]
    refine (h s a (List.mem_cons_self ..)).bind fun s' _ => ?_
    exact ih (fun t b hb => h t b (List.mem_cons_of_mem _ hb)) s'

end FailsOnly

/-! ### Names of a description -/

/-- What a name is for. -/
inductive NameUse
  /-- A namespace lists something of a kind under it. -/
  | listed (kind : Kind)
  /-- A model or an interface lists something under it. -/
  | member
deriving DecidableEq, Repr

/-- The failure that a value leads to where a name is expected. -/
inductive NameFault : NameUse → Json → LoadError → Prop
  | absent {kind : Kind} {value : Json} (absent : value.truthy = false) :
      NameFault (.listed kind) value (.declaration (.unnamed kind))
  | unkeyable {use : NameUse} {value : Json} (unkeyable : value.keyable = false) :
      NameFault use value (.declaration .unkeyable)
  | notText {value : Json} (present : value.truthy = true) (keyable : value.keyable = true)
      (notText : ∀ t, value ≠ .string t) : NameFault (.listed .nameSpace) value .namespaceNotText

/-- The fields of a namespace with declarations, and the kind of these. -/
def declarationFields : List (Text × Kind) :=
  [("enums", .enum), ("models", .model), ("unions", .union), ("interfaces", .interface),
   ("operations", .operation)]

/-- The names in the entry of a namespace that something is listed under. -/
inductive NamespaceNames : (data : Json) → NameUse → Json → Prop
  | own {data name : Json} (found : data.field? "name" = some name) :
      NamespaceNames data (.listed .nameSpace) name
  | declared {data entry name : Json} {key : Text} {kind : Kind} (field : (key, kind) ∈ declarationFields)
      (entry_mem : entry ∈ data.items key) (found : entry.field? "name" = some name) :
      NamespaceNames data (.listed kind) name
  | property {data model entry name : Json} (model_mem : model ∈ data.items "models")
      (entry_mem : entry ∈ model.items "properties") (found : entry.field? "name" = some name) :
      NamespaceNames data .member name
  | operation {data interface entry name : Json} (interface_mem : interface ∈ data.items "interfaces")
      (entry_mem : entry ∈ interface.items "operations") (found : entry.field? "name" = some name) :
      NamespaceNames data .member name
  | parameter {data operation entry name : Json} (operation_mem : operation ∈ data.items "operations")
      (entry_mem : entry ∈ operation.items "parameters") (found : entry.field? "name" = some name) :
      NamespaceNames data .member name
  | operationParameter {data interface operation entry name : Json}
      (interface_mem : interface ∈ data.items "interfaces")
      (operation_mem : operation ∈ interface.items "operations")
      (entry_mem : entry ∈ operation.items "parameters") (found : entry.field? "name" = some name) :
      NamespaceNames data .member name
  | inside {data child name : Json} {use : NameUse} (child_mem : child ∈ data.items "namespaces")
      (found : NamespaceNames child use name) : NamespaceNames data use name

/-- The names in a description that something is listed under. -/
def Json.ListsUnder (data : Json) (use : NameUse) (name : Json) : Prop :=
  ∃ child ∈ data.items "namespaces", NamespaceNames child use name

/-- The names of the entries in a field all have a property. -/
def EachName (key : Text) (data : Json) (P : Json → Prop) : Prop :=
  ∀ entry ∈ data.items key, ∀ name, entry.field? "name" = some name → P name

/-- A failure is about the description, or comes from one of some names. -/
def IsExplained (names : NameUse → Json → Prop) (e : LoadError) : Prop :=
  e.isAboutDescription = true ∨ ∃ use name, names use name ∧ NameFault use name e

theorem IsExplained.mono {names names' : NameUse → Json → Prop} {e : LoadError} (h : IsExplained names e)
    (hnames : ∀ use name, names use name → names' use name) : IsExplained names' e :=
  h.imp_right fun ⟨use, name, hname, hfault⟩ => ⟨use, name, hnames use name hname, hfault⟩

/-! ### Fields -/

section

variable {names : NameUse → Json → Prop} {key site outer : Text} {data : Json}

theorem FailsOnly.about {α : Type} {e : LoadError} (h : e.isAboutDescription = true) :
    FailsOnly (IsExplained names) (.error e : Except LoadError α) :=
  .error (.inl h)

theorem failsOnly_requireField : FailsOnly (IsExplained names) (requireField key site data) := by
  unfold requireField
  split
  · exact .ok _
  · exact .about rfl

theorem failsOnly_listField : FailsOnly (IsExplained names) (listField key site data) := by
  unfold listField
  split
  · exact .ok _
  · exact .ok _
  · exact .about rfl

theorem failsOnly_nameField : FailsOnly (IsExplained names) (nameField site data) :=
  failsOnly_requireField.bind fun _ _ => .ok _

theorem failsOnly_memberValue : FailsOnly (IsExplained names) (memberValue site data) := by
  unfold memberValue
  split
  case h_5 => exact .about rfl
  all_goals exact .ok _

theorem exists_of_nameField {name : Label} (h : nameField site data = .ok name) :
    ∃ value, data.field? "name" = some value ∧ name = Label.ofJson value := by
  obtain ⟨value, hvalue, h⟩ := bind_eq_ok h
  cases h
  exact ⟨value, requireField_eq hvalue, rfl⟩

theorem nameFault_of_checkName {kind : Kind} {value : Json} {e : DeclareError}
    (h : Graph.checkName kind (Label.ofJson value) = .error e) :
    NameFault (.listed kind) value (.declaration e) := by
  rw [Graph.checkName, truthy_ofJson, keyable_ofJson] at h
  split at h
  next habsent =>
    cases h
    exact .absent (by simpa using habsent)
  next =>
    split at h
    next hkey =>
      cases h
      exact .unkeyable (by simpa using hkey)
    next => cases h

theorem failsOnly_checkName {α : Type} {kind : Kind} {value : Json} (hname : names (.listed kind) value)
    {x : Except LoadError α} (hx : FailsOnly (IsExplained names) x) :
    FailsOnly (IsExplained names) (match Graph.checkName kind (Label.ofJson value) with
      | .ok () => x
      | .error e => throw (.declaration e)) := by
  split
  next => exact hx
  next e he => exact .error (.inr ⟨_, _, hname, nameFault_of_checkName he⟩)

theorem failsOnly_declaredName {kind : Kind}
    (hnames : ∀ value, data.field? "name" = some value → names (.listed kind) value) :
    FailsOnly (IsExplained names) (declaredName kind site data) := by
  refine failsOnly_nameField.bind fun name hname => ?_
  obtain ⟨value, hvalue, rfl⟩ := exists_of_nameField hname
  exact failsOnly_checkName (hnames value hvalue) (.ok _)

theorem failsOnly_checkKey {value : Json} (hname : names .member value) :
    FailsOnly (IsExplained names) (checkKey (Label.ofJson value)) := by
  unfold checkKey
  split
  next => exact .ok _
  next hkey =>
    rw [keyable_ofJson] at hkey
    exact .error (.inr ⟨_, _, hname, .unkeyable (by simpa using hkey)⟩)

/-- The items of a list, each of which fails only where it may. -/
theorem failsOnly_items {α : Type} {f : Json → Except LoadError α}
    (h : ∀ item ∈ data.items key, FailsOnly (IsExplained names) (f item)) :
    ∀ items, listField key site data = .ok items → FailsOnly (IsExplained names) (items.mapM f) := by
  intro items hitems
  rw [listField_eq hitems]
  exact .mapM h

/-! ### Entries -/

theorem failsOnly_member : FailsOnly (IsExplained names) (MemberEntry.read site data) :=
  failsOnly_memberValue.bind fun _ _ => failsOnly_nameField.bind fun _ _ => .ok _

theorem failsOnly_enum (hnames : ∀ value, data.field? "name" = some value → names (.listed .enum) value) :
    FailsOnly (IsExplained names) (EnumEntry.read outer data) := by
  refine (failsOnly_declaredName hnames).bind fun name _ => failsOnly_listField.bind fun items hitems => ?_
  exact (failsOnly_items (fun _ _ => failsOnly_member) items hitems).bind fun _ _ => .ok _

theorem failsOnly_property (hnames : ∀ value, data.field? "name" = some value → names .member value) :
    FailsOnly (IsExplained names) (PropertyEntry.read site data) := by
  refine failsOnly_nameField.bind fun name hname => failsOnly_requireField.bind fun _ _ => ?_
  obtain ⟨value, hvalue, rfl⟩ := exists_of_nameField hname
  exact (failsOnly_checkKey (hnames value hvalue)).bind fun _ _ => failsOnly_listField.bind fun _ _ => .ok _

theorem failsOnly_model (hnames : ∀ value, data.field? "name" = some value → names (.listed .model) value)
    (hproperties : EachName "properties" data (names .member)) :
    FailsOnly (IsExplained names) (ModelEntry.read outer data) := by
  refine (failsOnly_declaredName hnames).bind fun name _ => failsOnly_listField.bind fun _ _ =>
    failsOnly_listField.bind fun items hitems => ?_
  exact (failsOnly_items (fun q hq => failsOnly_property (hproperties q hq)) items hitems).bind fun _ _ => .ok _

theorem failsOnly_union (hnames : ∀ value, data.field? "name" = some value → names (.listed .union) value) :
    FailsOnly (IsExplained names) (UnionEntry.read outer data) :=
  (failsOnly_declaredName hnames).bind fun _ _ => failsOnly_listField.bind fun _ _ => .ok _

theorem failsOnly_operation (hparameters : EachName "parameters" data (names .member)) :
    FailsOnly (IsExplained names) (OperationEntry.read outer data) := by
  refine failsOnly_nameField.bind fun name _ => failsOnly_listField.bind fun items hitems => ?_
  exact (failsOnly_items (fun q hq => failsOnly_property (hparameters q hq)) items hitems).bind fun _ _ => .ok _

/-- The name of an operation is checked only after the operation has been read. -/
theorem exists_of_operation {e : OperationEntry} (h : OperationEntry.read outer data = .ok e) :
    ∃ value, data.field? "name" = some value ∧ e.name = Label.ofJson value := by
  obtain ⟨name, hname, h⟩ := bind_eq_ok h
  obtain ⟨items, -, h⟩ := bind_eq_ok h
  obtain ⟨parameters, -, h⟩ := bind_eq_ok h
  cases h
  exact exists_of_nameField hname

theorem failsOnly_listed (hnames : ∀ value, data.field? "name" = some value → names .member value)
    (hparameters : EachName "parameters" data (names .member)) :
    FailsOnly (IsExplained names) (OperationEntry.readListed outer data) := by
  refine (failsOnly_operation hparameters).bind fun e he => ?_
  obtain ⟨value, hvalue, hname⟩ := exists_of_operation he
  rw [hname]
  exact (failsOnly_checkKey (hnames value hvalue)).bind fun _ _ => .ok _

theorem failsOnly_ownOperation
    (hnames : ∀ value, data.field? "name" = some value → names (.listed .operation) value)
    (hparameters : EachName "parameters" data (names .member)) :
    FailsOnly (IsExplained names) (OperationEntry.readDeclared outer data) := by
  refine (failsOnly_operation hparameters).bind fun e he => ?_
  obtain ⟨value, hvalue, hname⟩ := exists_of_operation he
  rw [hname]
  exact failsOnly_checkName (hnames value hvalue) (.ok _)

theorem failsOnly_interface
    (hnames : ∀ value, data.field? "name" = some value → names (.listed .interface) value)
    (hoperations : EachName "operations" data (names .member))
    (hparameters : ∀ o ∈ data.items "operations", EachName "parameters" o (names .member)) :
    FailsOnly (IsExplained names) (InterfaceEntry.read outer data) := by
  refine (failsOnly_declaredName hnames).bind fun name _ => failsOnly_listField.bind fun items hitems => ?_
  refine (failsOnly_items (fun o ho => failsOnly_listed (hoperations o ho) (hparameters o ho)) items hitems).bind
    fun _ _ => ?_
  split
  · exact .ok _
  · exact .ok _
  · exact .about rfl

end

theorem failsOnly_declarations {outer : Text} {data : Json} :
    FailsOnly (IsExplained (NamespaceNames data)) (DeclarationEntries.read outer data) := by
  have hdeclared : ∀ key kind, (key, kind) ∈ declarationFields → ∀ entry ∈ data.items key, ∀ value,
      entry.field? "name" = some value → NamespaceNames data (.listed kind) value :=
    fun _ _ hfield _ hentry _ hvalue => .declared hfield hentry hvalue
  refine failsOnly_listField.bind fun _ henums => (failsOnly_items ?_ _ henums).bind fun _ _ =>
    failsOnly_listField.bind fun _ hmodels => (failsOnly_items ?_ _ hmodels).bind fun _ _ =>
      failsOnly_listField.bind fun _ hunions => (failsOnly_items ?_ _ hunions).bind fun _ _ =>
        failsOnly_listField.bind fun _ hinterfaces => (failsOnly_items ?_ _ hinterfaces).bind fun _ _ =>
          failsOnly_listField.bind fun _ hoperations => (failsOnly_items ?_ _ hoperations).bind fun _ _ => .ok _
  · exact fun e he => failsOnly_enum (hdeclared _ _ (by decide) e he)
  · exact fun m hm => failsOnly_model (hdeclared _ _ (by decide) m hm) fun q hq value hvalue =>
      .property hm hq hvalue
  · exact fun u hu => failsOnly_union (hdeclared _ _ (by decide) u hu)
  · exact fun f hf => failsOnly_interface (hdeclared _ _ (by decide) f hf)
      (fun o ho value hvalue => .operation hf ho hvalue)
      fun o ho q hq value hvalue => .operationParameter hf ho hq hvalue
  · exact fun o ho => failsOnly_ownOperation (hdeclared _ _ (by decide) o ho)
      fun q hq value hvalue => .parameter ho hq hvalue

/-! ### Namespaces -/

namespace NamespaceEntry

theorem failsOnly_checkName {names : NameUse → Json → Prop} {value : Json}
    (hname : names (.listed .nameSpace) value) : FailsOnly (IsExplained names) (checkName value) := by
  unfold checkName
  split
  next => exact .error (.inr ⟨_, _, hname, .absent rfl⟩)
  next => exact .ok _
  next hempty htext =>
    split
    next hkey => exact .error (.inr ⟨_, _, hname, .unkeyable (by simpa using hkey)⟩)
    next hkey =>
      split
      next habsent => exact .error (.inr ⟨_, _, hname, .absent (by simpa using habsent)⟩)
      next hpresent =>
        exact .error (.inr ⟨_, _, hname, .notText (by simpa using hpresent) (by simpa using hkey) htext⟩)

mutual

theorem failsOnly_read (outer : List Text) :
    (data : Json) → FailsOnly (IsExplained (NamespaceNames data)) (read outer data)
  | .object fields => by
    rw [read]
    refine failsOnly_requireField.bind fun value hvalue => ?_
    refine (failsOnly_checkName (.own (requireField_eq hvalue))).bind fun name _ => ?_
    refine failsOnly_declarations.bind fun _ _ => ?_
    refine ((failsOnly_readChildren _ fields).mono fun e he => he.mono ?_).bind fun _ _ => .ok _
    rintro use name ⟨child, hchild, hname⟩
    exact .inside hchild hname
  | .null | .boolean _ | .number _ | .string _ | .array _ => by
    rw [read]
    · exact .about rfl
    · simp

theorem failsOnly_readChildren (path : List Text) : (fields : List (Text × Json)) →
    FailsOnly (IsExplained (Json.object fields).ListsUnder) (readChildren path fields)
  | [] => by
    rw [readChildren]
    exact .ok _
  | (key, value) :: rest => by
    rw [readChildren]
    split
    next hkey =>
      refine (failsOnly_readItems path value).mono fun e he => he.mono ?_
      rintro use name ⟨items, rfl, child, hchild, hname⟩
      exact ⟨child, by simpa [Json.items, Json.listed?, Json.field?, Json.lookup, hkey] using hchild, hname⟩
    next hkey =>
      refine (failsOnly_readChildren path rest).mono fun e he => he.mono ?_
      rintro use name ⟨child, hchild, hname⟩
      refine ⟨child, ?_, hname⟩
      simpa [Json.items, Json.listed?, Json.field?, Json.lookup, hkey] using hchild

theorem failsOnly_readItems (path : List Text) : (data : Json) →
    FailsOnly (IsExplained fun use name => ∃ items, data = .array items ∧ ∃ child ∈ items,
      NamespaceNames child use name) (readItems path data)
  | .array items => by
    rw [readItems]
    refine (failsOnly_readList path items).mono fun e he => he.mono ?_
    exact fun use name hname => ⟨items, rfl, hname⟩
  | .null | .boolean _ | .number _ | .string _ | .object _ => by
    rw [readItems]
    · exact .about rfl
    · simp

theorem failsOnly_readList (path : List Text) : (items : List Json) →
    FailsOnly (IsExplained fun use name => ∃ child ∈ items, NamespaceNames child use name) (readList path items)
  | [] => by
    rw [readList]
    exact .ok _
  | item :: rest => by
    rw [readList]
    refine ((failsOnly_read path item).mono fun e he => he.mono ?_).bind fun _ _ =>
      ((failsOnly_readList path rest).mono fun e he => he.mono ?_).bind fun _ _ => .ok _
    · exact fun use name hname => ⟨item, List.mem_cons_self .., hname⟩
    · rintro use name ⟨child, hchild, hname⟩
      exact ⟨child, List.mem_cons_of_mem _ hchild, hname⟩

end

end NamespaceEntry

theorem failsOnly_readDescription (data : Json) :
    FailsOnly (IsExplained data.ListsUnder) (readDescription data) := by
  cases data with
  | object fields => exact NamespaceEntry.failsOnly_readChildren [] fields
  | _ => exact .about rfl

/-! ### References and decorators -/

section

variable {names : NameUse → Json → Prop} {d : Declarations} {scope : List Text} {site : Text}

theorem Declarations.failsOnly_resolveName (name : Text) (g : Graph) :
    FailsOnly (IsExplained names) (d.resolveName scope site name g) := by
  unfold resolveName
  split
  · exact .ok _
  · split
    · exact .ok _
    · split
      · exact .ok _
      · exact .about rfl

mutual

/-- All failures of resolving an expression are about the description. -/
theorem Declarations.failsOnly_resolve : (e : TypeExpr) → (g : Graph) →
    FailsOnly (IsExplained names) (d.resolve scope site e g)
  | .named name, g => by
    rw [resolve]
    exact failsOnly_resolveName name g
  | .array element, g => by
    rw [resolve]
    exact (failsOnly_resolve element g).bind fun _ _ => .ok _
  | .union options, g => by
    rw [resolve]
    exact (failsOnly_resolveAll options g).bind fun _ _ => .ok _
  | .parameter _, _ | .intrinsic _, _ | .literal _ _, _ => by
    rw [resolve]
    exact .ok _
  | .invalid _, _ | .optionsNotList, _ | .unnamed, _ => by
    rw [resolve]
    exact .about rfl

theorem Declarations.failsOnly_resolveAll : (es : List TypeExpr) → (g : Graph) →
    FailsOnly (IsExplained names) (d.resolveAll scope site es g)
  | [], g => by
    rw [resolveAll]
    exact .ok _
  | e :: es, g => by
    rw [resolveAll]
    exact (failsOnly_resolve e g).bind fun r _ => (failsOnly_resolveAll es r.2).bind fun _ _ => .ok _

end

theorem Declarations.failsOnly_settle (g : Graph) (r : Reference) :
    FailsOnly (IsExplained names) (d.settle g r) := by
  unfold settle
  split
  · refine (failsOnly_resolve _ g).bind fun r _ => ?_
    dsimp only
    split
    · exact .ok _
    · exact .about rfl
  · exact (failsOnly_resolve _ g).bind fun _ _ => .ok _
  · exact (failsOnly_resolveAll _ g).bind fun _ _ => .ok _
  · exact (failsOnly_resolve _ g).bind fun _ _ => .ok _

theorem failsOnly_decoratorCall (data : Json) : FailsOnly (IsExplained names) (decoratorCall site data) := by
  unfold decoratorCall
  split
  · exact .ok _
  · split
    · split
      · exact .ok _
      · exact .ok _
      · exact .about rfl
    · exact .about rfl

theorem Program.failsOnly_decorateAll (p : Program) (c : Decoration) :
    FailsOnly (IsExplained names) (p.decorateAll c) :=
  .foldlM _ (fun _ x _ => (failsOnly_decoratorCall x).bind fun _ _ => .ok _) p

end

/-! ### Loading -/

namespace Program

/-- Each failure of loading says what is wrong with the description, unless a name in it is at fault. -/
theorem fault_of_load {data : Json} {e : LoadError} (h : load data = .error e) :
    e.isAboutDescription = true ∨ ∃ use name, data.ListsUnder use name ∧ NameFault use name e := by
  have hfails : FailsOnly (IsExplained data.ListsUnder) (load data) := by
    refine (failsOnly_readDescription data).bind fun es _ => ?_
    refine (FailsOnly.foldlM _ (fun g r _ => Declarations.failsOnly_settle g r) _).bind fun g _ => ?_
    exact .foldlM _ (fun p c _ => failsOnly_decorateAll p c) _
  exact hfails e h

/-- A description with a namespace whose name is empty. -/
def nameless : Json := .object [("namespaces", .array [.object [("name", .string [])]])]

theorem fault_of_load_nameless : ∃ e, load nameless = .error e
    ∧ (e.isAboutDescription = true ∨ ∃ use name, nameless.ListsUnder use name ∧ NameFault use name e) := by
  have h : load nameless = .error (.declaration (.unnamed .nameSpace)) := by rfl
  exact ⟨_, h, fault_of_load h⟩

/-- The failure for an empty name does not say what is wrong with the description. -/
theorem load_nameless_escapes :
    ¬ ∀ data e, load data = .error e → e.isAboutDescription = true := by
  intro h
  have hload : load nameless = .error (.declaration (.unnamed .nameSpace)) := by rfl
  have habout := h nameless _ hload
  cases habout

end Program

end Edm
