import Edm.Description
import Edm.Proofs.Description.Yields

/-!
# Outlines

What the entries of a description are if nothing in it is at fault.  The outline of a value
(`Json.outline`) looks only at the fields that an entry has and never fails; a reader that succeeds gives
the outline (`readDescription_eq`).
-/

namespace Edm

namespace Json

/-- The items of a field that is a list or is not there. -/
def listed? (key : Text) (data : Json) : Option (List Json) :=
  match data.field? key with
  | none => some []
  | some (.array items) => some items
  | some _ => none

/-- The items of a field; one that is no list has none. -/
def items (key : Text) (data : Json) : List Json := (data.listed? key).getD []

/-- The name of an entry. -/
def named (data : Json) : Label := Label.ofJson ((data.field? "name").getD .null)

end Json

/-! ### Entries -/

/-- The enum member that a value describes. -/
def MemberEntry.ofJson (data : Json) : MemberEntry where
  name := data.named
  value := (data.field? "value").getD .null

/-- The enum that a value describes. -/
def EnumEntry.ofJson (data : Json) : EnumEntry where
  name := data.named
  members := (data.items "members").map MemberEntry.ofJson

/-- The property or the parameter that a value describes. -/
def PropertyEntry.ofJson (data : Json) : PropertyEntry where
  name := data.named
  type := TypeExpr.ofJson ((data.field? "type").getD .null)
  optional := ((data.field? "optional").getD (.boolean false)).truthy
  decorators := data.items "decorators"

/-- The model that a value describes. -/
def ModelEntry.ofJson (data : Json) : ModelEntry where
  name := data.named
  decorators := data.items "decorators"
  base := (presentField "baseModel" data).map TypeExpr.ofJson
  properties := (data.items "properties").map PropertyEntry.ofJson

/-- The union that a value describes. -/
def UnionEntry.ofJson (data : Json) : UnionEntry where
  name := data.named
  options := (data.items "options").map TypeExpr.ofJson

/-- The operation that a value describes. -/
def OperationEntry.ofJson (data : Json) : OperationEntry where
  name := data.named
  parameters := (data.items "parameters").map PropertyEntry.ofJson
  result := TypeExpr.ofJson ((data.field? "returnType").getD (.string "void"))

/-- The interface that a value describes. -/
def InterfaceEntry.ofJson (data : Json) : InterfaceEntry where
  name := data.named
  operations := (data.items "operations").map OperationEntry.ofJson
  route := match presentField "route" data with
    | some (.string route) => some route
    | _ => none

/-- The declarations that a value describes. -/
def DeclarationEntries.ofJson (data : Json) : DeclarationEntries where
  enums := (data.items "enums").map EnumEntry.ofJson
  models := (data.items "models").map ModelEntry.ofJson
  unions := (data.items "unions").map UnionEntry.ofJson
  interfaces := (data.items "interfaces").map InterfaceEntry.ofJson
  operations := (data.items "operations").map OperationEntry.ofJson

namespace NamespaceEntry

/-- The name of the namespace that a value describes. -/
def nameOf (data : Json) : Text :=
  match data.field? "name" with
  | some (.string name) => name
  | _ => []

mutual

/-- The namespace that a value describes. -/
def ofJson : Json → NamespaceEntry
  | .object fields =>
    .entry (nameOf (.object fields)) (DeclarationEntries.ofJson (.object fields)) (ofFields fields)
  | data => .entry (nameOf data) (DeclarationEntries.ofJson data) []

/-- The namespaces that some fields describe. -/
def ofFields : List (Text × Json) → List NamespaceEntry
  | [] => []
  | (key, value) :: rest => if key = "namespaces" then ofValue value else ofFields rest

/-- The namespaces that a list describes. -/
def ofValue : Json → List NamespaceEntry
  | .array items => ofItems items
  | _ => []

/-- The namespaces that some values describe. -/
def ofItems : List Json → List NamespaceEntry
  | [] => []
  | item :: rest => ofJson item :: ofItems rest

end

theorem ofItems_eq (items : List Json) : ofItems items = items.map ofJson := by
  induction items with
  | nil => simp [ofItems]
  | cons item rest ih => simp [ofItems, ih]

theorem ofFields_eq (fields : List (Text × Json)) :
    ofFields fields = ((Json.object fields).items "namespaces").map ofJson := by
  induction fields with
  | nil => simp [ofFields, Json.items, Json.listed?, Json.field?, Json.lookup]
  | cons f rest ih =>
    obtain ⟨key, value⟩ := f
    by_cases hkey : key = "namespaces"
    · cases value <;>
        simp [ofFields, hkey, ofValue, ofItems_eq, Json.items, Json.listed?, Json.field?, Json.lookup]
    · rw [ofFields, if_neg hkey, ih]
      simp [hkey, Json.items, Json.listed?, Json.field?, Json.lookup]

end NamespaceEntry

/-- The namespaces that the fields of a value describe. -/
def Json.outline (data : Json) : List NamespaceEntry :=
  (data.items "namespaces").map NamespaceEntry.ofJson

/-! ### Readers -/

section

variable {ε α β : Type} {key site outer : Text} {data : Json}

/-- A computation in two steps succeeds with a result only if both steps do. -/
theorem bind_eq_ok {x : Except ε α} {f : α → Except ε β} {b : β} (h : x >>= f = .ok b) :
    ∃ a, x = .ok a ∧ f a = .ok b := by
  cases x with
  | error e => cases h
  | ok a => exact ⟨a, rfl, h⟩

theorem mapM_eq_map {f : α → Except ε β} {g : α → β} (h : ∀ a b, f a = .ok b → b = g a) {l : List α}
    {bs : List β} (hl : l.mapM f = .ok bs) : bs = l.map g := by
  induction l generalizing bs with
  | nil =>
    cases hl
    rfl
  | cons a l ih =>
    rw [List.mapM_cons] at hl
    obtain ⟨b, hb, hl⟩ := bind_eq_ok hl
    obtain ⟨bs, hbs, hl⟩ := bind_eq_ok hl
    cases hl
    rw [List.map_cons, h a b hb, ih hbs]

theorem mem_of_mapM {f : α → Except ε β} {l : List α} {bs : List β} (hl : l.mapM f = .ok bs) {b : β}
    (hb : b ∈ bs) : ∃ a ∈ l, f a = .ok b := by
  induction l generalizing bs with
  | nil =>
    cases hl
    cases hb
  | cons a l ih =>
    rw [List.mapM_cons] at hl
    obtain ⟨c, hc, hl⟩ := bind_eq_ok hl
    obtain ⟨cs, hcs, hl⟩ := bind_eq_ok hl
    cases hl
    rcases List.mem_cons.1 hb with rfl | hb
    · exact ⟨a, List.mem_cons_self .., hc⟩
    · obtain ⟨x, hx, hf⟩ := ih hcs hb
      exact ⟨x, List.mem_cons_of_mem _ hx, hf⟩

/-- What every step of a walk keeps, the walk keeps. -/
theorem foldlM_keeps {f : β → α → Except ε β} {P : β → Prop} (hf : ∀ b a b', P b → f b a = .ok b' → P b')
    {l : List α} {b b' : β} (hb : P b) (h : l.foldlM f b = .ok b') : P b' := by
  induction l generalizing b with
  | nil =>
    cases h
    exact hb
  | cons a l ih =>
    rw [List.foldlM_cons] at h
    obtain ⟨c, hc, h⟩ := bind_eq_ok h
    exact ih (hf b a c hb hc) h

theorem requireField_eq {value : Json} (h : requireField key site data = .ok value) :
    data.field? key = some value := by
  unfold requireField at h
  split at h
  next v hv =>
    cases h
    exact hv
  next => cases h

theorem listField_eq {items : List Json} (h : listField key site data = .ok items) :
    items = data.items key := by
  unfold listField at h
  split at h
  next hf =>
    cases h
    simp [Json.items, Json.listed?, hf]
  next hf =>
    cases h
    simp [Json.items, Json.listed?, hf]
  next => cases h

theorem nameField_eq {name : Label} (h : nameField site data = .ok name) :
    name = data.named := by
  obtain ⟨v, hv, h⟩ := bind_eq_ok h
  cases h
  rw [Json.named, requireField_eq hv, Option.getD_some]

private theorem Outline.declaredName_eq {kind : Kind} {name : Label}
    (h : declaredName kind site data = .ok name) : name = data.named := by
  obtain ⟨n, hn, h⟩ := bind_eq_ok h
  split at h
  next =>
    cases h
    exact nameField_eq hn
  next => cases h

theorem MemberEntry.read_eq {e : MemberEntry} (h : MemberEntry.read site data = .ok e) :
    e = MemberEntry.ofJson data := by
  obtain ⟨value, hv, h⟩ := bind_eq_ok h
  obtain ⟨name, hn, h⟩ := bind_eq_ok h
  have hvalue : value = (data.field? "value").getD .null := by
    unfold memberValue at hv
    split at hv
    all_goals first | (cases hv; simp [*]) | cases hv
  cases h
  rw [MemberEntry.ofJson, nameField_eq hn, hvalue]

theorem EnumEntry.read_eq {e : EnumEntry} (h : EnumEntry.read outer data = .ok e) :
    e = EnumEntry.ofJson data := by
  obtain ⟨name, hn, h⟩ := bind_eq_ok h
  obtain ⟨items, hi, h⟩ := bind_eq_ok h
  obtain ⟨members, hm, h⟩ := bind_eq_ok h
  cases h
  rw [EnumEntry.ofJson, Outline.declaredName_eq hn, mapM_eq_map (fun _ _ => MemberEntry.read_eq) hm,
    listField_eq hi]

theorem PropertyEntry.read_eq {e : PropertyEntry} (h : PropertyEntry.read site data = .ok e) :
    e = PropertyEntry.ofJson data := by
  obtain ⟨name, hn, h⟩ := bind_eq_ok h
  obtain ⟨type, ht, h⟩ := bind_eq_ok h
  obtain ⟨_, _, h⟩ := bind_eq_ok h
  obtain ⟨decorators, hd, h⟩ := bind_eq_ok h
  cases h
  rw [PropertyEntry.ofJson, nameField_eq hn, requireField_eq ht, listField_eq hd,
    Option.getD_some]

theorem ModelEntry.read_eq {e : ModelEntry} (h : ModelEntry.read outer data = .ok e) :
    e = ModelEntry.ofJson data := by
  obtain ⟨name, hn, h⟩ := bind_eq_ok h
  obtain ⟨decorators, hd, h⟩ := bind_eq_ok h
  obtain ⟨items, hi, h⟩ := bind_eq_ok h
  obtain ⟨properties, hp, h⟩ := bind_eq_ok h
  cases h
  rw [ModelEntry.ofJson, Outline.declaredName_eq hn, listField_eq hd,
    mapM_eq_map (fun _ _ => PropertyEntry.read_eq) hp, listField_eq hi]

theorem UnionEntry.read_eq {e : UnionEntry} (h : UnionEntry.read outer data = .ok e) :
    e = UnionEntry.ofJson data := by
  obtain ⟨name, hn, h⟩ := bind_eq_ok h
  obtain ⟨options, ho, h⟩ := bind_eq_ok h
  cases h
  rw [UnionEntry.ofJson, Outline.declaredName_eq hn, listField_eq ho]

theorem OperationEntry.read_eq {e : OperationEntry} (h : OperationEntry.read outer data = .ok e) :
    e = OperationEntry.ofJson data := by
  obtain ⟨name, hn, h⟩ := bind_eq_ok h
  obtain ⟨items, hi, h⟩ := bind_eq_ok h
  obtain ⟨parameters, hp, h⟩ := bind_eq_ok h
  cases h
  rw [OperationEntry.ofJson, nameField_eq hn, mapM_eq_map (fun _ _ => PropertyEntry.read_eq) hp,
    listField_eq hi]

theorem OperationEntry.readListed_eq {e : OperationEntry} (h : OperationEntry.readListed outer data = .ok e) :
    e = OperationEntry.ofJson data := by
  obtain ⟨operation, ho, h⟩ := bind_eq_ok h
  obtain ⟨_, _, h⟩ := bind_eq_ok h
  cases h
  exact OperationEntry.read_eq ho

theorem OperationEntry.readDeclared_eq {e : OperationEntry}
    (h : OperationEntry.readDeclared outer data = .ok e) : e = OperationEntry.ofJson data := by
  obtain ⟨operation, ho, h⟩ := bind_eq_ok h
  split at h
  next =>
    cases h
    exact OperationEntry.read_eq ho
  next => cases h

theorem InterfaceEntry.read_eq {e : InterfaceEntry} (h : InterfaceEntry.read outer data = .ok e) :
    e = InterfaceEntry.ofJson data := by
  obtain ⟨name, hn, h⟩ := bind_eq_ok h
  obtain ⟨items, hi, h⟩ := bind_eq_ok h
  obtain ⟨operations, ho, h⟩ := bind_eq_ok h
  have hops : operations = (data.items "operations").map OperationEntry.ofJson := by
    rw [mapM_eq_map (fun _ _ => OperationEntry.readListed_eq) ho, listField_eq hi]
  rw [InterfaceEntry.ofJson, ← hops, ← Outline.declaredName_eq hn]
  split at h
  next hroute =>
    cases h
    rw [hroute]
  next hroute =>
    cases h
    rw [hroute]
  next => cases h

theorem DeclarationEntries.read_eq {e : DeclarationEntries} (h : DeclarationEntries.read outer data = .ok e) :
    e = DeclarationEntries.ofJson data := by
  obtain ⟨enumItems, hei, h⟩ := bind_eq_ok h
  obtain ⟨enums, he, h⟩ := bind_eq_ok h
  obtain ⟨modelItems, hmi, h⟩ := bind_eq_ok h
  obtain ⟨models, hm, h⟩ := bind_eq_ok h
  obtain ⟨unionItems, hui, h⟩ := bind_eq_ok h
  obtain ⟨unions, hu, h⟩ := bind_eq_ok h
  obtain ⟨interfaceItems, hfi, h⟩ := bind_eq_ok h
  obtain ⟨interfaces, hf, h⟩ := bind_eq_ok h
  obtain ⟨operationItems, hoi, h⟩ := bind_eq_ok h
  obtain ⟨operations, ho, h⟩ := bind_eq_ok h
  cases h
  rw [DeclarationEntries.ofJson, mapM_eq_map (fun _ _ => EnumEntry.read_eq) he, listField_eq hei,
    mapM_eq_map (fun _ _ => ModelEntry.read_eq) hm, listField_eq hmi,
    mapM_eq_map (fun _ _ => UnionEntry.read_eq) hu, listField_eq hui,
    mapM_eq_map (fun _ _ => InterfaceEntry.read_eq) hf, listField_eq hfi,
    mapM_eq_map (fun _ _ => OperationEntry.readDeclared_eq) ho, listField_eq hoi]

end

namespace NamespaceEntry

theorem checkName_eq {data : Json} {name : Text} (h : checkName data = .ok name) : data = .string name := by
  unfold checkName at h
  split at h
  next => cases h
  next => cases h; rfl
  next => split at h <;> first | cases h | (split at h <;> cases h)

mutual

theorem read_eq {outer : List Text} {e : NamespaceEntry} :
    (data : Json) → read outer data = .ok e → e = ofJson data
  | .object fields, h => by
    rw [read] at h
    obtain ⟨value, hv, h⟩ := bind_eq_ok h
    obtain ⟨name, hn, h⟩ := bind_eq_ok h
    obtain ⟨declarations, hd, h⟩ := bind_eq_ok h
    obtain ⟨children, hc, h⟩ := bind_eq_ok h
    have hname : nameOf (.object fields) = name := by
      rw [nameOf, requireField_eq hv, checkName_eq hn]
    cases h
    rw [ofJson, hname, DeclarationEntries.read_eq hd, readChildren_eq fields hc]
  | .null, h | .boolean _, h | .number _, h | .string _, h | .array _, h => by
    rw [read] at h
    · cases h
    · simp

theorem readChildren_eq {path : List Text} {es : List NamespaceEntry} :
    (fields : List (Text × Json)) → readChildren path fields = .ok es → es = ofFields fields
  | [], h => by
    rw [readChildren] at h
    cases h
    rfl
  | (key, value) :: rest, h => by
    rw [readChildren] at h
    rw [ofFields]
    split at h
    next hkey => rw [if_pos hkey, readItems_eq value h]
    next hkey => rw [if_neg hkey, readChildren_eq rest h]

theorem readItems_eq {path : List Text} {es : List NamespaceEntry} :
    (data : Json) → readItems path data = .ok es → es = ofValue data
  | .array items, h => by
    rw [readItems] at h
    rw [ofValue, readList_eq items h]
  | .null, h | .boolean _, h | .number _, h | .string _, h | .object _, h => by
    rw [readItems] at h
    · cases h
    · simp

theorem readList_eq {path : List Text} {es : List NamespaceEntry} :
    (items : List Json) → readList path items = .ok es → es = ofItems items
  | [], h => by
    rw [readList] at h
    cases h
    rfl
  | item :: rest, h => by
    rw [readList] at h
    obtain ⟨n, hn, h⟩ := bind_eq_ok h
    obtain ⟨ns, hns, h⟩ := bind_eq_ok h
    cases h
    rw [ofItems, read_eq item hn, readList_eq rest hns]

end

end NamespaceEntry

/-- A description that can be read is its outline. -/
theorem readDescription_eq {data : Json} {es : List NamespaceEntry} (h : readDescription data = .ok es) :
    es = data.outline := by
  cases data with
  | object fields =>
    have hes := NamespaceEntry.readChildren_eq fields h
    rw [hes, NamespaceEntry.ofFields_eq, Json.outline]
  | _ => cases h

end Edm
