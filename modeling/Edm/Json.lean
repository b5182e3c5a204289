import Edm.Number

/-!
# JSON values

A JSON value with the order of its fields and the distinction between integers and doubles kept.
`Json.field?` reads a field of an object; the other functions say when a value counts as present
(`Json.truthy`) and when two values are the same key of a dictionary (`Json.sameKey`).
-/

namespace Edm

/-- A JSON value. -/
inductive Json
  | null
  | boolean (b : Bool)
  | number (n : Number)
  | string (t : Text)
  | array (items : List Json)
  | object (fields : List (Text × Json))
deriving Repr, Inhabited

namespace Json

/-! ### Equality -/

mutual

/-- Equality of values can be decided. -/
def decEq : (v w : Json) → Decidable (v = w)
  | null, null => isTrue rfl
  | boolean a, boolean b => if h : a = b then isTrue (h ▸ rfl) else isFalse (by simp [h])
  | number a, number b => if h : a = b then isTrue (h ▸ rfl) else isFalse (by simp [h])
  | string a, string b => if h : a = b then isTrue (h ▸ rfl) else isFalse (by simp [h])
  | array a, array b => match decEqItems a b with
    | isTrue h => isTrue (h ▸ rfl)
    | isFalse h => isFalse (by simp [h])
  | object a, object b => match decEqFields a b with
    | isTrue h => isTrue (h ▸ rfl)
    | isFalse h => isFalse (by simp [h])
  | null, boolean _ | null, number _ | null, string _ | null, array _ | null, object _
  | boolean _, null | boolean _, number _ | boolean _, string _ | boolean _, array _
  | boolean _, object _
  | number _, null | number _, boolean _ | number _, string _ | number _, array _ | number _, object _
  | string _, null | string _, boolean _ | string _, number _ | string _, array _ | string _, object _
  | array _, null | array _, boolean _ | array _, number _ | array _, string _ | array _, object _
  | object _, null | object _, boolean _ | object _, number _ | object _, string _
  | object _, array _ => isFalse (by simp)

/-- Equality of lists of values can be decided. -/
def decEqItems : (vs ws : List Json) → Decidable (vs = ws)
  | [], [] => isTrue rfl
  | [], _ :: _ | _ :: _, [] => isFalse (by simp)
  | v :: vs, w :: ws => match decEq v w, decEqItems vs ws with
    | isTrue h, isTrue hs => isTrue (h ▸ hs ▸ rfl)
    | isFalse h, _ => isFalse (by simp [h])
    | _, isFalse hs => isFalse (by simp [hs])

/-- Equality of lists of fields can be decided. -/
def decEqFields : (vs ws : List (Text × Json)) → Decidable (vs = ws)
  | [], [] => isTrue rfl
  | [], _ :: _ | _ :: _, [] => isFalse (by simp)
  | (a, v) :: vs, (b, w) :: ws =>
    if hk : a = b then
      match decEq v w, decEqFields vs ws with
      | isTrue h, isTrue hs => isTrue (hk ▸ h ▸ hs ▸ rfl)
      | isFalse h, _ => isFalse (by simp [h])
      | _, isFalse hs => isFalse (by simp [hs])
    else isFalse (by simp [hk])

end

instance : DecidableEq Json := decEq

/-! ### Fields -/

/-- The value of the first field with the given key. -/
def lookup (key : Text) : List (Text × Json) → Option Json
  | [] => none
  | (k, v) :: rest => if k = key then some v else lookup key rest

/-- The value of a field of an object; other values have no fields. -/
def field? (key : Text) : Json → Option Json
  | object fields => lookup key fields
  | _ => none

/-- Fields with one more: a key that is there already keeps its place and takes the new value. -/
def insertField (key : Text) (value : Json) : List (Text × Json) → List (Text × Json)
  | [] => [(key, value)]
  | (k, v) :: rest => if k = key then (k, value) :: rest else (k, v) :: insertField key value rest

@[simp] theorem lookup_insertField (key other : Text) (value : Json) (fields : List (Text × Json)) :
    lookup other (insertField key value fields) = if key = other then some value else lookup other fields := by
  induction fields with
  | nil => simp [insertField, lookup]
  | cons f rest ih =>
    obtain ⟨k, v⟩ := f
    by_cases hk : k = key
    · subst hk; by_cases ho : k = other <;> simp [insertField, lookup, ho]
    · by_cases ho : k = other
      · subst ho; simp [insertField, lookup, hk, Ne.symm hk]
      · simp [insertField, lookup, hk, ho, ih]

/-! ### Presence and identity as a key -/

/-- A value counts as present unless it is null, false, a zero, or empty. -/
def truthy : Json → Bool
  | null => false
  | boolean b => b
  | number n => !n.isZero
  | string t => !t.isEmpty
  | array items => !items.isEmpty
  | object fields => !fields.isEmpty

/-- Arrays and objects cannot be keys. -/
def keyable : Json → Bool
  | array _ => false
  | object _ => false
  | _ => true

/-- The number that a value stands for as a key: booleans are the numbers one and zero. -/
def keyNumber? : Json → Option Number
  | boolean b => some (.integer (if b then 1 else 0))
  | number n => some n
  | _ => none

/-- Whether two values are one key: numbers by their value, all else by equality. -/
def sameKey (v w : Json) : Bool :=
  match v.keyNumber?, w.keyNumber? with
  | some m, some n => m.sameValue n
  | none, none => v == w
  | _, _ => false

@[simp] theorem sameKey_string (s t : Text) : sameKey (string s) (string t) = (s == t) := by
  rw [Bool.eq_iff_iff]; simp [sameKey, keyNumber?]

mutual

/-- Whether two values are the same: numbers by their value, arrays item by item, and objects field by field
in any order. -/
def same : Json → Json → Bool
  | array vs, array ws => sameItems vs ws
  | object fs, object gs => fs.length == gs.length && sameFields fs gs
  | v, w => v.keyable && w.keyable && v.sameKey w

/-- Whether two lists have the same values. -/
def sameItems : List Json → List Json → Bool
  | [], [] => true
  | v :: vs, w :: ws => same v w && sameItems vs ws
  | _, _ => false

/-- Whether each of some fields has the same value among others. -/
def sameFields : List (Text × Json) → List (Text × Json) → Bool
  | [], _ => true
  | (key, v) :: rest, fields =>
    (match lookup key fields with
      | some w => same v w
      | none => false) && sameFields rest fields

end

end Json

end Edm
