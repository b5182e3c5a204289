import Edm.Label

/-!
# Members

What a node owns, by name and in order.  `Members.insert` adds a member; one of the same name is replaced
in its place.  `Table` numbers the nodes of one kind in the order in which they are made.
-/

namespace Edm

/-- Members by name, in the order in which the names were first used. -/
abbrev Members (α : Type) := List (Label × α)

namespace Members

variable {α : Type}

/-- Adds a member; a name that is there already keeps its place and its spelling. -/
def insert (name : Label) (value : α) : Members α → Members α
  | [] => [(name, value)]
  | (n, v) :: rest => if n.sameKey name then (n, value) :: rest else (n, v) :: insert name value rest

/-- The member with a name. -/
def lookup (name : Label) : Members α → Option α
  | [] => none
  | (n, v) :: rest => if n.sameKey name then some v else lookup name rest

/-- The members in order. -/
def values (m : Members α) : List α := m.map Prod.snd

/-- The names in order. -/
def names (m : Members α) : List Label := m.map Prod.fst

/-- A member that has just been added is found. -/
theorem lookup_insert_self (t : Text) (value : α) (m : Members α) :
    lookup (.text t) (insert (.text t) value m) = some value := by
  induction m with
  | nil => simp [insert, lookup]
  | cons e rest ih =>
    obtain ⟨n, v⟩ := e
    by_cases h : n.sameKey (.text t) = true <;> simp [insert, lookup, h, ih]

end Members

/-- The nodes of one kind, numbered from zero. -/
structure Table (α : Type) where
  /-- The nodes in order. -/
  entries : Array α := #[]
deriving Repr

namespace Table

variable {α : Type}

instance : Inhabited (Table α) := ⟨{}⟩

/-- How many nodes there are; also the number of the next one. -/
def size (t : Table α) : Nat := t.entries.size

/-- The node with a number. -/
def get [Inhabited α] (t : Table α) (i : Nat) : α := t.entries.getD i default

/-- A table with one node more. -/
def push (t : Table α) (a : α) : Table α := ⟨t.entries.push a⟩

/-- A table with one node changed. -/
def modify (t : Table α) (i : Nat) (f : α → α) : Table α := ⟨t.entries.modify i f⟩

@[simp] theorem size_push (t : Table α) (a : α) : (t.push a).size = t.size + 1 := by
  simp [size, push]

@[simp] theorem size_modify (t : Table α) (i : Nat) (f : α → α) : (t.modify i f).size = t.size := by
  simp [size, modify]

theorem get_push [Inhabited α] (t : Table α) (a : α) (j : Nat) :
    (t.push a).get j = if j = t.size then a else t.get j := by
  by_cases h : j = t.size
  · subst h; simp [get, push, size]
  · by_cases hj : j < t.size
    · have hlt : j < t.entries.size := hj
      simp [get, push, h, Array.getD, hlt, Array.getElem_push_lt, Nat.lt_succ_of_lt hlt]
    · have hge : ¬ j < t.entries.size := hj
      have hge' : ¬ j < t.entries.size + 1 := by
        intro hlt
        have : j ≠ t.entries.size := h
        omega
      simp [get, push, h, Array.getD, hge, hge']

theorem get_modify [Inhabited α] (t : Table α) (i j : Nat) (f : α → α) (h : i < t.size) :
    (t.modify i f).get j = if j = i then f (t.get j) else t.get j := by
  by_cases hj : j < t.entries.size
  · by_cases e : j = i
    · subst e; simp [get, modify, Array.getD, hj, Array.getElem_modify]
    · simp [get, modify, Array.getD, hj, Array.getElem_modify, e, Ne.symm e]
  · have hne : j ≠ i := fun e => hj (e ▸ h)
    simp [get, modify, Array.getD, hj, hne]

end Table

end Edm
