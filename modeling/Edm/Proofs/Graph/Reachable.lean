import Edm.Graph.Flattening
import Edm.Graph.TypeName
import Edm.Proofs.Graph.Listing
import Mathlib.Logic.Relation

/-!
# Reachable nodes

A program consists of the nodes that can be come by from its root: what a node lists, the types that it is made
of, and what it belongs to (`Graph.Reaches`).  If all of these have texts for names (`Graph.HasTextNames`), then
dotted names can be put together, and both the identifier and the type name of each of them is a text
(`Graph.HasTextNames.idLabel_eq`, `Graph.HasTextNames.isText_typeName`).
-/

namespace Edm

/-! ### Links -/

namespace Cell

/-- The nodes that the node of a record lists. -/
def members : Cell → List Node
  | nameSpace s => s.members
  | model m => m.properties.values.map .property
  | enum e => e.members.map .member
  | interface f => f.operations.values.map .operation
  | operation o => [.model o.parameters]
  | property _ | member _ | union _ => []

/-- The types that the node of a record is made of. -/
def types : Cell → List Node
  | model m => m.base.toList
  | property q => [q.type]
  | operation o => o.result.toList
  | union u => u.options
  | nameSpace _ | enum _ | member _ | interface _ => []

/-- The nodes that the node of a record belongs to. -/
def owners (c : Cell) : List Node :=
  c.owner.toList.map .nameSpace ++ match c with
    | property q => q.owner.toList.map .model
    | member m => m.owner.toList.map .enum
    | operation o => o.interface.toList.map .interface
    | _ => []

/-- The nodes that a record refers to. -/
def links (c : Cell) : List Node := c.members ++ c.types ++ c.owners

theorem mem_links {c : Cell} {n : Node} : n ∈ c.links ↔ n ∈ c.members ∨ n ∈ c.types ∨ n ∈ c.owners := by
  rw [links, List.mem_append, List.mem_append, or_assoc]

end Cell

namespace Graph

/-- The record of a node, if it is of a kind that has records. -/
def record? (g : Graph) : Node → Option Cell
  | .nameSpace i => some (.nameSpace (g.namespaces.get i))
  | .model i => some (.model (g.models.get i))
  | .property i => some (.property (g.properties.get i))
  | .enum i => some (.enum (g.enums.get i))
  | .member i => some (.member (g.members.get i))
  | .interface i => some (.interface (g.interfaces.get i))
  | .operation i => some (.operation (g.operations.get i))
  | .union i => some (.union (g.unions.get i))
  | _ => none

theorem record?_of_cell {g : Graph} {n : Node} {c : Cell} (h : g.cell? n = some c) : g.record? n = some c := by
  cases n with
  | nameSpace i | model i | property i | enum i | member i | interface i | operation i | union i =>
    obtain ⟨a, ha, rfl⟩ := Option.map_eq_some_iff.1 h
    rw [← Table.get_of_get? ha]
    rfl
  | _ => cases h

/-- The nodes that a node refers to. -/
def links (g : Graph) : Node → List Node
  | .array _ element => [element]
  | n => ((g.record? n).map Cell.links).getD []

/-- Whether a node can be come by from the root. -/
def Reaches (g : Graph) (n : Node) : Prop :=
  Relation.ReflTransGen (fun n m => m ∈ g.links n) (.nameSpace root) n

/-- Whether the name of a node, if it is of a kind that has names, is a text.  A union need not have a name. -/
def HasTextName (g : Graph) : Node → Prop
  | .union i => (g.unions.get i).name.isText = true ∨ (g.unions.get i).name.isAbsent = true
  | n => ∀ l ∈ g.name? n, l.isText = true

instance (g : Graph) : DecidablePred g.HasTextName := fun n =>
  match n with
  | .union _ => inferInstanceAs (Decidable (_ ∨ _))
  | .nameSpace _ | .model _ | .property _ | .enum _ | .member _ | .interface _ | .operation _ | .array _ _
  | .parameter _ _ | .literal _ _ _ | .intrinsic _ _ | .foreign _ => inferInstanceAs (Decidable (∀ l ∈ _, _))

/-- Whether all reachable nodes have texts for names. -/
def HasTextNames (g : Graph) : Prop := ∀ n, g.Reaches n → g.HasTextName n

section

variable {g : Graph} {n m : Node} {i : Nat}

theorem reaches_root (g : Graph) : g.Reaches (.nameSpace root) := Relation.ReflTransGen.refl

theorem Reaches.link (h : g.Reaches n) (hm : m ∈ g.links n) : g.Reaches m := Relation.ReflTransGen.tail h hm

theorem Reaches.record {c : Cell} (h : g.Reaches n) (hc : g.record? n = some c) (hm : m ∈ c.links) : g.Reaches m := by
  refine h.link ?_
  cases n with
  | array _ _ => cases hc
  | _ =>
    rw [links]
    · simpa [hc] using hm
    · simp

/-- What is reachable is in each list that has the root and the links of what it has. -/
theorem Reaches.mem_of_closed {l : List Node} (h : g.Reaches n) (hroot : .nameSpace root ∈ l)
    (hlinks : ∀ n ∈ l, ∀ m ∈ g.links n, m ∈ l) : n ∈ l := by
  induction h with
  | refl => exact hroot
  | tail _ hm ih => exact hlinks _ ih _ hm

theorem Reaches.element {serial : Nat} (h : g.Reaches (.array serial n)) : g.Reaches n :=
  h.link (List.mem_singleton_self n)

theorem Reaches.option (h : g.Reaches (.union i)) (hn : n ∈ (g.unions.get i).options) : g.Reaches n :=
  h.link (Cell.mem_links.2 (.inr (.inl hn)))

theorem Reaches.member {c : Cell} (h : g.Reaches n) (hc : g.record? n = some c) (hm : m ∈ c.members) : g.Reaches m :=
  h.record hc (Cell.mem_links.2 (.inl hm))

theorem Reaches.type {c : Cell} (h : g.Reaches n) (hc : g.record? n = some c) (hm : m ∈ c.types) : g.Reaches m :=
  h.record hc (Cell.mem_links.2 (.inr (.inl hm)))

theorem Reaches.expandWithin (h : g.Reaches (.nameSpace i)) (fuel : Nat) {j : NamespaceId}
    (hj : j ∈ g.expandWithin fuel i) : g.Reaches (.nameSpace j) := by
  induction fuel generalizing i with
  | zero =>
    rw [List.mem_singleton.1 hj]
    exact h
  | succ fuel ih =>
    obtain rfl | hj := List.mem_cons.1 hj
    · exact h
    · obtain ⟨k, hk, hj⟩ := List.mem_flatMap.1 hj
      exact ih (h.member rfl (by simpa [Cell.members, Namespace.members])) hj

/-! ### Names -/

/-- It is enough to look at the nodes of a list that has the root and the links of what it has. -/
theorem hasTextNames_of_closed {l : List Node} (hroot : .nameSpace root ∈ l)
    (hl : ∀ n ∈ l, g.HasTextName n ∧ ∀ m ∈ g.links n, m ∈ l) : g.HasTextNames :=
  fun n hn => (hl n (hn.mem_of_closed hroot fun n hn => (hl n hn).2)).1

/-- A name on the way to a namespace is its own name or one on the way to the namespace around it. -/
theorem mem_namesWithin {fuel : Nat} {i : NamespaceId} {l : Label} (hl : l ∈ g.namesWithin (fuel + 1) i) :
    (∃ p, (g.namespaces.get i).parent = some p ∧ l ∈ g.namesWithin fuel p) ∨ l = (g.namespaces.get i).name := by
  rw [namesWithin] at hl
  cases hp : (g.namespaces.get i).parent with
  | none =>
    rw [hp] at hl
    refine .inr ?_
    split at hl
    · exact List.mem_singleton.1 hl
    · cases hl
  | some p =>
    rw [hp] at hl
    split at hl
    · obtain hl | hl := List.mem_append.1 hl
      · exact .inl ⟨p, rfl, hl⟩
      · exact .inr (List.mem_singleton.1 hl)
    · exact .inl ⟨p, rfl, hl⟩

namespace HasTextNames

theorem isText_of_name? (h : g.HasTextNames) (hn : g.Reaches n) (hunion : ∀ i, n ≠ .union i) {l : Label}
    (hl : g.name? n = some l) : l.isText = true := by
  have hname := h n hn
  cases n with
  | union i => exact absurd rfl (hunion i)
  | _ => exact hname l hl

theorem isText_namesWithin (h : g.HasTextNames) (fuel : Nat) {i : NamespaceId} (hi : g.Reaches (.nameSpace i)) :
    ∀ l ∈ g.namesWithin fuel i, l.isText = true := by
  induction fuel generalizing i with
  | zero =>
    intro l hl
    cases hl
  | succ fuel ih =>
    intro l hl
    obtain ⟨p, hp, hl⟩ | rfl := mem_namesWithin hl
    · refine ih (hi.link (Cell.mem_links.2 (.inr (.inr ?_)))) l hl
      simp [Cell.owners, Cell.owner, hp]
    · exact h.isText_of_name? hi (by simp) rfl

theorem hasTextPath (h : g.HasTextNames) {i : NamespaceId} (hi : g.Reaches (.nameSpace i)) :
    g.hasTextPath i = true :=
  List.all_eq_true.2 (h.isText_namesWithin _ hi)

theorem isIdentifiable (h : g.HasTextNames) (hn : g.Reaches n) : g.isIdentifiable n = true := by
  have howner : ∀ {o : Option NamespaceId}, (∀ i ∈ o, .nameSpace i ∈ g.links n) → o.all g.hasTextPath = true := by
    intro o ho
    cases o with
    | none => rfl
    | some i => exact h.hasTextPath (hn.link (ho i rfl))
  induction n with
  | array _ element ih =>
    refine ih hn.element fun {o} ho => ?_
    cases o with
    | none => rfl
    | some i => exact h.hasTextPath (hn.element.link (ho i rfl))
  | nameSpace i => exact h.hasTextPath hn
  | model i | enum i | union i | operation i | interface i =>
    refine howner fun j hj => Cell.mem_links.2 (.inr (.inr (List.mem_append_left _ ?_)))
    exact List.mem_map.2 ⟨j, Option.mem_toList.2 hj, rfl⟩
  | _ => rfl

theorem idLabel_eq (h : g.HasTextNames) (hn : g.Reaches n) : g.idLabel n = .text (g.qualifiedId n) := by
  rw [idLabel, h.isIdentifiable hn, if_pos rfl]

theorem isText_typeNameWith (h : g.HasTextNames) {unionName : UnionId → Label}
    (hunion : ∀ i, g.Reaches (.union i) → (unionName i).isText = true) (hn : g.Reaches n) :
    (g.typeNameWith unionName n).isText = true := by
  induction n with
  | array _ element ih =>
    have helement := ih hn.element
    rw [typeNameWith]
    cases hname : g.typeNameWith unionName element with
    | text t => rfl
    | _ =>
      rw [hname] at helement
      cases helement
  | union i => exact hunion i hn
  | model i =>
    obtain ⟨t, ht⟩ := Label.isText_iff.1 (h.isText_of_name? hn (by simp) rfl)
    rw [typeNameWith, ht, modelTypeName]
    split <;> rfl
  | nameSpace i | operation i | interface i | enum i | parameter i name =>
    exact h.isText_of_name? hn (by simp) rfl
  | _ => rfl

theorem isText_unionNameWithin (h : g.HasTextNames) (fuel : Nat) {i : UnionId} (hi : g.Reaches (.union i)) :
    (g.unionNameWithin fuel i).isText = true := by
  induction fuel generalizing i with
  | zero => rfl
  | succ fuel ih =>
    rw [unionNameWithin]
    have hoptions : ∀ l ∈ (g.unions.get i).options.map (g.typeNameWith (g.unionNameWithin fuel)),
        l.isText = true := by
      intro l hl
      obtain ⟨n, hn, rfl⟩ := List.mem_map.1 hl
      exact h.isText_typeNameWith (fun j hj => ih hj) (hi.option hn)
    exact Label.isText_join hoptions

theorem isText_typeName (h : g.HasTextNames) (hn : g.Reaches n) : (g.typeName n).isText = true :=
  h.isText_typeNameWith (fun _ hi => h.isText_unionNameWithin _ hi) hn

end HasTextNames

end

end Graph

end Edm
