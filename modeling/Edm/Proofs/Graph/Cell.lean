import Edm.Graph

/-!
# Graphs as cells

A graph holds a record for each of its nodes.  `Graph.cell?` reads the record of any node, so that what a
change does to a graph is said once for all kinds of nodes: a new node adds one cell, a change replaces one,
and all other cells stay.  The kinds differ in nothing but their tables, so this is proved for any table
(`NodeTable.cell?_push`, `NodeTable.cell?_modify_ne`), of which each kind is an instance.
-/

namespace Edm

namespace Table

variable {α : Type}

/-- The entry with a number, if there is one. -/
def get? (t : Table α) (i : Nat) : Option α := t.entries[i]?

theorem get?_push (t : Table α) (a : α) (i : Nat) :
    (t.push a).get? i = if i = t.size then some a else t.get? i := by
  show (t.entries.push a)[i]? = if i = t.entries.size then some a else t.entries[i]?
  rw [Array.getElem?_push]

theorem get?_modify (t : Table α) (i j : Nat) (f : α → α) :
    (t.modify i f).get? j = if j = i then (t.get? j).map f else t.get? j := by
  simp only [get?, modify, Array.getElem?_modify]
  by_cases h : j = i
  · rw [if_pos h, if_pos h.symm]
  · rw [if_neg h, if_neg (Ne.symm h)]

theorem map_get?_push {β : Type} (c : α → β) (t : Table α) (a : α) (i : Nat) :
    ((t.push a).get? i).map c = if i = t.size then some (c a) else (t.get? i).map c := by
  rw [get?_push]
  split <;> rfl

theorem map_get?_modify {β : Type} (c : α → β) (t : Table α) (i j : Nat) (f : α → α) :
    ((t.modify i f).get? j).map c = if j = i then (t.get? j).map fun a => c (f a) else (t.get? j).map c := by
  rw [get?_modify]
  split
  · rw [Option.map_map]
    rfl
  · rfl

theorem get_eq_getD [Inhabited α] (t : Table α) (i : Nat) : t.get i = (t.get? i).getD default := by
  simp [get, get?, Array.getD_eq_getD_getElem?]

theorem get_of_get? [Inhabited α] {t : Table α} {i : Nat} {a : α} (h : t.get? i = some a) : t.get i = a := by
  rw [get_eq_getD, h, Option.getD_some]

theorem get?_size (t : Table α) : t.get? t.size = none := by
  simp [get?, size]

theorem lt_size_of_get? {t : Table α} {i : Nat} (h : (t.get? i).isSome) : i < t.size := by
  rw [get?] at h
  simpa [size] using h

end Table

/-- A namespace without its declarations. -/
def Namespace.bare (s : Namespace) : Namespace :=
  { name := s.name, parent := s.parent, namespaces := s.namespaces }

/-- What a graph holds for a node. -/
inductive Cell
  | nameSpace (n : Namespace)
  | model (m : Model)
  | property (q : Property)
  | enum (e : Enum)
  | member (m : Member)
  | interface (f : Interface)
  | operation (o : Operation)
  | union (u : Union)

namespace Graph

/-- The record of a node; types that carry their content with them have none. -/
def cell? (g : Graph) : Node → Option Cell
  | .nameSpace i => (g.namespaces.get? i).map .nameSpace
  | .model i => (g.models.get? i).map .model
  | .property i => (g.properties.get? i).map .property
  | .enum i => (g.enums.get? i).map .enum
  | .member i => (g.members.get? i).map .member
  | .interface i => (g.interfaces.get? i).map .interface
  | .operation i => (g.operations.get? i).map .operation
  | .union i => (g.unions.get? i).map .union
  | _ => none

end Graph

/-! ### Tables of nodes -/

/-- One of the tables of a graph: the nodes whose records it holds, what a record is as a cell, and how it is read and
replaced.  Another table in its place leaves the cells of all other nodes as they are. -/
structure NodeTable (α : Type) where
  node : Nat → Node
  cell : α → Cell
  table : Graph → Table α
  withTable : Graph → Table α → Graph
  node_injective : Function.Injective node
  cell_injective : Function.Injective cell
  cell?_node (g : Graph) (i : Nat) : g.cell? (node i) = ((table g).get? i).map cell
  table_withTable (g : Graph) (t : Table α) : table (withTable g t) = t
  cell?_withTable (g : Graph) (t : Table α) (n : Node) : (∀ i, n ≠ node i) → (withTable g t).cell? n = g.cell? n

namespace NodeTable

section

variable {α : Type} (k : NodeTable α) {g : Graph} {i : Nat} {n : Node} {a : α}

theorem get_of_cell [Inhabited α] (h : g.cell? (k.node i) = some (k.cell a)) : (k.table g).get i = a := by
  rw [k.cell?_node] at h
  obtain ⟨b, hb, hcell⟩ := Option.map_eq_some_iff.1 h
  rw [Table.get_of_get? hb, k.cell_injective hcell]

theorem exists_cell (h : (g.cell? (k.node i)).isSome = true) : ∃ a, g.cell? (k.node i) = some (k.cell a) := by
  obtain ⟨c, hc⟩ := Option.isSome_iff_exists.1 h
  obtain ⟨a, -, rfl⟩ := Option.map_eq_some_iff.1 ((k.cell?_node g i).symm.trans hc)
  exact ⟨a, hc⟩

/-- One more record is the cell of one more node. -/
theorem cell?_push (g : Graph) (n : Node) (a : α) : (k.withTable g ((k.table g).push a)).cell? n
    = if n = k.node (k.table g).size then some (k.cell a) else g.cell? n := by
  by_cases hn : ∃ j, n = k.node j
  · obtain ⟨j, rfl⟩ := hn
    rw [k.cell?_node, k.table_withTable, Table.map_get?_push, ← k.cell?_node]
    simp only [k.node_injective.eq_iff]
  · rw [k.cell?_withTable _ _ _ fun j hj => hn ⟨j, hj⟩, if_neg fun hj => hn ⟨_, hj⟩]

/-- A change of a record, told by what it does to the cell. -/
theorem cell?_modify_map {c : α → α} {f : Cell → Cell} (hf : ∀ a, f (k.cell a) = k.cell (c a)) :
    (k.withTable g ((k.table g).modify i c)).cell? (k.node i) = (g.cell? (k.node i)).map f := by
  rw [k.cell?_node, k.table_withTable, Table.map_get?_modify, if_pos rfl, k.cell?_node, Option.map_map]
  exact congrArg (Option.map · _) (funext fun a => (hf a).symm)

theorem cell?_modify_self (h : g.cell? (k.node i) = some (k.cell a)) (c : α → α) :
    (k.withTable g ((k.table g).modify i c)).cell? (k.node i) = some (k.cell (c a)) := by
  rw [k.cell?_node] at h
  obtain ⟨b, hb, hcell⟩ := Option.map_eq_some_iff.1 h
  rw [k.cell?_node, k.table_withTable, Table.map_get?_modify, if_pos rfl, hb, k.cell_injective hcell]
  rfl

theorem cell?_modify_ne (h : n ≠ k.node i) (c : α → α) :
    (k.withTable g ((k.table g).modify i c)).cell? n = g.cell? n := by
  by_cases hn : ∃ j, n = k.node j
  · obtain ⟨j, rfl⟩ := hn
    rw [k.cell?_node, k.table_withTable, Table.map_get?_modify, if_neg fun hj => h (congrArg k.node hj), k.cell?_node]
  · exact k.cell?_withTable _ _ _ fun j hj => hn ⟨j, hj⟩

end

/-- The table of namespaces. -/
def namespaces : NodeTable Namespace where
  node := .nameSpace
  cell := .nameSpace
  table := Graph.namespaces
  withTable g t := { g with namespaces := t }
  node_injective _ _ := Node.nameSpace.inj
  cell_injective _ _ := Cell.nameSpace.inj
  cell?_node _ _ := rfl
  table_withTable _ _ := rfl
  cell?_withTable g t n h := by
    cases n with
    | nameSpace i => exact (h i rfl).elim
    | _ => rfl

/-- The table of models. -/
def models : NodeTable Model where
  node := .model
  cell := .model
  table := Graph.models
  withTable g t := { g with models := t }
  node_injective _ _ := Node.model.inj
  cell_injective _ _ := Cell.model.inj
  cell?_node _ _ := rfl
  table_withTable _ _ := rfl
  cell?_withTable g t n h := by
    cases n with
    | model i => exact (h i rfl).elim
    | _ => rfl

/-- The table of properties. -/
def properties : NodeTable Property where
  node := .property
  cell := .property
  table := Graph.properties
  withTable g t := { g with properties := t }
  node_injective _ _ := Node.property.inj
  cell_injective _ _ := Cell.property.inj
  cell?_node _ _ := rfl
  table_withTable _ _ := rfl
  cell?_withTable g t n h := by
    cases n with
    | property i => exact (h i rfl).elim
    | _ => rfl

/-- The table of enums. -/
def enums : NodeTable Enum where
  node := .enum
  cell := .enum
  table := Graph.enums
  withTable g t := { g with enums := t }
  node_injective _ _ := Node.enum.inj
  cell_injective _ _ := Cell.enum.inj
  cell?_node _ _ := rfl
  table_withTable _ _ := rfl
  cell?_withTable g t n h := by
    cases n with
    | enum i => exact (h i rfl).elim
    | _ => rfl

/-- The table of members. -/
def members : NodeTable Member where
  node := .member
  cell := .member
  table := Graph.members
  withTable g t := { g with members := t }
  node_injective _ _ := Node.member.inj
  cell_injective _ _ := Cell.member.inj
  cell?_node _ _ := rfl
  table_withTable _ _ := rfl
  cell?_withTable g t n h := by
    cases n with
    | member i => exact (h i rfl).elim
    | _ => rfl

/-- The table of interfaces. -/
def interfaces : NodeTable Interface where
  node := .interface
  cell := .interface
  table := Graph.interfaces
  withTable g t := { g with interfaces := t }
  node_injective _ _ := Node.interface.inj
  cell_injective _ _ := Cell.interface.inj
  cell?_node _ _ := rfl
  table_withTable _ _ := rfl
  cell?_withTable g t n h := by
    cases n with
    | interface i => exact (h i rfl).elim
    | _ => rfl

/-- The table of operations. -/
def operations : NodeTable Operation where
  node := .operation
  cell := .operation
  table := Graph.operations
  withTable g t := { g with operations := t }
  node_injective _ _ := Node.operation.inj
  cell_injective _ _ := Cell.operation.inj
  cell?_node _ _ := rfl
  table_withTable _ _ := rfl
  cell?_withTable g t n h := by
    cases n with
    | operation i => exact (h i rfl).elim
    | _ => rfl

/-- The table of unions. -/
def unions : NodeTable Union where
  node := .union
  cell := .union
  table := Graph.unions
  withTable g t := { g with unions := t }
  node_injective _ _ := Node.union.inj
  cell_injective _ _ := Cell.union.inj
  cell?_node _ _ := rfl
  table_withTable _ _ := rfl
  cell?_withTable g t n h := by
    cases n with
    | union i => exact (h i rfl).elim
    | _ => rfl

end NodeTable

namespace Graph

/-! ### Records of a kind -/

section

variable {g : Graph} {i : Nat}

theorem get_nameSpace {n : Namespace} (h : g.cell? (.nameSpace i) = some (.nameSpace n)) : g.namespaces.get i = n :=
  NodeTable.namespaces.get_of_cell h

theorem get_model {m : Model} (h : g.cell? (.model i) = some (.model m)) : g.models.get i = m :=
  NodeTable.models.get_of_cell h

theorem get_property {q : Property} (h : g.cell? (.property i) = some (.property q)) : g.properties.get i = q :=
  NodeTable.properties.get_of_cell h

theorem get_enum {e : Enum} (h : g.cell? (.enum i) = some (.enum e)) : g.enums.get i = e :=
  NodeTable.enums.get_of_cell h

theorem get_member {m : Member} (h : g.cell? (.member i) = some (.member m)) : g.members.get i = m :=
  NodeTable.members.get_of_cell h

theorem get_interface {f : Interface} (h : g.cell? (.interface i) = some (.interface f)) : g.interfaces.get i = f :=
  NodeTable.interfaces.get_of_cell h

theorem get_operation {o : Operation} (h : g.cell? (.operation i) = some (.operation o)) : g.operations.get i = o :=
  NodeTable.operations.get_of_cell h

theorem get_union {u : Union} (h : g.cell? (.union i) = some (.union u)) : g.unions.get i = u :=
  NodeTable.unions.get_of_cell h

theorem exists_nameSpace (h : (g.cell? (.nameSpace i)).isSome = true) :
    ∃ s, g.cell? (.nameSpace i) = some (.nameSpace s) :=
  NodeTable.namespaces.exists_cell h

theorem exists_model (h : (g.cell? (.model i)).isSome = true) : ∃ m, g.cell? (.model i) = some (.model m) :=
  NodeTable.models.exists_cell h

theorem exists_property (h : (g.cell? (.property i)).isSome = true) : ∃ q, g.cell? (.property i) = some (.property q) :=
  NodeTable.properties.exists_cell h

theorem exists_enum (h : (g.cell? (.enum i)).isSome = true) : ∃ e, g.cell? (.enum i) = some (.enum e) :=
  NodeTable.enums.exists_cell h

theorem exists_interface (h : (g.cell? (.interface i)).isSome = true) :
    ∃ f, g.cell? (.interface i) = some (.interface f) :=
  NodeTable.interfaces.exists_cell h

theorem exists_operation (h : (g.cell? (.operation i)).isSome = true) :
    ∃ o, g.cell? (.operation i) = some (.operation o) :=
  NodeTable.operations.exists_cell h

theorem exists_union (h : (g.cell? (.union i)).isSome = true) : ∃ u, g.cell? (.union i) = some (.union u) :=
  NodeTable.unions.exists_cell h

end

/-! ### New nodes -/

section

variable (g : Graph) (n : Node)

theorem cell?_newNamespace (s : Namespace) : (g.newNamespace s).2.cell? n
    = if n = .nameSpace g.namespaces.size then some (.nameSpace s) else g.cell? n :=
  NodeTable.namespaces.cell?_push g n s

theorem cell?_newModel (m : Model) : (g.newModel m).2.cell? n
    = if n = .model g.models.size then some (.model m) else g.cell? n :=
  NodeTable.models.cell?_push g n m

theorem cell?_newProperty (q : Property) : (g.newProperty q).2.cell? n
    = if n = .property g.properties.size then some (.property q) else g.cell? n :=
  NodeTable.properties.cell?_push g n q

theorem cell?_newEnum (e : Enum) : (g.newEnum e).2.cell? n
    = if n = .enum g.enums.size then some (.enum e) else g.cell? n :=
  NodeTable.enums.cell?_push g n e

theorem cell?_newMember (m : Member) : (g.newMember m).2.cell? n
    = if n = .member g.members.size then some (.member m) else g.cell? n :=
  NodeTable.members.cell?_push g n m

theorem cell?_newInterface (f : Interface) : (g.newInterface f).2.cell? n
    = if n = .interface g.interfaces.size then some (.interface f) else g.cell? n :=
  NodeTable.interfaces.cell?_push g n f

theorem cell?_newUnion (u : Union) : (g.newUnion u).2.cell? n
    = if n = .union g.unions.size then some (.union u) else g.cell? n :=
  NodeTable.unions.cell?_push g n u

theorem cell?_newType (make : Nat → Node) : (g.newType make).2.cell? n = g.cell? n := by
  cases n <;> rfl

/-- A new operation comes with a new model for its parameters. -/
theorem cell?_newOperation (name : Label) (result : Option Node) : (g.newOperation name result).2.cell? n
    = if n = .operation g.operations.size then
        some (.operation { name, parameters := g.models.size, result })
      else if n = .model g.models.size then some (.model {})
      else g.cell? n := by
  have hmodel := cell?_newModel g n {}
  have hoperation := NodeTable.operations.cell?_push (g.newModel {}).2 n { name, parameters := g.models.size, result }
  rw [hmodel] at hoperation
  exact hoperation

end

/-! ### Changes -/

section

variable {g : Graph} {i : Nat} {n : Node}

theorem cell?_modifyNamespace_self {s : Namespace} (h : g.cell? (.nameSpace i) = some (.nameSpace s))
    (c : Namespace → Namespace) : (g.modifyNamespace i c).cell? (.nameSpace i) = some (.nameSpace (c s)) :=
  NodeTable.namespaces.cell?_modify_self h c

theorem cell?_modifyNamespace_ne (h : n ≠ .nameSpace i) (c : Namespace → Namespace) :
    (g.modifyNamespace i c).cell? n = g.cell? n :=
  NodeTable.namespaces.cell?_modify_ne h c

theorem cell?_modifyModel_self {m : Model} (h : g.cell? (.model i) = some (.model m)) (c : Model → Model) :
    (g.modifyModel i c).cell? (.model i) = some (.model (c m)) :=
  NodeTable.models.cell?_modify_self h c

theorem cell?_modifyModel_ne (h : n ≠ .model i) (c : Model → Model) : (g.modifyModel i c).cell? n = g.cell? n :=
  NodeTable.models.cell?_modify_ne h c

theorem cell?_modifyProperty_self {q : Property} (h : g.cell? (.property i) = some (.property q))
    (c : Property → Property) : (g.modifyProperty i c).cell? (.property i) = some (.property (c q)) :=
  NodeTable.properties.cell?_modify_self h c

theorem cell?_modifyProperty_ne (h : n ≠ .property i) (c : Property → Property) :
    (g.modifyProperty i c).cell? n = g.cell? n :=
  NodeTable.properties.cell?_modify_ne h c

theorem cell?_modifyEnum_self {e : Enum} (h : g.cell? (.enum i) = some (.enum e)) (c : Enum → Enum) :
    (g.modifyEnum i c).cell? (.enum i) = some (.enum (c e)) :=
  NodeTable.enums.cell?_modify_self h c

theorem cell?_modifyEnum_ne (h : n ≠ .enum i) (c : Enum → Enum) : (g.modifyEnum i c).cell? n = g.cell? n :=
  NodeTable.enums.cell?_modify_ne h c

theorem cell?_modifyInterface_self {f : Interface} (h : g.cell? (.interface i) = some (.interface f))
    (c : Interface → Interface) : (g.modifyInterface i c).cell? (.interface i) = some (.interface (c f)) :=
  NodeTable.interfaces.cell?_modify_self h c

theorem cell?_modifyInterface_ne (h : n ≠ .interface i) (c : Interface → Interface) :
    (g.modifyInterface i c).cell? n = g.cell? n :=
  NodeTable.interfaces.cell?_modify_ne h c

theorem cell?_modifyOperation_self {o : Operation} (h : g.cell? (.operation i) = some (.operation o))
    (c : Operation → Operation) : (g.modifyOperation i c).cell? (.operation i) = some (.operation (c o)) :=
  NodeTable.operations.cell?_modify_self h c

theorem cell?_modifyOperation_ne (h : n ≠ .operation i) (c : Operation → Operation) :
    (g.modifyOperation i c).cell? n = g.cell? n :=
  NodeTable.operations.cell?_modify_ne h c

theorem cell?_modifyUnion_self {u : Union} (h : g.cell? (.union i) = some (.union u)) (c : Union → Union) :
    (g.modifyUnion i c).cell? (.union i) = some (.union (c u)) :=
  NodeTable.unions.cell?_modify_self h c

theorem cell?_modifyUnion_ne (h : n ≠ .union i) (c : Union → Union) : (g.modifyUnion i c).cell? n = g.cell? n :=
  NodeTable.unions.cell?_modify_ne h c

end

end Graph

/-! ### Ownership -/

/-- A record whose node refers to a namespace as its owner. -/
def Cell.ownedBy (owner : NamespaceId) : Cell → Cell
  | nameSpace s => nameSpace { s with parent := some owner }
  | model m => model { m with owner := some owner }
  | enum e => enum { e with owner := some owner }
  | interface f => interface { f with owner := some owner }
  | operation o => operation { o with owner := some owner }
  | union u => union { u with owner := some owner }
  | c => c

/-- The name in a record. -/
def Cell.name : Cell → Label
  | nameSpace s => s.name
  | model m => m.name
  | property q => q.name
  | enum e => e.name
  | member m => m.name
  | interface f => f.name
  | operation o => o.name
  | union u => u.name

/-- The namespace that the node of a record refers to as its owner. -/
def Cell.owner : Cell → Option NamespaceId
  | nameSpace s => s.parent
  | model m => m.owner
  | enum e => e.owner
  | interface f => f.owner
  | operation o => o.owner
  | union u => u.owner
  | property _ | member _ => none

/-- A namespace that lists a node under a name. -/
def Namespace.listing (s : Namespace) (name : Label) : Node → Namespace
  | .nameSpace i => { s with namespaces := s.namespaces.insert name i }
  | .model i => { s with models := s.models.insert name i }
  | .enum i => { s with enums := s.enums.insert name i }
  | .interface i => { s with interfaces := s.interfaces.insert name i }
  | .operation i => { s with operations := s.operations.insert name i }
  | .union i => { s with unions := s.unions.insert name i }
  | _ => s

namespace Graph

section

variable {g : Graph} {owner : NamespaceId} {n m : Node}

theorem nameOf_of_cell {c : Cell} (h : g.cell? n = some c) : g.nameOf n = c.name := by
  cases n with
  | nameSpace i | model i | property i | enum i | member i | interface i | operation i | union i =>
    obtain ⟨a, ha, hc⟩ := Option.map_eq_some_iff.1 h
    cases hc
    rw [nameOf, name?, Option.getD_some, Table.get_of_get? ha]
    rfl
  | _ => cases h

theorem cell?_setOwner_self : (g.setOwner owner n).cell? n = (g.cell? n).map (Cell.ownedBy owner) := by
  cases n with
  | nameSpace i => exact NodeTable.namespaces.cell?_modify_map fun _ => rfl
  | model i => exact NodeTable.models.cell?_modify_map fun _ => rfl
  | enum i => exact NodeTable.enums.cell?_modify_map fun _ => rfl
  | interface i => exact NodeTable.interfaces.cell?_modify_map fun _ => rfl
  | operation i => exact NodeTable.operations.cell?_modify_map fun _ => rfl
  | union i => exact NodeTable.unions.cell?_modify_map fun _ => rfl
  | property i | member i =>
    show g.cell? _ = _
    rw [cell?, Option.map_map]
    rfl
  | _ => rfl

theorem cell?_setOwner_ne (h : m ≠ n) : (g.setOwner owner n).cell? m = g.cell? m := by
  cases n with
  | nameSpace i => exact cell?_modifyNamespace_ne h _
  | model i => exact cell?_modifyModel_ne h _
  | enum i => exact cell?_modifyEnum_ne h _
  | interface i => exact cell?_modifyInterface_ne h _
  | operation i => exact cell?_modifyOperation_ne h _
  | union i => exact cell?_modifyUnion_ne h _
  | _ => rfl

theorem cell?_enter_owner {s : Namespace} (h : g.cell? (.nameSpace owner) = some (.nameSpace s)) (name : Label) :
    (g.enter owner name n).cell? (.nameSpace owner) = some (.nameSpace (s.listing name n)) := by
  cases n with
  | nameSpace i | model i | enum i | interface i | operation i | union i =>
    exact cell?_modifyNamespace_self h _
  | _ => exact h

theorem cell?_enter_ne (h : m ≠ .nameSpace owner) (name : Label) :
    (g.enter owner name n).cell? m = g.cell? m := by
  cases n with
  | nameSpace i | model i | enum i | interface i | operation i | union i =>
    exact cell?_modifyNamespace_ne h _
  | _ => rfl

/-- A namespace that a node is listed in. -/
theorem cell?_list_owner {s : Namespace} (h : g.cell? (.nameSpace owner) = some (.nameSpace s))
    (hn : n ≠ .nameSpace owner) :
    (g.list owner n).cell? (.nameSpace owner) = some (.nameSpace (s.listing (g.nameOf n) n)) :=
  cell?_enter_owner (by rw [cell?_setOwner_ne (Ne.symm hn), h]) _

/-- A node that is listed in a namespace. -/
theorem cell?_list_self (hn : n ≠ .nameSpace owner) :
    (g.list owner n).cell? n = (g.cell? n).map (Cell.ownedBy owner) := by
  rw [list, cell?_enter_ne hn, cell?_setOwner_self]

theorem cell?_list_ne (hm : m ≠ .nameSpace owner) (hmn : m ≠ n) : (g.list owner n).cell? m = g.cell? m := by
  rw [list, cell?_enter_ne hm, cell?_setOwner_ne hmn]

theorem size_list (g : Graph) (owner : NamespaceId) (n : Node) :
    (g.list owner n).namespaces.size = g.namespaces.size := by
  unfold list
  cases n <;> simp [setOwner, enter, modifyNamespace, modifyModel, modifyEnum, modifyInterface,
    modifyOperation, modifyUnion]

/-- A namespace that is opened for the first time is the last one in its table, and the outer one lists it. -/
theorem cell?_openNamespace {s : Namespace} {name : Label}
    (h : g.cell? (.nameSpace owner) = some (.nameSpace s)) (hnone : s.namespaces.lookup name = none) :
    (g.openNamespace owner name).1 = g.namespaces.size
      ∧ (g.openNamespace owner name).2.namespaces.size = g.namespaces.size + 1
      ∧ ∀ n, (g.openNamespace owner name).2.cell? n
          = if n = .nameSpace g.namespaces.size then some (.nameSpace { name, parent := some owner })
            else if n = .nameSpace owner then
              some (.nameSpace { s with namespaces := s.namespaces.insert name g.namespaces.size })
            else g.cell? n := by
  have howner : owner < g.namespaces.size := by
    refine Table.lt_size_of_get? ?_
    obtain ⟨s', hs', -⟩ := Option.map_eq_some_iff.1 h
    rw [hs']
    rfl
  have hopen : g.openNamespace owner name
      = (g.namespaces.size, (g.newNamespace { name }).2.list owner (.nameSpace g.namespaces.size)) := by
    rw [openNamespace, get_nameSpace h, hnone]
    rfl
  have hnew := fun n => cell?_newNamespace g n { name }
  have hself : (g.newNamespace { name }).2.cell? (.nameSpace g.namespaces.size) = some (.nameSpace { name }) := by
    rw [hnew, if_pos rfl]
  have hne : (.nameSpace g.namespaces.size : Node) ≠ .nameSpace owner := by
    intro heq
    exact Nat.ne_of_gt howner (Node.nameSpace.inj heq)
  rw [hopen]
  refine ⟨rfl, ?_, fun n => ?_⟩
  · rw [size_list]
    exact Table.size_push ..
  · by_cases hn : n = .nameSpace g.namespaces.size
    · rw [if_pos hn, hn, cell?_list_self hne, hself]
      rfl
    · rw [if_neg hn]
      by_cases ho : n = .nameSpace owner
      · subst ho
        rw [if_pos rfl, cell?_list_owner (by rw [hnew, if_neg (Ne.symm hne), h]) hne, nameOf_of_cell hself]
        rfl
      · rw [if_neg ho, cell?_list_ne ho hn, hnew, if_neg hn]

/-! ### Properties, members and operations -/

/-- A new property is the last one in its table, and its model lists it. -/
theorem cell?_addProperty {i : ModelId} {model : Model} (h : g.cell? (.model i) = some (.model model))
    (name : Label) (type : Node) (optional : Bool) :
    (g.addProperty i name type optional).2.cell? n
      = if n = .property g.properties.size then some (.property { name, type, optional, owner := some i })
        else if n = .model i then
          some (.model { model with properties := model.properties.insert name g.properties.size })
        else g.cell? n := by
  unfold addProperty
  dsimp only
  have hnew := fun n => cell?_newProperty g n { name, type, optional, owner := some i }
  by_cases hn : n = .model i
  · subst hn
    rw [cell?_modifyModel_self (by rw [hnew, if_neg (by simp), h]), if_neg (by simp), if_pos rfl]
    rfl
  · rw [cell?_modifyModel_ne hn, hnew]
    simp [hn]

/-- A new member is the last one in its table, and the last one of its enum. -/
theorem cell?_addMember {i : EnumId} {e : Enum} (h : g.cell? (.enum i) = some (.enum e)) (name : Label)
    (value : Json) : (g.addMember i name value).2.cell? n
      = if n = .member g.members.size then some (.member { name, value, owner := some i })
        else if n = .enum i then some (.enum { e with members := e.members ++ [g.members.size] })
        else g.cell? n := by
  unfold addMember
  dsimp only
  have hnew := fun n => cell?_newMember g n { name, value, owner := some i }
  by_cases hn : n = .enum i
  · subst hn
    rw [cell?_modifyEnum_self (by rw [hnew, if_neg (by simp), h]), if_neg (by simp), if_pos rfl]
    rfl
  · rw [cell?_modifyEnum_ne hn, hnew]
    simp [hn]

/-- An operation that an interface lists refers to it, and to the namespace of the interface. -/
theorem cell?_addOperation {i : InterfaceId} {j : OperationId} {f : Interface} {o : Operation}
    (hf : g.cell? (.interface i) = some (.interface f)) (ho : g.cell? (.operation j) = some (.operation o)) :
    (g.addOperation i j).cell? n
      = if n = .operation j then some (.operation { o with interface := some i, owner := f.owner })
        else if n = .interface i then
          some (.interface { f with operations := f.operations.insert o.name j })
        else g.cell? n := by
  unfold addOperation setInterface
  dsimp only
  rw [get_interface hf, get_operation ho]
  by_cases hn : n = .interface i
  · subst hn
    rw [cell?_modifyInterface_self (by rw [cell?_modifyOperation_ne (by simp), hf]), if_neg (by simp),
      if_pos rfl]
  · rw [cell?_modifyInterface_ne hn, if_neg hn]
    by_cases hj : n = .operation j
    · subst hj
      rw [cell?_modifyOperation_self ho, if_pos rfl]
    · rw [cell?_modifyOperation_ne hj, if_neg hj]

end

end Graph

end Edm
