import Edm.Document.EntitySet
import Edm.Proofs.Description.Reading
import Edm.Proofs.Loading.Consistent
import Edm.Proofs.Loading.Listed
import Edm.Proofs.Loading.Loaded
import Edm.Proofs.Loading.Typed

/-!
# What is resolved in a loaded program

The declarations of a description fit together (`Program.consistent_of_load`), so once the references are settled
every node is as it was declared but for the types that it is made of, and each of these is a type that some
expression stands for (`Declarations.Resolves`).  The types of all properties and the results of all operations
are among them, and none is the placeholder for a type that is not resolved.
-/

namespace Edm

/-! ### Names of unions -/

/-- A name that a namespace lists is not absent. -/
theorem Label.isAbsent_of_truthy {l : Label} (h : l.truthy = true) : l.isAbsent = false := by
  cases l with
  | raw v =>
    cases v with
    | null => cases h
    | _ => rfl
  | _ => rfl

theorem NamespaceEntry.IsRead.isAbsent_union {o : Opening} (h : NamespaceEntry.IsRead o) :
    ∀ u ∈ o.2.unions, u.name.isAbsent = false := by
  intro u hu
  have hnamed : (Kind.union, u.name) ∈ o.2.named := by
    simp only [DeclarationEntries.named, List.mem_append, List.mem_map]
    exact .inl (.inl (.inr ⟨u, hu, rfl⟩))
  exact Label.isAbsent_of_truthy (h.truthy_named hnamed)

namespace Declarations

/-! ### Nodes of expressions -/

/-- An expression stands for a node. -/
def IsMade (d : Declarations) (g : Graph) (n : Node) : Prop := ∃ scope e, d.Denotes g scope e n

section

variable {d : Declarations} {g : Graph} {n : Node} {i : Nat}

theorem DenoteAll.isMade {scope : List Text} {es : List TypeExpr} {ns : List Node} :
    d.DenoteAll g scope es ns → ∀ n ∈ ns, d.IsMade g n
  | .nil, _, hn => (List.not_mem_nil hn).elim
  | .cons h hs, n, hn => by
    rcases List.mem_cons.1 hn with rfl | hn
    · exact ⟨_, _, h⟩
    · exact hs.isMade n hn

theorem Meets.isMade {r : Reference} {c c' : Cell} (h : d.Meets g r c c') : ∀ n ∈ c'.types, d.IsMade g n := by
  intro n hn
  cases h with
  | base _ h | property _ h | result _ h =>
    rw [List.mem_singleton.1 hn]
    exact ⟨_, _, h⟩
  | options _ h => exact h.isMade n hn

theorem Consistent.has_of_known? (hd : d.Consistent) {scope : List Text} {name : Text}
    (h : d.known? scope name = some n) : d.Has n := by
  rcases Option.or_eq_some_iff.1 h with hbuiltIn | ⟨-, hfrom⟩
  · exact hd.builtIns _ (mem_of_find hbuiltIn)
  · obtain ⟨site, hmem⟩ := mem_of_findFrom hfrom
    exact hd.types _ hmem

theorem Consistent.isMade_element (hd : d.Consistent) {serial : Nat} (hn : d.IsMade g (.array serial n)) :
    d.IsMade g n := by
  obtain ⟨scope, e, hdenotes⟩ := hn
  cases hdenotes with
  | named _ hknown => cases hd.has_of_known? hknown
  | array _ helement => exact ⟨scope, _, helement⟩

theorem Consistent.kind_of_isMade (hd : d.Consistent) (hn : d.IsMade g n) : ∃ k, n.kind? = some k := by
  obtain ⟨scope, e, hdenotes⟩ := hn
  cases hdenotes with
  | named _ hknown =>
    have hhas := hd.has_of_known? hknown
    cases n with
    | foreign className => cases hhas
    | _ => exact ⟨_, rfl⟩
  | _ => exact ⟨_, rfl⟩

/-- A type of an expression that is no union and that a namespace can list is declared. -/
theorem Consistent.has_of_isMade (hd : d.Consistent) (hn : d.IsMade g n) {k : Kind} (hk : n.declarableKind? = some k)
    (hunion : k ≠ .union) : d.Has n := by
  obtain ⟨scope, e, hdenotes⟩ := hn
  cases hdenotes with
  | named _ hknown => exact hd.has_of_known? hknown
  | union _ _ _ =>
    cases hk
    exact absurd rfl hunion
  | _ => cases hk

/-! ### Settled records -/

/-- A record after all references are settled: it differs only in the types that the node is made of. -/
structure Resolves (d : Declarations) (g : Graph) (c c' : Cell) : Prop where
  name : c'.name = c.name
  owner : c'.owner = c.owner
  members : c'.members = c.members
  types : ∀ n ∈ c'.types, d.IsMade g n
  base : ∀ m, c' = .model m → ∀ n, m.base = some n → ∃ i, n = .model i

theorem Meets.resolves {r : Reference} {c c' : Cell} (h : d.Meets g r c c') : d.Resolves g c c' := by
  have htypes := h.isMade
  cases h with
  | base _ _ =>
    refine ⟨rfl, rfl, rfl, htypes, fun m hm n hn => ?_⟩
    cases hm
    cases hn
    exact ⟨_, rfl⟩
  | property _ _ | options _ _ | result _ _ => exact ⟨rfl, rfl, rfl, htypes, fun m hm => by cases hm⟩

variable (hd : d.Consistent) (h : d.settleAll = .ok g)

include hd h

theorem Consistent.resolves {c : Cell} (hc : d.graph.cell? n = some c) :
    ∃ c', g.cell? n = some c' ∧ d.Resolves g c c' := by
  obtain ⟨c', hc', ⟨rfl, hnone⟩ | ⟨r, -, -, hmeets⟩⟩ := settleEach_cell (holds_graph d) hd.tidy.references h hc
  · -- a node that waits for nothing is made of no types
    have htypes : c'.types = [] := by
      rcases (hd.fits _ _ hc).types with hempty | ⟨r, hr, htarget⟩
      · exact hempty
      · exact absurd htarget (hnone r hr)
    refine ⟨c', hc', rfl, rfl, rfl, fun m hm => by simp [htypes] at hm, fun m hm b hb => ?_⟩
    subst hm
    simp [Cell.types, hb] at htypes
  · exact ⟨c', hc', hmeets.resolves⟩

theorem Consistent.carries : d.graph.Carries g := by
  intro n c hc
  obtain ⟨c', hc', ⟨rfl, -⟩ | ⟨r, -, -, hmeets⟩⟩ := settleEach_cell (holds_graph d) hd.tidy.references h hc
  · exact ⟨_, hc', rfl, fun s hs => by rw [hs]⟩
  · refine ⟨c', hc', hmeets.frame.1, ?_⟩
    rintro s rfl
    cases hmeets

theorem Consistent.has_cell {c : Cell} (hn : d.Has n) (hc : g.cell? n = some c) :
    ∃ c₀, d.graph.cell? n = some c₀ ∧ d.Resolves g c₀ c := by
  obtain ⟨c₀, hc₀⟩ := has_iff.1 hn
  obtain ⟨c', hc', hresolves⟩ := hd.resolves h hc₀
  cases hc.symm.trans hc'
  exact ⟨c₀, hc₀, hresolves⟩

theorem Consistent.has_member {c : Cell} {m : Node} (hn : d.Has n) (hc : g.cell? n = some c) (hm : m ∈ c.members) :
    d.Has m := by
  obtain ⟨c₀, hc₀, hresolves⟩ := hd.has_cell h hn hc
  rw [hresolves.members] at hm
  exact (hd.fits _ _ hc₀).members m hm

theorem Consistent.isMade_type {c : Cell} {m : Node} (hn : d.Has n) (hc : g.cell? n = some c) (hm : m ∈ c.types) :
    d.IsMade g m := by
  obtain ⟨c₀, -, hresolves⟩ := hd.has_cell h hn hc
  exact hresolves.types m hm

/-- A declared node that belongs to a namespace is listed there under its name, or one that took its place. -/
theorem Consistent.listsNamed {c : Cell} {k : Kind} {space : NamespaceId} {t : Text} (hn : d.Has n)
    (hc : g.cell? n = some c) (hk : n.declarableKind? = some k) (hspace : k ≠ .nameSpace) (hoperation : k ≠ .operation)
    (howner : c.owner = some space) (hname : c.name = .text t) : g.ListsNamed space t k := by
  obtain ⟨c₀, hc₀, hresolves⟩ := hd.has_cell h hn hc
  have hlisted := (hd.fits _ _ hc₀).listed hk hspace hoperation (hresolves.owner.symm.trans howner)
    (hresolves.name.symm.trans hname)
  exact hlisted.carry (hd.carries h)

theorem Consistent.cell_of_has (hn : d.Has n) : ∃ c, g.cell? n = some c := by
  obtain ⟨c₀, hc₀⟩ := has_iff.1 hn
  obtain ⟨c, hc, -⟩ := hd.resolves h hc₀
  exact ⟨c, hc⟩

/-! ### Parts of types -/

/-- A union that an expression stands for has types of expressions for options, whether it is declared or is
written in place. -/
theorem Consistent.isMade_option (hi : d.IsMade g (.union i)) : ∀ n ∈ (g.unions.get i).options, d.IsMade g n := by
  intro n hn
  have hdeclared : d.Has (.union i) → d.IsMade g n := by
    intro hhas
    obtain ⟨c, hc⟩ := hd.cell_of_has h hhas
    obtain ⟨u, hu⟩ := Graph.exists_union (by rw [hc]; rfl)
    rw [Graph.get_union hu] at hn
    exact hd.isMade_type h hhas hu hn
  obtain ⟨scope, e, hdenotes⟩ := hi
  cases hdenotes with
  | named _ hknown => exact hdeclared (hd.has_of_known? hknown)
  | union _ hcell hoptions =>
    rw [Graph.get_union hcell] at hn
    exact hoptions.isMade n hn

end

/-! ### The placeholder -/

section

variable {d : Declarations} {g : Graph} {n : Node}

theorem Has.ne_unresolved (h : d.Has n) : n ≠ .unresolved := by
  rintro rfl
  cases h

/-- No property keeps the placeholder for its type. -/
theorem Consistent.type_ne_unresolved (hd : d.Consistent) (h : d.settleAll = .ok g) {i : PropertyId} {q : Property}
    (hq : g.cell? (.property i) = some (.property q)) : q.type ≠ .unresolved := by
  have htype := (typed_of_settleAll hd h hq).types _ (List.mem_singleton_self _)
  refine htype.ne_unresolved ?_
  rintro m ⟨scope, name, hknown⟩
  exact (hd.has_of_known? hknown).ne_unresolved

end

end Declarations

/-! ### Reachable declarations -/

namespace Declarations

/-- A declared node that is reachable. -/
structure Reached (d : Declarations) (g : Graph) (n : Node) : Prop where
  reaches : g.Reaches n
  has : d.Has n

/-- A type of an expression that is reachable. -/
structure ReachedType (d : Declarations) (g : Graph) (n : Node) : Prop where
  reaches : g.Reaches n
  isMade : d.IsMade g n

section

variable {d : Declarations} {g : Graph} {n m : Node} {c : Cell} (hd : d.Consistent) (h : d.settleAll = .ok g)

include hd h

theorem Consistent.cell_of_record (hn : d.Has n) (hc : g.record? n = some c) : g.cell? n = some c := by
  obtain ⟨c', hc'⟩ := hd.cell_of_has h hn
  rw [hc', ← hc, Graph.record?_of_cell hc']

theorem Consistent.reached_member (hn : d.Reached g n) (hc : g.record? n = some c) (hm : m ∈ c.members) :
    d.Reached g m :=
  ⟨hn.reaches.record hc (Cell.mem_links.2 (.inl hm)), hd.has_member h hn.has (hd.cell_of_record h hn.has hc) hm⟩

theorem Consistent.reached_type (hn : d.Reached g n) (hc : g.record? n = some c) (hm : m ∈ c.types) :
    d.ReachedType g m :=
  ⟨hn.reaches.record hc (Cell.mem_links.2 (.inr (.inl hm))),
    hd.isMade_type h hn.has (hd.cell_of_record h hn.has hc) hm⟩

theorem Consistent.reached_listed {i : NamespaceId} (hi : d.Reached g (.nameSpace i))
    (hn : n ∈ (g.namespaces.get i).members) : d.Reached g n := hd.reached_member h hi rfl hn

theorem Consistent.reached_model {i : NamespaceId} {j : ModelId} (hi : d.Reached g (.nameSpace i))
    (hj : j ∈ (g.namespaces.get i).models.values) : d.Reached g (.model j) :=
  hd.reached_listed h hi (by simpa [Namespace.members])

theorem Consistent.reached_interface {i : NamespaceId} {j : InterfaceId} (hi : d.Reached g (.nameSpace i))
    (hj : j ∈ (g.namespaces.get i).interfaces.values) : d.Reached g (.interface j) :=
  hd.reached_listed h hi (by simpa [Namespace.members])

theorem Consistent.reached_property {i : ModelId} {j : PropertyId} (hi : d.Reached g (.model i))
    (hj : j ∈ (g.models.get i).properties.values) : d.Reached g (.property j) :=
  hd.reached_member h hi rfl (List.mem_map_of_mem hj)

/-- The type of a property stands for an expression, and is not the placeholder. -/
theorem Consistent.reached_propertyType {i : PropertyId} (hi : d.Reached g (.property i)) :
    d.ReachedType g (g.properties.get i).type ∧ (g.properties.get i).type ≠ .unresolved :=
  ⟨hd.reached_type h hi rfl (List.mem_singleton_self _),
    hd.type_ne_unresolved h (hd.cell_of_record h hi.has rfl)⟩

theorem Consistent.reached_base {i : ModelId} (hi : d.Reached g (.model i)) (hn : (g.models.get i).base = some n) :
    d.ReachedType g n ∧ ∃ j, n = .model j := by
  refine ⟨hd.reached_type h hi rfl (Option.mem_toList.2 hn), ?_⟩
  obtain ⟨c₀, -, hresolves⟩ := hd.has_cell h hi.has (hd.cell_of_record h hi.has rfl)
  exact hresolves.base _ rfl n hn

/-- What the `Get` operation of an interface returns. -/
theorem Consistent.reached_result {i : InterfaceId} (hi : d.Reached g (.interface i)) (hn : g.getResult? i = some n) :
    d.ReachedType g n := by
  obtain ⟨j, hj, hresult⟩ := Option.bind_eq_some_iff.1 hn
  have hoperation : d.Reached g (.operation j) :=
    hd.reached_member h hi rfl (List.mem_map_of_mem (Members.mem_values_of_lookup hj))
  exact hd.reached_type h hoperation rfl (Option.mem_toList.2 hresult)

theorem Consistent.reached_expand (fuel : Nat) {i j : NamespaceId} (hi : d.Reached g (.nameSpace i))
    (hj : j ∈ g.expandWithin fuel i) : d.Reached g (.nameSpace j) := by
  induction fuel generalizing i with
  | zero =>
    rw [List.mem_singleton.1 hj]
    exact hi
  | succ fuel ih =>
    rcases List.mem_cons.1 hj with heq | hj
    · rw [heq]
      exact hi
    · obtain ⟨k, hk, hj⟩ := List.mem_flatMap.1 hj
      exact ih (hd.reached_listed h hi (Namespace.mem_members_nameSpace.2 hk)) hj

theorem Consistent.reached_part (hn : d.ReachedType g n) (hm : g.IsPartOf m n) : d.ReachedType g m := by
  cases n with
  | array _ element =>
    rw [show m = element from hm]
    exact ⟨hn.reaches.element, hd.isMade_element hn.isMade⟩
  | union i => exact ⟨hn.reaches.option hm, hd.isMade_option h hn.isMade m hm⟩
  | _ => exact hm.elim

theorem Consistent.reached_parts (hn : d.ReachedType g n) (hm : Relation.ReflTransGen g.IsPartOf m n) :
    d.ReachedType g m := by
  induction hm using Relation.ReflTransGen.head_induction_on with
  | refl => exact hn
  | head hstep _ ih => exact hd.reached_part h ih hstep

theorem Consistent.reached_itemType (hn : d.ReachedType g n) : d.ReachedType g n.itemType := by
  cases n with
  | array _ element => exact hd.reached_part h hn rfl
  | _ => exact hn

theorem Consistent.reached_core (hn : d.ReachedType g n) : d.ReachedType g n.core := by
  induction n with
  | array _ element ih => exact ih (hd.reached_part h hn rfl)
  | _ => exact hn

theorem Consistent.isOrdered : g.IsOrdered := by
  intro i
  rw [namespaces_of_settleAll hd.tidy h]
  cases hs : d.graph.cell? (.nameSpace i) with
  | some c =>
    obtain ⟨s, hcell⟩ := Graph.exists_nameSpace (by rw [hs]; rfl)
    rw [Graph.get_nameSpace hcell]
    exact (hd.fits _ _ hcell).ordered i s rfl rfl
  | none =>
    have hsize : d.graph.namespaces.size ≤ i := by
      have hnone : d.graph.namespaces.entries[i]? = none := Option.map_eq_none_iff.1 hs
      exact Array.getElem?_eq_none_iff.1 hnone
    rw [Table.get_eq_default hsize]
    exact ⟨fun j hj => (List.not_mem_nil hj).elim, fun j hj => by cases hj⟩

end

end Declarations

/-! ### Loaded programs -/

namespace Program

open Declarations

variable {data : Json} {p : Program}

/-- What a description declares fits together, and the root is declared. -/
theorem consistent_of_load (h : load data = .ok p) :
    (ofDescription data.outline).Consistent ∧ (ofDescription data.outline).Has (.nameSpace Graph.root) := by
  obtain ⟨hread, -⟩ := settleAll_of_load h
  have hadvances := advances_declareNamespaces fun o ho => (isRead_of_readDescription hread o ho).isAbsent_union
  exact ⟨hadvances.consistent, hadvances.has _ has_root⟩

theorem reached_of_mem_expand (h : load data = .ok p) {i : NamespaceId} (hi : i ∈ p.graph.expand Graph.root) :
    (ofDescription data.outline).Reached p.graph (.nameSpace i) := by
  obtain ⟨hconsistent, hroot⟩ := consistent_of_load h
  exact hconsistent.reached_expand (settleAll_of_load h).2 _ ⟨Graph.reaches_root _, hroot⟩ hi

/-- Every annotation of a loaded program is one that its kind accepts. -/
theorem accepted_of_load (h : load data = .ok p) : p.store.Accepted := by
  obtain ⟨hconsistent, -⟩ := consistent_of_load h
  unfold load at h
  obtain ⟨es, hes, h⟩ := bind_eq_ok h
  rw [readDescription_eq hes] at h
  obtain ⟨g, -, h⟩ := bind_eq_ok h
  exact foldlM_keeps (fun q c q' hq hc => accepted_decorateAll hq hc) hconsistent.bindings h

end Program

end Edm
