import Edm.Graph.Flattening
import Edm.Proofs.Graph.Walks
import Mathlib.Data.List.Forall2
import Mathlib.Data.List.Nodup

/-!
# Nested namespaces

Whether a namespace gets a schema is told from its dotted name, which a walk outward puts together, and not on the way
inward that finds it.  Where namespaces are nested (`Graph.IsNested`), the two ways are the same one: the way inward
meets each namespace inside once, in pre-order (`Graph.WalksEnd.preOrder_expand`, `Graph.IsNested.nodup_expand`), and
the dotted name of what is inside starts with that of what is around it (`Graph.IsNested.prefix_namespaceName`).  So
whatever is inside a namespace whose dotted name is excluded is excluded as well.
-/

namespace Edm

open Relation

namespace Graph

/-! ### Dotted names -/

theorem prefix_dotted_append (names inner : List Text) : dotted names <+: dotted (names ++ inner) := by
  induction names with
  | nil => exact List.nil_prefix
  | cons n names ih =>
    cases names with
    | nil =>
      cases inner with
      | nil => exact List.prefix_rfl
      | cons m inner =>
        rw [List.singleton_append, dotted, dotted, Text.join_cons_cons, List.append_assoc]
        exact List.prefix_append ..
    | cons m names =>
      rw [List.cons_append, List.cons_append, dotted, dotted, Text.join_cons_cons, Text.join_cons_cons]
      exact (List.prefix_append_right_inj _).2 ih

/-! ### Insides -/

/-- A namespace lists another one. -/
def Holds (g : Graph) (i j : NamespaceId) : Prop := j ∈ (g.namespaces.get i).namespaces.values

/-- A list has a namespace first, and then, for each one that it lists and in this order, the list for that one. -/
inductive PreOrder (g : Graph) : NamespaceId → List NamespaceId → Prop
  | node {i : NamespaceId} {inner : List (List NamespaceId)} :
      List.Forall₂ (PreOrder g) (g.namespaces.get i).namespaces.values inner → PreOrder g i (i :: inner.flatten)

/-- Namespaces are nested: what lists a namespace is the one that it refers back to, and lists it once, the ways
inward and outward come to their ends, and the names are texts. -/
structure IsNested (g : Graph) : Prop where
  back : ∀ {i j}, g.Holds i j → (g.namespaces.get j).parent = some i
  nodup : ∀ i, (g.namespaces.get i).namespaces.values.Nodup
  text : ∀ i, (g.namespaces.get i).name.isText = true
  walks : g.WalksEnd

section

variable {g : Graph} {i j k : NamespaceId}

theorem WalksEnd.mem_expand_iff (h : g.WalksEnd) : j ∈ g.expand i ↔ ReflTransGen g.Holds i j := by
  constructor
  · intro hj
    induction i using h.inward.induction with
    | h i ih =>
      rw [h.expand_eq, List.mem_cons, List.mem_flatMap] at hj
      obtain rfl | ⟨k, hk, hj⟩ := hj
      · exact .refl
      · exact .head hk (ih k hk hj)
  · intro hj
    induction hj using ReflTransGen.head_induction_on with
    | refl =>
      rw [h.expand_eq]
      exact List.mem_cons_self ..
    | head hk _ ih =>
      rw [h.expand_eq]
      exact List.mem_cons_of_mem _ (List.mem_flatMap.2 ⟨_, hk, ih⟩)

theorem WalksEnd.preOrder_expand (h : g.WalksEnd) (i : NamespaceId) : g.PreOrder i (g.expand i) := by
  induction i using h.inward.induction with
  | h i ih =>
    rw [h.expand_eq, List.flatMap_def]
    exact .node (List.forall₂_map_right_iff.2 (List.forall₂_same.2 ih))

private theorem Nested.eq_map {α β : Type} {R : α → β → Prop} {f : α → β} {as : List α} {bs : List β}
    (h : List.Forall₂ R as bs) (hf : ∀ a ∈ as, ∀ b, R a b → b = f a) : bs = as.map f := by
  induction h with
  | nil => rfl
  | cons hab _ ih =>
    rw [List.forall_mem_cons] at hf
    rw [List.map_cons, hf.1 _ hab, ih hf.2]

/-- There is only one such list. -/
theorem WalksEnd.eq_expand (h : g.WalksEnd) {order : List NamespaceId} (horder : g.PreOrder i order) :
    order = g.expand i := by
  induction i using h.inward.induction generalizing order with
  | h i ih =>
    cases horder with
    | @node _ inner hinner =>
      rw [h.expand_eq, List.flatMap_def, Nested.eq_map hinner fun j hj _ => ih j hj]

namespace IsNested

variable (h : g.IsNested)

include h

theorem not_holds_self (i : NamespaceId) : ¬ TransGen g.Holds i i := by
  rw [← transGen_swap]
  exact not_self_of_acc (h.walks.inward.transGen.apply i)

/-- Of two namespaces around one, one is inside the other. -/
theorem total (hi : ReflTransGen g.Holds i k) (hj : ReflTransGen g.Holds j k) :
    ReflTransGen g.Holds i j ∨ ReflTransGen g.Holds j i := by
  have hunique : Relator.RightUnique (Function.swap g.Holds) := by
    intro k i j hi hj
    exact Option.some.inj ((h.back hi).symm.trans (h.back hj))
  have htotal := ReflTransGen.total_of_right_unique hunique (reflTransGen_swap.2 hi) (reflTransGen_swap.2 hj)
  exact htotal.symm.imp reflTransGen_swap.1 reflTransGen_swap.1

/-- Nothing that a namespace lists is inside another one that it lists. -/
theorem eq_of_holds {a b : NamespaceId} (ha : g.Holds i a) (hb : g.Holds i b) (hab : ReflTransGen g.Holds a b) :
    a = b := by
  obtain rfl | ⟨c, hac, hcb⟩ := hab.cases_tail
  · rfl
  · rw [Option.some.inj ((h.back hcb).symm.trans (h.back hb))] at hac
    exact absurd (TransGen.head' ha hac) (h.not_holds_self i)

theorem nodup_expand (i : NamespaceId) : (g.expand i).Nodup := by
  induction i using h.walks.inward.induction with
  | h i ih =>
    rw [h.walks.expand_eq, List.nodup_cons]
    constructor
    · intro hi
      obtain ⟨j, hj, hi⟩ := List.mem_flatMap.1 hi
      exact h.not_holds_self i (TransGen.head' hj (h.walks.mem_expand_iff.1 hi))
    · refine List.nodup_flatMap.2 ⟨ih, (h.nodup i).imp_of_mem fun {a b} ha hb hne k hka hkb => ?_⟩
      obtain hab | hba := h.total (h.walks.mem_expand_iff.1 hka) (h.walks.mem_expand_iff.1 hkb)
      · exact hne (h.eq_of_holds ha hb hab)
      · exact hne (h.eq_of_holds hb ha hba).symm

/-- The names that lead to a namespace are those that lead to one around it, and more. -/
theorem exists_names_append (hj : ReflTransGen g.Holds i j) : ∃ inner, g.names j = g.names i ++ inner := by
  induction hj with
  | refl => exact ⟨[], (List.append_nil _).symm⟩
  | @tail j k _ hk ih =>
    obtain ⟨inner, hinner⟩ := ih
    rw [h.walks.names_eq k, h.back hk, Option.map_some, Option.getD_some, hinner]
    exact ⟨_, List.append_assoc ..⟩

theorem hasTextPath (i : NamespaceId) : g.hasTextPath i = true := by
  induction i using h.walks.outward.induction with
  | h i ih =>
    rw [Graph.hasTextPath, h.walks.names_eq, List.all_append, Bool.and_eq_true]
    constructor
    · cases hparent : (g.namespaces.get i).parent with
      | none => rfl
      | some p => exact ih p hparent
    · split
      · simpa using h.text i
      · rfl

/-- The dotted name of a namespace starts with that of each one around it. -/
theorem prefix_namespaceName (hj : ReflTransGen g.Holds i j) : g.namespaceName i <+: g.namespaceName j := by
  obtain ⟨inner, hinner⟩ := h.exists_names_append hj
  rw [namespaceName, namespaceName, path, path, hinner, List.map_append]
  exact prefix_dotted_append ..

end IsNested

/-! ### Flattening -/

/-- A namespace declares an enum, a model, an interface or an operation. -/
def HasEntries (g : Graph) (i : NamespaceId) : Prop :=
  let s := g.namespaces.get i
  s.enums ≠ [] ∨ s.models ≠ [] ∨ s.interfaces ≠ [] ∨ s.operations ≠ []

/-- The dotted name of a namespace starts with one of some prefixes. -/
def Excludes (g : Graph) (excluded : List Text) (i : NamespaceId) : Prop :=
  ∃ part ∈ excluded, part <+: g.namespaceName i

variable {excluded : List Text}

theorem hasEntries_iff : g.HasEntries i ↔ (g.namespaces.get i).isRenderable = true := by
  simp [HasEntries, Namespace.isRenderable, or_assoc]

theorem excludes_iff : g.Excludes excluded i ↔ isExcluded excluded (g.namespaceName i) = true := by
  simp [Excludes, isExcluded]

theorem isIncluded_iff :
    g.isIncluded excluded i = true ↔ g.namespaceName i ≠ [] ∧ g.HasEntries i ∧ ¬ g.Excludes excluded i := by
  rw [hasEntries_iff, excludes_iff]
  simp [isIncluded, and_assoc]

theorem IsNested.excludes (h : g.IsNested) (hi : g.Excludes excluded i) (hj : ReflTransGen g.Holds i j) :
    g.Excludes excluded j := by
  obtain ⟨part, hpart, hprefix⟩ := hi
  exact ⟨part, hpart, hprefix.trans (h.prefix_namespaceName hj)⟩

end

end Graph

end Edm
