import Edm.Proofs.Graph.Reachable
import Mathlib.Data.List.Perm.Subperm

/-!
# Walks through a graph

Three walks are bounded by a number of steps: outward to the root, inward through namespaces, and inward through
the options of unions.  None of them is cut short.  Where namespaces have ranks that grow inward, both ways through
them come to an end (`Graph.IsRanked.walksEnd`), as they do if all are made from the outside in
(`Graph.IsOrdered.walksEnd`).  A way through unions that comes back to none of them meets each at
most once (`Graph.endsWithin_size`); then the name of a union is that of its options, and so is what falls back
(`Graph.EndsWithin.typeName_union`, `Graph.EndsWithin.isUnnameable_union`).
-/

namespace Edm

/-! ### Namespaces -/

/-- The namespaces inside a namespace were made after it, and the one that it is in was made before it. -/
structure Namespace.IsOrderedAt (i : Nat) (s : Namespace) : Prop where
  inside : ∀ j : Nat, Node.nameSpace j ∈ s.members → i < j
  outside : ∀ j : Nat, s.parent = some j → j < i

theorem Namespace.mem_members_nameSpace {s : Namespace} {j : NamespaceId} :
    Node.nameSpace j ∈ s.members ↔ j ∈ s.namespaces.values := by
  simp [members]

theorem Table.get_eq_default {α : Type} [Inhabited α] {t : Table α} {i : Nat} (h : t.size ≤ i) :
    t.get i = default := by
  have hlt : ¬ i < t.entries.size := Nat.not_lt.2 h
  simp [get, Array.getD, hlt]

namespace Graph

variable {g : Graph} {rank : Nat → Nat}

/-- Namespaces have ranks that grow on each way inward. -/
structure IsRanked (g : Graph) (rank : Nat → Nat) : Prop where
  bounded : ∀ i, i < g.namespaces.size → rank i < g.namespaces.size
  inside : ∀ i j : Nat, j ∈ (g.namespaces.get i).namespaces.values → rank i < rank j
  outside : ∀ i j : Nat, (g.namespaces.get i).parent = some j → rank j < rank i

/-- Both ways through namespaces come to an end, and each is walked to its end. -/
structure WalksEnd (g : Graph) : Prop where
  inward : WellFounded fun j i : NamespaceId => j ∈ (g.namespaces.get i).namespaces.values
  expand_eq : ∀ i, g.expand i = i :: (g.namespaces.get i).namespaces.values.flatMap g.expand
  outward : WellFounded fun j i : NamespaceId => (g.namespaces.get i).parent = some j
  names_eq : ∀ i, g.names i = ((g.namespaces.get i).parent.map g.names).getD []
    ++ if (g.namespaces.get i).name.truthy then [(g.namespaces.get i).name] else []

private theorem Walks.expandWithin_none {i : Nat} (h : g.namespaces.size ≤ i) (fuel : Nat) :
    g.expandWithin fuel i = [i] := by
  cases fuel with
  | zero => rfl
  | succ fuel =>
    rw [expandWithin, Table.get_eq_default h]
    rfl

private theorem Walks.namesWithin_none {i : Nat} (h : g.namespaces.size ≤ i) (fuel : Nat) :
    g.namesWithin fuel i = [] := by
  cases fuel with
  | zero => rfl
  | succ fuel =>
    rw [namesWithin, Table.get_eq_default h]
    rfl

namespace IsRanked

variable (h : g.IsRanked rank)

include h

theorem size_le {i : Nat} (hi : g.namespaces.size ≤ rank i) : g.namespaces.size ≤ i := by
  by_contra hlt
  have hrank := h.bounded i (by omega)
  omega

theorem expandWithin_eq {i fuel fuel' : Nat} (hfuel : g.namespaces.size ≤ rank i + fuel)
    (hfuel' : g.namespaces.size ≤ rank i + fuel') : g.expandWithin fuel i = g.expandWithin fuel' i := by
  induction fuel generalizing i fuel' with
  | zero => rw [Walks.expandWithin_none (h.size_le hfuel), Walks.expandWithin_none (h.size_le hfuel)]
  | succ fuel ih =>
    cases fuel' with
    | zero => rw [Walks.expandWithin_none (h.size_le hfuel'), Walks.expandWithin_none (h.size_le hfuel')]
    | succ fuel' =>
      have hinside : ∀ j ∈ (g.namespaces.get i).namespaces.values, g.expandWithin fuel j = g.expandWithin fuel' j := by
        intro j hj
        have hlt := h.inside i j hj
        exact ih (by omega) (by omega)
      rw [expandWithin, expandWithin, List.flatMap_congr hinside]

theorem expand_eq (i : Nat) : g.expand i = i :: (g.namespaces.get i).namespaces.values.flatMap g.expand := by
  have hmore : g.expandWithin g.namespaces.size i = g.expandWithin (g.namespaces.size + 1) i :=
    h.expandWithin_eq (by omega) (by omega)
  rw [expand, hmore]
  rfl

theorem namesWithin_eq {i fuel fuel' : Nat} (hfuel : rank i < fuel) (hfuel' : rank i < fuel') :
    g.namesWithin fuel i = g.namesWithin fuel' i := by
  induction fuel generalizing i fuel' with
  | zero => omega
  | succ fuel ih =>
    cases fuel' with
    | zero => omega
    | succ fuel' =>
      rw [namesWithin, namesWithin]
      cases hparent : (g.namespaces.get i).parent with
      | none => rfl
      | some p =>
        have hlt := h.outside i p hparent
        have houter : g.namesWithin fuel p = g.namesWithin fuel' p := ih (by omega) (by omega)
        simp only [houter]

/-- The names that lead to the namespace that a namespace is in, and its own one. -/
theorem names_eq (i : Nat) :
    g.names i = ((g.namespaces.get i).parent.map g.names).getD []
      ++ if (g.namespaces.get i).name.truthy then [(g.namespaces.get i).name] else [] := by
  have hmore : g.namesWithin g.namespaces.size i = g.namesWithin (g.namespaces.size + 1) i := by
    rcases Nat.lt_or_ge i g.namespaces.size with hi | hi
    · have hrank := h.bounded i hi
      exact h.namesWithin_eq hrank (by omega)
    · rw [Walks.namesWithin_none (i := i) hi, Walks.namesWithin_none (i := i) hi]
  rw [names, hmore, namesWithin]
  cases hparent : (g.namespaces.get i).parent with
  | none => split <;> rfl
  | some p => split <;> simp [names]

/-! The two recursions come to an end: inward the ranks of namespaces grow, and outward they get smaller. -/

theorem wellFounded_inward : WellFounded fun j i : NamespaceId => j ∈ (g.namespaces.get i).namespaces.values := by
  refine Subrelation.wf (fun {j i} hj => ?_) (measure fun i : Nat => g.namespaces.size - rank i).wf
  have hlt := h.inside i j hj
  have hsize : rank i < g.namespaces.size := by
    rcases Nat.lt_or_ge i g.namespaces.size with hi | hi
    · exact h.bounded i hi
    · rw [Table.get_eq_default hi] at hj
      cases hj
  exact Nat.sub_lt_sub_left hsize hlt

theorem wellFounded_outward : WellFounded fun j i : NamespaceId => (g.namespaces.get i).parent = some j :=
  Subrelation.wf (fun {j i} hj => h.outside i j hj) (measure rank).wf

theorem walksEnd : g.WalksEnd := ⟨h.wellFounded_inward, h.expand_eq, h.wellFounded_outward, h.names_eq⟩

end IsRanked

/-- All namespaces are made from the outside in. -/
def IsOrdered (g : Graph) : Prop := ∀ i, (g.namespaces.get i).IsOrderedAt i

theorem IsOrdered.walksEnd (h : g.IsOrdered) : g.WalksEnd := by
  have hranked : g.IsRanked fun i => i :=
    ⟨fun _ hi => hi, fun i j hj => (h i).inside j (Namespace.mem_members_nameSpace.2 hj),
      fun i j hj => (h i).outside j hj⟩
  exact hranked.walksEnd

end Graph

/-! ### Unions -/

/-- What a type is about under all layers of arrays. -/
def Node.core : Node → Node
  | .array _ element => element.core
  | n => n

namespace Graph

variable {g : Graph} {i j : UnionId} {n : Node} {fuel fuel' : Nat}

/-- A union has another one for an option, under any layers of arrays. -/
def HoldsUnion (g : Graph) (i j : UnionId) : Prop := ∃ n ∈ (g.unions.get i).options, n.core = .union j

/-- No way from a union through options meets more unions than a given number. -/
def EndsWithin (g : Graph) : (fuel : Nat) → UnionId → Prop
  | 0, _ => False
  | fuel + 1, i => ∀ j, g.HoldsUnion i j → g.EndsWithin fuel j

/-- A type is an item of another one, or an option. -/
def IsPartOf (g : Graph) (m : Node) : Node → Prop
  | .array _ element => m = element
  | .union i => m ∈ (g.unions.get i).options
  | _ => False

theorem acc_of_core (h : ∀ i, n.core = .union i → Acc g.IsPartOf (.union i)) : Acc g.IsPartOf n := by
  induction n with
  | array _ element ih =>
    have helement := ih h
    refine Acc.intro _ fun m hm => ?_
    rw [show m = element from hm]
    exact helement
  | union i => exact h i rfl
  | _ => exact Acc.intro _ fun m hm => hm.elim

theorem not_self_of_acc {α : Type} {r : α → α → Prop} {x : α} (h : Acc r x) : ¬ r x x := by
  induction h with
  | intro x _ ih => exact fun hself => ih x hself hself

/-- Going from a union to its options, to the options of these and so on comes to an end. -/
theorem EndsWithin.acc (h : g.EndsWithin fuel i) : Acc g.IsPartOf (.union i) := by
  induction fuel generalizing i with
  | zero => exact h.elim
  | succ fuel ih =>
    refine Acc.intro _ fun m hm => acc_of_core fun j hj => ?_
    exact ih (h j ⟨m, hm, hj⟩)

/-! ### Names of unions -/

theorem typeNameWith_congr {name name' : UnionId → Label} (h : ∀ i, n.core = .union i → name i = name' i) :
    g.typeNameWith name n = g.typeNameWith name' n := by
  induction n with
  | array _ element ih => rw [typeNameWith, typeNameWith, ih h]
  | union i => exact h i rfl
  | _ => rfl

theorem isUnnameableWith_congr {falls falls' : UnionId → Bool} (h : ∀ i, n.core = .union i → falls i = falls' i) :
    isUnnameableWith falls n = isUnnameableWith falls' n := by
  induction n with
  | array _ element ih => rw [isUnnameableWith, isUnnameableWith, ih h]
  | union i => exact h i rfl
  | _ => rfl

theorem EndsWithin.unionNameWithin_eq (h : g.EndsWithin fuel i) (hle : fuel ≤ fuel') :
    g.unionNameWithin fuel i = g.unionNameWithin fuel' i := by
  induction fuel generalizing i fuel' with
  | zero => exact h.elim
  | succ fuel ih =>
    obtain ⟨k, rfl⟩ := Nat.exists_eq_add_of_le' hle
    have hoptions : ∀ n ∈ (g.unions.get i).options,
        g.typeNameWith (g.unionNameWithin fuel) n = g.typeNameWith (g.unionNameWithin (k + fuel)) n :=
      fun n hn => typeNameWith_congr fun j hj => ih (h j ⟨n, hn, hj⟩) (Nat.le_add_left _ _)
    show g.unionNameWithin (fuel + 1) i = g.unionNameWithin ((k + fuel) + 1) i
    rw [unionNameWithin, unionNameWithin, List.map_congr_left hoptions]

theorem EndsWithin.unionIsUnnameableWithin_eq (h : g.EndsWithin fuel i) (hle : fuel ≤ fuel') :
    g.unionIsUnnameableWithin fuel i = g.unionIsUnnameableWithin fuel' i := by
  induction fuel generalizing i fuel' with
  | zero => exact h.elim
  | succ fuel ih =>
    obtain ⟨k, rfl⟩ := Nat.exists_eq_add_of_le' hle
    have hoptions : ∀ n ∈ (g.unions.get i).options, isUnnameableWith (g.unionIsUnnameableWithin fuel) n
        = isUnnameableWith (g.unionIsUnnameableWithin (k + fuel)) n :=
      fun n hn => isUnnameableWith_congr fun j hj => ih (h j ⟨n, hn, hj⟩) (Nat.le_add_left _ _)
    show g.unionIsUnnameableWithin (fuel + 1) i = g.unionIsUnnameableWithin ((k + fuel) + 1) i
    rw [unionIsUnnameableWithin, unionIsUnnameableWithin, Bool.eq_iff_iff, List.any_eq_true, List.any_eq_true]
    exact exists_congr fun n => and_congr_right fun hn => by rw [hoptions n hn]

/-- The name of a union is put together from the names of its options. -/
theorem EndsWithin.typeName_union (h : g.EndsWithin g.unions.size i) :
    g.typeName (.union i) = Label.join " | " ((g.unions.get i).options.map g.typeName) := by
  have hmore := h.unionNameWithin_eq (Nat.le_succ _)
  show g.unionNameWithin g.unions.size i = _
  rw [hmore]
  rfl

/-- The name of a union falls back where the name of an option does. -/
theorem EndsWithin.isUnnameable_union (h : g.EndsWithin g.unions.size i) :
    g.isUnnameable (.union i) = (g.unions.get i).options.any g.isUnnameable := by
  have hmore := h.unionIsUnnameableWithin_eq (Nat.le_succ _)
  show g.unionIsUnnameableWithin g.unions.size i = _
  rw [hmore]
  rfl

/-! ### Ways that come back to no union -/

open Relation

private theorem Walks.length_le {l : List Nat} {k : Nat} (hnodup : l.Nodup) (hlt : ∀ i ∈ l, i < k) : l.length ≤ k := by
  have hsub : l ⊆ List.range k := fun i hi => List.mem_range.2 (hlt i hi)
  simpa using (hnodup.subperm hsub).length_le

private theorem Walks.endsWithin {seen : List UnionId} (hnodup : (i :: seen).Nodup)
    (hsize : ∀ j ∈ seen, j < g.unions.size) (hseen : ∀ j ∈ seen, TransGen g.HoldsUnion j i)
    (hfuel : g.unions.size ≤ fuel + seen.length)
    (h : ∀ j, ReflTransGen g.HoldsUnion i j → j < g.unions.size ∧ ¬ TransGen g.HoldsUnion j j) :
    g.EndsWithin fuel i := by
  have hmet : ∀ j ∈ i :: seen, j < g.unions.size := List.forall_mem_cons.2 ⟨(h i .refl).1, hsize⟩
  -- the induction is on the steps that are left; the unions that were met stay distinct
  induction fuel generalizing i seen with
  | zero =>
    have hlength := Walks.length_le hnodup hmet
    rw [List.length_cons] at hlength
    omega
  | succ fuel ih =>
    intro j hj
    have hback : ∀ k ∈ i :: seen, TransGen g.HoldsUnion k j := by
      intro k hk
      rcases List.mem_cons.1 hk with rfl | hk
      · exact .single hj
      · exact (hseen k hk).tail hj
    have hnew : j ∉ i :: seen := fun hmem => (h j (.single hj)).2 (hback j hmem)
    have hbelow : ∀ k, ReflTransGen g.HoldsUnion j k → k < g.unions.size ∧ ¬ TransGen g.HoldsUnion k k :=
      fun k hk => h k (.head hj hk)
    have hmet : ∀ k ∈ j :: i :: seen, k < g.unions.size := List.forall_mem_cons.2 ⟨(hbelow j .refl).1, hmet⟩
    refine ih (List.nodup_cons.2 ⟨hnew, hnodup⟩) (List.forall_mem_cons.1 hmet).2 hback ?_ hbelow hmet
    rw [List.length_cons]
    omega

/-- If no union on the ways from a union comes back to itself, each way ends after as many unions as there are. -/
theorem endsWithin_size (h : ∀ j, ReflTransGen g.HoldsUnion i j → j < g.unions.size ∧ ¬ TransGen g.HoldsUnion j j) :
    g.EndsWithin g.unions.size i :=
  Walks.endsWithin (List.nodup_cons.2 ⟨List.not_mem_nil, List.nodup_nil⟩) (by simp) (by simp) (by simp) h

/-- A way that ends does not come back to the union that it starts from. -/
theorem EndsWithin.not_cyclic (h : g.EndsWithin fuel i) : ¬ TransGen g.HoldsUnion i i := by
  induction fuel generalizing i with
  | zero => exact h.elim
  | succ fuel ih =>
    intro hcycle
    obtain ⟨j, hij, hji⟩ := TransGen.head'_iff.1 hcycle
    exact ih (h j hij) (TransGen.tail' hji hij)

theorem EndsWithin.exists_holdsUnions (h : g.EndsWithin fuel i) (hij : ReflTransGen g.HoldsUnion i j) :
    ∃ fuel', g.EndsWithin fuel' j := by
  induction hij with
  | refl => exact ⟨fuel, h⟩
  | tail _ hstep ih =>
    obtain ⟨fuel', hends⟩ := ih
    cases fuel' with
    | zero => exact hends.elim
    | succ fuel' => exact ⟨fuel', hends _ hstep⟩

theorem EndsWithin.endsWithin_size (h : g.EndsWithin fuel i)
    (hsize : ∀ j, ReflTransGen g.HoldsUnion i j → j < g.unions.size) : g.EndsWithin g.unions.size i := by
  refine Graph.endsWithin_size fun j hij => ?_
  obtain ⟨fuel', hends⟩ := h.exists_holdsUnions hij
  exact ⟨hsize j hij, hends.not_cyclic⟩

end Graph

end Edm
