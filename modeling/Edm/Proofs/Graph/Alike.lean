import Edm.Proofs.Graph.Latest
import Edm.Proofs.Graph.Walks

/-!
# Types that look alike

Let a relation between the nodes of two graphs be such that related types look alike: they have the same
identifier, and they have the same name as types or are put together from related ones (`Graph.Aligns`).  Then
related types have the same identifier and the same name all through (`Graph.Aligns.idLabel_eq`,
`Graph.Aligns.typeName_eq`), as long as each way through the options of unions ends in one of the graphs; it ends
in the other one then (`Graph.Aligns.endsWithin`).
-/

namespace Edm

namespace Graph

open Relation

/-- What is seen of two types without looking at the types inside them is the same, and these are related. -/
inductive IsAlike (g g' : Graph) (R : Node → Node → Prop) : Node → Node → Prop
  | array (serial serial' : Nat) {n n' : Node} : R n n' → IsAlike g g' R (.array serial n) (.array serial' n')
  | union {i i' : UnionId} : g.idLabel (.union i) = g'.idLabel (.union i') →
      List.Forall₂ R (g.unions.get i).options (g'.unions.get i').options → IsAlike g g' R (.union i) (.union i')
  | plain {n n' : Node} : (∀ i, n'.core ≠ .union i) →
      (∀ name name', g.typeNameWith name n = g'.typeNameWith name' n') → g.idLabel n = g'.idLabel n' →
      IsAlike g g' R n n'

/-- Related types look alike. -/
def Aligns (g g' : Graph) (R : Node → Node → Prop) : Prop := ∀ n n', R n n' → IsAlike g g' R n n'

namespace Aligns

variable {g g' : Graph} {R : Node → Node → Prop} (h : Aligns g g' R) {n n' : Node} {i i' : UnionId}

include h

theorem idLabel_eq (hn : R n n') : g.idLabel n = g'.idLabel n' := by
  induction n generalizing n' with
  | array serial element ih =>
    cases h _ _ hn with
    | array _ _ helement => rw [idLabel_array, idLabel_array, ih helement]
    | plain _ _ hid => exact hid
  | union i =>
    cases h _ _ hn with
    | union hid _ => exact hid
    | plain _ _ hid => exact hid
  | _ =>
    cases h _ _ hn with
    | plain _ _ hid => exact hid

theorem options (hi : R (.union i) (.union i')) :
    List.Forall₂ R (g.unions.get i).options (g'.unions.get i').options := by
  cases h _ _ hi with
  | union _ hoptions => exact hoptions
  | plain hcore _ _ => exact absurd rfl (hcore i')

/-- The names of types agree if those of related unions do. -/
theorem typeNameWith_eq {name name' : UnionId → Label}
    (hname : ∀ i i', R (.union i) (.union i') → name i = name' i') (hn : R n n') :
    g.typeNameWith name n = g'.typeNameWith name' n' := by
  induction n generalizing n' with
  | array serial element ih =>
    cases h _ _ hn with
    | array _ _ helement => rw [typeNameWith, typeNameWith, ih helement]
    | plain _ htype _ => exact htype name name'
  | union i =>
    cases h _ _ hn with
    | union _ _ => exact hname _ _ hn
    | plain _ htype _ => exact htype name name'
  | _ =>
    cases h _ _ hn with
    | plain _ htype _ => exact htype name name'

theorem unionNameWithin_eq (fuel : Nat) (hi : R (.union i) (.union i')) :
    g.unionNameWithin fuel i = g'.unionNameWithin fuel i' := by
  induction fuel generalizing i i' with
  | zero => rfl
  | succ fuel ih =>
    rw [unionNameWithin, unionNameWithin]
    have hnames : ∀ {l l'}, List.Forall₂ R l l' → l.map (g.typeNameWith (g.unionNameWithin fuel))
        = l'.map (g'.typeNameWith (g'.unionNameWithin fuel)) := by
      intro l l' hl
      induction hl with
      | nil => rfl
      | cons hn _ ihl => rw [List.map_cons, List.map_cons, h.typeNameWith_eq (fun _ _ => ih) hn, ihl]
    rw [hnames (h.options hi)]

/-- Under all layers of arrays there are related unions. -/
theorem exists_core (hn : R n n') (hcore : n'.core = .union i') :
    ∃ i, n.core = .union i ∧ R (.union i) (.union i') := by
  induction n generalizing n' with
  | array serial element ih =>
    cases h _ _ hn with
    | array _ _ helement => exact ih helement hcore
    | plain hplain _ _ => exact absurd hcore (hplain i')
  | union i =>
    cases h _ _ hn with
    | union _ _ =>
      cases hcore
      exact ⟨i, rfl, hn⟩
    | plain hplain _ _ => exact absurd hcore (hplain i')
  | _ =>
    cases h _ _ hn with
    | plain hplain _ _ => exact absurd hcore (hplain i')

theorem endsWithin {fuel : Nat} (hi : R (.union i) (.union i')) (hends : g.EndsWithin fuel i) :
    g'.EndsWithin fuel i' := by
  induction fuel generalizing i i' with
  | zero => exact hends.elim
  | succ fuel ih =>
    rintro j' ⟨n', hn', hcore⟩
    obtain ⟨n, hn, hrelated⟩ := exists_mem_of_forall₂ (h.options hi) n' hn'
    obtain ⟨j, hj, hjj'⟩ := h.exists_core hrelated hcore
    exact ih hjj' (hends j ⟨n, hn, hj⟩)

variable (hends : ∀ i, n.core = .union i → g.EndsWithin g.unions.size i)
  (hsize : ∀ i j, n'.core = .union i → ReflTransGen g'.HoldsUnion i j → j < g'.unions.size)

include hends hsize in
/-- The name of a type does not depend on how many unions there are besides those that it is made of. -/
theorem typeName_eq (hn : R n n') : g.typeName n = g'.typeName n' := by
  have hends' : ∀ i', n'.core = .union i' → g'.EndsWithin g'.unions.size i' := by
    intro i' hcore'
    obtain ⟨i, hcore, hi⟩ := h.exists_core hn hcore'
    exact (h.endsWithin hi (hends i hcore)).endsWithin_size fun j => hsize i' j hcore'
  have hleft : g.typeName n = g.typeNameWith (g.unionNameWithin (g.unions.size + g'.unions.size)) n :=
    typeNameWith_congr fun i hcore => (hends i hcore).unionNameWithin_eq (Nat.le_add_right _ _)
  have hright : g'.typeName n' = g'.typeNameWith (g'.unionNameWithin (g.unions.size + g'.unions.size)) n' :=
    typeNameWith_congr fun i' hcore' => (hends' i' hcore').unionNameWithin_eq (Nat.le_add_left _ _)
  rw [hleft, hright]
  exact h.typeNameWith_eq (fun _ _ => h.unionNameWithin_eq _) hn

end Aligns

end Graph

end Edm
