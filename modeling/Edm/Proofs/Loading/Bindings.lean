import Edm.Loading
import Edm.Proofs.Description.Outline

/-!
# Bindings of annotations

A binding that is made is found for its kind and node, and all others stay (`AnnotationStore.get?_put`).  So a
store in which every binding of a standard kind was accepted by its kind stays one when a decorator is applied,
accepted or not (`Program.accepted_decorate`).
-/

namespace Edm

namespace AnnotationStore

variable {s : AnnotationStore} {k k' : AnnotationKind} {n m : Node} {v w : Json}

theorem valueOf_bindNode (m n : Node) (v : Json) (bindings : List (Node × Json)) :
    valueOf n (bindNode m v bindings) = if m = n then some v else valueOf n bindings := by
  induction bindings with
  | nil => rfl
  | cons b rest ih =>
    obtain ⟨x, w⟩ := b
    rw [bindNode]
    by_cases hx : x = m
    · rw [if_pos hx, valueOf, valueOf, hx]
      split <;> rfl
    · rw [if_neg hx, valueOf, valueOf, ih]
      by_cases hn : x = n
      · rw [if_pos hn, if_pos hn, if_neg fun h => hx (hn.trans h.symm)]
      · rw [if_neg hn, if_neg hn]

theorem beq_kind (k k' : AnnotationKind) : (k == k') = decide (k.id = k'.id) := rfl

/-- The bindings of a kind after a binding is made for some kind. -/
theorem bindingsOf_put (s : AnnotationStore) (k k' : AnnotationKind) (m : Node) (v : Json) :
    (s.put k m v).bindingsOf k' = if k.id = k'.id then bindNode m v (s.bindingsOf k') else s.bindingsOf k' := by
  obtain ⟨maps⟩ := s
  simp only [bindingsOf, put]
  induction maps with
  | nil => by_cases hk : k.id = k'.id <;> simp [bindKind, beq_kind, hk, bindNode]
  | cons e rest ih =>
    obtain ⟨x, bindings⟩ := e
    rw [bindKind]
    by_cases hx : x.id = k.id
    · -- the map of the kind is there; it is also the one that is searched if the two kinds are the same
      rw [if_pos (by simp [beq_kind, hx])]
      by_cases hk : k.id = k'.id <;> simp [beq_kind, hx, hk]
    · rw [if_neg (by simp [beq_kind, hx])]
      by_cases hxk : x.id = k'.id
      · have hk : k.id ≠ k'.id := fun h => hx (hxk.trans h.symm)
        simp [beq_kind, hxk, hk]
      · simpa [beq_kind, hxk] using ih

/-- What is bound after a binding is made. -/
theorem get?_put (s : AnnotationStore) (k k' : AnnotationKind) (m n : Node) (v : Json) :
    (s.put k m v).get? k' n = if k.id = k'.id ∧ m = n then some v else s.get? k' n := by
  rw [get?, bindingsOf_put]
  by_cases hk : k.id = k'.id
  · rw [if_pos hk, valueOf_bindNode]
    simp only [hk, true_and, get?]
  · rw [if_neg hk, if_neg fun h => hk h.1, get?]

/-- Every binding of a standard kind is one that the kind accepts. -/
def Accepted (s : AnnotationStore) : Prop :=
  ∀ k ∈ AnnotationKind.standard, ∀ n v, s.get? k n = some v → k.acceptsTarget n = true ∧ k.accepts v = true

theorem accepted_empty : Accepted {} := by
  intro k _ n v h
  cases h

theorem eq_of_id_eq (hk : k ∈ AnnotationKind.standard) (hk' : k' ∈ AnnotationKind.standard) (h : k.id = k'.id) :
    k = k' := by
  simp only [AnnotationKind.standard, List.mem_cons, List.not_mem_nil, or_false] at hk hk'
  rcases hk with rfl | rfl | rfl | rfl | rfl <;> rcases hk' with rfl | rfl | rfl | rfl | rfl <;>
    first | rfl | exact absurd h (by decide)

theorem Accepted.put (h : s.Accepted) (hk : k ∈ AnnotationKind.standard) (hn : k.acceptsTarget n = true)
    (hv : k.accepts v = true) : (s.put k n v).Accepted := by
  intro k' hk' m w hw
  rw [get?_put] at hw
  split at hw
  next hsame =>
    cases hw
    rw [← eq_of_id_eq hk hk' hsame.1, ← hsame.2]
    exact ⟨hn, hv⟩
  next => exact h k' hk' m w hw

theorem Accepted.set (h : s.Accepted) {s' : AnnotationStore} (hk : k ∈ AnnotationKind.standard)
    (hs : s.set k n v = .ok s') : s'.Accepted := by
  unfold AnnotationStore.set at hs
  split at hs
  · cases hs
  next htarget =>
    split at hs
    · cases hs
    next hvalue =>
      cases hs
      exact h.put hk (by simpa using htarget) (by simpa using hvalue)

end AnnotationStore

/-! ### Decorators -/

namespace Program

variable {p : Program} {site : Label} {k : AnnotationKind} {n : Node}

theorem accepted_bind (h : p.store.Accepted) (hk : k ∈ AnnotationKind.standard) (v : Json) :
    (p.bind site k n v).2.store.Accepted := by
  unfold bind
  split
  next store hset => exact h.set hk hset
  next => exact h

theorem accepted_bindKey (h : p.store.Accepted) (argument : Json) :
    (p.bindKey site n argument).2.store.Accepted := by
  have hkey : AnnotationKind.key ∈ AnnotationKind.standard := List.mem_cons_self ..
  unfold bindKey
  split
  next =>
    dsimp only
    split
    · exact accepted_bind h hkey _
    · exact accepted_bind h hkey _
    · exact h
  next => exact accepted_bind h hkey _

theorem accepted_applyDecorator {d : Decorator} {arguments : List Json} {result : Bool × Program}
    (h : p.store.Accepted) (happly : p.applyDecorator? site d n arguments = some result) :
    result.2.store.Accepted := by
  unfold applyDecorator? at happly
  split at happly
  · cases happly
    exact accepted_bindKey h _
  · cases happly
    exact accepted_bindKey h _
  · cases happly
    exact accepted_bind h (by simp [AnnotationKind.standard]) _
  · cases happly
    exact accepted_bind h (by simp [AnnotationKind.standard]) _
  · cases happly
    exact accepted_bind h (by simp [AnnotationKind.standard]) _
  · cases happly

/-- Applying a decorator binds nothing that its kind does not accept. -/
theorem accepted_decorate (h : p.store.Accepted) (name : Text) (arguments : List Json) :
    (p.decorate site name n arguments).2.store.Accepted := by
  unfold decorate
  dsimp only
  split
  · exact h
  · split
    next result happly => exact accepted_applyDecorator h happly
    next => exact h

theorem accepted_decorateAll {p p' : Program} {c : Decoration} (h : p.store.Accepted) (hp : p.decorateAll c = .ok p') :
    p'.store.Accepted := by
  refine foldlM_keeps (P := fun q => q.store.Accepted) (fun q x q' hq hx => ?_) h hp
  obtain ⟨⟨name, arguments⟩, -, hx⟩ := bind_eq_ok hx
  cases hx
  exact accepted_decorate hq _ _

end Program

end Edm
