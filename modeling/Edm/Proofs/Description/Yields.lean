import Edm.LoadError

/-!
# Computations that succeed

`Yields x P` says that a computation succeeds with a result that has the property `P`.  It is read off a
computation step by step: a bind yields what its second half yields from the result of its first half
(`Yields.bind_iff`), and a walk over a list succeeds if each of its steps does (`Yields.mapM_iff`,
`Yields.foldlM_iff`).
-/

namespace Edm

/-- A computation succeeds, and its result has a property. -/
def Yields {ε α : Type} (x : Except ε α) (P : α → Prop) : Prop := ∃ a, x = .ok a ∧ P a

namespace Yields

variable {ε α β : Type}

theorem exists_ok {x : Except ε α} (h : x.toOption.isSome = true) : ∃ a, x = .ok a := by
  cases x with
  | ok a => exact ⟨a, rfl⟩
  | error e => cases h

@[simp] theorem ok_iff {a : α} {P : α → Prop} : Yields (.ok a : Except ε α) P ↔ P a := by
  constructor
  · rintro ⟨b, h, hb⟩
    cases h
    exact hb
  · exact fun h => ⟨a, rfl, h⟩

@[simp] theorem pure_iff {a : α} {P : α → Prop} : Yields (pure a : Except ε α) P ↔ P a := ok_iff

@[simp] theorem error_iff {e : ε} {P : α → Prop} : Yields (.error e : Except ε α) P ↔ False := by
  constructor
  · rintro ⟨a, h, _⟩
    cases h
  · exact False.elim

@[simp] theorem throw_iff {e : ε} {P : α → Prop} : Yields (throw e : Except ε α) P ↔ False := error_iff

/-- What a computation in two steps yields. -/
@[simp] theorem bind_iff {x : Except ε α} {f : α → Except ε β} {P : β → Prop} :
    Yields (x >>= f) P ↔ Yields x fun a => Yields (f a) P := by
  cases x with
  | error e => exact error_iff.trans error_iff.symm
  | ok a =>
    show Yields (f a) P ↔ Yields (.ok a) fun a => Yields (f a) P
    rw [ok_iff]

theorem mono {x : Except ε α} {P Q : α → Prop} (h : Yields x P) (hPQ : ∀ a, P a → Q a) : Yields x Q := by
  obtain ⟨a, hx, ha⟩ := h
  exact ⟨a, hx, hPQ a ha⟩

theorem congr_ok {x : Except ε α} {P Q : α → Prop} (h : ∀ a, x = .ok a → (P a ↔ Q a)) : Yields x P ↔ Yields x Q := by
  constructor
  · rintro ⟨a, hx, ha⟩
    exact ⟨a, hx, (h a hx).1 ha⟩
  · rintro ⟨a, hx, ha⟩
    exact ⟨a, hx, (h a hx).2 ha⟩

theorem congr {x : Except ε α} {P Q : α → Prop} (h : ∀ a, P a ↔ Q a) : Yields x P ↔ Yields x Q :=
  congr_ok fun a _ => h a

theorem and_left {x : Except ε α} {A : Prop} {P : α → Prop} :
    (Yields x fun a => A ∧ P a) ↔ A ∧ Yields x P := by
  constructor
  · rintro ⟨a, hx, hA, ha⟩
    exact ⟨hA, a, hx, ha⟩
  · rintro ⟨hA, a, hx, ha⟩
    exact ⟨a, hx, hA, ha⟩

theorem and_right {x : Except ε α} {A : Prop} {P : α → Prop} :
    (Yields x fun a => P a ∧ A) ↔ Yields x P ∧ A := by
  constructor
  · rintro ⟨a, hx, ha, hA⟩
    exact ⟨⟨a, hx, ha⟩, hA⟩
  · rintro ⟨⟨a, hx, ha⟩, hA⟩
    exact ⟨a, hx, ha, hA⟩

/-- A walk over a list whose results all have a property. -/
theorem mapM_iff {f : α → Except ε β} {P : β → Prop} (l : List α) :
    (Yields (l.mapM f) fun bs => ∀ b ∈ bs, P b) ↔ ∀ a ∈ l, Yields (f a) P := by
  induction l with
  | nil => simp
  | cons a l ih =>
    have hstep : ∀ b, (Yields (l.mapM f) fun bs => ∀ c ∈ b :: bs, P c) ↔ P b ∧ ∀ a ∈ l, Yields (f a) P := by
      intro b
      rw [← ih, ← and_left]
      exact congr fun bs => List.forall_mem_cons
    rw [List.mapM_cons, bind_iff, List.forall_mem_cons, ← and_right]
    simp only [bind_iff, pure_iff]
    exact congr hstep

/-- A walk over a list whose results do not matter. -/
theorem mapM_const_iff {f : α → Except ε β} {A : Prop} (l : List α) :
    (Yields (l.mapM f) fun _ => A) ↔ (∀ a ∈ l, Yields (f a) fun _ => True) ∧ A := by
  rw [← mapM_iff, ← and_right]
  exact congr fun bs => by simp

/-- A walk over a list with a state, where the state does not decide whether a step succeeds. -/
theorem foldlM_iff {f : β → α → Except ε β} {P : α → Prop}
    (h : ∀ s a, (Yields (f s a) fun _ => True) ↔ P a) (s : β) (l : List α) :
    (Yields (l.foldlM f s) fun _ => True) ↔ ∀ a ∈ l, P a := by
  induction l generalizing s with
  | nil => simp
  | cons a l ih =>
    rw [List.foldlM_cons, bind_iff, List.forall_mem_cons, ← h s a, ← and_right]
    exact congr fun s => by rw [ih s, true_and]

end Yields

end Edm
