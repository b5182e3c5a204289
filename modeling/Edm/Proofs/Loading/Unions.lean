import Edm.Proofs.Loading.Resolved

/-!
# Unions of a loaded program

Unions that are written in place are finite, so a union that comes back to itself does so by way of a declared
one (`Declarations.Consistent.not_cyclic`).  If none of the declared ones does, each way through the unions of a
loaded program ends (`Declarations.Consistent.endsWithin`, `Declarations.Consistent.acc_isPartOf`).
-/

namespace Edm

open Relation

/-! ### Ways through unions -/

namespace Graph

variable {g : Graph} {i j : UnionId} {n : Node}

/-- No reachable union with a name comes back to itself through options and the items of arrays. -/
def HasAcyclicUnions (g : Graph) : Prop :=
  ∀ i, g.Reaches (.union i) → (g.unions.get i).name.isText = true → ¬ TransGen g.HoldsUnion i i

/-- Whether the union that a type is about, if it is about one, was made after a given one. -/
def isAfter (i : UnionId) (n : Node) : Bool :=
  match n.core with
  | .union j => decide (i < j)
  | _ => true

/-- It is enough that unions hold only later ones. -/
theorem hasAcyclicUnions_of_later (h : ∀ i < g.unions.size, ∀ n ∈ (g.unions.get i).options, isAfter i n = true) :
    g.HasAcyclicUnions := by
  have hlater : ∀ i j, g.HoldsUnion i j → i < j := by
    rintro i j ⟨n, hn, hcore⟩
    rcases Nat.lt_or_ge i g.unions.size with hi | hi
    · have hafter := h i hi n hn
      unfold isAfter at hafter
      rw [hcore] at hafter
      exact of_decide_eq_true hafter
    · rw [Table.get_eq_default hi] at hn
      cases hn
  have hway : ∀ i j, TransGen g.HoldsUnion i j → i < j := by
    intro i j hij
    induction hij with
    | single hstep => exact hlater _ _ hstep
    | tail _ hstep ih => exact Nat.lt_trans ih (hlater _ _ hstep)
  exact fun i _ _ hcycle => Nat.lt_irrefl i (hway i i hcycle)

theorem Reaches.core (h : g.Reaches n) : g.Reaches n.core := by
  induction n with
  | array _ element ih => exact ih h.element
  | _ => exact h

theorem Reaches.holdsUnion (h : g.Reaches (.union i)) (hij : g.HoldsUnion i j) : g.Reaches (.union j) := by
  obtain ⟨n, hn, hcore⟩ := hij
  have hreaches := (h.option hn).core
  rwa [hcore] at hreaches

theorem Reaches.holdsUnions (h : g.Reaches (.union i)) (hij : ReflTransGen g.HoldsUnion i j) :
    g.Reaches (.union j) := by
  induction hij with
  | refl => exact h
  | tail _ hstep ih => exact ih.holdsUnion hstep

end Graph

namespace Declarations

variable {d : Declarations} {g : Graph} {scope : List Text} {i j : UnionId} {n : Node}

/-- A union that is not declared has another one for an option. -/
def HoldsInPlace (d : Declarations) (g : Graph) (i j : UnionId) : Prop := g.HoldsUnion i j ∧ ¬ d.Has (.union i)

theorem acc_of_has (h : d.Has (.union i)) : Acc (Function.swap (d.HoldsInPlace g)) i :=
  Acc.intro _ fun _ hj => absurd h hj.2

mutual

-- The recursion is on the expression: the options of a union that is written in place are smaller than it is.
theorem Denotes.acc_inPlace (hd : d.Consistent) {e : TypeExpr} {n : Node} : d.Denotes g scope e n →
    ∀ i, n.core = .union i → Acc (Function.swap (d.HoldsInPlace g)) i
  | .intrinsicName _ _, i, hi => by cases hi
  | .named _ hknown, i, hi => by
    have hhas := hd.has_of_known? hknown
    cases n with
    | array _ _ => cases hhas
    | union j =>
      cases hi
      exact acc_of_has hhas
    | _ => cases hi
  | .array _ h, i, hi => h.acc_inPlace hd i hi
  | .union _ hcell h, i, hi => by
    cases hi
    refine Acc.intro _ fun j hj => ?_
    obtain ⟨m, hm, hcore⟩ := hj.1
    rw [Graph.get_union hcell] at hm
    exact h.acc_inPlace hd m hm j hcore
  | .parameter _, i, hi => by cases hi
  | .intrinsic _, i, hi => by cases hi
  | .literal _, i, hi => by cases hi

theorem DenoteAll.acc_inPlace (hd : d.Consistent) {es : List TypeExpr} {ns : List Node} :
    d.DenoteAll g scope es ns → ∀ n ∈ ns, ∀ i, n.core = .union i → Acc (Function.swap (d.HoldsInPlace g)) i
  | .nil, _, hn, _, _ => (List.not_mem_nil hn).elim
  | .cons h hs, n, hn, i, hi => by
    rcases List.mem_cons.1 hn with rfl | hn
    · exact h.acc_inPlace hd i hi
    · exact hs.acc_inPlace hd n hn i hi

end

/-- A way through unions stays among those that are written in place, or meets a declared one. -/
theorem inPlace_or_meets (h : TransGen g.HoldsUnion i j) :
    TransGen (d.HoldsInPlace g) i j
      ∨ ∃ k, d.Has (.union k) ∧ ReflTransGen g.HoldsUnion i k ∧ TransGen g.HoldsUnion k j := by
  induction h with
  | single hstep =>
    by_cases hi : d.Has (.union i)
    · exact .inr ⟨i, hi, .refl, .single hstep⟩
    · exact .inl (.single ⟨hstep, hi⟩)
  | @tail b c hib hstep ih =>
    rcases ih with hinPlace | ⟨k, hk, hik, hkb⟩
    · by_cases hb : d.Has (.union b)
      · exact .inr ⟨b, hb, hib.to_reflTransGen, .single hstep⟩
      · exact .inl (hinPlace.tail ⟨hstep, hb⟩)
    · exact .inr ⟨k, hk, hik, hkb.tail hstep⟩

section

variable (hd : d.Consistent) (h : d.settleAll = .ok g)

include hd

theorem Consistent.isMade_core (hn : d.IsMade g n) : d.IsMade g n.core := by
  induction n with
  | array _ element ih => exact ih (hd.isMade_element hn)
  | _ => exact hn

/-- No union that an expression stands for comes back to itself unless a declared one does. -/
theorem Consistent.not_cyclic
    (hdeclared : ∀ k, ReflTransGen g.HoldsUnion i k → d.Has (.union k) → ¬ TransGen g.HoldsUnion k k)
    (hi : d.IsMade g (.union i)) : ¬ TransGen g.HoldsUnion i i := by
  intro hcycle
  rcases inPlace_or_meets (d := d) hcycle with hinPlace | ⟨k, hk, hik, hki⟩
  · -- the way leads only through unions that are written in place, and these get smaller
    obtain ⟨scope, e, hdenotes⟩ := hi
    have hacc : Acc (TransGen (Function.swap (d.HoldsInPlace g))) i := (hdenotes.acc_inPlace hd i rfl).transGen
    exact Graph.not_self_of_acc hacc (transGen_swap.2 hinPlace)
  · -- the way meets a declared union, which then comes back to itself
    exact hdeclared k hik hk (hki.trans_left hik)

include h

theorem Consistent.isMade_holdsUnions (hi : d.IsMade g (.union i)) (hij : ReflTransGen g.HoldsUnion i j) :
    d.IsMade g (.union j) := by
  induction hij with
  | refl => exact hi
  | tail _ hstep ih =>
    obtain ⟨n, hn, hcore⟩ := hstep
    have hmade := hd.isMade_core (hd.isMade_option h ih n hn)
    rwa [hcore] at hmade

theorem Consistent.lt_size (hi : d.IsMade g (.union i)) : i < g.unions.size := by
  have hcell : ∃ c, g.cell? (.union i) = some c := by
    obtain ⟨scope, e, hdenotes⟩ := hi
    cases hdenotes with
    | named _ hknown => exact hd.cell_of_has h (hd.has_of_known? hknown)
    | union _ hcell _ => exact ⟨_, hcell⟩
  obtain ⟨c, hc⟩ := hcell
  obtain ⟨u, hu, -⟩ := Option.map_eq_some_iff.1 hc
  exact Table.lt_size_of_get? (by rw [hu]; rfl)

theorem Consistent.isAbsent_union (hi : d.Has (.union i)) : (g.unions.get i).name.isAbsent = false := by
  obtain ⟨c, hc⟩ := hd.cell_of_has h hi
  obtain ⟨u, hu⟩ := Graph.exists_union (by rw [hc]; rfl)
  obtain ⟨c₀, hc₀, hresolves⟩ := hd.has_cell h hi hu
  obtain ⟨u₀, hu₀⟩ := Graph.exists_union hi
  cases hc₀.symm.trans hu₀
  have hname : u.name = u₀.name := hresolves.name
  rw [Graph.get_union hu, hname]
  exact (hd.fits _ _ hu₀).named u₀ rfl

theorem Consistent.endsWithin_of_declared
    (hdeclared : ∀ k, ReflTransGen g.HoldsUnion i k → d.Has (.union k) → ¬ TransGen g.HoldsUnion k k)
    (hi : d.IsMade g (.union i)) : g.EndsWithin g.unions.size i := by
  refine Graph.endsWithin_size fun j hij => ?_
  have hj := hd.isMade_holdsUnions h hi hij
  exact ⟨hd.lt_size h hj, hd.not_cyclic (fun k hjk => hdeclared k (hij.trans hjk)) hj⟩

/-- Each way through options from a union that an expression stands for ends after as many unions as there are. -/
theorem Consistent.endsWithin (htexts : g.HasTextNames) (hacyclic : g.HasAcyclicUnions)
    (hi : d.IsMade g (.union i)) (hreaches : g.Reaches (.union i)) : g.EndsWithin g.unions.size i := by
  refine hd.endsWithin_of_declared h (fun k hik hk => ?_) hi
  have hreach := hreaches.holdsUnions hik
  have hname : (g.unions.get k).name.isText = true := by
    rcases htexts _ hreach with htext | habsent
    · exact htext
    · rw [hd.isAbsent_union h hk] at habsent
      cases habsent
  exact hacyclic k hreach hname

/-- Going from a type that an expression stands for to its items and options comes to an end. -/
theorem Consistent.acc_isPartOf (htexts : g.HasTextNames) (hacyclic : g.HasAcyclicUnions) (hn : d.IsMade g n)
    (hreaches : g.Reaches n) : Acc g.IsPartOf n := by
  refine Graph.acc_of_core fun i hi => ?_
  have hmade := hd.isMade_core hn
  have hcore := hreaches.core
  rw [hi] at hmade hcore
  exact (hd.endsWithin h htexts hacyclic hmade hcore).acc

end

end Declarations

/-- A description can be loaded with texts for names and without circles, if a list of nodes shows that. -/
theorem Program.exists_load_of_closed {data : Json} (nodes : List Node) (hok : (load data).toOption.isSome = true)
    (hroot : .nameSpace Graph.root ∈ nodes)
    (hnodes : ∀ p ∈ (load data).toOption, ∀ n ∈ nodes, p.graph.HasTextName n ∧ ∀ m ∈ p.graph.links n, m ∈ nodes)
    (hunions : ∀ p ∈ (load data).toOption, ∀ i < p.graph.unions.size, ∀ n ∈ (p.graph.unions.get i).options,
      Graph.isAfter i n = true) :
    ∃ p, load data = .ok p ∧ p.graph.HasTextNames ∧ p.graph.HasAcyclicUnions := by
  obtain ⟨p, hload⟩ := Yields.exists_ok hok
  have hp : p ∈ (load data).toOption := by
    rw [hload]
    rfl
  exact ⟨p, hload, Graph.hasTextNames_of_closed hroot (hnodes p hp), Graph.hasAcyclicUnions_of_later (hunions p hp)⟩

end Edm
