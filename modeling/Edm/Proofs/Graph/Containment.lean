import Edm.Proofs.Graph.Walks
import Mathlib.Data.Finset.Card
import Mathlib.Order.WellFounded

/-!
# Containment

Owners list nodes, and nodes refer back to their owners.  In a graph that is contained (`Graph.Contained`) the two
sides agree, no node has two owners, and going outward comes to an end.  Then both ways through the namespaces are
walked to their ends (`Graph.Contained.walksEnd`).  What an owner takes in may be listed elsewhere already, so a
contained graph need not stay one: it does if and only if the node fits where it is put
(`Graph.Attaches.contained_iff`).
-/

namespace Edm

open Relation

/-- The nodes that the node of a record owns by listing them. -/
def Cell.items : Cell → List Node
  | nameSpace s => s.members
  | model m => m.properties.values.map .property
  | enum e => e.members.map .member
  | interface f => f.operations.values.map .operation
  | property _ | member _ | operation _ | union _ => []

@[simp] theorem Cell.items_ownedBy (c : Cell) (owner : NamespaceId) : (c.ownedBy owner).items = c.items := by
  cases c <;> rfl

namespace Graph

/-- The nodes that a node owns by listing them. -/
def items (g : Graph) (n : Node) : List Node := ((g.cell? n).map Cell.items).getD []

/-- The nodes that a node refers to as its owners. -/
def owners (g : Graph) (n : Node) : List Node := ((g.cell? n).map Cell.owners).getD []

/-- The namespace that a node refers to as its owner. -/
def space (g : Graph) (n : Node) : Option NamespaceId := (g.cell? n).bind Cell.owner

/-- A namespace is the one that another one is in. -/
def Encloses (g : Graph) (p i : NamespaceId) : Prop := g.space (.nameSpace i) = some p

/-- A node is listed only by what it refers to, and only once. -/
structure Owned (g : Graph) (n : Node) : Prop where
  belongs : ∀ o, n ∈ g.items o → o ∈ g.owners n
  single : ∀ o o', n ∈ g.items o → n ∈ g.items o' → o = o'

/-- Owners and what they list agree, and form a forest. -/
structure Contained (g : Graph) : Prop where
  owned : ∀ n, g.Owned n
  /-- An operation of an interface is in the namespace that the interface is in. -/
  together : ∀ i j, .operation j ∈ g.items (.interface i) → g.space (.operation j) = g.space (.interface i)
  /-- Going outward comes to an end. -/
  ends : WellFounded g.Encloses
  present : ∀ i p, g.Encloses p i → (g.cell? (.nameSpace p)).isSome = true

/-- What a namespace lists refers back to it, and going outward comes to an end. -/
structure IsTree (g : Graph) : Prop where
  back : ∀ i j, j ∈ (g.namespaces.get i).namespaces.values → g.Encloses i j
  ends : WellFounded g.Encloses

/-- A node can be put in an owner: no other owner lists it, the owner is not inside it, and it does not leave
operations behind. -/
structure Fits (g : Graph) (o n : Node) : Prop where
  free : ∀ x, n ∈ g.items x → x = o
  outside : ∀ i j, o = .nameSpace i → n = .nameSpace j → ¬ ReflTransGen g.Encloses j i
  together : ∀ i j, n = .interface i → .operation j ∈ g.items n → o ∈ g.owners n

/-- A graph in which an owner lists a node that refers to it, and which is otherwise the same as another one but for
nodes that the owner may have listed in its place. -/
structure Attaches (g g' : Graph) (o n : Node) : Prop where
  owner_isSome : (g.cell? o).isSome = true
  isSome : ∀ m, (g.cell? m).isSome = true → (g'.cell? m).isSome = true
  listed : n ∈ g'.items o
  belongs : o ∈ g'.owners n
  of_mem_items : ∀ x m, m ∈ g'.items x → x = o ∧ m = n ∨ m ∈ g.items x
  mem_items : ∀ x m, x ≠ o → m ∈ g.items x → m ∈ g'.items x
  owners_eq : ∀ m, m ≠ n → g'.owners m = g.owners m
  together : ∀ i, o = .interface i → g'.space n = g.space o

section

variable {g g' : Graph} {o n m x : Node} {i j p : NamespaceId}

/-! ### Owners -/

theorem mem_owners_nameSpace : .nameSpace p ∈ g.owners n ↔ g.space n = some p := by
  rw [owners, space]
  cases g.cell? n with
  | none => simp
  | some c => cases c <;> simp [Cell.owners, Cell.owner]

theorem space_congr (h : g'.owners m = g.owners n) : g'.space m = g.space n := by
  refine Option.ext fun p => ?_
  rw [← mem_owners_nameSpace, h, mem_owners_nameSpace]

theorem owners_nameSpace (g : Graph) (i : NamespaceId) :
    g.owners (.nameSpace i) = (g.space (.nameSpace i)).toList.map .nameSpace := by
  rw [owners, space, cell?]
  cases g.namespaces.get? i <;> simp [Cell.owners, Cell.owner]

theorem owners_interface (g : Graph) (i : InterfaceId) :
    g.owners (.interface i) = (g.space (.interface i)).toList.map .nameSpace := by
  rw [owners, space, cell?]
  cases g.interfaces.get? i <;> simp [Cell.owners, Cell.owner]

theorem exists_space (hn : g.owners n = (g.space n).toList.map .nameSpace) (ho : o ∈ g.owners n) :
    ∃ p, o = .nameSpace p ∧ g.space n = some p := by
  rw [hn] at ho
  obtain ⟨p, hp, rfl⟩ := List.mem_map.1 ho
  exact ⟨p, rfl, Option.mem_toList.1 hp⟩

theorem isSome_of_mem_owners (h : o ∈ g.owners n) : (g.cell? n).isSome = true := by
  rw [owners] at h
  cases hc : g.cell? n with
  | none => simp [hc] at h
  | some c => rfl

theorem space_nameSpace (g : Graph) (i : NamespaceId) : g.space (.nameSpace i) = (g.namespaces.get i).parent := by
  rw [space, cell?, Table.get_eq_getD]
  cases g.namespaces.get? i <;> rfl

theorem mem_items_nameSpace : m ∈ g.items (.nameSpace i) ↔ m ∈ (g.namespaces.get i).members := by
  rw [items, cell?, Table.get_eq_getD]
  cases g.namespaces.get? i <;> rfl

/-! ### Walks -/

theorem not_encloses_self (h : WellFounded g.Encloses) (i : NamespaceId) : ¬ TransGen g.Encloses i i :=
  fun hi => h.transGen.irrefl.irrefl i hi

open Classical in
/-- Namespaces are ranked by how many there are around them. -/
theorem IsTree.exists_isRanked (h : g.IsTree) (hpresent : ∀ i p, g.Encloses p i → p < g.namespaces.size) :
    ∃ rank, g.IsRanked rank := by
  let around (i : NamespaceId) := (Finset.range g.namespaces.size).filter fun k => TransGen g.Encloses k i
  have hlt : ∀ i j, g.Encloses j i → (around j).card < (around i).card := by
    intro i j hij
    refine Finset.card_lt_card (Finset.ssubset_iff_of_subset ?_ |>.2 ⟨j, ?_, ?_⟩)
    · intro k hk
      rw [Finset.mem_filter] at hk ⊢
      exact ⟨hk.1, hk.2.tail hij⟩
    · exact Finset.mem_filter.2 ⟨Finset.mem_range.2 (hpresent i j hij), .single hij⟩
    · exact fun hj => not_encloses_self h.ends j (Finset.mem_filter.1 hj).2
  refine ⟨fun i => (around i).card, fun i hi => ?_, fun i j hj => hlt j i (h.back i j hj), fun i j hj => hlt i j ?_⟩
  · have hsub : around i ⊆ (Finset.range g.namespaces.size).erase i := by
      intro k hk
      obtain ⟨hk, hki⟩ := Finset.mem_filter.1 hk
      refine Finset.mem_erase.2 ⟨?_, hk⟩
      rintro rfl
      exact not_encloses_self h.ends k hki
    have hcard := Finset.card_le_card hsub
    rw [Finset.card_erase_of_mem (Finset.mem_range.2 hi), Finset.card_range] at hcard
    exact Nat.lt_of_le_of_lt hcard (Nat.sub_lt (Nat.zero_lt_of_lt hi) Nat.one_pos)
  · rw [Encloses, space_nameSpace, hj]

theorem lt_size_of_isSome (h : (g.cell? (.nameSpace i)).isSome = true) : i < g.namespaces.size :=
  Table.lt_size_of_get? (Option.isSome_map .. ▸ h)

namespace Contained

variable (h : g.Contained)

include h

theorem isSome (hn : n ∈ g.items o) : (g.cell? n).isSome = true :=
  isSome_of_mem_owners ((h.owned n).belongs o hn)

/-- A namespace lists only namespaces that are in it. -/
theorem isTree : g.IsTree where
  back _ j hj := mem_owners_nameSpace.1 ((h.owned (.nameSpace j)).belongs _
    (mem_items_nameSpace.2 (Namespace.mem_members_nameSpace.2 hj)))
  ends := h.ends

theorem walksEnd : g.WalksEnd := by
  obtain ⟨rank, hrank⟩ := h.isTree.exists_isRanked fun i p hp => lt_size_of_isSome (h.present i p hp)
  exact hrank.walksEnd

end Contained

/-- Nodes that list nothing and are in no namespace are contained. -/
theorem contained_of_records (h : ∀ n c, g.cell? n = some c → c.items = [] ∧ c.owner = none) : g.Contained := by
  have hitems : ∀ n, g.items n = [] := by
    intro n
    rw [items]
    cases hc : g.cell? n with
    | none => rfl
    | some c => exact (h n c hc).1
  have hspace : ∀ n, g.space n = none := by
    intro n
    rw [space]
    cases hc : g.cell? n with
    | none => rfl
    | some c => exact (h n c hc).2
  exact {
    owned := fun n => ⟨fun o hn => by simp [hitems] at hn, fun o o' hn => by simp [hitems] at hn⟩
    together := fun i j hj => by simp [hitems] at hj
    ends := ⟨fun i => ⟨i, fun p hp => by simp [Encloses, hspace] at hp⟩⟩
    present := fun i p hp => by simp [Encloses, hspace] at hp }

/-! ### Taking in a node -/

/-- A node that is made for its owner fits. -/
theorem fits_of_new (h : g.Contained) (ho : (g.cell? o).isSome = true) (hn : g.cell? n = none) : g.Fits o n where
  free x hx := by
    have hsome := h.isSome hx
    rw [hn] at hsome
    cases hsome
  outside := by
    rintro i j rfl rfl hij
    have hsome : (g.cell? (.nameSpace j)).isSome = true := by
      obtain rfl | ⟨k, hk, -⟩ := ReflTransGen.cases_head hij
      · exact ho
      · exact h.present k j hk
    rw [hn] at hsome
    cases hsome
  together i j _ hj := by simp [items, hn] at hj

/-- A node without an owner and without items fits anywhere, unless it is a namespace. -/
theorem fits_of_unowned (h : g.Contained) (howners : g.owners n = []) (hitems : g.items n = [])
    (hn : ∀ j, n ≠ .nameSpace j) : g.Fits o n where
  free x hx := by
    have hmem := (h.owned n).belongs x hx
    rw [howners] at hmem
    cases hmem
  outside i j _ hj := absurd hj (hn j)
  together i j _ hj := by simp [hitems] at hj

namespace Attaches

variable (h : Attaches g g' o n)

include h

theorem owned (hm : g.Owned m) (hfree : m = n → ∀ x, n ∈ g.items x → x = o) : g'.Owned m := by
  by_cases hmn : m = n
  · subst hmn
    have howner : ∀ x, m ∈ g'.items x → x = o := by
      intro x hx
      obtain ⟨hxo, -⟩ | hx := h.of_mem_items x m hx
      · exact hxo
      · exact hfree rfl x hx
    refine ⟨fun x hx => ?_, fun x x' hx hx' => (howner x hx).trans (howner x' hx').symm⟩
    rw [howner x hx]
    exact h.belongs
  · have hold : ∀ x, m ∈ g'.items x → m ∈ g.items x :=
      fun x hx => (h.of_mem_items x m hx).resolve_left fun heq => hmn heq.2
    refine ⟨fun x hx => ?_, fun x x' hx hx' => hm.single x x' (hold x hx) (hold x' hx')⟩
    rw [h.owners_eq m hmn]
    exact hm.belongs x (hold x hx)

theorem space_eq (hm : m ≠ n) : g'.space m = g.space m := space_congr (h.owners_eq m hm)

theorem encloses_iff (hi : .nameSpace i ≠ n) : g'.Encloses p i ↔ g.Encloses p i := by
  rw [Encloses, Encloses, h.space_eq hi]

/-- A namespace that is put somewhere is in its new owner. -/
theorem owner_eq (hi : n = .nameSpace i) (hp : g'.Encloses p i) : o = .nameSpace p := by
  subst hi
  obtain ⟨q, rfl, hq⟩ := exists_space (owners_nameSpace g' i) h.belongs
  rw [Option.some.inj (hq.symm.trans hp)]

/-- Going outward still comes to an end if the owner is not inside the node. -/
theorem wellFounded (hends : WellFounded g.Encloses) (hfits : g.Fits o n) : WellFounded g'.Encloses := by
  -- outside the node nothing has changed
  have houtside : ∀ j, n = .nameSpace j → ∀ i, ¬ ReflTransGen g.Encloses j i → Acc g'.Encloses i := by
    intro j hj i
    induction i using hends.induction with
    | h i ih =>
      intro hji
      have hne : .nameSpace i ≠ n := by
        rw [hj]
        intro heq
        cases heq
        exact hji .refl
      refine ⟨i, fun p hp => ?_⟩
      rw [h.encloses_iff hne] at hp
      exact ih p hp fun hjp => hji (hjp.tail hp)
  refine ⟨fun i => ?_⟩
  induction i using hends.induction with
  | h i ih =>
    refine ⟨i, fun p hp => ?_⟩
    by_cases hi : n = .nameSpace i
    · exact houtside i hi p (hfits.outside p i (h.owner_eq hi hp) hi)
    · exact ih p ((h.encloses_iff (Ne.symm hi)).1 hp)

theorem contained (hg : g.Contained) (hfits : g.Fits o n) : g'.Contained where
  owned m := h.owned (hg.owned m) fun _ => hfits.free
  together i j hij := by
    by_cases hj : .operation j = n
    · have ho : .interface i = o := by
        obtain ⟨ho, -⟩ | hij := h.of_mem_items _ _ hij
        · exact ho
        · exact hfits.free _ (hj ▸ hij)
      rw [hj, h.together i ho.symm, ← ho, h.space_eq (by rw [← hj]; simp)]
    · have hold : .operation j ∈ g.items (.interface i) := (h.of_mem_items _ _ hij).resolve_left fun heq => hj heq.2
      rw [h.space_eq hj, hg.together i j hold]
      by_cases hi : .interface i = n
      · -- the interface is put where it is already
        subst hi
        obtain ⟨p, rfl, hp⟩ := exists_space (owners_interface g i) (hfits.together i j rfl hold)
        rw [hp, mem_owners_nameSpace.1 h.belongs]
      · rw [h.space_eq hi]
  ends := h.wellFounded hg.ends hfits
  present i p hp := by
    by_cases hi : n = .nameSpace i
    · exact h.isSome _ (h.owner_eq hi hp ▸ h.owner_isSome)
    · exact h.isSome _ (hg.present i p ((h.encloses_iff (Ne.symm hi)).1 hp))

theorem fits (hg : g.Contained) (hg' : g'.Contained) : g.Fits o n where
  free x hx := by
    by_contra hxo
    exact hxo ((hg'.owned n).single x o (h.mem_items x n hxo hx) h.listed)
  outside := by
    rintro i j rfl rfl hji
    -- the way from the node to its owner is still there, and now goes on to the node
    have hway : ∀ k, ReflTransGen g.Encloses j k → ReflTransGen g'.Encloses j k := by
      intro k hk
      induction hk with
      | refl => exact .refl
      | @tail k l _ hkl ih =>
        by_cases hl : l = j
        · rw [hl]
        · exact ih.tail ((h.encloses_iff (by simpa using hl)).2 hkl)
    exact not_encloses_self hg'.ends j (TransGen.tail' (hway i hji) (mem_owners_nameSpace.1 h.belongs))
  together := by
    rintro i j rfl hj
    obtain ⟨p, rfl, hp⟩ := exists_space (owners_interface g' i) h.belongs
    have hsame : g'.space (.operation j) = g'.space (.interface i) :=
      hg'.together i j (h.mem_items _ _ (by simp) hj)
    rw [mem_owners_nameSpace, ← hg.together i j hj, ← h.space_eq (by simp), hsame, hp]

/-- A contained graph stays one if and only if the node fits where it is put. -/
theorem contained_iff (hg : g.Contained) : g'.Contained ↔ g.Fits o n := ⟨h.fits hg, h.contained hg⟩

end Attaches

end

end Graph

end Edm
