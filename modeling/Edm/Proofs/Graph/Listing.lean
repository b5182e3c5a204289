import Edm.Proofs.Graph.Cell

/-!
# What a namespace lists

A namespace lists nodes by kind and name.  One more node takes the place of the one of its kind and name and
leaves the others (`Namespace.listed?_listing`); only nodes that were listed before or are added are listed then
(`Namespace.mem_members_listing`).
-/

namespace Edm

theorem Label.eq_of_sameKey_text {l : Label} {t : Text} (h : l.sameKey (.text t) = true) : l = .text t := by
  cases l with
  | text s => simpa using h
  | raw value => cases h
  | unformed => cases h

/-! ### Members -/

namespace Members

variable {α : Type}

theorem lookup_insert (l : Label) (t : Text) (v : α) (m : Members α) :
    (m.insert l v).lookup (.text t) = if l = .text t then some v else m.lookup (.text t) := by
  induction m with
  | nil =>
    have hkey : l.sameKey (.text t) = true ↔ l = .text t :=
      ⟨Label.eq_of_sameKey_text, fun h => by simp [h]⟩
    simp [insert, lookup, hkey]
  | cons e rest ih =>
    obtain ⟨n, w⟩ := e
    by_cases hl : n.sameKey l = true
    · -- the name in place is the one that is added, so it is looked up in the same way
      have hn : n.sameKey (.text t) = true ↔ l = .text t := by
        constructor
        · intro h
          rw [Label.eq_of_sameKey_text h] at hl
          cases l with
          | text s =>
            have hs : t = s := by simpa using hl
            rw [hs]
          | raw value => cases hl
          | unformed => cases hl
        · rintro rfl
          exact hl
      rw [insert, if_pos hl, lookup, lookup]
      by_cases ht : l = .text t
      · rw [if_pos (hn.2 ht), if_pos ht]
      · rw [if_neg fun h => ht (hn.1 h), if_neg ht, if_neg fun h => ht (hn.1 h)]
    · rw [insert, if_neg hl, lookup, lookup, ih]
      by_cases ht : n.sameKey (.text t) = true
      · have hlt : l ≠ .text t := by
          rintro rfl
          exact hl ht
        rw [if_pos ht, if_pos ht, if_neg hlt]
      · rw [if_neg ht, if_neg ht]

theorem mem_values_insert {l : Label} {v w : α} {m : Members α} (h : w ∈ (m.insert l v).values) :
    w = v ∨ w ∈ m.values := by
  induction m with
  | nil =>
    left
    simpa [insert, values] using h
  | cons e rest ih =>
    obtain ⟨n, u⟩ := e
    by_cases hl : n.sameKey l = true
    · rw [insert, if_pos hl] at h
      rcases List.mem_cons.1 h with h | h
      · exact .inl h
      · exact .inr (List.mem_cons_of_mem _ h)
    · rw [insert, if_neg hl] at h
      rcases List.mem_cons.1 h with h | h
      · exact .inr (by simp [values, h])
      · exact (ih h).imp_right fun h => List.mem_cons_of_mem _ h

theorem mem_values_insert_self (l : Label) (v : α) (m : Members α) : v ∈ (m.insert l v).values := by
  induction m with
  | nil => exact List.mem_singleton_self v
  | cons e rest ih =>
    rw [insert]
    split
    · exact List.mem_cons_self ..
    · exact List.mem_cons_of_mem _ ih

theorem mem_values_of_lookup {l : Label} {v : α} {m : Members α} (h : m.lookup l = some v) : v ∈ m.values := by
  induction m with
  | nil => cases h
  | cons e rest ih =>
    obtain ⟨n, u⟩ := e
    rw [lookup] at h
    split at h
    · cases h
      exact List.mem_cons_self ..
    · exact List.mem_cons_of_mem _ (ih h)

end Members

/-! ### Listed nodes -/

/-- The node of a kind that a namespace lists under a name. -/
def Namespace.listed? (s : Namespace) (t : Text) : Kind → Option Node
  | .model => (s.models.lookup (.text t)).map .model
  | .enum => (s.enums.lookup (.text t)).map .enum
  | .union => (s.unions.lookup (.text t)).map .union
  | .interface => (s.interfaces.lookup (.text t)).map .interface
  | .operation => (s.operations.lookup (.text t)).map .operation
  | _ => none

/-- The node of a kind that a namespace of a graph lists under a name. -/
def Graph.listed? (g : Graph) (i : NamespaceId) (t : Text) (k : Kind) : Option Node :=
  (g.namespaces.get i).listed? t k

namespace Namespace

variable {s : Namespace} {n : Node} {k : Kind}

/-- What a namespace lists after one more node. -/
theorem listed?_listing (hn : n.declarableKind? = some k) (hk : k ≠ .nameSpace) (l : Label) (t : Text) (k' : Kind) :
    (s.listing l n).listed? t k' = if k = k' ∧ l = .text t then some n else s.listed? t k' := by
  cases n with
  | model i | enum i | union i | interface i | operation i =>
    cases hn
    cases k' <;> simp [listing, listed?, Members.lookup_insert, apply_ite (Option.map _)]
  | nameSpace i =>
    cases hn
    exact absurd rfl hk
  | _ => cases hn

theorem listed?_congr {s' : Namespace} (hmodels : s'.models = s.models) (henums : s'.enums = s.enums)
    (hunions : s'.unions = s.unions) (hinterfaces : s'.interfaces = s.interfaces)
    (hoperations : s'.operations = s.operations) (t : Text) (k : Kind) : s'.listed? t k = s.listed? t k := by
  cases k <;> simp [listed?, *]

/-- What a namespace lists under a name is of a kind that namespaces list. -/
theorem declarableKind?_of_listed? {t : Text} (h : s.listed? t k = some n) :
    n.declarableKind? = some k ∧ k ≠ .nameSpace := by
  cases k with
  | model | enum | union | interface | operation =>
    obtain ⟨i, -, rfl⟩ := Option.map_eq_some_iff.1 h
    exact ⟨rfl, by decide⟩
  | _ => cases h

/-- All nodes that a namespace lists. -/
def members (s : Namespace) : List Node :=
  s.namespaces.values.map .nameSpace ++ s.models.values.map .model ++ s.enums.values.map .enum
    ++ s.interfaces.values.map .interface ++ s.operations.values.map .operation ++ s.unions.values.map .union

theorem mem_members_of_listed? {t : Text} (h : s.listed? t k = some n) : n ∈ s.members := by
  cases k with
  | model | enum | union | interface | operation =>
    obtain ⟨i, hi, rfl⟩ := Option.map_eq_some_iff.1 h
    simp [members, Members.mem_values_of_lookup hi]
  | _ => cases h

theorem mem_members_listing {l : Label} {m : Node} (h : m ∈ (s.listing l n).members) : m = n ∨ m ∈ s.members := by
  cases n with
  | nameSpace i | model i | enum i | interface i | operation i | union i =>
    cases m <;> simp only [members, listing, List.mem_append, List.mem_map] at h ⊢ <;>
      simp at h ⊢ <;> first | exact Members.mem_values_insert h | exact h
  | _ => exact .inr h

theorem mem_members_listing_self (hn : n.declarableKind? = some k) (l : Label) : n ∈ (s.listing l n).members := by
  cases n with
  | nameSpace i | model i | enum i | interface i | operation i | union i =>
    simp [members, listing, Members.mem_values_insert_self]
  | _ => cases hn

end Namespace

/-! ### Listings in a graph -/

@[simp] theorem Cell.name_ownedBy (c : Cell) (owner : NamespaceId) : (c.ownedBy owner).name = c.name := by
  cases c <;> rfl

namespace Graph

/-- A namespace lists a node of a kind under a name that the node has. -/
def ListsNamed (g : Graph) (space : NamespaceId) (t : Text) (k : Kind) : Prop :=
  ∃ s n c, g.cell? (.nameSpace space) = some (.nameSpace s) ∧ s.listed? t k = some n ∧ g.cell? n = some c
    ∧ c.name = .text t

/-- A graph that has the nodes of another one with their names, and the same namespaces. -/
def Carries (g g' : Graph) : Prop :=
  ∀ n c, g.cell? n = some c → ∃ c', g'.cell? n = some c' ∧ c'.name = c.name ∧ ∀ s, c = .nameSpace s → c' = c

section

variable {g g' : Graph} {space i : NamespaceId} {s : Namespace} {n m : Node} {c : Cell} {t : Text} {k k' : Kind}

theorem ListsNamed.carry (h : g.ListsNamed space t k) (hg : g.Carries g') : g'.ListsNamed space t k := by
  obtain ⟨s, n, c, hs, hl, hc, hname⟩ := h
  obtain ⟨c', hc', -, hsame⟩ := hg _ _ hs
  obtain ⟨c'', hc'', hname', -⟩ := hg _ _ hc
  rw [hsame s rfl] at hc'
  exact ⟨s, n, c'', hc', hl, hc'', hname'.trans hname⟩

/-- A graph with one node more, which another one has taken in. -/
theorem carries_of_patch {x : Node} {c' d : Cell} (hnone : g.cell? x = none) (hc : g.cell? n = some c)
    (hg : ∀ y, g'.cell? y = if y = x then some d else if y = n then some c' else g.cell? y)
    (hname : c'.name = c.name) (hspace : ∀ s, c ≠ .nameSpace s) : g.Carries g' := by
  intro y e hy
  have hne : y ≠ x := by
    rintro rfl
    rw [hnone] at hy
    cases hy
  rw [hg, if_neg hne]
  by_cases hyn : y = n
  · subst hyn
    cases hc.symm.trans hy
    exact ⟨c', by simp, hname, fun s hs => absurd hs (hspace s)⟩
  · exact ⟨e, by simp [hyn, hy], rfl, fun s hs => by rw [hs]⟩

/-- A node that a namespace can list refers to the namespace once it is listed. -/
theorem owner_ownedBy (hn : n.declarableKind? = some k) (hc : g.cell? n = some c) (owner : NamespaceId) :
    (c.ownedBy owner).owner = some owner := by
  cases n with
  | nameSpace i | model i | enum i | interface i | operation i | union i =>
    obtain ⟨a, -, rfl⟩ := Option.map_eq_some_iff.1 hc
    rfl
  | _ => cases hn

section

variable (hs : g.cell? (.nameSpace space) = some (.nameSpace s)) (hc : g.cell? n = some c)
  (hne : n ≠ .nameSpace space)

include hc hne

theorem cell?_list_node : (g.list space n).cell? n = some (c.ownedBy space) := by
  rw [cell?_list_self hne, hc]
  rfl

include hs

theorem cell?_list_space :
    (g.list space n).cell? (.nameSpace space) = some (.nameSpace (s.listing c.name n)) := by
  rw [cell?_list_owner hs hne, nameOf_of_cell hc]

theorem exists_cell_list {e : Cell} (he : g.cell? m = some e) :
    ∃ e', (g.list space n).cell? m = some e' ∧ e'.name = e.name := by
  by_cases hm : m = .nameSpace space
  · subst hm
    cases hs.symm.trans he
    refine ⟨_, cell?_list_space hs hc hne, ?_⟩
    cases n <;> rfl
  · by_cases hmn : m = n
    · subst hmn
      cases hc.symm.trans he
      exact ⟨_, cell?_list_node hc hne, Cell.name_ownedBy c space⟩
    · exact ⟨e, by rw [cell?_list_ne hm hmn, he], rfl⟩

variable (hk : n.declarableKind? = some k)

include hk

theorem listsNamed_list (hspace : k ≠ .nameSpace) (hname : c.name = .text t) :
    (g.list space n).ListsNamed space t k := by
  refine ⟨_, n, _, cell?_list_space hs hc hne, ?_, cell?_list_node hc hne, by simpa using hname⟩
  rw [Namespace.listed?_listing hk hspace, if_pos ⟨rfl, hname⟩]

/-- What a namespace lists under a name stays or is replaced by another node with this name. -/
theorem ListsNamed.list (h : g.ListsNamed i t k') : (g.list space n).ListsNamed i t k' := by
  obtain ⟨x, m, e, hx, hl, he, hname⟩ := h
  obtain ⟨e', he', hname'⟩ := exists_cell_list hs hc hne he
  by_cases hi : Node.nameSpace i = .nameSpace space
  · cases hi
    cases hs.symm.trans hx
    have hspace := cell?_list_space hs hc hne
    by_cases hhit : (s.listing c.name n).listed? t k' = s.listed? t k'
    · exact ⟨_, m, e', hspace, hhit.trans hl, he', hname'.trans hname⟩
    · have hnot : k ≠ .nameSpace := by
        rintro rfl
        cases n with
        | nameSpace j => exact hhit (Namespace.listed?_congr rfl rfl rfl rfl rfl t k')
        | _ => cases hk
      rw [Namespace.listed?_listing hk hnot] at hhit
      have hcond : k = k' ∧ c.name = .text t := Classical.byContradiction fun hcond => hhit (if_neg hcond)
      rw [← hcond.1]
      exact listsNamed_list hs hc hne hk hnot hcond.2
  · by_cases hin : Node.nameSpace i = n
    · subst hin
      cases hc.symm.trans hx
      refine ⟨_, m, e', cell?_list_node hc hne, ?_, he', hname'.trans hname⟩
      rw [← hl]
      exact Namespace.listed?_congr rfl rfl rfl rfl rfl t k'
    · exact ⟨x, m, e', by rw [cell?_list_ne hi hin, hx], hl, he', hname'.trans hname⟩

end

end

end Graph

end Edm
