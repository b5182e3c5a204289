import Edm.Proofs.Graph.Calls
import Edm.Proofs.Graph.Nested

/-!
# Growing namespaces

The keys under which a namespace lists others are their names (`Graph.IsKeyed`), so it lists each once.  Opening a
namespace, listing it and all that is done to other nodes keep this up, and so does every call
(`Graph.IsKeyed.after`).  If, after some calls, what is listed refers back to where it is listed and no namespace is
around itself, then the namespaces are nested (`Graph.IsKeyed.isNested`).
-/

namespace Edm

open Relation

namespace Members

variable {α : Type} {m : Members α} {t : Text} {v : α}

theorem mem_insert_text {x : Label × α} (h : x ∈ m.insert (.text t) v) : x = (.text t, v) ∨ x ∈ m := by
  induction m with
  | nil => exact .inl (List.mem_singleton.1 h)
  | cons e rest ih =>
    rw [insert] at h
    split at h
    next hkey =>
      rw [Label.eq_of_sameKey_text hkey] at h
      exact (List.mem_cons.1 h).imp_right (List.mem_cons_of_mem _)
    next => exact (List.mem_cons.1 h).elim (fun h => .inr (h ▸ List.mem_cons_self ..))
              fun h => (ih h).imp_right (List.mem_cons_of_mem _)

theorem nodup_names_insert_text (h : m.names.Nodup) : (m.insert (.text t) v).names.Nodup := by
  induction m with
  | nil => exact List.nodup_singleton _
  | cons e rest ih =>
    obtain ⟨hnew, hrest⟩ := List.nodup_cons.1 h
    rw [insert]
    split
    · exact List.nodup_cons.2 ⟨hnew, hrest⟩
    next hkey =>
      refine List.nodup_cons.2 ⟨fun hmem => ?_, ih hrest⟩
      obtain ⟨x, hx, hname⟩ := List.mem_map.1 hmem
      obtain rfl | hx := mem_insert_text hx
      · rw [← hname] at hkey
        simp at hkey
      · exact hnew (List.mem_map.2 ⟨x, hx, hname⟩)

end Members

namespace Graph

/-! ### Namespaces that stay as they are -/

/-- A graph has the namespaces of another one, but for what they declare. -/
structure SameSpaces (g g' : Graph) : Prop where
  size_eq : g'.namespaces.size = g.namespaces.size
  bare_eq : ∀ i, (g'.namespaces.get i).bare = (g.namespaces.get i).bare

namespace SameSpaces

variable {g g' g'' : Graph}

theorem of_eq (h : g'.namespaces = g.namespaces) : SameSpaces g g' := by
  constructor <;> simp [h]

theorem trans (h : SameSpaces g g') (h' : SameSpaces g' g'') : SameSpaces g g'' where
  size_eq := h'.size_eq.trans h.size_eq
  bare_eq i := (h'.bare_eq i).trans (h.bare_eq i)

theorem name_eq (h : SameSpaces g g') (i : NamespaceId) : (g'.namespaces.get i).name = (g.namespaces.get i).name := by
  show (g'.namespaces.get i).bare.name = (g.namespaces.get i).bare.name
  rw [h.bare_eq]

theorem parent_eq (h : SameSpaces g g') (i : NamespaceId) :
    (g'.namespaces.get i).parent = (g.namespaces.get i).parent := by
  show (g'.namespaces.get i).bare.parent = (g.namespaces.get i).bare.parent
  rw [h.bare_eq]

theorem namespaces_eq (h : SameSpaces g g') (i : NamespaceId) :
    (g'.namespaces.get i).namespaces = (g.namespaces.get i).namespaces := by
  show (g'.namespaces.get i).bare.namespaces = (g.namespaces.get i).bare.namespaces
  rw [h.bare_eq]

theorem foldl {β : Type} {f : Graph → β → Graph} (hf : ∀ g b, SameSpaces g (f g b)) (g : Graph) (bs : List β) :
    SameSpaces g (bs.foldl f g) := by
  induction bs generalizing g with
  | nil => exact of_eq rfl
  | cons b bs ih => exact (hf g b).trans (ih (f g b))

theorem modifyNamespace (g : Graph) (i : NamespaceId) {f : Namespace → Namespace} (hf : ∀ s, (f s).bare = s.bare) :
    SameSpaces g (g.modifyNamespace i f) := by
  refine ⟨Table.size_modify .., fun j => ?_⟩
  rw [Graph.modifyNamespace, Table.get_eq_getD, Table.get_eq_getD, Table.get?_modify]
  cases g.namespaces.get? j with
  | none => split <;> rfl
  | some s =>
    split
    · exact hf s
    · rfl

theorem enter {n : Node} (hn : ∀ j, n ≠ .nameSpace j) (g : Graph) (i : NamespaceId) (l : Label) :
    SameSpaces g (g.enter i l n) := by
  cases n with
  | nameSpace j => exact absurd rfl (hn j)
  | model j | enum j | interface j | operation j | union j =>
    refine modifyNamespace g i ?_
    exact fun _ => rfl
  | _ => exact of_eq rfl

/-- Listing anything but a namespace. -/
theorem list (g : Graph) (i : NamespaceId) {n : Node} (hn : ∀ j, n ≠ .nameSpace j) : SameSpaces g (g.list i n) := by
  have howner : (g.setOwner i n).namespaces = g.namespaces := by
    cases n with
    | nameSpace j => exact absurd rfl (hn j)
    | _ => rfl
  exact (of_eq howner).trans (enter hn _ i _)

end SameSpaces

/-! ### Keys -/

/-- Namespaces have texts for names, list others under their names, each name once, and refer to namespaces that are
there. -/
structure IsKeyed (g : Graph) : Prop where
  text : ∀ i, (g.namespaces.get i).name.isText = true
  nodup : ∀ i, (g.namespaces.get i).namespaces.names.Nodup
  named : ∀ i, ∀ x ∈ (g.namespaces.get i).namespaces,
    x.2 < g.namespaces.size ∧ (g.namespaces.get x.2).name = x.1
  present : ∀ i p, (g.namespaces.get i).parent = some p → p < g.namespaces.size

section

variable {g g' : Graph} {i j k : NamespaceId}

theorem size_newNamespace (g : Graph) (s : Namespace) :
    (g.newNamespace s).2.namespaces.size = g.namespaces.size + 1 := Table.size_push ..

theorem lt_size_newNamespace (g : Graph) (s : Namespace) :
    g.namespaces.size < (g.newNamespace s).2.namespaces.size := by
  rw [size_newNamespace]
  exact Nat.lt_succ_self _

theorem get_newNamespace (g : Graph) (s : Namespace) (k : NamespaceId) :
    (g.newNamespace s).2.namespaces.get k = if k = g.namespaces.size then s else g.namespaces.get k :=
  Table.get_push ..

theorem holds_newNamespace {name : Label} (h : (g.newNamespace { name }).2.Holds i j) : g.Holds i j := by
  rw [Holds, get_newNamespace] at h
  split at h
  · cases h
  · exact h

theorem get_list_nameSpace (hi : i < g.namespaces.size) (hj : j < g.namespaces.size) (k : NamespaceId) :
    (g.list i (.nameSpace j)).namespaces.get k =
      let s := g.namespaces.get k
      { s with
        parent := if k = j then some i else s.parent
        namespaces := if k = i then s.namespaces.insert (g.namespaces.get j).name j else s.namespaces } := by
  have hi' : i < (g.setOwner i (.nameSpace j)).namespaces.size := by
    rwa [setOwner, modifyNamespace, Table.size_modify]
  show ((g.setOwner i (.nameSpace j)).namespaces.modify i _).get k = _
  rw [Table.get_modify _ _ _ _ hi', setOwner, modifyNamespace, Table.get_modify _ _ _ _ hj]
  split <;> split <;> rfl

namespace IsKeyed

theorem congr (h : g.IsKeyed) (hsame : SameSpaces g g') : g'.IsKeyed where
  text i := by
    rw [hsame.name_eq]
    exact h.text i
  nodup i := by
    rw [hsame.namespaces_eq]
    exact h.nodup i
  named i x hx := by
    rw [hsame.namespaces_eq] at hx
    rw [hsame.size_eq, hsame.name_eq]
    exact h.named i x hx
  present i p hp := by
    rw [hsame.parent_eq] at hp
    rw [hsame.size_eq]
    exact h.present i p hp

theorem newNamespace (h : g.IsKeyed) {name : Label} (hname : name.isText = true) :
    (g.newNamespace { name }).2.IsKeyed := by
  have hget := get_newNamespace g { name }
  have hsize := size_newNamespace g { name }
  refine ⟨fun k => ?_, fun k => ?_, fun k x hx => ?_, fun k p hp => ?_⟩
  · rw [hget]
    split
    · exact hname
    · exact h.text k
  · rw [hget]
    split
    · exact List.nodup_nil
    · exact h.nodup k
  · rw [hget] at hx
    split at hx
    · cases hx
    · obtain ⟨hlt, hnamed⟩ := h.named k x hx
      rw [hget, hsize, if_neg (Nat.ne_of_lt hlt)]
      exact ⟨Nat.lt_succ_of_lt hlt, hnamed⟩
  · rw [hget] at hp
    rw [hsize]
    split at hp
    · cases hp
    · exact Nat.lt_succ_of_lt (h.present k p hp)

theorem list (h : g.IsKeyed) (hi : i < g.namespaces.size) (hj : j < g.namespaces.size) :
    (g.list i (.nameSpace j)).IsKeyed := by
  have hget := get_list_nameSpace hi hj
  have hsize : (g.list i (.nameSpace j)).namespaces.size = g.namespaces.size := size_list ..
  obtain ⟨t, ht⟩ := Label.isText_iff.1 (h.text j)
  refine ⟨fun k => ?_, fun k => ?_, fun k x hx => ?_, fun k p hp => ?_⟩
  · rw [hget]
    exact h.text k
  · rw [hget]
    dsimp only
    split
    · rw [ht]
      exact Members.nodup_names_insert_text (h.nodup k)
    · exact h.nodup k
  · rw [hsize]
    rw [hget] at hx ⊢
    dsimp only at hx ⊢
    split at hx
    · rw [ht] at hx
      obtain rfl | hx := Members.mem_insert_text hx
      · exact ⟨hj, ht⟩
      · exact h.named k x hx
    · exact h.named k x hx
  · rw [hsize]
    rw [hget] at hp
    dsimp only at hp
    split at hp
    · cases hp
      exact hi
    · exact h.present k p hp

theorem lt_size (h : g.IsKeyed) (hj : g.Holds i j) : j < g.namespaces.size := by
  obtain ⟨x, hx, rfl⟩ := List.mem_map.1 hj
  exact (h.named i x hx).1

theorem openNamespace (h : g.IsKeyed) (hi : i < g.namespaces.size) {name : Label} (hname : name.isText = true) :
    (g.openNamespace i name).2.IsKeyed
      ∧ (g.openNamespace i name).1 < (g.openNamespace i name).2.namespaces.size := by
  rw [Graph.openNamespace]
  split
  next j hj => exact ⟨h, h.lt_size (Members.mem_values_of_lookup hj)⟩
  next =>
    have hnew := lt_size_newNamespace g { name }
    refine ⟨(h.newNamespace hname).list (Nat.lt_trans hi hnew) hnew, ?_⟩
    rw [size_list]
    exact hnew

/-- The values are distinct, as a namespace has only one name. -/
theorem nodup_values (h : g.IsKeyed) (i : NamespaceId) : (g.namespaces.get i).namespaces.values.Nodup := by
  have hnames : (g.namespaces.get i).namespaces.names
      = (g.namespaces.get i).namespaces.values.map fun j => (g.namespaces.get j).name := by
    rw [Members.values, List.map_map]
    exact List.map_congr_left fun x hx => (h.named i x hx).2.symm
  exact List.Nodup.of_map _ (hnames ▸ h.nodup i)

end IsKeyed

/-! ### References back -/

/-- What a namespace lists refers back to it. -/
def IsBacked (g : Graph) : Prop := ∀ i j, g.Holds i j → (g.namespaces.get j).parent = some i

theorem IsBacked.congr (h : g.IsBacked) (hsame : SameSpaces g g') : g'.IsBacked := by
  intro i j hj
  rw [Holds, hsame.namespaces_eq] at hj
  rw [hsame.parent_eq]
  exact h i j hj

theorem IsBacked.newNamespace (h : g.IsBacked) (hkeyed : g.IsKeyed) (name : Label) :
    (g.newNamespace { name }).2.IsBacked := by
  intro i j hj
  have hold := holds_newNamespace hj
  rw [get_newNamespace, if_neg (Nat.ne_of_lt (hkeyed.lt_size hold))]
  exact h i j hold

/-- A namespace that is listed nowhere else can be listed. -/
theorem IsBacked.list (h : g.IsBacked) (hi : i < g.namespaces.size) (hj : j < g.namespaces.size)
    (hfree : ∀ k, g.Holds k j → k = i) : (g.list i (.nameSpace j)).IsBacked := by
  have hget := get_list_nameSpace hi hj
  have hback : ∀ a b, g.Holds a b → ((g.list i (.nameSpace j)).namespaces.get b).parent = some a := by
    intro a b hab
    rw [hget]
    dsimp only
    split
    next hb => rw [hfree a (hb ▸ hab)]
    next => exact h a b hab
  intro a b hab
  rw [Holds, hget] at hab
  dsimp only at hab
  split at hab
  next ha =>
    obtain rfl | hab := Members.mem_values_insert hab
    · rw [hget, ha]
      exact if_pos rfl
    · exact hback a b hab
  next => exact hback a b hab

theorem IsBacked.openNamespace (h : g.IsBacked) (hkeyed : g.IsKeyed) (hi : i < g.namespaces.size) (name : Label) :
    (g.openNamespace i name).2.IsBacked := by
  rw [Graph.openNamespace]
  split
  · exact h
  · have hnew := lt_size_newNamespace g { name }
    refine (h.newNamespace hkeyed name).list (Nat.lt_trans hi hnew) hnew fun k hk => ?_
    exact absurd (hkeyed.lt_size (holds_newNamespace hk)) (Nat.lt_irrefl _)

end

/-! ### Calls -/

/-- A namespace that a call makes is named by a text. -/
def Call.HasTextName : Call → Prop
  | .child _ name => name.isText = true
  | .add _ _ | .property _ _ _ _ | .member _ _ _ | .operation _ _ => True

section

variable {g : Graph} {call : Call} {i : NamespaceId}

/-- Namespaces that list nothing and are in no namespace. -/
theorem isKeyed_of_records (hloose : ∀ n c, g.cell? n = some c → c.items = [] ∧ c.owner = none)
    (htext : ∀ i, (g.namespaces.get i).name.isText = true) : g.IsKeyed := by
  have hempty : ∀ i, (g.namespaces.get i).namespaces = [] ∧ (g.namespaces.get i).parent = none := by
    intro i
    rw [Table.get_eq_getD]
    cases hs : g.namespaces.get? i with
    | none => exact ⟨rfl, rfl⟩
    | some s =>
      obtain ⟨hitems, howner⟩ := hloose (.nameSpace i) (.nameSpace s) (by rw [cell?, hs]; rfl)
      have hmembers : s.namespaces = [] := by
        have hnone : s.members = [] := hitems
        simp only [Namespace.members, Members.values, List.append_eq_nil_iff, List.map_eq_nil_iff] at hnone
        exact hnone.1.1.1.1.1
      exact ⟨hmembers, howner⟩
  refine ⟨htext, fun i => ?_, fun i x hx => ?_, fun i p hp => ?_⟩
  · rw [(hempty i).1]
    exact List.nodup_nil
  · rw [(hempty i).1] at hx
    cases hx
  · rw [(hempty i).2] at hp
    cases hp

theorem after_child (g : Graph) (i : NamespaceId) (name : Label) :
    g.after (.child i name) = g ∨ g.after (.child i name) = (g.openNamespace i name).2 := by
  rw [after, child]
  cases name.keyable with
  | false => exact .inl rfl
  | true =>
    cases (g.namespaces.get i).namespaces.lookup name with
    | some j => exact .inl rfl
    | none =>
      cases name.truthy with
      | false => exact .inl rfl
      | true => exact .inr rfl

theorem after_add {n : Node} (h : g.IsProper (.add i n)) :
    g.after (.add i n) = g ∨ (g.cell? n).isSome = true ∧ g.after (.add i n) = g.list i n := by
  obtain ⟨-, hn⟩ := h
  cases hk : n.declarableKind? with
  | none => simp [after, attach, hk]
  | some k =>
    obtain ⟨hsome, hkey⟩ := hn (by rw [hk]; rfl)
    cases hname : (g.nameOf n).truthy with
    | false => simp [after, attach, hk, checkName, hname]
    | true => exact .inr ⟨hsome, by simp [after, attach, hk, checkName, hname, hkey]⟩

/-- Calls keep the keys of namespaces. -/
theorem IsKeyed.after (h : g.IsKeyed) (hproper : g.IsProper call) (htext : call.HasTextName) :
    (g.after call).IsKeyed := by
  cases call with
  | child i name =>
    obtain hafter | hafter := g.after_child i name <;> rw [hafter]
    · exact h
    · exact (h.openNamespace (lt_size_of_isSome hproper) htext).1
  | add i n =>
    obtain hafter | ⟨hn, hafter⟩ := after_add hproper <;> rw [hafter]
    · exact h
    · by_cases hspace : ∃ j, n = .nameSpace j
      · obtain ⟨j, rfl⟩ := hspace
        exact h.list (lt_size_of_isSome hproper.1) (lt_size_of_isSome hn)
      · exact h.congr (.list g i fun j hj => hspace ⟨j, hj⟩)
  | property i name type optional =>
    refine h.congr (.of_eq ?_)
    rw [Graph.after, declareProperty]
    cases name.keyable <;> rfl
  | member i name value => exact h.congr (.of_eq rfl)
  | operation i j =>
    refine h.congr (.of_eq ?_)
    rw [Graph.after, attachOperation]
    split <;> rfl

/-- Namespaces whose links agree are nested. -/
theorem IsKeyed.isNested (h : g.IsKeyed) (htree : g.IsTree) : g.IsNested where
  back hj := by
    rw [← space_nameSpace]
    exact htree.back _ _ hj
  nodup := h.nodup_values
  text := h.text
  walks := by
    have hpresent : ∀ i p, g.Encloses p i → p < g.namespaces.size := by
      intro i p hp
      rw [Encloses, space_nameSpace] at hp
      exact h.present i p hp
    obtain ⟨rank, hrank⟩ := htree.exists_isRanked hpresent
    exact hrank.walksEnd

end

end Graph

end Edm
