import Edm.Graph.Members
import Mathlib.Data.List.Forall2
import Mathlib.Data.List.Induction
import Mathlib.Data.List.Nodup

/-!
# The latest entries

Of several entries with one name the last one counts, at the place of the first one (`latest`).  Members that
are added in the order of the entries are the members for the latest entries (`Lists.insert`).
-/

namespace Edm

theorem map_eq_of_forall₂ {α β γ : Type} {f : α → γ} {g : β → γ} {l : List α} {m : List β}
    (h : List.Forall₂ (fun a b => f a = g b) l m) : l.map f = m.map g := by
  rw [← List.forall₂_eq_eq_eq, List.forall₂_map_left_iff, List.forall₂_map_right_iff]
  exact h

section

variable {β : Type} (name : β → Label)

/-- The last entry with each name, in the order in which the names are first used. -/
def latest (entries : List β) : List β :=
  (entries.map name).eraseDups.filterMap fun n => entries.reverse.find? fun e => name e = n

/-- An entry in the place of the one with its name, or else at the end. -/
def enterLast (e : β) : List β → List β
  | [] => [e]
  | x :: rest => if name x = name e then e :: rest else x :: enterLast e rest

variable {name}

theorem eraseDups_concat {α : Type} [BEq α] [LawfulBEq α] (l : List α) (a : α) :
    (l ++ [a]).eraseDups = if a ∈ l then l.eraseDups else l.eraseDups ++ [a] := by
  rw [List.eraseDups_append]
  by_cases h : a ∈ l
  · have hnone : [a].removeAll l = [] := by simp [List.removeAll, h]
    rw [hnone, if_pos h, List.eraseDups_nil, List.append_nil]
  · have hone : [a].removeAll l = [a] := by simp [List.removeAll, h]
    rw [hone, if_neg h]
    rfl

theorem nodup_eraseDups {α : Type} [BEq α] [LawfulBEq α] (l : List α) : l.eraseDups.Nodup := by
  induction l using List.reverseRecOn with
  | nil => exact List.nodup_nil
  | append_singleton l a ih =>
    rw [eraseDups_concat]
    split
    next => exact ih
    next h =>
      rw [← List.concat_eq_append, List.nodup_concat]
      exact ⟨fun hmem => h (List.mem_eraseDups.1 hmem), ih⟩

/-- Replacing what is found for one of several distinct names enters it in the place of the old one. -/
private theorem Latest.filterMap_enter {f : Label → Option β} {names : List Label} (e : β)
    (hnodup : names.Nodup) (hf : ∀ n ∈ names, ∃ x, f n = some x ∧ name x = n) (he : name e ∈ names) :
    names.filterMap (fun n => if name e = n then some e else f n) = enterLast name e (names.filterMap f) := by
  induction names with
  | nil => cases he
  | cons n names ih =>
    obtain ⟨x, hx, hname⟩ := hf n (List.mem_cons_self ..)
    obtain ⟨hn, hnodup⟩ := List.nodup_cons.1 hnodup
    rw [List.filterMap_cons_some hx, enterLast, hname]
    by_cases h : name e = n
    · rw [List.filterMap_cons_some (b := e) (by rw [if_pos h]), if_pos h.symm]
      -- names are distinct, so no later one is that of the new entry
      refine congrArg (e :: ·) (List.filterMap_congr fun m hm => ?_)
      rw [if_neg]
      rintro rfl
      exact hn (h ▸ hm)
    · have he : name e ∈ names := (List.mem_cons.1 he).resolve_left h
      rw [List.filterMap_cons_some (b := x) (by rw [if_neg h, hx]), if_neg (Ne.symm h),
        ih hnodup (fun m hm => hf m (List.mem_cons_of_mem _ hm)) he]

private theorem Latest.enterLast_of_not_mem {e : β} {entries : List β} (h : ∀ x ∈ entries, name x ≠ name e) :
    enterLast name e entries = entries ++ [e] := by
  induction entries with
  | nil => rfl
  | cons x rest ih =>
    rw [enterLast, if_neg (h x (List.mem_cons_self ..)), ih fun y hy => h y (List.mem_cons_of_mem _ hy)]
    rfl

private theorem Latest.find_of_mem (name : β → Label) {entries : List β} {n : Label} (h : n ∈ entries.map name) :
    ∃ x, (entries.reverse.find? fun e => name e = n) = some x ∧ name x = n := by
  obtain ⟨e, he, hn⟩ := List.mem_map.1 h
  cases hfind : entries.reverse.find? fun e => name e = n with
  | none =>
    rw [List.find?_eq_none] at hfind
    exact absurd (by simpa using hn) (hfind e (List.mem_reverse.2 he))
  | some x => exact ⟨x, rfl, by simpa using List.find?_some hfind⟩

/-- One more entry takes the place of the latest one with its name. -/
theorem latest_concat (entries : List β) (e : β) :
    latest name (entries ++ [e]) = enterLast name e (latest name entries) := by
  have hfind : ∀ n, ((entries ++ [e]).reverse.find? fun x => name x = n)
      = if name e = n then some e else entries.reverse.find? fun x => name x = n := by
    intro n
    rw [List.reverse_append, List.reverse_singleton, List.singleton_append, List.find?_cons]
    by_cases h : name e = n <;> simp [h]
  unfold latest
  simp only [hfind]
  rw [List.map_append, List.map_singleton, eraseDups_concat]
  by_cases h : name e ∈ entries.map name
  · rw [if_pos h]
    exact Latest.filterMap_enter e (nodup_eraseDups _)
      (fun n hn => Latest.find_of_mem name (List.mem_eraseDups.1 hn)) (List.mem_eraseDups.2 h)
  · rw [if_neg h, List.filterMap_append, Latest.enterLast_of_not_mem]
    · refine congrArg₂ (· ++ ·) (List.filterMap_congr fun n hn => ?_) (by simp)
      rw [if_neg]
      rintro rfl
      exact h (List.mem_eraseDups.1 hn)
    · intro x hx hname
      obtain ⟨n, hn, hfound⟩ := List.mem_filterMap.1 hx
      have hx : x ∈ entries := List.mem_reverse.1 (List.mem_of_find?_eq_some hfound)
      exact h (List.mem_map.2 ⟨x, hx, hname⟩)

theorem mem_of_mem_latest {entries : List β} {e : β} (h : e ∈ latest name entries) : e ∈ entries := by
  obtain ⟨n, _, hfound⟩ := List.mem_filterMap.1 h
  exact List.mem_reverse.1 (List.mem_of_find?_eq_some hfound)

/-- An entry with each name that is used is the latest one. -/
theorem exists_latest (name : β → Label) {entries : List β} {e : β} (h : e ∈ entries) :
    ∃ x ∈ latest name entries, name x = name e := by
  have hname : name e ∈ entries.map name := List.mem_map_of_mem h
  obtain ⟨x, hx, hxname⟩ := Latest.find_of_mem name hname
  exact ⟨x, List.mem_filterMap.2 ⟨name e, List.mem_eraseDups.2 hname, hx⟩, hxname⟩

theorem latest_eq_nil_iff (name : β → Label) {entries : List β} : latest name entries = [] ↔ entries = [] := by
  constructor
  · intro h
    cases entries with
    | nil => rfl
    | cons e rest =>
      obtain ⟨x, hx, -⟩ := exists_latest name (List.mem_cons_self .. : e ∈ e :: rest)
      rw [h] at hx
      cases hx
  · rintro rfl
    rfl

/-- The latest entries have the names that are used, each once. -/
theorem map_latest (entries : List β) : (latest name entries).map name = (entries.map name).eraseDups := by
  have hfound : ∀ n ∈ (entries.map name).eraseDups,
      (entries.reverse.find? fun e => name e = n).map name = some n := by
    intro n hn
    obtain ⟨x, hx, hname⟩ := Latest.find_of_mem name (List.mem_eraseDups.1 hn)
    rw [hx, Option.map_some, hname]
  rw [latest, List.map_filterMap, List.filterMap_congr hfound, List.filterMap_some]

theorem rel_find?_of_forall₂ {R : β → β → Prop} {l l' : List β} (h : List.Forall₂ R l l') {f : β → Bool}
    (hf : ∀ e e', R e e' → f e = f e') : Option.Rel R (l.find? f) (l'.find? f) := by
  induction h with
  | nil => exact .none
  | @cons e e' l l' he _ ih =>
    rw [List.find?_cons, List.find?_cons, ← hf e e' he]
    split
    · exact .some he
    · exact ih

/-- Entries that correspond one by one, with the same names, have latest ones that do. -/
theorem forall₂_latest {R : β → β → Prop} {entries entries' : List β} (h : List.Forall₂ R entries entries')
    (hname : ∀ e e', R e e' → name e = name e') : List.Forall₂ R (latest name entries) (latest name entries') := by
  have hnames : entries.map name = entries'.map name := map_eq_of_forall₂ (h.imp hname)
  have hfind : Relator.LiftFun Eq (Option.Rel R) (fun n => entries.reverse.find? fun e => name e = n)
      fun n => entries'.reverse.find? fun e => name e = n := by
    rintro n _ rfl
    exact rel_find?_of_forall₂ (List.forall₂_reverse_iff.2 h) fun e e' he => by rw [hname e e' he]
  rw [latest, latest, ← hnames]
  exact List.rel_filterMap hfind (List.forall₂_refl _)

/-- Where names are distinct, it does not matter in which order entries are searched. -/
theorem find?_perm {κ : Type} [DecidableEq κ] {key : β → κ} {entries entries' : List β}
    (h : entries.Perm entries') (hnodup : (entries.map key).Nodup) (k : κ) :
    (entries.find? fun e => key e = k) = entries'.find? fun e => key e = k := by
  induction h with
  | nil => rfl
  | cons e _ ih =>
    rw [List.find?_cons, List.find?_cons, ih (List.nodup_cons.1 hnodup).2]
  | swap e e' _ =>
    have hne : key e' ≠ key e := by
      intro heq
      exact (List.nodup_cons.1 hnodup).1 (List.mem_cons.2 (.inl heq))
    by_cases he : key e = k <;> by_cases he' : key e' = k <;> simp_all
  | trans h _ ih ih' => exact (ih hnodup).trans (ih' ((h.map key).nodup_iff.1 hnodup))

/-- After some entries, others with distinct names may come in any order. -/
theorem latest_perm {before entries entries' : List β} (h : entries.Perm entries')
    (hnodup : (entries.map name).Nodup) :
    (latest name (before ++ entries)).Perm (latest name (before ++ entries')) := by
  have hnames : ((before ++ entries).map name).eraseDups.Perm ((before ++ entries').map name).eraseDups := by
    refine (List.perm_ext_iff_of_nodup (nodup_eraseDups _) (nodup_eraseDups _)).2 fun n => ?_
    rw [List.mem_eraseDups, List.mem_eraseDups]
    exact ((h.append_left before).map name).mem_iff
  have hreverse : entries.reverse.Perm entries'.reverse :=
    ((List.reverse_perm _).trans h).trans (List.reverse_perm _).symm
  have hfind : ∀ n, (entries.reverse.find? fun e => name e = n) = entries'.reverse.find? fun e => name e = n := by
    refine find?_perm hreverse ?_
    rw [List.map_reverse]
    exact List.nodup_reverse.2 hnodup
  rw [latest, latest]
  simp only [List.reverse_append, List.find?_append, hfind]
  exact hnames.filterMap _

end

/-! ### Members -/

theorem exists_mem_of_forall₂ {α β : Type} {R : α → β → Prop} {l : List α} {m : List β} (h : List.Forall₂ R l m) :
    ∀ b ∈ m, ∃ a ∈ l, R a b := by
  induction h with
  | nil => simp
  | cons hab _ ih =>
    intro b hb
    rcases List.mem_cons.1 hb with rfl | hb
    · exact ⟨_, List.mem_cons_self .., hab⟩
    · obtain ⟨a, ha, hR⟩ := ih b hb
      exact ⟨a, List.mem_cons_of_mem _ ha, hR⟩

theorem forall₂_imp_mem {α β : Type} {R S : α → β → Prop} {l : List α} {m : List β} (h : List.Forall₂ R l m)
    (hS : ∀ a, ∀ b ∈ m, R a b → S a b) : List.Forall₂ S l m :=
  List.forall₂_iff_zip.2 ⟨h.length_eq, fun hab => hS _ _ (List.of_mem_zip hab).2 (List.forall₂_zip h hab)⟩

theorem forall_mem_of_forall₂ {α β : Type} {R : α → β → Prop} {P : β → Prop} {l : List α} {m : List β}
    (h : List.Forall₂ R l m) (hP : ∀ a b, R a b → P b) : ∀ b ∈ m, P b := by
  intro b hb
  obtain ⟨a, -, hab⟩ := exists_mem_of_forall₂ h b hb
  exact hP a b hab

section

variable {α β : Type} {At : α → β → Prop} {name : β → Label} {members : Members α} {entries : List β}

/-- Members stand for the latest entries: they have their names, in order, and are what `At` says. -/
def Lists (At : α → β → Prop) (name : β → Label) (members : Members α) (entries : List β) : Prop :=
  List.Forall₂ (fun m e => m.1 = name e ∧ At m.2 e) members (latest name entries)

namespace Lists

theorem nil : Lists At name [] [] := List.Forall₂.nil

theorem mono {At' : α → β → Prop} (h : Lists At name members entries) (hAt : ∀ a e, At a e → At' a e) :
    Lists At' name members entries :=
  h.imp fun _ _ hm => ⟨hm.1, hAt _ _ hm.2⟩

theorem eq_nil_iff (h : Lists At name members entries) : members = [] ↔ entries = [] := by
  rw [← latest_eq_nil_iff name]
  have hlength := List.Forall₂.length_eq h
  rw [← List.length_eq_zero_iff, hlength, List.length_eq_zero_iff]

/-- What is made from the members in order is what belongs to the latest entries. -/
theorem forall₂_values {γ : Type} {R : β → γ → Prop} (h : Lists At name members entries) {f : α → γ}
    (hf : ∀ a e, At a e → R e (f a)) : List.Forall₂ R (latest name entries) (members.values.map f) := by
  rw [Members.values, List.map_map, List.forall₂_map_right_iff]
  exact (h.imp fun m e hm => hf m.2 e hm.2).flip

theorem map_values {γ : Type} (h : Lists At name members entries) {f : α → γ} {k : β → γ}
    (hf : ∀ a e, At a e → f a = k e) : members.values.map f = (latest name entries).map k := by
  have hmap := h.forall₂_values (R := fun e c => c = k e) hf
  rw [← List.forall₂_eq_eq_eq, List.forall₂_map_right_iff]
  exact hmap.flip

theorem and_of_mem {P : β → Prop} (h : Lists At name members entries) (hP : ∀ e ∈ entries, P e) :
    Lists (fun a e => At a e ∧ P e) name members entries := by
  have hboth := (List.forall₂_and_left _ _).2 ⟨fun e he => hP e (mem_of_mem_latest he), h.flip⟩
  exact hboth.flip.imp fun m e hm => ⟨hm.2.1, hm.2.2, hm.1⟩

/-- What the members are may be said of them as members. -/
theorem and_mem_values (h : Lists At name members entries) :
    Lists (fun a e => a ∈ members.values ∧ At a e) name members entries := by
  have hboth := (List.forall₂_and_left _ _).2 ⟨fun m (hm : m ∈ members) => hm, h⟩
  exact hboth.imp fun m e hm => ⟨hm.2.1, List.mem_map_of_mem hm.1, hm.2.2⟩

/-- Members have distinct names. -/
theorem nodup_names (h : Lists At name members entries) : (members.map Prod.fst).Nodup := by
  have hnames : members.map Prod.fst = (latest name entries).map name :=
    map_eq_of_forall₂ (List.Forall₂.imp (fun _ _ hm => hm.1) h)
  rw [hnames, map_latest]
  exact nodup_eraseDups _

/-- Members that stand for the latest ones of entries in two lists stand for entries that correspond. -/
theorem exists_of_mem {At' : α → β → Prop} {R : β → β → Prop} {entries' : List β} (h : Lists At name members entries)
    (h' : Lists At' name members entries') (hR : List.Forall₂ R (latest name entries) (latest name entries')) :
    ∀ m ∈ members, ∃ e e', R e e' ∧ m.1 = name e ∧ At m.2 e ∧ At' m.2 e' := by
  unfold Lists at h h'
  generalize latest name entries = found at h hR
  generalize latest name entries' = found' at h' hR
  induction h generalizing found' with
  | nil => exact fun m hm => (List.not_mem_nil hm).elim
  | cons hm _ ih =>
    cases hR with
    | cons he hR =>
      cases h' with
      | cons hm' h' =>
        intro m hmem
        rcases List.mem_cons.1 hmem with rfl | hmem
        · exact ⟨_, _, he, hm.1, hm.2, hm'.2⟩
        · exact ih _ h' hR m hmem

/-- The first member with a property is the one for the first of the latest entries with it. -/
theorem find?_values (h : Lists At name members entries) {γ : Type} {f : α → Bool} {k : β → Option γ}
    (hf : ∀ a e, At a e → f a = (k e).isSome) :
    (members.values.find? f = none ∧ (latest name entries).findSome? k = none)
      ∨ ∃ a e c, At a e ∧ k e = some c ∧ members.values.find? f = some a
        ∧ (latest name entries).findSome? k = some c := by
  unfold Lists at h
  generalize latest name entries = found at h
  induction h with
  | nil => exact .inl ⟨rfl, rfl⟩
  | @cons m e members entries hm _ ih =>
    have hfound := hf _ _ hm.2
    simp only [Members.values, List.map_cons, List.find?_cons, List.findSome?_cons] at ih ⊢
    cases hk : k e with
    | some c =>
      rw [hk] at hfound
      exact .inr ⟨m.2, e, c, hm.2, hk, by simp [hfound], rfl⟩
    | none =>
      rw [hk] at hfound
      simpa [hfound] using ih

end Lists

/-- A name that is not there yet comes last. -/
theorem Members.insert_of_lookup {m : Members α} {n : Label} (h : m.lookup n = none) (v : α) :
    m.insert n v = m ++ [(n, v)] := by
  induction m with
  | nil => rfl
  | cons x rest ih =>
    obtain ⟨k, w⟩ := x
    rw [lookup] at h
    by_cases hkey : k.sameKey n = true
    · rw [if_pos hkey] at h
      cases h
    · rw [if_neg hkey] at h
      rw [insert, if_neg hkey, ih h]
      rfl

theorem sameKey_iff_eq {l m : Label} (hl : l.isText = true) (hm : m.isText = true) :
    l.sameKey m = true ↔ l = m := by
  cases l <;> cases m <;> simp_all [Label.isText, Label.text?, Label.sameKey]

/-- A member that is added for one more entry. -/
theorem Lists.insert {e : β} {a : α} (h : Lists At name members entries)
    (htext : ∀ x ∈ entries, (name x).isText = true) (he : (name e).isText = true) (ha : At a e) :
    Lists At name (members.insert (name e) a) (entries ++ [e]) := by
  unfold Lists at h ⊢
  rw [latest_concat]
  have htext : ∀ x ∈ latest name entries, (name x).isText = true :=
    fun x hx => htext x (mem_of_mem_latest hx)
  generalize latest name entries = found at h htext
  induction h with
  | nil => exact .cons ⟨rfl, ha⟩ .nil
  | @cons m x members found hm hrest ih =>
    obtain ⟨n, v⟩ := m
    obtain ⟨hn, hv⟩ := hm
    have hkey := sameKey_iff_eq (htext x (List.mem_cons_self ..)) he
    rw [Members.insert, enterLast]
    dsimp only at hn
    rw [hn]
    by_cases heq : name x = name e
    · rw [if_pos (hkey.2 heq), if_pos heq, heq]
      exact .cons ⟨rfl, ha⟩ hrest
    · rw [if_neg fun h => heq (hkey.1 h), if_neg heq]
      exact .cons ⟨rfl, hv⟩ (ih fun y hy => htext y (List.mem_cons_of_mem _ hy))

end

end Edm
