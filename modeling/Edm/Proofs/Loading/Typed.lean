import Edm.Proofs.Loading.Consistent
import Edm.Proofs.Loading.Settled

/-!
# Types of settled records

What the types in the records of a graph may be put together from (`Node.IsType`), and that settling keeps to it:
a record either has types only, or its node still waits for some (`Declarations.Makes`, `Declarations.settle_typed`).
When all references are settled nothing waits any more, so every record of the graph, whether its node is listed,
has been replaced or is a union written in place, has types (`Declarations.typed_of_settleAll`).
-/

namespace Edm

/-- A type: one with a name or one that carries its content with it, but no placeholder, under any layers of arrays
and of unions that are written in place. -/
inductive Node.IsType (named : Node → Prop) (inPlace : UnionId → List Node → Prop) : Node → Prop
  | named {n : Node} : named n → IsType named inPlace n
  | literal (serial : Nat) (kind : LiteralKind) (value : Json) : IsType named inPlace (.literal serial kind value)
  | parameter (serial : Nat) (name : Label) : IsType named inPlace (.parameter serial name)
  | intrinsic {serial : Nat} {name : Label} : Node.intrinsic serial name ≠ .unresolved →
      IsType named inPlace (.intrinsic serial name)
  | array (serial : Nat) {element : Node} : IsType named inPlace element → IsType named inPlace (.array serial element)
  | union {i : UnionId} {options : List Node} : inPlace i options → (∀ n ∈ options, IsType named inPlace n) →
      IsType named inPlace (.union i)

section

variable {named named' : Node → Prop} {inPlace inPlace' : UnionId → List Node → Prop} {n : Node}

theorem Node.IsType.imp (h : n.IsType named inPlace) (hnamed : ∀ m, named m → named' m)
    (hinPlace : ∀ i ns, inPlace i ns → inPlace' i ns) : n.IsType named' inPlace' := by
  induction h with
  | named h => exact .named (hnamed _ h)
  | literal serial kind value => exact .literal serial kind value
  | parameter serial name => exact .parameter serial name
  | intrinsic h => exact .intrinsic h
  | array serial _ ih => exact .array serial ih
  | union h _ ih => exact .union (hinPlace _ _ h) ih

theorem Node.IsType.ne_unresolved (h : n.IsType named inPlace) (hnamed : ∀ m, named m → m ≠ .unresolved) :
    n ≠ .unresolved := by
  cases h with
  | named h => exact hnamed _ h
  | intrinsic h => exact h
  | _ => exact nofun

end

namespace Declarations

/-! ### Types that resolving makes -/

/-- A type that some expression can stand for. -/
def IsType (d : Declarations) (g : Graph) (n : Node) : Prop :=
  n.IsType (fun m => ∃ scope name, d.known? scope name = some m)
    fun i options => ¬ d.Has (.union i) ∧ g.cell? (.union i) = some (.union { options })

/-- A record with types only, and with a model for a base if it has one. -/
structure Typed (d : Declarations) (g : Graph) (c : Cell) : Prop where
  types : ∀ n ∈ c.types, d.IsType g n
  base : ∀ m, c = .model m → ∀ n, m.base = some n → ∃ i, n = .model i

/-- A graph with new nodes, or none, which all have types only. -/
structure Makes (d : Declarations) (g g' : Graph) : Prop where
  larger : g.Extends g'
  serial : g.serial ≤ g'.serial
  cells : ∀ n c, g'.cell? n = some c → g.cell? n = some c ∨ d.Typed g' c

section

variable {d : Declarations} {g g' g'' : Graph} {n : Node} {c : Cell} {scope : List Text} {site : Text}

theorem IsType.mono (h : d.IsType g n) (hg : ∀ m, ¬ d.Has m → (g.cell? m).isSome = true → g'.cell? m = g.cell? m) :
    d.IsType g' n := by
  refine Node.IsType.imp h (fun _ hm => hm) fun i options hi => ⟨hi.1, ?_⟩
  rw [hg _ hi.1 (by rw [hi.2]; rfl)]
  exact hi.2

theorem Typed.mono (h : d.Typed g c) (hg : ∀ m, ¬ d.Has m → (g.cell? m).isSome = true → g'.cell? m = g.cell? m) :
    d.Typed g' c :=
  ⟨fun n hn => (h.types n hn).mono hg, h.base⟩

theorem Makes.refl (d : Declarations) (g : Graph) : d.Makes g g :=
  ⟨.refl g, Nat.le_refl _, fun _ _ hc => .inl hc⟩

theorem Makes.isType (h : d.Makes g g') (hn : d.IsType g n) : d.IsType g' n :=
  hn.mono fun m _ hm => h.larger.cell m hm

theorem Makes.trans (h : d.Makes g g') (h' : d.Makes g' g'') : d.Makes g g'' := by
  refine ⟨h.larger.trans h'.larger, Nat.le_trans h.serial h'.serial, fun n c hc => ?_⟩
  rcases h'.cells n c hc with hold | hnew
  · exact (h.cells n c hold).imp_right fun htyped => htyped.mono fun m _ hm => h'.larger.cell m hm
  · exact .inr hnew

theorem makes_newType (d : Declarations) (g : Graph) (make : Nat → Node) : d.Makes g (g.newType make).2 :=
  ⟨Graph.extends_newType g make, Nat.le_succ _, fun n _ hc => .inl ((Graph.cell?_newType g n make).symm.trans hc)⟩

theorem makes_newUnion {options : List Node} (h : ∀ n ∈ options, d.IsType g n) :
    d.Makes g (g.newUnion { options }).2 := by
  have hextends := Graph.extends_newUnion g { options }
  refine ⟨hextends, Nat.le_refl _, fun n c hc => ?_⟩
  rw [Graph.cell?_newUnion] at hc
  split at hc
  next =>
    cases hc
    exact .inr ⟨fun m hm => (h m hm).mono fun k _ hk => hextends.cell k hk, fun m hm => by cases hm⟩
  next => exact .inl hc

theorem isType_intrinsic {serial : Nat} (hserial : 0 < serial) (name : Label) :
    d.IsType g (.intrinsic serial name) := by
  refine .intrinsic fun heq => ?_
  have hzero : serial = 0 := (Node.intrinsic.inj heq).1
  omega

theorem resolveName_makes (hg : 0 < g.serial) {name : Text} (h : d.resolveName scope site name g = .ok (n, g')) :
    d.Makes g g' ∧ d.IsType g' n := by
  obtain ⟨-, hdenotes⟩ := resolveName_spec h
  cases hdenotes with
  | intrinsicName serial hname =>
    rw [resolveName, if_pos hname] at h
    cases h
    exact ⟨makes_newType d g fun i => .intrinsic i (.text name), isType_intrinsic hg _⟩
  | named hname hknown =>
    unfold resolveName at h
    rw [hname, if_neg Bool.false_ne_true] at h
    have hsame : g' = g := by
      split at h
      next =>
        cases h
        rfl
      next =>
        split at h <;> cases h
        rfl
    subst hsame
    exact ⟨.refl d g', .named ⟨scope, name, hknown⟩⟩

mutual

theorem resolve_makes {g g' : Graph} {n : Node} (hd : d.Holds g) (hg : 0 < g.serial) : (e : TypeExpr) →
    d.resolve scope site e g = .ok (n, g') → d.Makes g g' ∧ d.IsType g' n
  | .named name, h => by
    rw [resolve] at h
    exact resolveName_makes hg h
  | .array element, h => by
    rw [resolve] at h
    obtain ⟨⟨m, g₁⟩, hm, h⟩ := bind_eq_ok h
    obtain ⟨hmakes, htype⟩ := resolve_makes hd hg element hm
    cases h
    have hnew := makes_newType d g₁ fun i => .array i m
    exact ⟨hmakes.trans hnew, .array _ (hnew.isType htype)⟩
  | .union options, h => by
    rw [resolve] at h
    obtain ⟨⟨nodes, g₁⟩, hnodes, h⟩ := bind_eq_ok h
    obtain ⟨hmakes, htypes⟩ := resolveAll_makes hd hg options hnodes
    cases h
    have hnew := makes_newUnion htypes
    have hoptions : ∀ m ∈ nodes, d.IsType (g₁.newUnion { options := nodes }).2 m :=
      fun m hm => hnew.isType (htypes m hm)
    have hnot : ¬ d.Has (.union g₁.unions.size) := by
      intro hi
      -- a declared union is there already, and the new one is not
      have hsome : (g₁.cell? (.union g₁.unions.size)).isSome = true := hd.extend hmakes.larger _ hi
      rw [Graph.cell?, Table.get?_size] at hsome
      cases hsome
    have hcell := (Graph.cell?_newUnion g₁ (.union g₁.unions.size) { options := nodes }).trans (if_pos rfl)
    exact ⟨hmakes.trans hnew, .union ⟨hnot, hcell⟩ hoptions⟩
  | .parameter name, h => by
    rw [resolve] at h
    cases h
    exact ⟨makes_newType d g fun i => .parameter i name, .parameter _ _⟩
  | .intrinsic name, h => by
    rw [resolve] at h
    cases h
    exact ⟨makes_newType d g fun i => .intrinsic i name, isType_intrinsic hg _⟩
  | .literal kind value, h => by
    rw [resolve] at h
    cases h
    exact ⟨makes_newType d g fun i => .literal i kind value, .literal _ _ _⟩
  | .invalid value, h => by
    rw [resolve] at h
    cases h
  | .optionsNotList, h => by
    rw [resolve] at h
    cases h
  | .unnamed, h => by
    rw [resolve] at h
    cases h

theorem resolveAll_makes {g g' : Graph} {ns : List Node} (hd : d.Holds g) (hg : 0 < g.serial) :
    (es : List TypeExpr) → d.resolveAll scope site es g = .ok (ns, g') → d.Makes g g' ∧ ∀ n ∈ ns, d.IsType g' n
  | [], h => by
    rw [resolveAll] at h
    cases h
    exact ⟨.refl d g, fun n hn => (List.not_mem_nil hn).elim⟩
  | e :: es, h => by
    rw [resolveAll] at h
    obtain ⟨⟨m, g₁⟩, hm, h⟩ := bind_eq_ok h
    obtain ⟨⟨ms, g₂⟩, hms, h⟩ := bind_eq_ok h
    obtain ⟨hmakes, htype⟩ := resolve_makes hd hg e hm
    obtain ⟨hmakes', htypes⟩ := resolveAll_makes (hd.extend hmakes.larger) (Nat.lt_of_lt_of_le hg hmakes.serial) es hms
    cases h
    exact ⟨hmakes.trans hmakes', List.forall_mem_cons.2 ⟨hmakes'.isType htype, htypes⟩⟩

end

/-! ### Settling -/

/-- Each record has types only, unless its node waits for one of some references. -/
def TypedBut (d : Declarations) (rs : List Reference) (g : Graph) : Prop :=
  ∀ n c, g.cell? n = some c → (∃ r ∈ rs, r.pending.target = n) ∨ d.Typed g c

/-- Changing the record of the node that waits, once its types are made. -/
theorem Makes.change {r : Reference} {rs : List Reference} {g₁ : Graph} (h : d.Makes g g₁)
    (hhas : d.Has r.pending.target) (htyped : d.TypedBut (r :: rs) g)
    (hother : ∀ n, n ≠ r.pending.target → g'.cell? n = g₁.cell? n)
    (htarget : ∀ c, g'.cell? r.pending.target = some c → d.Typed g₁ c) : d.TypedBut rs g' := by
  have hinPlace : ∀ m, ¬ d.Has m → (g₁.cell? m).isSome = true → g'.cell? m = g₁.cell? m := by
    intro m hm _
    refine hother m ?_
    rintro rfl
    exact hm hhas
  intro n c hc
  by_cases hn : n = r.pending.target
  · subst hn
    exact .inr ((htarget c hc).mono hinPlace)
  · rw [hother n hn] at hc
    rcases h.cells n c hc with hold | hnew
    · rcases htyped n c hold with ⟨x, hx, rfl⟩ | hrecord
      · rcases List.mem_cons.1 hx with rfl | hx
        · exact absurd rfl hn
        · exact .inl ⟨x, hx, rfl⟩
      · exact .inr ((hrecord.mono fun m _ hm => h.larger.cell m hm).mono hinPlace)
    · exact .inr (hnew.mono hinPlace)

/-- Settling a reference: its node waits for it no more. -/
theorem settle_typed {r : Reference} {rs : List Reference} (hd : d.Holds g) (hg : 0 < g.serial)
    (hhas : d.Has r.pending.target) (htyped : d.TypedBut (r :: rs) g) (h : d.settle g r = .ok g') :
    0 < g'.serial ∧ d.TypedBut rs g' := by
  have htarget := hd _ hhas
  obtain ⟨pending, scope, site⟩ := r
  unfold settle at h
  cases pending with
  | base i type =>
    obtain ⟨⟨n, g₁⟩, hn, h⟩ := bind_eq_ok h
    obtain ⟨hmakes, htype⟩ := resolve_makes hd hg type hn
    obtain ⟨m, hm⟩ := Graph.exists_model htarget
    have hm₁ : g₁.cell? (.model i) = some (.model m) := (hmakes.larger.cell _ htarget).trans hm
    dsimp only at h
    split at h
    next j =>
      cases h
      refine ⟨Nat.lt_of_lt_of_le hg hmakes.serial,
        hmakes.change hhas htyped (fun n hn => Graph.cell?_modifyModel_ne hn _) fun c hc => ?_⟩
      cases hc.symm.trans (Graph.cell?_modifyModel_self hm₁ _)
      refine ⟨List.forall_mem_singleton.2 htype, fun m hm n hn => ?_⟩
      cases hm
      cases hn
      exact ⟨j, rfl⟩
    next => cases h
  | property i type =>
    obtain ⟨⟨n, g₁⟩, hn, h⟩ := bind_eq_ok h
    obtain ⟨hmakes, htype⟩ := resolve_makes hd hg type hn
    obtain ⟨q, hq⟩ := Graph.exists_property htarget
    have hq₁ : g₁.cell? (.property i) = some (.property q) := (hmakes.larger.cell _ htarget).trans hq
    cases h
    refine ⟨Nat.lt_of_lt_of_le hg hmakes.serial,
      hmakes.change hhas htyped (fun n hn => Graph.cell?_modifyProperty_ne hn _) fun c hc => ?_⟩
    cases hc.symm.trans (Graph.cell?_modifyProperty_self hq₁ _)
    exact ⟨List.forall_mem_singleton.2 htype, fun m hm => by cases hm⟩
  | options i types =>
    obtain ⟨⟨ns, g₁⟩, hns, h⟩ := bind_eq_ok h
    obtain ⟨hmakes, htypes⟩ := resolveAll_makes hd hg types hns
    obtain ⟨u, hu⟩ := Graph.exists_union htarget
    have hu₁ : g₁.cell? (.union i) = some (.union u) := (hmakes.larger.cell _ htarget).trans hu
    cases h
    refine ⟨Nat.lt_of_lt_of_le hg hmakes.serial,
      hmakes.change hhas htyped (fun n hn => Graph.cell?_modifyUnion_ne hn _) fun c hc => ?_⟩
    cases hc.symm.trans (Graph.cell?_modifyUnion_self hu₁ _)
    exact ⟨htypes, fun m hm => by cases hm⟩
  | result i type =>
    obtain ⟨⟨n, g₁⟩, hn, h⟩ := bind_eq_ok h
    obtain ⟨hmakes, htype⟩ := resolve_makes hd hg type hn
    obtain ⟨o, ho⟩ := Graph.exists_operation htarget
    have ho₁ : g₁.cell? (.operation i) = some (.operation o) := (hmakes.larger.cell _ htarget).trans ho
    cases h
    refine ⟨Nat.lt_of_lt_of_le hg hmakes.serial,
      hmakes.change hhas htyped (fun n hn => Graph.cell?_modifyOperation_ne hn _) fun c hc => ?_⟩
    cases hc.symm.trans (Graph.cell?_modifyOperation_self ho₁ _)
    exact ⟨List.forall_mem_singleton.2 htype, fun m hm => by cases hm⟩

theorem settleEach_typed {rs : List Reference} (hd : d.Holds g) (hg : 0 < g.serial)
    (hrs : ∀ r ∈ rs, d.Has r.pending.target) (htyped : d.TypedBut rs g) (h : rs.foldlM d.settle g = .ok g') :
    d.TypedBut [] g' := by
  induction rs generalizing g with
  | nil =>
    cases h
    exact htyped
  | cons r rs ih =>
    rw [List.foldlM_cons] at h
    obtain ⟨g₁, hr, h⟩ := bind_eq_ok h
    have hhas := hrs r (List.mem_cons_self ..)
    have hsettles := settle_spec hd hhas hr
    obtain ⟨hserial, hnext⟩ := settle_typed hd hg hhas htyped hr
    exact ih (hsettles.holds hd) hserial (fun r hr => hrs r (List.mem_cons_of_mem _ hr)) hnext h

/-- When all references are settled, every record has types only. -/
theorem typed_of_settleAll (hd : d.Consistent) (h : d.settleAll = .ok g) (hc : g.cell? n = some c) : d.Typed g c := by
  have hstart : d.TypedBut d.references d.graph := by
    intro m e he
    rcases (hd.fits m e he).types with hempty | hwaits
    · refine .inr ⟨fun k hk => by simp [hempty] at hk, fun x hx b hb => ?_⟩
      subst hx
      simp [Cell.types, hb] at hempty
    · exact .inl hwaits
  rcases settleEach_typed (holds_graph d) hd.serial hd.tidy.references hstart h n c hc with ⟨r, hr, -⟩ | htyped
  · cases hr
  · exact htyped

end

end Declarations

end Edm
