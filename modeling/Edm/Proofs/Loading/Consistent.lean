import Edm.Proofs.Description.Places
import Edm.Proofs.Graph.Walks
import Edm.Proofs.Loading.Bindings
import Edm.Proofs.Loading.View

/-!
# Consistent declarations

Whatever the names in a description are, the records that declaring makes fit together
(`Declarations.Consistent`): what a record lists is there, a property waits for its type, namespaces are made from
the outside in, and a type that belongs to a namespace is listed there under its name, or one with this name that
has taken its place.  Every step of
declaring keeps this up, and no step loses a node (`Declarations.Advances`), so that it holds for the whole
description (`Declarations.advances_declareNamespaces`).
-/

namespace Edm

/-! ### Records -/

namespace Cell

@[simp] theorem members_ownedBy (c : Cell) (owner : NamespaceId) : (c.ownedBy owner).members = c.members := by
  cases c <;> rfl

@[simp] theorem types_ownedBy (c : Cell) (owner : NamespaceId) : (c.ownedBy owner).types = c.types := by
  cases c <;> rfl

end Cell

namespace Declarations

/-! ### The invariant -/

/-- The record of a node fits the others.  Operations are listed in their interfaces, and not in the namespaces
that they belong to. -/
structure FitsIn (d : Declarations) (n : Node) (c : Cell) : Prop where
  members : ∀ m ∈ c.members, d.Has m
  types : c.types = [] ∨ ∃ r ∈ d.references, r.pending.target = n
  named : ∀ u, c = .union u → u.name.isAbsent = false
  ordered : ∀ i s, n = .nameSpace i → c = .nameSpace s → s.IsOrderedAt i
  listed : ∀ {space t k}, n.declarableKind? = some k → k ≠ .nameSpace → k ≠ .operation → c.owner = some space →
    c.name = .text t → d.graph.ListsNamed space t k

/-- All records fit together, and all types that are known by name are there. -/
structure Consistent (d : Declarations) : Prop where
  tidy : d.Tidy
  fits : ∀ n c, d.graph.cell? n = some c → d.FitsIn n c
  types : ∀ x ∈ d.types, d.Has x.2
  builtIns : ∀ x ∈ d.builtIns, d.Has x.2
  serial : 0 < d.graph.serial
  bindings : d.store.Accepted

/-- Declarations that have what others have. -/
structure Widens (d d' : Declarations) : Prop where
  has : ∀ n, d.Has n → d'.Has n
  references : ∀ r ∈ d.references, r ∈ d'.references
  lists : ∀ {space t k}, d.graph.ListsNamed space t k → d'.graph.ListsNamed space t k

/-- Some steps of declaring keep the invariant and lose no node. -/
structure Advances (d d' : Declarations) : Prop where
  consistent : d'.Consistent
  has : ∀ n, d.Has n → d'.Has n

section

variable {d d' d'' : Declarations} {space : NamespaceId} {n : Node} {c : Cell} {k : Kind}

theorem Advances.refl (h : d.Consistent) : Advances d d := ⟨h, fun _ hn => hn⟩

theorem Advances.trans (h : Advances d d') (h' : Advances d' d'') : Advances d d'' :=
  ⟨h'.consistent, fun n hn => h'.has n (h.has n hn)⟩

theorem has_iff : d.Has n ↔ ∃ c, d.graph.cell? n = some c := by
  rw [Has, Option.isSome_iff_exists]

theorem Widens.of_carries {g : Graph} (h : d.graph.Carries g) : Widens d { d with graph := g } := by
  refine ⟨fun n hn => ?_, fun r hr => hr, fun hl => hl.carry h⟩
  obtain ⟨c, hc⟩ := has_iff.1 hn
  obtain ⟨c', hc', -⟩ := h n c hc
  exact has_of_cell hc'

theorem FitsIn.mono (h : d.FitsIn n c) (hw : Widens d d') : d'.FitsIn n c where
  members := fun m hm => hw.has m (h.members m hm)
  types := h.types.imp_right fun ⟨r, hr, htarget⟩ => ⟨r, hw.references r hr, htarget⟩
  named := h.named
  ordered := h.ordered
  listed := fun hk hspace hoperation howner hname => hw.lists (h.listed hk hspace hoperation howner hname)

/-- A record of another kind than unions and namespaces that belongs to nothing. -/
theorem FitsIn.unowned (hmembers : ∀ m ∈ c.members, d.Has m)
    (htypes : c.types = [] ∨ ∃ r ∈ d.references, r.pending.target = n) (howner : c.owner = none)
    (hunion : ∀ u, c ≠ .union u) (hspace : ∀ s, c ≠ .nameSpace s) : d.FitsIn n c where
  members := hmembers
  types := htypes
  named := fun u hu => absurd hu (hunion u)
  ordered := fun _ s _ hs => absurd hs (hspace s)
  listed := fun _ _ _ ho => by simp [howner] at ho

/-- A record that lists more and is otherwise as it was. -/
theorem FitsIn.extend {c' : Cell} (h : d.FitsIn n c) (hw : Widens d d')
    (hmembers : ∀ m ∈ c'.members, m ∈ c.members ∨ d'.Has m) (htypes : c'.types = c.types) (hname : c'.name = c.name)
    (howner : c'.owner = c.owner) (hunion : ∀ u, c' ≠ .union u) (hspace : ∀ s, c' ≠ .nameSpace s) :
    d'.FitsIn n c' where
  members := fun m hm => (hmembers m hm).elim (fun hm => hw.has m (h.members m hm)) id
  types := by
    rw [htypes]
    exact (h.mono hw).types
  named := fun u hu => absurd hu (hunion u)
  ordered := fun _ s _ hs => absurd hs (hspace s)
  listed := fun hk hspace hoperation ho ht =>
    (h.mono hw).listed hk hspace hoperation (howner.symm.trans ho) (hname.symm.trans ht)

/-- It is enough to look at the records that are new or changed. -/
theorem Consistent.next (h : d.Consistent) (hw : Widens d d') (htidy : d'.Tidy)
    (hcells : ∀ n c, d'.graph.cell? n = some c → d.graph.cell? n = some c ∨ d'.FitsIn n c)
    (htypes : d'.types = d.types) (hbuiltIns : d'.builtIns = d.builtIns)
    (hserial : d'.graph.serial = d.graph.serial) (hbindings : d'.store.Accepted) : Advances d d' := by
  refine ⟨⟨htidy, fun n c hc => ?_, fun x hx => ?_, fun x hx => ?_, by rw [hserial]; exact h.serial, hbindings⟩,
    hw.has⟩
  · rcases hcells n c hc with hold | hnew
    · exact (h.fits n c hold).mono hw
    · exact hnew
  · rw [htypes] at hx
    exact hw.has _ (h.types x hx)
  · rw [hbuiltIns] at hx
    exact hw.has _ (h.builtIns x hx)

theorem Consistent.nextGraph (h : d.Consistent) {g : Graph} (hw : Widens d { d with graph := g })
    (hcells : ∀ n c, g.cell? n = some c → d.graph.cell? n = some c ∨ FitsIn { d with graph := g } n c)
    (hserial : g.serial = d.graph.serial) : Advances d { d with graph := g } :=
  h.next hw (h.tidy.graph hw.has) hcells rfl rfl hserial h.bindings

/-! ### Steps -/

theorem Consistent.make (h : d.Consistent) {g : Graph} (hfresh : ¬ d.Has n)
    (hcell : ∀ x, g.cell? x = if x = n then some c else d.graph.cell? x) (hserial : g.serial = d.graph.serial)
    (hmembers : c.members = []) (htypes : c.types = []) (howner : c.owner = none)
    (hnamed : ∀ u, c = .union u → u.name.isAbsent = false) : Advances d { d with graph := g } := by
  have hcarries : d.graph.Carries g := by
    intro x e hx
    have hne : x ≠ n := by
      rintro rfl
      exact hfresh (has_of_cell hx)
    exact ⟨e, by rw [hcell, if_neg hne, hx], rfl, fun s hs => hs ▸ rfl⟩
  refine h.nextGraph (.of_carries hcarries) (fun x e hx => ?_) hserial
  by_cases hxn : x = n
  · rw [hcell, if_pos hxn] at hx
    cases hx
    refine .inr ⟨by simp [hmembers], .inl htypes, hnamed, fun i s _ hs => ?_, fun _ _ _ ho => by simp [howner] at ho⟩
    subst hs
    have hempty : s.members = [] := hmembers
    have hnone : s.parent = none := howner
    exact ⟨fun j hj => by simp [hempty] at hj, fun j hj => by simp [hnone] at hj⟩
  · rw [hcell, if_neg hxn] at hx
    exact .inl hx

theorem Consistent.list (h : d.Consistent) (hspace : d.Has (.nameSpace space)) (hn : d.Has n)
    (hafter : ∀ j, n = .nameSpace j → space < j) (hk : n.declarableKind? = some k) :
    Advances d { d with graph := d.graph.list space n } := by
  have hne : n ≠ .nameSpace space := fun heq => Nat.lt_irrefl _ (hafter _ heq)
  obtain ⟨c, hc⟩ := has_iff.1 hn
  obtain ⟨s, hs⟩ := Graph.exists_nameSpace hspace
  have hself := Graph.cell?_list_node hc hne
  have howner := Graph.cell?_list_space hs hc hne
  have hfits := h.fits n c hc
  have hhas : ∀ x, d.Has x → Has { d with graph := d.graph.list space n } x := by
    intro x hx
    obtain ⟨e, he⟩ := has_iff.1 hx
    obtain ⟨e', he', -⟩ := Graph.exists_cell_list hs hc hne he
    exact has_of_cell he'
  have hserial : (d.graph.list space n).serial = d.graph.serial := by
    unfold Graph.list
    cases n <;> rfl
  refine h.nextGraph ⟨hhas, fun r hr => hr, fun hl => hl.list hs hc hne hk⟩ (fun x e hx => ?_) hserial
  by_cases hxs : x = .nameSpace space
  · subst hxs
    cases howner.symm.trans hx
    have hordered := (h.fits _ _ hs).ordered space s rfl rfl
    refine .inr ⟨fun m hm => ?_, .inl rfl, fun u hu => (by cases hu), fun i s' hi hs' => ?_, fun hkind hnot => ?_⟩
    · rcases Namespace.mem_members_listing hm with rfl | hm
      · exact hhas _ hn
      · exact hhas _ ((h.fits _ _ hs).members m hm)
    · cases hi
      cases hs'
      refine ⟨fun j hj => ?_, fun j hj => hordered.outside j ?_⟩
      · rcases Namespace.mem_members_listing hj with heq | hj
        · exact hafter j heq.symm
        · exact hordered.inside j hj
      · rw [← hj]
        cases n <;> rfl
    · cases hkind
      exact absurd rfl hnot
  · by_cases hxn : x = n
    · subst hxn
      cases hself.symm.trans hx
      refine .inr ⟨fun m hm => hhas m (hfits.members m (by simpa using hm)), by simpa using hfits.types,
        fun u hu => ?_, fun i s' hi hs' => ?_, fun {i t k'} hkind hnot _ ho ht => ?_⟩
      · cases c with
        | union v =>
          cases hu
          exact hfits.named v rfl
        | _ => cases hu
      · cases c with
        | nameSpace s =>
          cases hs'
          refine ⟨(hfits.ordered i s hi rfl).inside, fun j hj => ?_⟩
          cases hj
          exact hafter i hi
        | _ => cases hs'
      · cases hk.symm.trans hkind
        cases (Graph.owner_ownedBy hk hc space).symm.trans ho
        exact Graph.listsNamed_list hs hc hne hk hnot (by simpa using ht)
    · rw [Graph.cell?_list_ne hxs hxn] at hx
      exact .inl hx

theorem Consistent.register (h : d.Consistent) (hn : d.Has n) (site : Text) : Advances d (d.register site n) := by
  have hw : Widens d (d.register site n) := ⟨fun _ hn => hn, fun _ hr => hr, id⟩
  refine ⟨⟨h.tidy.register site n, fun m c hc => (h.fits m c hc).mono hw, fun x hx => ?_, h.builtIns, h.serial,
    h.bindings⟩, fun _ hn => hn⟩
  rcases List.mem_cons.1 hx with rfl | hx
  · exact hn
  · exact h.types x hx

theorem Consistent.refer (h : d.Consistent) (pending : Pending) (hn : d.Has pending.target) (scope : List Text)
    (site : Text) : Advances d (d.refer scope site pending) :=
  h.next ⟨fun _ hn => hn, fun _ hr => List.mem_append_left _ hr, id⟩ (h.tidy.refer hn) (fun _ _ hc => .inl hc)
    rfl rfl rfl h.bindings

theorem Consistent.decorate (h : d.Consistent) (hn : d.Has n) (site : Text) (decorators : List Json) :
    Advances d (d.decorate site n decorators) :=
  h.next ⟨fun _ hn => hn, fun _ hr => hr, id⟩ (h.tidy.decorate hn) (fun _ _ hc => .inl hc) rfl rfl rfl
    h.bindings

theorem Consistent.store (h : d.Consistent) {store : AnnotationStore} (hstore : store.Accepted) :
    Advances d { d with store } :=
  h.next ⟨fun _ hn => hn, fun _ hr => hr, id⟩ ⟨h.tidy.references, h.tidy.decorations⟩ (fun _ _ hc => .inl hc)
    rfl rfl rfl hstore

/-- A property, or a parameter, that waits for its type. -/
theorem Consistent.declareProperty (h : d.Consistent) {m : ModelId} (hm : d.Has (.model m)) (path : List Text)
    (site : Text) (e : PropertyEntry) : Advances d (Declarations.declareProperty m path site d e) := by
  obtain ⟨model, hmodel⟩ := Graph.exists_model hm
  have hcell := fun x => Graph.cell?_addProperty (n := x) hmodel e.name .unresolved e.optional
  have hnone : d.graph.cell? (.property d.graph.properties.size) = none := by
    simp [Graph.cell?, Table.get?_size]
  have hid : (d.graph.addProperty m e.name .unresolved e.optional).1 = d.graph.properties.size := rfl
  have hserial : (d.graph.addProperty m e.name .unresolved e.optional).2.serial = d.graph.serial := rfl
  unfold Declarations.declareProperty
  dsimp only
  rw [hid]
  generalize (d.graph.addProperty m e.name .unresolved e.optional).2 = g at hcell hserial
  generalize d.graph.properties.size = i at hcell hnone
  have hcarries : d.graph.Carries g := Graph.carries_of_patch hnone hmodel hcell rfl (by simp)
  have hw : Widens d { d with graph := g } := .of_carries hcarries
  have hi : Has { d with graph := g } (.property i) := has_of_cell ((hcell _).trans (if_pos rfl))
  refine h.next ⟨hw.has, fun r hr => List.mem_append_left _ hr, hw.lists⟩
    (((h.tidy.graph hw.has).decorate hi).refer hi) (fun x c (hx : g.cell? x = some c) => ?_) rfl rfl hserial h.bindings
  rw [hcell] at hx
  split at hx
  next hxi =>
    cases hx
    rw [hxi]
    exact .inr (.unowned (fun n hn => by cases hn) (.inr ⟨_, List.mem_append_right _ (List.mem_singleton_self _), rfl⟩)
      rfl (by simp) (by simp))
  next =>
    split at hx
    next hxm =>
      cases hx
      rw [hxm]
      refine .inr ((h.fits _ _ hmodel).extend ⟨hw.has, fun r hr => List.mem_append_left _ hr, hw.lists⟩ (fun n hn => ?_)
        rfl rfl rfl (by simp) (by simp))
      obtain ⟨j, hj, rfl⟩ := List.mem_map.1 hn
      rcases Members.mem_values_insert hj with rfl | hj
      · exact .inr hi
      · exact .inl (List.mem_map_of_mem hj)
    next => exact .inl hx

theorem Consistent.declareProperties (h : d.Consistent) {m : ModelId} (hm : d.Has (.model m)) (path : List Text)
    (site : Text) (es : List PropertyEntry) : Advances d (es.foldl (Declarations.declareProperty m path site) d) := by
  induction es generalizing d with
  | nil => exact .refl h
  | cons e es ih =>
    have hfirst := h.declareProperty hm path site e
    exact hfirst.trans (ih hfirst.consistent (hfirst.has _ hm))

theorem Consistent.addMember (h : d.Consistent) {i : EnumId} (hi : d.Has (.enum i)) (name : Label) (value : Json) :
    Advances d { d with graph := (d.graph.addMember i name value).2 } := by
  obtain ⟨e, he⟩ := Graph.exists_enum hi
  have hcell := fun x => Graph.cell?_addMember (n := x) he name value
  have hnone : d.graph.cell? (.member d.graph.members.size) = none := by
    simp [Graph.cell?, Table.get?_size]
  have hserial : (d.graph.addMember i name value).2.serial = d.graph.serial := rfl
  generalize (d.graph.addMember i name value).2 = g at hcell hserial
  generalize d.graph.members.size = j at hcell hnone
  have hcarries : d.graph.Carries g := Graph.carries_of_patch hnone he hcell rfl (by simp)
  have hw : Widens d { d with graph := g } := .of_carries hcarries
  have hj : Has { d with graph := g } (.member j) := has_of_cell ((hcell _).trans (if_pos rfl))
  refine h.nextGraph hw (fun x c hx => ?_) hserial
  rw [hcell] at hx
  split at hx
  next =>
    cases hx
    exact .inr (.unowned (fun n hn => by cases hn) (.inl rfl) rfl (by simp) (by simp))
  next =>
    split at hx
    next hxi =>
      cases hx
      rw [hxi]
      refine .inr ((h.fits _ _ he).extend hw (fun n hn => ?_) rfl rfl rfl (by simp) (by simp))
      obtain ⟨k, hk, rfl⟩ := List.mem_map.1 hn
      rcases List.mem_append.1 hk with hk | hk
      · exact .inl (List.mem_map_of_mem hk)
      · rw [List.mem_singleton.1 hk]
        exact .inr hj
    next => exact .inl hx

/-- A new operation with a new model for its parameters. -/
theorem Consistent.newOperation (h : d.Consistent) (name : Label) :
    Advances d { d with graph := (d.graph.newOperation name none).2 } := by
  have hcell := fun x => Graph.cell?_newOperation d.graph x name none
  have hmodel : ¬ d.Has (.model d.graph.models.size) := by
    simp [Has, Graph.cell?, Table.get?_size]
  have hoperation : ¬ d.Has (.operation d.graph.operations.size) := by
    simp [Has, Graph.cell?, Table.get?_size]
  have hserial : (d.graph.newOperation name none).2.serial = d.graph.serial := rfl
  generalize (d.graph.newOperation name none).2 = g at hcell hserial
  generalize d.graph.models.size = m at hcell hmodel
  generalize d.graph.operations.size = i at hcell hoperation
  have hcarries : d.graph.Carries g := by
    intro x c hx
    have hxi : x ≠ .operation i := fun heq => hoperation (heq ▸ has_of_cell hx)
    have hxm : x ≠ .model m := fun heq => hmodel (heq ▸ has_of_cell hx)
    exact ⟨c, by rw [hcell, if_neg hxi, if_neg hxm, hx], rfl, fun s hs => hs ▸ rfl⟩
  have hm : Has { d with graph := g } (.model m) := by
    have hself : g.cell? (.model m) = some (.model {}) := by simp [hcell]
    exact has_of_cell hself
  refine h.nextGraph (.of_carries hcarries) (fun x c hx => ?_) hserial
  rw [hcell] at hx
  split at hx
  next =>
    cases hx
    refine .inr (.unowned (fun n hn => ?_) (.inl rfl) rfl (by simp) (by simp))
    rw [List.mem_singleton.1 hn]
    exact hm
  next =>
    split at hx
    next =>
      cases hx
      exact .inr (.unowned (fun n hn => by cases hn) (.inl rfl) rfl (by simp) (by simp))
    next => exact .inl hx

theorem Consistent.addOperation (h : d.Consistent) {i : InterfaceId} {j : OperationId} (hi : d.Has (.interface i))
    (hj : d.Has (.operation j)) : Advances d { d with graph := d.graph.addOperation i j } := by
  obtain ⟨f, hf⟩ := Graph.exists_interface hi
  obtain ⟨o, ho⟩ := Graph.exists_operation hj
  have hcell := fun x => Graph.cell?_addOperation (n := x) hf ho
  have hserial : (d.graph.addOperation i j).serial = d.graph.serial := rfl
  generalize d.graph.addOperation i j = g at hcell hserial
  have hcarries : d.graph.Carries g := by
    intro x c hx
    rw [hcell]
    split
    next hxj =>
      subst hxj
      cases ho.symm.trans hx
      exact ⟨_, rfl, rfl, fun s hs => by cases hs⟩
    next =>
      split
      next hxi =>
        subst hxi
        cases hf.symm.trans hx
        exact ⟨_, rfl, rfl, fun s hs => by cases hs⟩
      next => exact ⟨c, hx, rfl, fun s hs => hs ▸ rfl⟩
  have hw : Widens d { d with graph := g } := .of_carries hcarries
  refine h.nextGraph hw (fun x c hx => ?_) hserial
  rw [hcell] at hx
  split at hx
  next hxj =>
    cases hx
    rw [hxj]
    have hfits := (h.fits _ _ ho).mono hw
    refine .inr ⟨hfits.members, hfits.types, fun u hu => (by cases hu), fun _ s _ hs => (by cases hs),
      fun hkind _ hnot => ?_⟩
    cases hkind
    exact absurd rfl hnot
  next =>
    split at hx
    next hxi =>
      cases hx
      rw [hxi]
      refine .inr ((h.fits _ _ hf).extend hw (fun n hn => ?_) rfl rfl rfl (by simp) (by simp))
      obtain ⟨k, hk, rfl⟩ := List.mem_map.1 hn
      rcases Members.mem_values_insert hk with rfl | hk
      · exact .inr (hw.has _ hj)
      · exact .inl (List.mem_map_of_mem hk)
    next => exact .inl hx

theorem Consistent.openNamespace (h : d.Consistent) {outer : NamespaceId} (houter : d.Has (.nameSpace outer))
    (name : Label) : Advances d { d with graph := (d.graph.openNamespace outer name).2 }
      ∧ Has { d with graph := (d.graph.openNamespace outer name).2 }
          (.nameSpace (d.graph.openNamespace outer name).1) := by
  obtain ⟨s, hs⟩ := Graph.exists_nameSpace houter
  rw [Graph.openNamespace, Graph.get_nameSpace hs]
  split
  next i hi =>
    refine ⟨.refl h, (h.fits _ _ hs).members _ ?_⟩
    simp [Cell.members, Namespace.members, Members.mem_values_of_lookup hi]
  next =>
    have hcell := fun x => Graph.cell?_newNamespace d.graph x { name }
    have hfresh : ¬ d.Has (.nameSpace d.graph.namespaces.size) := by
      simp [Has, Graph.cell?, Table.get?_size]
    have hafter : ∀ j, Node.nameSpace d.graph.namespaces.size = .nameSpace j → outer < j := by
      intro j hj
      cases hj
      have hsome : (d.graph.namespaces.get? outer).isSome = true := by simpa [Has, Graph.cell?] using houter
      exact Table.lt_size_of_get? hsome
    have hmake := h.make hfresh hcell rfl rfl rfl rfl (by simp)
    have hnew : Has { d with graph := (d.graph.newNamespace { name }).2 } (.nameSpace d.graph.namespaces.size) :=
      has_of_cell ((hcell _).trans (if_pos rfl))
    have hlist := hmake.consistent.list (hmake.has _ houter) hnew hafter rfl
    exact ⟨hmake.trans hlist, hlist.has _ hnew⟩

end

/-! ### Declarations -/

section

variable {d : Declarations} {space : NamespaceId}

/-- A new node that lists nothing and that a namespace lists. -/
theorem Consistent.makeListed (h : d.Consistent) (hspace : d.Has (.nameSpace space)) {g : Graph} {n : Node} {c : Cell}
    {k : Kind} (hfresh : ¬ d.Has n) (hcell : ∀ x, g.cell? x = if x = n then some c else d.graph.cell? x)
    (hserial : g.serial = d.graph.serial) (hmembers : c.members = []) (htypes : c.types = [])
    (howner : c.owner = none) (hnamed : ∀ u, c = .union u → u.name.isAbsent = false)
    (hk : n.declarableKind? = some k) (hnot : k ≠ .nameSpace) :
    Advances d { d with graph := g.list space n } ∧ Has { d with graph := g.list space n } n := by
  have hmake := h.make hfresh hcell hserial hmembers htypes howner hnamed
  have hn : Has { d with graph := g } n := has_of_cell ((hcell _).trans (if_pos rfl))
  have hafter : ∀ j, n = .nameSpace j → space < j := by
    rintro j rfl
    cases hk
    exact absurd rfl hnot
  have hlist := hmake.consistent.list (hmake.has _ hspace) hn hafter hk
  exact ⟨hmake.trans hlist, hlist.has _ hn⟩

theorem Consistent.declareBuiltIn (h : d.Consistent) (hspace : d.Has (.nameSpace space)) (name : Text) :
    Advances d (Declarations.declareBuiltIn space d name) := by
  obtain ⟨hlist, hn⟩ := h.makeListed hspace (by simp [Has, Graph.cell?, Table.get?_size])
    (fun x => Graph.cell?_newModel d.graph x { name := .text name }) rfl rfl rfl rfl (by simp) rfl (by decide)
  have hc := hlist.consistent
  refine ⟨⟨⟨hc.tidy.references, hc.tidy.decorations⟩,
    fun n c hn => (hc.fits n c hn).mono ⟨fun _ hn => hn, fun _ hr => hr, id⟩,
    hc.types, fun x hx => ?_, hc.serial, hc.bindings⟩, hlist.has⟩
  rcases List.mem_append.1 hx with hx | hx
  · exact hlist.has _ (h.builtIns x hx)
  · rw [List.mem_singleton.1 hx]
    exact hn

theorem Consistent.declareEnum (h : d.Consistent) (hspace : d.Has (.nameSpace space)) (path : List Text)
    (e : EnumEntry) : Advances d (Declarations.declareEnum space path d e) := by
  obtain ⟨hlist, hn⟩ := h.makeListed hspace (by simp [Has, Graph.cell?, Table.get?_size])
    (fun x => Graph.cell?_newEnum d.graph x { name := e.name }) rfl rfl rfl rfl (by simp) rfl (by decide)
  have hmembers : ∀ (ms : List MemberEntry) {d' : Declarations} {i : EnumId}, d'.Consistent → d'.Has (.enum i) →
      Advances d' { d' with graph := ms.foldl (fun g m => (g.addMember i m.name m.value).2) d'.graph } := by
    intro ms
    induction ms with
    | nil => exact fun h _ => .refl h
    | cons m ms ih =>
      intro d' i h hi
      have hfirst := h.addMember hi m.name m.value
      exact hfirst.trans (ih hfirst.consistent (hfirst.has _ hi))
  have hall := hmembers e.members hlist.consistent hn
  exact (hlist.trans hall).trans (hall.consistent.register (hall.has _ hn) _)

theorem Consistent.declareModel (h : d.Consistent) (hspace : d.Has (.nameSpace space)) (path : List Text)
    (e : ModelEntry) : Advances d (Declarations.declareModel space path d e) := by
  obtain ⟨hlist, hn⟩ := h.makeListed hspace (by simp [Has, Graph.cell?, Table.get?_size])
    (fun x => Graph.cell?_newModel d.graph x { name := e.name }) rfl rfl rfl rfl (by simp) rfl (by decide)
  have hregister := hlist.trans (hlist.consistent.register hn (siteOf (Graph.dotted path) e.name))
  have hdecorate := hregister.trans
    (hregister.consistent.decorate hn (siteOf (Graph.dotted path) e.name) e.decorators)
  unfold Declarations.declareModel
  dsimp only
  cases e.base with
  | none => exact hdecorate.trans (hdecorate.consistent.declareProperties hn path _ e.properties)
  | some type =>
    have hrefer := hdecorate.consistent.refer (.base d.graph.models.size type) hn path
      (siteOf (Graph.dotted path) e.name)
    exact (hdecorate.trans hrefer).trans (hrefer.consistent.declareProperties hn path _ e.properties)

theorem Consistent.declareUnion (h : d.Consistent) (hspace : d.Has (.nameSpace space)) (path : List Text)
    (e : UnionEntry) (hname : e.name.isAbsent = false) : Advances d (Declarations.declareUnion space path d e) := by
  obtain ⟨hlist, hn⟩ := h.makeListed hspace (by simp [Has, Graph.cell?, Table.get?_size])
    (fun x => Graph.cell?_newUnion d.graph x { name := e.name }) rfl rfl rfl rfl (by simp [hname]) rfl (by decide)
  have hregister := hlist.trans (hlist.consistent.register hn (siteOf (Graph.dotted path) e.name))
  exact hregister.trans (hregister.consistent.refer (.options d.graph.unions.size e.options) hn path _)

theorem Consistent.declareOperation (h : d.Consistent) (path : List Text) (outer : Text) (e : OperationEntry) :
    Advances d (Declarations.declareOperation path outer d e).2
      ∧ (Declarations.declareOperation path outer d e).2.Has
          (.operation (Declarations.declareOperation path outer d e).1) := by
  have hnew := h.newOperation e.name
  have hcell := fun x => Graph.cell?_newOperation d.graph x e.name none
  have hoperation : Has { d with graph := (d.graph.newOperation e.name none).2 }
      (.operation d.graph.operations.size) := has_of_cell ((hcell _).trans (if_pos rfl))
  have hmodel : Has { d with graph := (d.graph.newOperation e.name none).2 } (.model d.graph.models.size) := by
    have hself : (d.graph.newOperation e.name none).2.cell? (.model d.graph.models.size) = some (.model {}) := by
      simp [hcell]
    exact has_of_cell hself
  have hparameters : ((d.graph.newOperation e.name none).2.operations.get d.graph.operations.size).parameters
      = d.graph.models.size := by
    rw [Graph.get_operation ((hcell _).trans (if_pos rfl))]
  have hid : (d.graph.newOperation e.name none).1 = d.graph.operations.size := rfl
  unfold Declarations.declareOperation
  dsimp only
  rw [hid, hparameters]
  have hall := hnew.consistent.declareProperties hmodel path (siteOf outer e.name) e.parameters
  have hrefer := hall.consistent.refer (.result d.graph.operations.size e.result)
    (hall.has _ hoperation) path (siteOf outer e.name)
  exact ⟨(hnew.trans hall).trans hrefer, hrefer.has _ (hall.has _ hoperation)⟩

theorem Consistent.declareAllListed (h : d.Consistent) {i : InterfaceId} (hi : d.Has (.interface i))
    (path : List Text) (outer : Text) (es : List OperationEntry) :
    Advances d (es.foldl (declareListed i path outer) d) := by
  induction es generalizing d with
  | nil => exact .refl h
  | cons e es ih =>
    obtain ⟨hoperation, hn⟩ := h.declareOperation path outer e
    have hadd := hoperation.consistent.addOperation (hoperation.has _ hi) hn
    have hfirst : Advances d (declareListed i path outer d e) := hoperation.trans hadd
    exact hfirst.trans (ih hfirst.consistent (hfirst.has _ hi))

theorem Consistent.declareInterface (h : d.Consistent) (hspace : d.Has (.nameSpace space)) (path : List Text)
    (e : InterfaceEntry) : Advances d (Declarations.declareInterface space path d e) := by
  obtain ⟨hlist, hn⟩ := h.makeListed hspace (by simp [Has, Graph.cell?, Table.get?_size])
    (fun x => Graph.cell?_newInterface d.graph x { name := e.name }) rfl rfl rfl rfl (by simp) rfl (by decide)
  have hregister := hlist.trans (hlist.consistent.register hn (siteOf (Graph.dotted path) e.name))
  have hall := hregister.trans
    (hregister.consistent.declareAllListed hn path (siteOf (Graph.dotted path) e.name) e.operations)
  unfold Declarations.declareInterface
  dsimp only
  cases e.route with
  | none => exact hall
  | some route =>
    have hroute : AnnotationKind.route ∈ AnnotationKind.standard := by simp [AnnotationKind.standard]
    exact hall.trans (hall.consistent.store (hall.consistent.bindings.put hroute rfl rfl))

theorem Consistent.declareOwnOperation (h : d.Consistent) (hspace : d.Has (.nameSpace space)) (path : List Text)
    (e : OperationEntry) : Advances d (Declarations.declareOwnOperation space path d e) := by
  obtain ⟨hoperation, hn⟩ := h.declareOperation path (Graph.dotted path) e
  have hlist := hoperation.consistent.list (hoperation.has _ hspace) hn (by simp) rfl
  have hregister := hlist.consistent.register (hlist.has _ hn) (siteOf (Graph.dotted path) e.name)
  exact (hoperation.trans hlist).trans hregister

theorem Consistent.foldl {β : Type} {f : Declarations → β → Declarations} (h : d.Consistent)
    (hspace : d.Has (.nameSpace space)) (xs : List β)
    (step : ∀ {d}, d.Consistent → d.Has (.nameSpace space) → ∀ x ∈ xs, Advances d (f d x)) :
    Advances d (xs.foldl f d) := by
  induction xs generalizing d with
  | nil => exact .refl h
  | cons x xs ih =>
    have hfirst := step h hspace x (List.mem_cons_self ..)
    exact hfirst.trans (ih hfirst.consistent (hfirst.has _ hspace)
      fun h hspace y hy => step h hspace y (List.mem_cons_of_mem _ hy))

theorem Consistent.declareEntries (h : d.Consistent) (hspace : d.Has (.nameSpace space)) (path : List Text)
    (e : DeclarationEntries) (hnames : ∀ u ∈ e.unions, u.name.isAbsent = false) :
    Advances d (Declarations.declareEntries space path d e) := by
  have h₁ := h.foldl hspace e.enums fun h hspace x _ => h.declareEnum hspace path x
  have h₂ := h₁.consistent.foldl (h₁.has _ hspace) e.models fun h hspace x _ => h.declareModel hspace path x
  have h₃ := h₂.consistent.foldl (h₂.has _ (h₁.has _ hspace)) e.unions
    fun h hspace x hx => h.declareUnion hspace path x (hnames x hx)
  have h₁₃ := (h₁.trans h₂).trans h₃
  have h₄ := h₃.consistent.foldl (h₁₃.has _ hspace) e.interfaces
    fun h hspace x _ => h.declareInterface hspace path x
  have h₁₄ := h₁₃.trans h₄
  have h₅ := h₄.consistent.foldl (h₁₄.has _ hspace) e.operations
    fun h hspace x _ => h.declareOwnOperation hspace path x
  exact h₁₄.trans h₅

end

/-! ### Descriptions -/

open NamespaceEntry

mutual

theorem Consistent.declareNamespace {d : Declarations} {outer : NamespaceId} (path : List Text) (h : d.Consistent)
    (houter : d.Has (.nameSpace outer)) : (e : NamespaceEntry) →
      (∀ o ∈ openings path e, ∀ u ∈ o.2.unions, u.name.isAbsent = false) →
        Advances d (Declarations.declareNamespace outer path d e)
  | .entry n x cs, hnames => by
    rw [openings] at hnames
    rw [Declarations.declareNamespace]
    obtain ⟨hopen, hspace⟩ := h.openNamespace houter (.text n)
    have hentries := hopen.consistent.declareEntries hspace (path ++ [n]) x (hnames _ (List.mem_cons_self ..))
    have hchildren := hentries.consistent.declareNamespaces (path ++ [n]) (hentries.has _ hspace) cs
      fun o ho => hnames o (List.mem_cons_of_mem _ ho)
    exact (hopen.trans hentries).trans hchildren

theorem Consistent.declareNamespaces {d : Declarations} {outer : NamespaceId} (path : List Text) (h : d.Consistent)
    (houter : d.Has (.nameSpace outer)) : (es : List NamespaceEntry) →
      (∀ o ∈ openingsOf path es, ∀ u ∈ o.2.unions, u.name.isAbsent = false) →
        Advances d (Declarations.declareNamespaces outer path d es)
  | [], _ => by
    rw [Declarations.declareNamespaces]
    exact .refl h
  | e :: es, hnames => by
    rw [openingsOf] at hnames
    rw [Declarations.declareNamespaces]
    have hfirst := h.declareNamespace path houter e fun o ho => hnames o (List.mem_append_left _ ho)
    have hrest := hfirst.consistent.declareNamespaces path (hfirst.has _ houter) es
      fun o ho => hnames o (List.mem_append_right _ ho)
    exact hfirst.trans hrest

end

theorem consistent_empty : Consistent {} where
  tidy := ⟨fun r hr => (List.not_mem_nil hr).elim, fun c hc => (List.not_mem_nil hc).elim⟩
  fits := fun n c hc => by
    cases n with
    | nameSpace i =>
      obtain ⟨s, hs, rfl⟩ := Option.map_eq_some_iff.1 hc
      have hi : i < 1 := Table.lt_size_of_get? (by rw [hs]; rfl)
      cases Nat.lt_one_iff.1 hi
      cases hs
      refine ⟨fun m hm => (List.not_mem_nil hm).elim, .inl rfl, fun u hu => (by cases hu), fun j s _ hs => ?_,
        fun _ _ _ ho => (by cases ho)⟩
      cases hs
      exact ⟨fun m hm => (List.not_mem_nil hm).elim, fun m hm => (by cases hm)⟩
    | _ => cases hc
  types := fun x hx => (List.not_mem_nil hx).elim
  builtIns := fun x hx => (List.not_mem_nil hx).elim
  serial := Nat.one_pos
  bindings := AnnotationStore.accepted_empty

theorem has_root : Has {} (.nameSpace Graph.root) := rfl

theorem advances_initial : Advances {} initial := by
  obtain ⟨hopen, hspace⟩ := consistent_empty.openNamespace has_root (.text builtInNamespace)
  unfold initial
  dsimp only
  generalize ({} : Graph).openNamespace Graph.root (.text builtInNamespace) = opened at hopen hspace
  generalize builtInModels = names
  exact hopen.trans (hopen.consistent.foldl hspace names fun h hspace name _ => h.declareBuiltIn hspace name)

/-- The declarations of a whole description fit together, and the root is among them. -/
theorem advances_declareNamespaces {es : List NamespaceEntry}
    (hnames : ∀ o ∈ openingsOf [] es, ∀ u ∈ o.2.unions, u.name.isAbsent = false) :
    Advances {} (declareNamespaces Graph.root [] initial es) :=
  advances_initial.trans
    (advances_initial.consistent.declareNamespaces [] (advances_initial.has _ has_root) es hnames)

end Declarations

end Edm
