import Edm.Proofs.Graph.Containment

/-!
# Calls that build a graph

A graph is built by calls that make a node in an owner or put a node there.  Each call lists one node in one owner
or changes nothing (`Graph.attaches_after`, `Graph.after_eq_self`).  A graph that was contained when building began
is contained after each call if and only if each node that was put somewhere fits there at the time
(`Graph.contained_states_iff`).  Properties and members have a single owner in any case, since they are only made
in one.
-/

namespace Edm

open Relation

namespace Graph

section

variable {g g' : Graph} {o n m : Node} {c c' d : Cell} {i j : NamespaceId}

/-! ### Single calls -/

theorem items_of_cell (h : g.cell? n = some c) : g.items n = c.items := by rw [items, h]; rfl

theorem owners_of_cell (h : g.cell? n = some c) : g.owners n = c.owners := by rw [owners, h]; rfl

theorem space_of_cell (h : g.cell? n = some c) : g.space n = c.owner := by rw [space, h]; rfl

/-- An owner lists a node that has nothing in it. -/
theorem attaches_of_patch (hc : g.cell? o = some c) (hne : o ≠ n) (hn : g.items n = [])
    (hpatch : ∀ y, g'.cell? y = if y = n then some d else if y = o then some c' else g.cell? y)
    (hitems : ∀ m ∈ c'.items, m = n ∨ m ∈ c.items) (hlisted : n ∈ c'.items) (howners : c'.owners = c.owners)
    (hd : d.items = []) (hbelongs : o ∈ d.owners) (htogether : ∀ i, o = .interface i → d.owner = c.owner) :
    g.Attaches g' o n := by
  have hnode : g'.cell? n = some d := by rw [hpatch, if_pos rfl]
  have howner : g'.cell? o = some c' := by rw [hpatch, if_neg hne, if_pos rfl]
  have hother : ∀ y, y ≠ o → y ≠ n → g'.cell? y = g.cell? y := fun y ho hn => by rw [hpatch, if_neg hn, if_neg ho]
  refine ⟨by rw [hc]; rfl, fun y hy => ?_, ?_, ?_, fun x y hy => ?_, fun x y hx hy => ?_, fun y hy => ?_, ?_⟩
  · rw [hpatch]
    split
    · rfl
    · split
      · rfl
      · exact hy
  · rwa [items_of_cell howner]
  · rwa [owners_of_cell hnode]
  · by_cases hxn : x = n
    · rw [hxn, items_of_cell hnode, hd] at hy
      cases hy
    · by_cases hxo : x = o
      · rw [hxo, items_of_cell howner] at hy
        rw [hxo, items_of_cell hc]
        exact (hitems y hy).imp_left fun hyn => ⟨rfl, hyn⟩
      · rw [items, hother x hxo hxn] at hy
        exact .inr hy
  · by_cases hxn : x = n
    · rw [hxn, hn] at hy
      cases hy
    · rwa [items, hother x hx hxn]
  · by_cases hyo : y = o
    · rw [hyo, owners_of_cell howner, owners_of_cell hc, howners]
    · rw [owners, hother y hyo hy, owners]
  · intro i hi
    rw [space_of_cell hnode, space_of_cell hc, htogether i hi]

theorem attaches_of_new (hc : g.cell? o = some c) (hn : g.cell? n = none)
    (hpatch : ∀ y, g'.cell? y = if y = n then some d else if y = o then some c' else g.cell? y)
    (hitems : ∀ m ∈ c'.items, m = n ∨ m ∈ c.items) (hlisted : n ∈ c'.items) (howners : c'.owners = c.owners)
    (hd : d.items = []) (hbelongs : o ∈ d.owners) (ho : ∀ i, o ≠ .interface i) : g.Attaches g' o n := by
  have hne : o ≠ n := by
    rintro rfl
    rw [hn] at hc
    cases hc
  have hempty : g.items n = [] := by rw [items, hn]; rfl
  exact attaches_of_patch hc hne hempty hpatch hitems hlisted howners hd hbelongs fun i hi => absurd hi (ho i)

section

variable {k : Kind}

theorem items_setOwner (g : Graph) (i : NamespaceId) (n m : Node) : (g.setOwner i n).items m = g.items m := by
  by_cases hm : m = n
  · subst hm
    rw [items, items, cell?_setOwner_self]
    cases g.cell? m <;> simp
  · rw [items, cell?_setOwner_ne hm, items]

theorem owners_setOwner_ne (hm : m ≠ n) : (g.setOwner i n).owners m = g.owners m := by
  rw [owners, cell?_setOwner_ne hm, owners]

theorem mem_owners_setOwner (hn : (g.cell? n).isSome = true) (hk : n.declarableKind? = some k) :
    .nameSpace i ∈ (g.setOwner i n).owners n := by
  obtain ⟨c, hc⟩ := Option.isSome_iff_exists.1 hn
  rw [mem_owners_nameSpace, space, cell?_setOwner_self, hc]
  exact owner_ownedBy hk hc i

theorem isSome_setOwner (g : Graph) (i : NamespaceId) (n m : Node) :
    ((g.setOwner i n).cell? m).isSome = (g.cell? m).isSome := by
  by_cases hm : m = n
  · rw [hm, cell?_setOwner_self, Option.isSome_map]
  · rw [cell?_setOwner_ne hm]

theorem items_enter_ne (hm : m ≠ .nameSpace i) (l : Label) : (g.enter i l n).items m = g.items m := by
  rw [items, cell?_enter_ne hm, items]

theorem owners_enter (ho : (g.cell? (.nameSpace i)).isSome = true) (l : Label) :
    (g.enter i l n).owners m = g.owners m := by
  by_cases hm : m = .nameSpace i
  · subst hm
    obtain ⟨s, hs⟩ := exists_nameSpace ho
    rw [owners_of_cell (cell?_enter_owner hs l), owners_of_cell hs]
    cases n <;> rfl
  · rw [owners, cell?_enter_ne hm, owners]

theorem isSome_enter (hm : (g.cell? m).isSome = true) (l : Label) : ((g.enter i l n).cell? m).isSome = true := by
  by_cases hi : m = .nameSpace i
  · subst hi
    obtain ⟨s, hs⟩ := exists_nameSpace hm
    rw [cell?_enter_owner hs l]
    rfl
  · rwa [cell?_enter_ne hi]

/-- A namespace lists a node, which may have been listed before, or be the namespace itself. -/
theorem attaches_list (ho : (g.cell? (.nameSpace i)).isSome = true) (hn : (g.cell? n).isSome = true)
    (hk : n.declarableKind? = some k) : g.Attaches (g.list i n) (.nameSpace i) n := by
  have ho' : ((g.setOwner i n).cell? (.nameSpace i)).isSome = true := by rwa [isSome_setOwner]
  obtain ⟨s, hs⟩ := exists_nameSpace ho'
  have hlists : (g.list i n).items (.nameSpace i) = (s.listing (g.nameOf n) n).members :=
    items_of_cell (cell?_enter_owner hs _)
  have hlisted : g.items (.nameSpace i) = s.members := by
    rw [← items_setOwner g i n, items_of_cell hs]
    rfl
  refine ⟨ho, fun m hm => ?_, ?_, ?_, fun x m hm => ?_, fun x m hx hm => ?_, fun m hm => ?_, fun j hj => nomatch hj⟩
  · exact isSome_enter (by rwa [isSome_setOwner]) _
  · rw [hlists]
    exact Namespace.mem_members_listing_self hk _
  · rw [list, owners_enter ho']
    exact mem_owners_setOwner hn hk
  · by_cases hx : x = .nameSpace i
    · subst hx
      rw [hlists] at hm
      rw [hlisted]
      exact (Namespace.mem_members_listing hm).imp_left fun heq => ⟨rfl, heq⟩
    · rw [list, items_enter_ne hx, items_setOwner] at hm
      exact .inr hm
  · rwa [list, items_enter_ne hx, items_setOwner]
  · rw [list, owners_enter ho', owners_setOwner_ne hm]

end

theorem attaches_openNamespace {s : Namespace} {name : Label} (hs : g.cell? (.nameSpace i) = some (.nameSpace s))
    (hnone : s.namespaces.lookup name = none) :
    g.Attaches (g.openNamespace i name).2 (.nameSpace i) (.nameSpace g.namespaces.size) := by
  obtain ⟨-, -, hpatch⟩ := cell?_openNamespace hs hnone
  have hitems : ∀ m ∈ (s.listing name (.nameSpace g.namespaces.size)).members,
      m = .nameSpace g.namespaces.size ∨ m ∈ s.members := fun m hm => Namespace.mem_members_listing hm
  have hlisted : .nameSpace g.namespaces.size ∈ (s.listing name (.nameSpace g.namespaces.size)).members :=
    Namespace.mem_members_listing_self rfl name
  exact attaches_of_new hs (by simp [cell?, Table.get?_size]) hpatch hitems hlisted rfl rfl
    (by simp [Cell.owners, Cell.owner]) fun j hj => nomatch hj

theorem attaches_addProperty {i : ModelId} {model : Model} (h : g.cell? (.model i) = some (.model model)) (name : Label)
    (type : Node) (optional : Bool) :
    g.Attaches (g.addProperty i name type optional).2 (.model i) (.property g.properties.size) := by
  refine attaches_of_new h (by simp [cell?, Table.get?_size]) (fun _ => cell?_addProperty h name type optional)
    (fun m hm => ?_) ?_ rfl rfl (by simp [Cell.owners]) fun j hj => nomatch hj
  · obtain ⟨q, hq, rfl⟩ := List.mem_map.1 hm
    exact (Members.mem_values_insert hq).imp (congrArg Node.property) List.mem_map_of_mem
  · exact List.mem_map_of_mem (Members.mem_values_insert_self ..)

theorem attaches_addMember {i : EnumId} {e : Enum} (h : g.cell? (.enum i) = some (.enum e)) (name : Label)
    (value : Json) : g.Attaches (g.addMember i name value).2 (.enum i) (.member g.members.size) := by
  refine attaches_of_new h (by simp [cell?, Table.get?_size]) (fun _ => cell?_addMember h name value)
    (fun m hm => ?_) ?_ rfl rfl (by simp [Cell.owners]) fun j hj => nomatch hj
  · simpa [Cell.items, or_comm, eq_comm] using hm
  · simp [Cell.items]

theorem attaches_addOperation {i : InterfaceId} {j : OperationId} {f : Interface} {q : Operation}
    (hf : g.cell? (.interface i) = some (.interface f)) (hq : g.cell? (.operation j) = some (.operation q)) :
    g.Attaches (g.addOperation i j) (.interface i) (.operation j) := by
  refine attaches_of_patch hf (by simp) (items_of_cell hq) (fun _ => cell?_addOperation hf hq) (fun m hm => ?_) ?_ rfl
    rfl (by simp [Cell.owners]) fun _ _ => rfl
  · obtain ⟨x, hx, rfl⟩ := List.mem_map.1 hm
    exact (Members.mem_values_insert hx).imp (congrArg Node.operation) List.mem_map_of_mem
  · exact List.mem_map_of_mem (Members.mem_values_insert_self ..)

end

/-! ### Runs -/

/-- A call that makes a node in an owner or puts a node there. -/
inductive Call
  | child (owner : NamespaceId) (name : Label)
  | add (owner : NamespaceId) (node : Node)
  | property (owner : ModelId) (name : Label) (type : Node) (optional : Bool)
  | member (owner : EnumId) (name : Label) (value : Json)
  | operation (owner : InterfaceId) (operation : OperationId)

/-- A graph after a call; one that fails may leave it as it is. -/
def after (g : Graph) : Call → Graph
  | .child owner name =>
    match g.child owner name with
    | .ok (_, g') => g'
    | .error _ => g
  | .add owner node => (g.attach owner node).2
  | .property owner name type optional =>
    match g.declareProperty owner name type optional with
    | .ok (_, g') => g'
    | .error _ => g
  | .member owner name value => (g.addMember owner name value).2
  | .operation owner operation => (g.attachOperation owner operation).2

/-- A call is about nodes that exist, and what is put somewhere has a name that can be a key, as texts can. -/
def IsProper (g : Graph) : Call → Prop
  | .child owner _ => (g.cell? (.nameSpace owner)).isSome = true
  | .add owner node => (g.cell? (.nameSpace owner)).isSome = true
      ∧ (node.declarableKind?.isSome = true → (g.cell? node).isSome = true ∧ (g.nameOf node).keyable = true)
  | .property owner _ _ _ => (g.cell? (.model owner)).isSome = true
  | .member owner _ _ => (g.cell? (.enum owner)).isSome = true
  | .operation owner operation => (g.cell? (.interface owner)).isSome = true
      ∧ (g.cell? (.operation operation)).isSome = true ∧ (g.operations.get operation).name.keyable = true

/-- The owner and the node that a call brings together, if it does. -/
def attached? (g : Graph) : Call → Option (Node × Node)
  | .child owner name =>
    if name.keyable && name.truthy && ((g.namespaces.get owner).namespaces.lookup name).isNone then
      some (.nameSpace owner, .nameSpace g.namespaces.size)
    else none
  | .add owner node =>
    if node.declarableKind?.isSome && (g.nameOf node).truthy then some (.nameSpace owner, node) else none
  | .property owner name _ _ => if name.keyable then some (.model owner, .property g.properties.size) else none
  | .member owner _ _ => some (.enum owner, .member g.members.size)
  | .operation owner operation => some (.interface owner, .operation operation)

/-- A node that is put somewhere fits there. -/
def Allows (g : Graph) : Call → Prop
  | .add owner node =>
    node.declarableKind?.isSome = true → (g.nameOf node).truthy = true → g.Fits (.nameSpace owner) node
  | .operation owner operation => g.Fits (.interface owner) (.operation operation)
  | .child _ _ | .property _ _ _ _ | .member _ _ _ => True

/-- The graphs before, between and after some calls. -/
def states (g : Graph) : List Call → List Graph
  | [] => [g]
  | call :: calls => g :: (g.after call).states calls

/-- Each call is proper when it is made. -/
def IsRun (g : Graph) : List Call → Prop
  | [] => True
  | call :: calls => g.IsProper call ∧ (g.after call).IsRun calls

/-- Each node that is put somewhere fits there at the time. -/
def AllowsAll (g : Graph) : List Call → Prop
  | [] => True
  | call :: calls => g.Allows call ∧ (g.after call).AllowsAll calls

section

variable {g : Graph} {call : Call} {o n : Node}

/-- A call that brings a node and an owner together does just that. -/
theorem attaches_after (h : g.IsProper call) (ha : g.attached? call = some (o, n)) : g.Attaches (g.after call) o n := by
  cases call with
  | child i name =>
    obtain ⟨s, hs⟩ := exists_nameSpace h
    simp only [attached?, get_nameSpace hs, Option.ite_none_right_eq_some, Bool.and_eq_true,
      Option.isNone_iff_eq_none, Option.some.injEq, Prod.mk.injEq] at ha
    obtain ⟨⟨⟨hkey, hname⟩, hnone⟩, rfl, rfl⟩ := ha
    have hafter : g.after (.child i name) = (g.openNamespace i name).2 := by
      simp [after, child, hkey, get_nameSpace hs, hnone, hname]
    rw [hafter]
    exact attaches_openNamespace hs hnone
  | add i m =>
    obtain ⟨hi, hm⟩ := h
    simp only [attached?, Option.ite_none_right_eq_some, Bool.and_eq_true, Option.some.injEq, Prod.mk.injEq] at ha
    obtain ⟨⟨hk, hname⟩, rfl, rfl⟩ := ha
    obtain ⟨hsome, hkey⟩ := hm hk
    obtain ⟨k, hk⟩ := Option.isSome_iff_exists.1 hk
    have hafter : g.after (.add i m) = g.list i m := by
      simp [after, attach, hk, checkName, hname, hkey]
    rw [hafter]
    exact attaches_list hi hsome hk
  | property i name type optional =>
    obtain ⟨model, hmodel⟩ := exists_model h
    simp only [attached?, Option.ite_none_right_eq_some, Option.some.injEq, Prod.mk.injEq] at ha
    obtain ⟨hkey, rfl, rfl⟩ := ha
    have hafter : g.after (.property i name type optional) = (g.addProperty i name type optional).2 := by
      simp [after, declareProperty, hkey]
    rw [hafter]
    exact attaches_addProperty hmodel name type optional
  | member i name value =>
    obtain ⟨e, he⟩ := exists_enum h
    cases ha
    exact attaches_addMember he name value
  | operation i j =>
    obtain ⟨hi, hj, hkey⟩ := h
    obtain ⟨f, hf⟩ := exists_interface hi
    obtain ⟨q, hq⟩ := exists_operation hj
    cases ha
    have hafter : g.after (.operation i j) = g.addOperation i j := by
      simp [after, attachOperation, hkey]
    rw [hafter]
    exact attaches_addOperation hf hq

/-- Any other call changes nothing. -/
theorem after_eq_self (ha : g.attached? call = none) : g.after call = g := by
  cases call with
  | child i name =>
    simp only [after, child]
    cases hkey : name.keyable with
    | false => rfl
    | true =>
      cases hfound : (g.namespaces.get i).namespaces.lookup name with
      | some j => rfl
      | none =>
        have hname : name.truthy = false := by simpa [attached?, hkey, hfound] using ha
        simp [hname]
  | add i m =>
    cases hk : m.declarableKind? with
    | none => simp [after, attach, hk]
    | some k =>
      have hname : (g.nameOf m).truthy = false := by simpa [attached?, hk] using ha
      simp [after, attach, hk, checkName, hname]
  | property i name type optional =>
    have hkey : name.keyable = false := by simpa [attached?] using ha
    simp [after, declareProperty, hkey]
  | member i name value => cases ha
  | operation i j => cases ha

/-- What is brought together with an owner is put there, or made for it. -/
theorem cases_of_attached (ha : g.attached? call = some (o, n)) :
    (∃ i, call = .add i n ∧ n.declarableKind?.isSome = true) ∨ (∃ i j, call = .operation i j ∧ n = .operation j)
      ∨ g.cell? n = none := by
  cases call with
  | child i name | property i name type optional =>
    simp only [attached?, Option.ite_none_right_eq_some, Option.some.injEq, Prod.mk.injEq] at ha
    obtain ⟨-, -, rfl⟩ := ha
    exact .inr (.inr (by simp [cell?, Table.get?_size]))
  | add i m =>
    simp only [attached?, Option.ite_none_right_eq_some, Bool.and_eq_true, Option.some.injEq, Prod.mk.injEq] at ha
    obtain ⟨⟨hk, -⟩, -, rfl⟩ := ha
    exact .inl ⟨i, rfl, hk⟩
  | member i name value =>
    cases ha
    exact .inr (.inr (by simp [cell?, Table.get?_size]))
  | operation i j =>
    cases ha
    exact .inr (.inl ⟨i, j, rfl, rfl⟩)

/-- What is made for its owner always fits. -/
theorem allows_iff (hg : g.Contained) (h : g.IsProper call) :
    g.Allows call ↔ ∀ o n, g.attached? call = some (o, n) → g.Fits o n := by
  have hnew : ∀ {o n}, g.attached? call = some (o, n) → g.cell? n = none → g.Fits o n := fun ha hn =>
    fits_of_new hg (attaches_after h ha).owner_isSome hn
  cases call with
  | add i m =>
    constructor
    · intro hallows o n ha
      simp only [attached?, Option.ite_none_right_eq_some, Bool.and_eq_true, Option.some.injEq, Prod.mk.injEq] at ha
      obtain ⟨⟨hk, hname⟩, rfl, rfl⟩ := ha
      exact hallows hk hname
    · intro hfits hk hname
      exact hfits _ _ (by simp [attached?, hk, hname])
  | operation i j =>
    constructor
    · intro hallows o n ha
      cases ha
      exact hallows
    · intro hfits
      exact hfits _ _ rfl
  | child _ _ | property _ _ _ _ | member _ _ _ =>
    refine ⟨fun _ o n ha => hnew ha ?_, fun _ => trivial⟩
    simpa using cases_of_attached ha

/-- A contained graph stays one if and only if what is put somewhere fits there. -/
theorem contained_after_iff (hg : g.Contained) (h : g.IsProper call) : (g.after call).Contained ↔ g.Allows call := by
  rw [allows_iff hg h]
  cases ha : g.attached? call with
  | none => simp [after_eq_self ha, hg]
  | some x =>
    obtain ⟨o, n⟩ := x
    rw [(attaches_after h ha).contained_iff hg]
    simp

/-- What cannot be put anywhere keeps its single owner. -/
theorem owned_after {m : Node} (hm : g.Owned m) (hput : m.declarableKind? = none) (h : g.IsProper call) :
    (g.after call).Owned m := by
  cases ha : g.attached? call with
  | none => rwa [after_eq_self ha]
  | some x =>
    refine (attaches_after h ha).owned hm ?_
    rintro rfl o ho
    -- a node that is not there yet is not listed either
    have hsome : (g.cell? x.2).isSome = true := isSome_of_mem_owners (hm.belongs o ho)
    obtain ⟨-, -, hk⟩ | ⟨_, _, -, hj⟩ | hnone := cases_of_attached ha
    · rw [hput] at hk
      cases hk
    · rw [hj] at hput
      cases hput
    · rw [hnone] at hsome
      cases hsome

/-! ### All calls -/

variable {calls : List Call}

theorem mem_states_self (g : Graph) (calls : List Call) : g ∈ g.states calls := by
  cases calls <;> exact List.mem_cons_self ..

private theorem Calls.contained_iff (hg : g.Contained) (hrun : g.IsRun calls) :
    (∀ g' ∈ g.states calls, g'.Contained) ↔ g.AllowsAll calls := by
  induction calls generalizing g with
  | nil => simp [states, AllowsAll, hg]
  | cons call calls ih =>
    obtain ⟨hproper, hrest⟩ := hrun
    rw [states, List.forall_mem_cons, AllowsAll]
    constructor
    · rintro ⟨-, hall⟩
      have hnext : (g.after call).Contained := hall _ (mem_states_self ..)
      exact ⟨(contained_after_iff hg hproper).1 hnext, (ih hnext hrest).1 hall⟩
    · rintro ⟨hallows, hall⟩
      have hnext : (g.after call).Contained := (contained_after_iff hg hproper).2 hallows
      exact ⟨hg, (ih hnext hrest).2 hall⟩

private theorem Calls.owned {m : Node} (hm : g.Owned m) (hput : m.declarableKind? = none) (hrun : g.IsRun calls) :
    ∀ g' ∈ g.states calls, g'.Owned m := by
  induction calls generalizing g with
  | nil => simpa [states] using hm
  | cons call calls ih =>
    rw [states, List.forall_mem_cons]
    exact ⟨hm, ih (owned_after hm hput hrun.1) hrun.2⟩

/-- Graphs that are built from a contained one are contained throughout if and only if each node that is put
somewhere fits there at the time.  Then the walks through namespaces come to their ends, too.  Properties and
members have single owners in any case. -/
theorem contained_states_iff (hg : g.Contained) (hrun : g.IsRun calls) :
    ((∀ g' ∈ g.states calls, g'.Contained) ↔ g.AllowsAll calls)
      ∧ (g.AllowsAll calls → ∀ g' ∈ g.states calls, g'.WalksEnd)
      ∧ ∀ g' ∈ g.states calls, ∀ i, g'.Owned (.property i) ∧ g'.Owned (.member i) := by
  have hiff := Calls.contained_iff hg hrun
  refine ⟨hiff, fun hall g' hg' => (hiff.2 hall g' hg').walksEnd, fun g' hg' i => ⟨?_, ?_⟩⟩
  · exact Calls.owned (hg.owned _) rfl hrun g' hg'
  · exact Calls.owned (hg.owned _) rfl hrun g' hg'

end

/-! ### Nodes that do not fit -/

/-- Two namespaces, an interface and an operation that nothing lists yet, apart from the root. -/
def detached : Graph where
  namespaces := ⟨#[{}, { name := .text "A" }, { name := .text "B" }]⟩
  models := ⟨#[{}]⟩
  interfaces := ⟨#[{ name := .text "F" }]⟩
  operations := ⟨#[{ name := .text "Get", parameters := 0 }]⟩

theorem loose_detached : ∀ n c, detached.cell? n = some c → c.items = [] ∧ c.owner = none := by
  intro n c hc
  cases n with
  | nameSpace i | model i | interface i | operation i =>
    obtain ⟨a, ha, rfl⟩ := Option.map_eq_some_iff.1 hc
    have hmem := Array.mem_of_getElem? ha
    simp only [detached, List.mem_toArray, List.mem_cons, List.not_mem_nil, or_false] at hmem
    rcases hmem with rfl | rfl | rfl
    all_goals exact ⟨rfl, rfl⟩
  | _ => cases hc

theorem contained_detached : detached.Contained := contained_of_records loose_detached

theorem contained_states_iff_detached :
    let calls : List Call := [.add 1 (.interface 0), .operation 0 0, .child 1 (.text "C")]
    detached.IsRun calls ∧ ∀ g' ∈ detached.states calls, g'.Contained := by
  intro calls
  have hrun : detached.IsRun calls := ⟨⟨rfl, fun _ => ⟨rfl, rfl⟩⟩, ⟨rfl, rfl, rfl⟩, rfl, trivial⟩
  have hput : detached.Allows (.add 1 (.interface 0)) := fun _ _ =>
    fits_of_unowned contained_detached rfl rfl (by simp)
  have hnext : (detached.after (.add 1 (.interface 0))).Contained :=
    (contained_after_iff contained_detached hrun.1).2 hput
  exact ⟨hrun, (contained_states_iff contained_detached hrun).1.2
    ⟨hput, fits_of_unowned hnext rfl rfl (by simp), trivial, trivial⟩⟩

/-- An interface that is put in a namespace after its operation leaves it behind, one that is put in two namespaces
is listed by both, and two namespaces that are put in each other are inside each other. -/
theorem not_contained_states :
    let late : List Call := [.operation 0 0, .add 1 (.interface 0)]
    let shared : List Call := [.add 1 (.interface 0), .add 2 (.interface 0)]
    let endless : List Call := [.add 1 (.nameSpace 2), .add 2 (.nameSpace 1)]
    (detached.IsRun late ∧ ¬ ∀ g' ∈ detached.states late, g'.Contained)
      ∧ (detached.IsRun shared ∧ ¬ ∀ g' ∈ detached.states shared, g'.Contained)
      ∧ (detached.IsRun endless ∧ ¬ ∀ g' ∈ detached.states endless, g'.Contained) := by
  refine ⟨⟨⟨⟨rfl, rfl, rfl⟩, ⟨rfl, fun _ => ⟨rfl, rfl⟩⟩, trivial⟩, fun h => ?_⟩,
    ⟨⟨⟨rfl, fun _ => ⟨rfl, rfl⟩⟩, ⟨rfl, fun _ => ⟨rfl, rfl⟩⟩, trivial⟩, fun h => ?_⟩,
    ⟨⟨⟨rfl, fun _ => ⟨rfl, rfl⟩⟩, ⟨rfl, fun _ => ⟨rfl, rfl⟩⟩, trivial⟩, fun h => ?_⟩⟩
  · have hlast := h _ (List.mem_of_getLast? rfl)
    have hspaces := hlast.together 0 0 (by decide)
    revert hspaces
    decide
  · have hlast := h _ (List.mem_of_getLast? rfl)
    have howners := (hlast.owned (.interface 0)).single (.nameSpace 1) (.nameSpace 2) (by decide) (by decide)
    cases howners
  · have hlast := h _ (List.mem_of_getLast? rfl)
    exact not_encloses_self hlast.ends 1 (TransGen.tail (TransGen.single (b := 2) rfl) rfl)

end Graph

end Edm
