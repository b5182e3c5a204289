import Edm.Proofs.Graph.Latest
import Edm.Proofs.Loading.View

/-!
# What a declaration leaves

For an entry of each kind: what is known of its node once it is declared (`Declarations.EnumAt`,
`Declarations.ModelAt` and so on), that later declarations leave it like that, and that declaring one entry
lists one node in its namespace and touches nothing else (`Declarations.Declares`).
-/

namespace Edm

namespace Declarations

/-! ### Nodes for entries -/

/-- An enum of a namespace, with its members in order. -/
def EnumAt (d : Declarations) (space : NamespaceId) (i : EnumId) (e : EnumEntry) : Prop :=
  ∃ members, d.view (.enum i) = { cell := some (.enum { name := e.name, members, owner := some space }) }
    ∧ List.Forall₂ (fun j (m : MemberEntry) =>
        d.graph.cell? (.member j) = some (.member { name := m.name, value := m.value, owner := some i }))
      members e.members

/-- A property of a model, or a parameter: it waits for its type. -/
def PropertyAt (d : Declarations) (path : List Text) (site : Text) (owner : ModelId) (i : PropertyId)
    (e : PropertyEntry) : Prop :=
  d.view (.property i) =
    { cell := some (.property
        { name := e.name, type := .unresolved, optional := e.optional, owner := some owner })
      waiting := [{ pending := .property i e.type, scope := path, site := siteOf site e.name }]
      decorators := e.decorators.map fun x => (siteOf site e.name, x) }

/-- Properties of a model, each with a node of its own, also those that later ones replace. -/
def PropertiesAt (d : Declarations) (path : List Text) (site : Text) (owner : ModelId) (es : List PropertyEntry) :
    Prop :=
  ∃ ids : List PropertyId, ids.Nodup ∧ List.Forall₂ (d.PropertyAt path site owner) ids es

/-- A model of a namespace, with its properties: it waits for its base, if it has one. -/
def ModelAt (d : Declarations) (space : NamespaceId) (path : List Text) (i : ModelId) (e : ModelEntry) : Prop :=
  let site := siteOf (Graph.dotted path) e.name
  ∃ properties, d.view (.model i) =
      { cell := some (.model { name := e.name, properties, owner := some space })
        waiting := e.base.toList.map fun type => { pending := .base i type, scope := path, site }
        decorators := e.decorators.map fun x => (site, x) }
    ∧ Lists (d.PropertyAt path site i) PropertyEntry.name properties e.properties

/-- A union of a namespace: it waits for its options. -/
def UnionAt (d : Declarations) (space : NamespaceId) (path : List Text) (i : UnionId) (e : UnionEntry) : Prop :=
  d.view (.union i) =
    { cell := some (.union { name := e.name, owner := some space })
      waiting := [{ pending := .options i e.options, scope := path,
                    site := siteOf (Graph.dotted path) e.name }] }

/-- An operation, with its parameters: it waits for what it returns. -/
def OperationAt (d : Declarations) (path : List Text) (outer : Text) (owner : Option NamespaceId)
    (interface : Option InterfaceId) (i : OperationId) (e : OperationEntry) : Prop :=
  let site := siteOf outer e.name
  ∃ parameters properties,
    d.view (.operation i) =
        { cell := some (.operation { name := e.name, parameters, owner, interface })
          waiting := [{ pending := .result i e.result, scope := path, site }] }
      ∧ d.view (.model parameters) = { cell := some (.model { properties }) }
      ∧ Lists (d.PropertyAt path site parameters) PropertyEntry.name properties e.parameters

/-- An interface of a namespace, with its operations. -/
def InterfaceAt (d : Declarations) (space : NamespaceId) (path : List Text) (i : InterfaceId)
    (e : InterfaceEntry) : Prop :=
  ∃ operations,
    d.view (.interface i) = { cell := some (.interface { name := e.name, operations, owner := some space }) }
      ∧ Lists (d.OperationAt path (siteOf (Graph.dotted path) e.name) (some space) (some i))
          OperationEntry.name operations e.operations

/-! ### Later declarations -/

section

variable {touched : Node → Prop} {d d' : Declarations} {path : List Text} {site : Text}

theorem Keeps.view_eq (h : Keeps touched d d') {n : Node} {v : View} {c : Cell} (hv : d.view n = v)
    (hc : v.cell = some c) (ht : ¬ touched n) : d'.view n = v := by
  have hn : d.Has n := has_of_cell (by rw [← cell_view, hv, hc])
  rw [h n hn ht, hv]

theorem Keeps.cell_eq (h : Keeps touched d d') {n : Node} {c : Cell} (hc : d.graph.cell? n = some c)
    (ht : ¬ touched n) : d'.graph.cell? n = some c := by
  rw [← cell_view, h n (has_of_cell hc) ht, cell_view, hc]

theorem EnumAt.mono {space : NamespaceId} {i : EnumId} {e : EnumEntry} (h : d.EnumAt space i e)
    (hk : Keeps touched d d') (ht : ∀ n, touched n → ∃ k, n = .nameSpace k) : d'.EnumAt space i e := by
  obtain ⟨members, hview, hmembers⟩ := h
  refine ⟨members, hk.view_eq hview rfl fun hi => ?_, hmembers.imp fun j m hj => hk.cell_eq hj fun hj => ?_⟩
  · obtain ⟨k, hk⟩ := ht _ hi
    cases hk
  · obtain ⟨k, hk⟩ := ht _ hj
    cases hk

theorem PropertyAt.mono {owner : ModelId} {i : PropertyId} {e : PropertyEntry}
    (h : d.PropertyAt path site owner i e) (hk : Keeps touched d d') (ht : ¬ touched (.property i)) :
    d'.PropertyAt path site owner i e :=
  hk.view_eq h rfl ht

theorem PropertiesAt.mono {owner : ModelId} {es : List PropertyEntry} (h : d.PropertiesAt path site owner es)
    (hk : Keeps touched d d') (ht : ∀ i, ¬ touched (.property i)) : d'.PropertiesAt path site owner es := by
  obtain ⟨ids, hnodup, hat⟩ := h
  exact ⟨ids, hnodup, hat.imp fun i _ hi => hi.mono hk (ht i)⟩

theorem ModelAt.mono {space : NamespaceId} {i : ModelId} {e : ModelEntry} (h : d.ModelAt space path i e)
    (hk : Keeps touched d d') (ht : ∀ n, touched n → ∃ k, n = .nameSpace k) : d'.ModelAt space path i e := by
  obtain ⟨properties, hview, hproperties⟩ := h
  refine ⟨properties, hk.view_eq hview rfl fun hi => ?_, hproperties.mono fun j q hj => hj.mono hk fun hj => ?_⟩
  · obtain ⟨k, hk⟩ := ht _ hi
    cases hk
  · obtain ⟨k, hk⟩ := ht _ hj
    cases hk

theorem UnionAt.mono {space : NamespaceId} {i : UnionId} {e : UnionEntry} (h : d.UnionAt space path i e)
    (hk : Keeps touched d d') (ht : ∀ n, touched n → ∃ k, n = .nameSpace k) : d'.UnionAt space path i e := by
  refine hk.view_eq h rfl fun hi => ?_
  obtain ⟨k, hk⟩ := ht _ hi
  cases hk

theorem OperationAt.mono {owner : Option NamespaceId} {interface : Option InterfaceId} {i : OperationId}
    {e : OperationEntry} (h : d.OperationAt path site owner interface i e) (hk : Keeps touched d d')
    (ht : ∀ n, touched n → (∃ k, n = .nameSpace k) ∨ ∃ k, n = .interface k) :
    d'.OperationAt path site owner interface i e := by
  obtain ⟨parameters, properties, hoperation, hmodel, hproperties⟩ := h
  refine ⟨parameters, properties, hk.view_eq hoperation rfl fun hi => ?_, hk.view_eq hmodel rfl fun hi => ?_,
    hproperties.mono fun j q hj => hj.mono hk fun hj => ?_⟩
  · obtain ⟨k, hk⟩ | ⟨k, hk⟩ := ht _ hi <;> cases hk
  · obtain ⟨k, hk⟩ | ⟨k, hk⟩ := ht _ hi <;> cases hk
  · obtain ⟨k, hk⟩ | ⟨k, hk⟩ := ht _ hj <;> cases hk

theorem InterfaceAt.mono {space : NamespaceId} {i : InterfaceId} {e : InterfaceEntry}
    (h : d.InterfaceAt space path i e) (hk : Keeps touched d d')
    (ht : ∀ n, touched n → ∃ k, n = .nameSpace k) : d'.InterfaceAt space path i e := by
  obtain ⟨operations, hview, hoperations⟩ := h
  refine ⟨operations, hk.view_eq hview rfl fun hi => ?_,
    hoperations.mono fun j o hj => hj.mono hk fun n hn => .inl (ht n hn)⟩
  obtain ⟨k, hk⟩ := ht _ hi
  cases hk

end

/-! ### Properties -/

section

variable {d : Declarations}

theorem not_has_property (d : Declarations) : ¬ d.Has (.property d.graph.properties.size) := by
  simp [Has, Graph.cell?, Table.get?_size]

/-- Declaring a property makes a node for it and touches the model that lists it. -/
theorem declareProperty_spec (hd : d.Tidy) {m : ModelId} {model : Model}
    (hm : d.graph.cell? (.model m) = some (.model model)) (path : List Text) (site : Text) (e : PropertyEntry) :
    Grows (· = .model m) d (declareProperty m path site d e)
      ∧ (declareProperty m path site d e).PropertyAt path site m d.graph.properties.size e
      ∧ (declareProperty m path site d e).view (.model m) =
          (d.view (.model m)).withCell (some (.model
            { model with properties := model.properties.insert e.name d.graph.properties.size })) := by
  have hcell := fun n => Graph.cell?_addProperty (n := n) hm e.name .unresolved e.optional
  have hfresh := not_has_property d
  unfold declareProperty
  dsimp only
  have hi : (d.graph.addProperty m e.name .unresolved e.optional).1 = d.graph.properties.size := rfl
  rw [hi]
  generalize hg : (d.graph.addProperty m e.name .unresolved e.optional).2 = g at hcell
  generalize d.graph.properties.size = q at *
  refine ⟨?_, ?_, ?_⟩
  · have hgraph : Grows (fun n => n = .model m ∨ n = .property q) d { d with graph := g } := by
      refine grows_graph hd (fun n hn ht => ?_) (fun n hn ht => ?_) (by rw [← hg]; rfl)
      · rw [hcell, if_neg fun h => ht (.inr h), if_neg fun h => ht (.inl h)]
      · rw [hcell]
        split
        · rfl
        · split
          · rfl
          · exact hn
    have hq : Has { d with graph := g } (.property q) := by
      show (g.cell? _).isSome = true
      rw [hcell, if_pos rfl]
      rfl
    have hdecorate : Grows (fun n => n = .model m ∨ n = .property q) _
        (({ d with graph := g } : Declarations).decorate (siteOf site e.name) (.property q) e.decorators) :=
      grows_decorate hgraph.tidy (.inr rfl) hq
    have hrefer : Grows (fun n => n = .model m ∨ n = .property q) _
        ((({ d with graph := g } : Declarations).decorate (siteOf site e.name) (.property q) e.decorators).refer
          path (siteOf site e.name) (.property q e.type)) := grows_refer hdecorate.tidy (.inr rfl) hq
    refine ((hgraph.trans hdecorate).trans hrefer).weaken fun n ht hn => ?_
    rcases ht with ht | rfl
    · exact ht
    · exact absurd hn hfresh
  · rw [PropertyAt, view_refer_self (n := .property q) rfl, view_decorate_self rfl, view_graph,
      hd.view_of_not_has hfresh, hcell, if_pos rfl]
    rfl
  · rw [view_refer_ne (by simp [Pending.target]), view_decorate_ne (by simp), view_graph, hcell,
      if_neg (by simp), if_pos rfl]

theorem PropertyAt.has {path : List Text} {site : Text} {owner : ModelId} {i : PropertyId} {e : PropertyEntry}
    (h : d.PropertyAt path site owner i e) : d.Has (.property i) :=
  has_of_cell (congrArg View.cell h)

/-- Declaring properties one after the other makes a new node for each of them. -/
theorem declareProperties_each (hd : d.Tidy) {m : ModelId} {model : Model}
    (hm : d.graph.cell? (.model m) = some (.model model)) (path : List Text) (site : Text) (es : List PropertyEntry) :
    Grows (· = .model m) d (es.foldl (declareProperty m path site) d)
      ∧ ∃ ids : List PropertyId, ids.Nodup ∧ (∀ i ∈ ids, ¬ d.Has (.property i))
        ∧ List.Forall₂ ((es.foldl (declareProperty m path site) d).PropertyAt path site m) ids es := by
  induction es generalizing d model with
  | nil => exact ⟨Grows.refl hd, [], List.nodup_nil, fun i hi => (List.not_mem_nil hi).elim, .nil⟩
  | cons e es ih =>
    obtain ⟨hgrows, hproperty, hmodel⟩ := declareProperty_spec hd hm path site e
    obtain ⟨hgrows', ids, hnodup, hfresh, hat⟩ := ih hgrows.tidy (congrArg View.cell hmodel)
    -- the node of this property is there when the later ones are made
    have hself : d.graph.properties.size ∉ ids := fun hmem => hfresh _ hmem hproperty.has
    refine ⟨hgrows.trans hgrows', d.graph.properties.size :: ids, List.nodup_cons.2 ⟨hself, hnodup⟩,
      List.forall_mem_cons.2 ⟨not_has_property d, fun i hi hhas => ?_⟩,
      .cons (hproperty.mono hgrows'.keeps (by simp)) hat⟩
    exact hfresh i hi (hgrows.keeps.has hhas (by simp))

theorem types_declareProperties (m : ModelId) (path : List Text) (site : Text) (d : Declarations)
    (es : List PropertyEntry) : (es.foldl (declareProperty m path site) d).types = d.types := by
  induction es generalizing d with
  | nil => rfl
  | cons e es ih =>
    rw [List.foldl_cons, ih]
    rfl

/-- Declaring properties one after the other: the model lists the latest one with each name. -/
theorem declareProperties_spec (hd : d.Tidy) {m : ModelId} {model : Model} {done : List PropertyEntry}
    {path : List Text} {site : Text} (hm : d.graph.cell? (.model m) = some (.model model))
    (hdone : Lists (d.PropertyAt path site m) PropertyEntry.name model.properties done)
    (es : List PropertyEntry) (htext : ∀ e ∈ done ++ es, e.name.isText = true) :
    ∃ properties, Grows (· = .model m) d (es.foldl (declareProperty m path site) d)
      ∧ (es.foldl (declareProperty m path site) d).view (.model m)
          = (d.view (.model m)).withCell (some (.model { model with properties }))
      ∧ Lists ((es.foldl (declareProperty m path site) d).PropertyAt path site m) PropertyEntry.name properties
          (done ++ es) := by
  induction es generalizing d model done with
  | nil =>
    refine ⟨model.properties, Grows.refl hd, ?_, by rw [List.append_nil]; exact hdone⟩
    rw [List.foldl_nil]
    ext1
    · exact hm
    · rfl
    · rfl
  | cons e es ih =>
    obtain ⟨hgrows, hproperty, hmodel⟩ := declareProperty_spec hd hm path site e
    have hm' : (declareProperty m path site d e).graph.cell? (.model m)
        = some (.model { model with properties := model.properties.insert e.name d.graph.properties.size }) := by
      rw [← cell_view, hmodel]
      rfl
    have hdone' : Lists ((declareProperty m path site d e).PropertyAt path site m) PropertyEntry.name
        (model.properties.insert e.name d.graph.properties.size) (done ++ [e]) := by
      refine (hdone.mono fun i q hq => hq.mono hgrows.keeps (by simp)).insert ?_ ?_ hproperty
      · exact fun x hx => htext x (List.mem_append_left _ hx)
      · exact htext e (List.mem_append_right _ (List.mem_cons_self ..))
    obtain ⟨properties, hgrows', hmodel', hlists⟩ := ih hgrows.tidy hm' hdone' (by simpa using htext)
    refine ⟨properties, hgrows.trans hgrows', ?_, by simpa using hlists⟩
    rw [List.foldl_cons, hmodel', hmodel]
    rfl

end

/-! ### Nodes that a namespace lists -/

/-- Declaring something lists a new node under a name in a namespace and touches no other node that is there. -/
structure Declares (d d' : Declarations) (space : NamespaceId) (name : Label) (n : Node) : Prop where
  fresh : ¬ d.Has n
  grows : Grows (· = .nameSpace space) d d'
  listed : ∀ s, d.graph.cell? (.nameSpace space) = some (.nameSpace s) →
    d'.graph.cell? (.nameSpace space) = some (.nameSpace (s.listing name n))

/-- A graph that has one more node, which is no namespace. -/
structure IsNew (d : Declarations) (g : Graph) (n : Node) (c : Cell) : Prop where
  fresh : ¬ d.Has n
  other : ∀ k, n ≠ .nameSpace k
  cell : ∀ x, g.cell? x = if x = n then some c else d.graph.cell? x
  size : g.namespaces.size = d.graph.namespaces.size

section

variable {d d' : Declarations} {g : Graph} {n : Node} {c : Cell} {space : NamespaceId}

theorem isNew_model {i : ModelId} {m : Model} (h : d.graph.newModel m = (i, g)) :
    IsNew d g (.model i) (.model m) := by
  cases h
  exact ⟨by simp [Has, Graph.cell?, Table.get?_size], by simp, fun x => Graph.cell?_newModel _ x m, rfl⟩

theorem isNew_enum {i : EnumId} {e : Enum} (h : d.graph.newEnum e = (i, g)) :
    IsNew d g (.enum i) (.enum e) := by
  cases h
  exact ⟨by simp [Has, Graph.cell?, Table.get?_size], by simp, fun x => Graph.cell?_newEnum _ x e, rfl⟩

theorem isNew_interface {i : InterfaceId} {f : Interface} (h : d.graph.newInterface f = (i, g)) :
    IsNew d g (.interface i) (.interface f) := by
  cases h
  exact ⟨by simp [Has, Graph.cell?, Table.get?_size], by simp, fun x => Graph.cell?_newInterface _ x f, rfl⟩

theorem isNew_union {i : UnionId} {u : Union} (h : d.graph.newUnion u = (i, g)) :
    IsNew d g (.union i) (.union u) := by
  cases h
  exact ⟨by simp [Has, Graph.cell?, Table.get?_size], by simp, fun x => Graph.cell?_newUnion _ x u, rfl⟩

namespace IsNew

theorem list_self (h : IsNew d g n c) : (g.list space n).cell? n = some (c.ownedBy space) := by
  rw [Graph.cell?_list_self (h.other space), h.cell, if_pos rfl]
  rfl

theorem list_ne (h : IsNew d g n c) {x : Node} (hx : x ≠ .nameSpace space) (hn : x ≠ n) :
    (g.list space n).cell? x = d.graph.cell? x := by
  rw [Graph.cell?_list_ne hx hn, h.cell, if_neg hn]

theorem list_space (h : IsNew d g n c) {s : Namespace}
    (hs : d.graph.cell? (.nameSpace space) = some (.nameSpace s)) :
    (g.list space n).cell? (.nameSpace space) = some (.nameSpace (s.listing c.name n)) := by
  have hg : g.cell? (.nameSpace space) = some (.nameSpace s) := by
    rw [h.cell, if_neg (Ne.symm (h.other space)), hs]
  rw [Graph.cell?_list_owner hg (h.other space), Graph.nameOf_of_cell (by rw [h.cell, if_pos rfl])]

/-- A new node that a namespace lists. -/
theorem grows_list (h : IsNew d g n c) (hd : d.Tidy) {s : Namespace}
    (hs : d.graph.cell? (.nameSpace space) = some (.nameSpace s)) :
    Grows (· = .nameSpace space) d { d with graph := g.list space n } := by
  refine grows_graph hd (fun x hx ht => h.list_ne ht ?_) (fun x hx ht => ?_) ?_
  · rintro rfl
    exact h.fresh hx
  · subst ht
    rw [h.list_space hs]
    rfl
  · rw [Graph.size_list, h.size]

/-- All that is known of a new node is its record. -/
theorem view_list (h : IsNew d g n c) (hd : d.Tidy) :
    ({ d with graph := g.list space n } : Declarations).view n = { cell := some (c.ownedBy space) } := by
  rw [view_graph, hd.view_of_not_has h.fresh, h.list_self]
  rfl

theorem has_list (h : IsNew d g n c) : Has { d with graph := g.list space n } n :=
  has_of_cell h.list_self

/-- Declaring something is listing a new node and then touching nothing but this node. -/
theorem declares (h : IsNew d g n c) (hd : d.Tidy) {s : Namespace}
    (hs : d.graph.cell? (.nameSpace space) = some (.nameSpace s))
    (hrest : Grows (· = n) { d with graph := g.list space n } d') : Declares d d' space c.name n := by
  refine ⟨h.fresh, ?_, fun s' hs' => ?_⟩
  -- listing touches the namespace; the new node was not there before, so that changing it touches nothing
  · have hbegin : Grows (fun x => x = .nameSpace space ∨ x = n) d { d with graph := g.list space n } :=
      (h.grows_list hd hs).weaken fun x hx _ => .inl hx
    have hend : Grows (fun x => x = .nameSpace space ∨ x = n) { d with graph := g.list space n } d' :=
      hrest.weaken fun x hx _ => .inr hx
    refine (hbegin.trans hend).weaken fun x hx hx' => hx.resolve_right ?_
    rintro rfl
    exact h.fresh hx'
  · exact hrest.keeps.cell_eq (h.list_space hs') (Ne.symm (h.other space))

end IsNew

/-- Adding members to an enum one after the other. -/
private theorem Declared.addMembers {i : EnumId} {e : Enum} (h : g.cell? (.enum i) = some (.enum e))
    (ms : List MemberEntry) :
    ∃ ids, (ms.foldl (fun g m => (g.addMember i m.name m.value).2) g).cell? (.enum i)
          = some (.enum { e with members := e.members ++ ids })
      ∧ List.Forall₂ (fun j (m : MemberEntry) =>
          (ms.foldl (fun g m => (g.addMember i m.name m.value).2) g).cell? (.member j)
            = some (.member { name := m.name, value := m.value, owner := some i })) ids ms
      ∧ (∀ n, (g.cell? n).isSome = true → n ≠ .enum i →
          (ms.foldl (fun g m => (g.addMember i m.name m.value).2) g).cell? n = g.cell? n)
      ∧ (ms.foldl (fun g m => (g.addMember i m.name m.value).2) g).namespaces.size = g.namespaces.size := by
  induction ms generalizing g e with
  | nil => exact ⟨[], by simpa using h, .nil, fun _ _ _ => rfl, rfl⟩
  | cons m ms ih =>
    have hcell := fun n => Graph.cell?_addMember (n := n) h m.name m.value
    -- later members have later numbers, so they leave this one as it is
    have hfresh : g.cell? (.member g.members.size) = none := by
      rw [Graph.cell?, Table.get?_size]
      rfl
    have henum : (g.addMember i m.name m.value).2.cell? (.enum i)
        = some (.enum { e with members := e.members ++ [g.members.size] }) := by
      rw [hcell, if_neg (by simp), if_pos rfl]
    have hmember : (g.addMember i m.name m.value).2.cell? (.member g.members.size)
        = some (.member { name := m.name, value := m.value, owner := some i }) := by
      rw [hcell, if_pos rfl]
    obtain ⟨ids, henum', hmembers, hkeep, hsize⟩ := ih henum
    refine ⟨g.members.size :: ids, ?_, .cons ?_ hmembers, fun n hn hne => ?_, hsize⟩
    · rw [List.foldl_cons, henum', List.append_assoc]
      rfl
    · rw [List.foldl_cons, hkeep _ (by rw [hmember]; rfl) (by simp), hmember]
    · have hne' : n ≠ .member g.members.size := by
        rintro rfl
        rw [hfresh] at hn
        cases hn
      have hsame : (g.addMember i m.name m.value).2.cell? n = g.cell? n := by
        rw [hcell, if_neg hne', if_neg hne]
      rw [List.foldl_cons, hkeep n (by rw [hsame]; exact hn) hne, hsame]

/-- Declaring an enum. -/
theorem declareEnum_spec (hd : d.Tidy) {s : Namespace}
    (hs : d.graph.cell? (.nameSpace space) = some (.nameSpace s)) (path : List Text) (e : EnumEntry) :
    ∃ i, Declares d (declareEnum space path d e) space e.name (.enum i)
      ∧ (declareEnum space path d e).EnumAt space i e
      ∧ (declareEnum space path d e).types = (siteOf (Graph.dotted path) e.name, .enum i) :: d.types := by
  cases hpair : d.graph.newEnum { name := e.name } with
  | mk i g =>
    have hnew := isNew_enum hpair
    have hlist := hnew.grows_list hd hs
    have hview : ({ d with graph := g.list space (.enum i) } : Declarations).view (.enum i) = _ :=
      hnew.view_list hd
    have hcell : (g.list space (.enum i)).cell? (.enum i)
        = some (.enum { name := e.name, owner := some space }) := hnew.list_self
    obtain ⟨members, henum, hmembers, hkeep, hsize⟩ := Declared.addMembers hcell e.members
    unfold declareEnum EnumAt
    rw [hpair]
    dsimp only
    generalize e.members.foldl (fun g m => (g.addMember i m.name m.value).2) (g.list space (.enum i)) = g'
      at henum hmembers hkeep hsize
    have hgraph : Grows (· = .enum i) { d with graph := g.list space (.enum i) } { d with graph := g' } := by
      refine grows_graph hlist.tidy hkeep (fun n _ ht => ?_) hsize
      subst ht
      rw [henum]
      rfl
    refine ⟨i, hnew.declares hd hs (hgraph.trans (grows_register hgraph.tidy _ _)), ⟨members, ?_, hmembers⟩, rfl⟩
    rw [view_register, view_graph, henum]
    exact congrArg (View.withCell · _) hview

/-- Declaring a model. -/
theorem declareModel_spec (hd : d.Tidy) {s : Namespace}
    (hs : d.graph.cell? (.nameSpace space) = some (.nameSpace s)) (path : List Text) (e : ModelEntry)
    (htext : ∀ q ∈ e.properties, q.name.isText = true) :
    ∃ i, Declares d (declareModel space path d e) space e.name (.model i)
      ∧ (declareModel space path d e).ModelAt space path i e
      ∧ (declareModel space path d e).types = (siteOf (Graph.dotted path) e.name, .model i) :: d.types
      ∧ (declareModel space path d e).PropertiesAt path (siteOf (Graph.dotted path) e.name) i e.properties := by
  cases hpair : d.graph.newModel { name := e.name } with
  | mk i g =>
    have hnew := isNew_model hpair
    have hlist := hnew.grows_list hd hs
    unfold declareModel ModelAt
    rw [hpair]
    refine ⟨i, ?_⟩
    dsimp only
    generalize siteOf (Graph.dotted path) e.name = site
    -- whether there is a base or not, the properties come after it
    have hproperties : ∀ d₁, Grows (· = .model i) { d with graph := g.list space (.model i) } d₁ →
        d₁.view (.model i) =
          { cell := some (.model { name := e.name, owner := some space })
            waiting := e.base.toList.map fun type => { pending := .base i type, scope := path, site }
            decorators := e.decorators.map fun x => (site, x) } →
        d₁.types = (site, .model i) :: d.types →
        Declares d (e.properties.foldl (declareProperty i path site) d₁) space e.name (.model i)
          ∧ (∃ properties, (e.properties.foldl (declareProperty i path site) d₁).view (.model i) =
              { cell := some (.model { name := e.name, properties, owner := some space })
                waiting := e.base.toList.map fun type => { pending := .base i type, scope := path, site }
                decorators := e.decorators.map fun x => (site, x) }
            ∧ Lists ((e.properties.foldl (declareProperty i path site) d₁).PropertyAt path site i)
                PropertyEntry.name properties e.properties)
          ∧ (e.properties.foldl (declareProperty i path site) d₁).types = (site, .model i) :: d.types
          ∧ (e.properties.foldl (declareProperty i path site) d₁).PropertiesAt path site i e.properties := by
      intro d₁ hgrows hmodel htypes
      have hcell : d₁.graph.cell? (.model i) = some (.model { name := e.name, owner := some space }) := by
        rw [← cell_view, hmodel]
      obtain ⟨properties, hgrows', hmodel', hlists⟩ :=
        declareProperties_spec hgrows.tidy hcell Lists.nil e.properties (by simpa using htext)
      obtain ⟨-, ids, hnodup, -, hat⟩ := declareProperties_each hgrows.tidy hcell path site e.properties
      refine ⟨hnew.declares hd hs (hgrows.trans hgrows'), ⟨properties, ?_, hlists⟩, ?_, ids, hnodup, hat⟩
      · rw [hmodel', hmodel]
        rfl
      · rw [types_declareProperties, htypes]
    have hregister : Grows (· = .model i) _ (register _ site (.model i)) := grows_register hlist.tidy site (.model i)
    have hdecorate : Grows (· = .model i) _ (decorate _ site (.model i) e.decorators) :=
      hregister.trans (grows_decorate hregister.tidy rfl hnew.has_list)
    have hview : (decorate (register { d with graph := g.list space (.model i) } site (.model i)) site (.model i)
        e.decorators).view (.model i) =
          { cell := some (.model { name := e.name, owner := some space })
            decorators := e.decorators.map fun x => (site, x) } := by
      rw [view_decorate_self rfl, view_register, hnew.view_list hd]
      rfl
    cases hbase : e.base with
    | none =>
      rw [hbase] at hproperties
      exact hproperties _ hdecorate hview rfl
    | some type =>
      rw [hbase] at hproperties
      refine hproperties _ (hdecorate.trans (grows_refer hdecorate.tidy rfl hnew.has_list)) ?_ rfl
      rw [view_refer_self (n := .model i) rfl, hview]
      rfl

/-- Declaring a union. -/
theorem declareUnion_spec (hd : d.Tidy) {s : Namespace}
    (hs : d.graph.cell? (.nameSpace space) = some (.nameSpace s)) (path : List Text) (e : UnionEntry) :
    ∃ i, Declares d (declareUnion space path d e) space e.name (.union i)
      ∧ (declareUnion space path d e).UnionAt space path i e
      ∧ (declareUnion space path d e).types = (siteOf (Graph.dotted path) e.name, .union i) :: d.types := by
  cases hpair : d.graph.newUnion { name := e.name } with
  | mk i g =>
    have hnew := isNew_union hpair
    unfold declareUnion UnionAt
    rw [hpair]
    refine ⟨i, hnew.declares hd hs ?_, ?_, rfl⟩
    · have hregister : Grows (· = .union i) _ (register _ (siteOf (Graph.dotted path) e.name) (.union i)) :=
        grows_register (hnew.grows_list hd hs).tidy _ _
      exact hregister.trans (grows_refer hregister.tidy rfl hnew.has_list)
    · rw [view_refer_self (n := .union i) rfl, view_register]
      exact congrArg (View.awaiting · _) (hnew.view_list hd)

end

/-! ### Operations -/

section

variable {d d' : Declarations} {space : NamespaceId} {path : List Text} {outer : Text}

/-- A new operation and the model of its parameters: both are new, and nothing else changes. -/
theorem newOperation_spec (hd : d.Tidy) {j : OperationId} {g : Graph} {name : Label}
    (hpair : d.graph.newOperation name none = (j, g)) :
    ∃ m, ¬ d.Has (.operation j) ∧ ¬ d.Has (.model m) ∧ Grows (fun _ => False) d { d with graph := g }
      ∧ ({ d with graph := g } : Declarations).view (.operation j)
          = { cell := some (.operation { name, parameters := m }) }
      ∧ ({ d with graph := g } : Declarations).view (.model m) = { cell := some (.model {}) } := by
  have hcell := fun n => Graph.cell?_newOperation d.graph n name none
  have hi : d.graph.operations.size = j := congrArg Prod.fst hpair
  have hg : (d.graph.newOperation name none).2 = g := congrArg Prod.snd hpair
  have hsize : g.namespaces.size = d.graph.namespaces.size := by
    rw [← hg]
    rfl
  have hoperation : ¬ d.Has (.operation j) := by
    simp [← hi, Has, Graph.cell?, Table.get?_size]
  have hmodel : ¬ d.Has (.model d.graph.models.size) := by
    simp [Has, Graph.cell?, Table.get?_size]
  rw [hg, hi] at hcell
  generalize d.graph.models.size = m at hcell hmodel
  refine ⟨m, hoperation, hmodel, ?_, ?_, ?_⟩
  · refine grows_graph hd (fun n hn _ => ?_) (fun n _ ht => ht.elim) hsize
    have hne : n ≠ .operation j ∧ n ≠ .model m :=
      ⟨fun h => hoperation (h ▸ hn), fun h => hmodel (h ▸ hn)⟩
    rw [hcell, if_neg hne.1, if_neg hne.2]
  · rw [view_graph, hd.view_of_not_has hoperation, hcell, if_pos rfl]
    rfl
  · rw [view_graph, hd.view_of_not_has hmodel, hcell, if_neg (by simp), if_pos rfl]
    rfl

/-- Declaring an operation makes new nodes and touches none. -/
theorem declareOperation_spec (hd : d.Tidy) {i : OperationId} {e : OperationEntry}
    (h : declareOperation path outer d e = (i, d')) (htext : ∀ q ∈ e.parameters, q.name.isText = true) :
    ¬ d.Has (.operation i) ∧ Grows (fun _ => False) d d' ∧ d'.OperationAt path outer none none i e := by
  unfold declareOperation at h
  cases hpair : d.graph.newOperation e.name none with
  | mk j g =>
    rw [hpair] at h
    dsimp only at h
    obtain ⟨rfl, rfl⟩ := Prod.mk.inj h
    obtain ⟨m, hoperation, hmodel, hgraph, hview, hparameters⟩ := newOperation_spec hd hpair
    have hcell : g.cell? (.operation j) = some (.operation { name := e.name, parameters := m }) :=
      congrArg View.cell hview
    rw [Graph.get_operation hcell]
    dsimp only
    -- the parameters are the properties of the model that comes with the operation
    have hnone : Lists (PropertyAt { d with graph := g } path (siteOf outer e.name) m) PropertyEntry.name [] [] :=
      Lists.nil
    obtain ⟨properties, hgrows, hparameters', hlists⟩ :=
      declareProperties_spec hgraph.tidy (congrArg View.cell hparameters) hnone e.parameters (by simpa using htext)
    generalize e.parameters.foldl (declareProperty m path (siteOf outer e.name)) { d with graph := g } = d₁
      at hgrows hparameters' hlists
    have hview₁ : d₁.view (.operation j)
        = { cell := some (.operation { name := e.name, parameters := m }) } :=
      hgrows.keeps.view_eq hview rfl (by simp)
    have hhas : d₁.Has (.operation j) := has_of_cell (by rw [← cell_view, hview₁])
    -- what it returns is left to be resolved
    have hrefer : Grows (· = .operation j) d₁
        (d₁.refer path (siteOf outer e.name) (.result j e.result)) := grows_refer hgrows.tidy rfl hhas
    refine ⟨hoperation, ?_, m, properties, ?_, ?_, hlists.mono fun q x hq => hq.mono hrefer.keeps (by simp)⟩
    · have hfold : Grows (fun n => n = .model m ∨ n = .operation j) d d₁ :=
        (hgraph.weaken fun _ ht _ => ht.elim).trans (hgrows.weaken fun _ ht _ => .inl ht)
      refine (hfold.trans (hrefer.weaken fun _ ht _ => .inr ht)).weaken fun n ht hn => ?_
      rcases ht with rfl | rfl
      · exact hmodel hn
      · exact hoperation hn
    · rw [view_refer_self (n := .operation j) rfl, hview₁]
      rfl
    · rw [view_refer_ne (by simp [Pending.target]), hparameters', hparameters]
      rfl

theorem types_declareOperation (path : List Text) (outer : Text) (d : Declarations) (e : OperationEntry) :
    (declareOperation path outer d e).2.types = d.types :=
  types_declareProperties ..

theorem types_declareAllListed (interface : InterfaceId) (path : List Text) (outer : Text) (d : Declarations)
    (es : List OperationEntry) : (es.foldl (declareListed interface path outer) d).types = d.types := by
  induction es generalizing d with
  | nil => rfl
  | cons e es ih =>
    rw [List.foldl_cons, ih]
    exact types_declareOperation path outer d e

/-- An operation that is declared is changed only in what it belongs to. -/
theorem OperationAt.relist {touched : Node → Prop} {i : OperationId} {e : OperationEntry}
    {owner owner' : Option NamespaceId} {interface interface' : Option InterfaceId}
    (h : d.OperationAt path outer owner interface i e) (hk : Keeps touched d d')
    (ht : ∀ n, touched n → n = .operation i ∨ (∃ k, n = .nameSpace k) ∨ ∃ k, n = .interface k)
    (hview : ∀ o, d.graph.cell? (.operation i) = some (.operation o) → d'.view (.operation i)
      = (d.view (.operation i)).withCell (some (.operation { o with owner := owner', interface := interface' }))) :
    d'.OperationAt path outer owner' interface' i e := by
  obtain ⟨parameters, properties, hoperation, hmodel, hlists⟩ := h
  refine ⟨parameters, properties, ?_, hk.view_eq hmodel rfl fun hm => ?_,
    hlists.mono fun q x hq => hq.mono hk fun hq => ?_⟩
  · rw [hview _ (by rw [← cell_view, hoperation]), hoperation]
    rfl
  · obtain h | ⟨k, h⟩ | ⟨k, h⟩ := ht _ hm <;> cases h
  · obtain h | ⟨k, h⟩ | ⟨k, h⟩ := ht _ hq <;> cases h

theorem OperationAt.cell {owner : Option NamespaceId} {interface : Option InterfaceId} {i : OperationId}
    {e : OperationEntry} (h : d.OperationAt path outer owner interface i e) :
    ∃ o, d.graph.cell? (.operation i) = some (.operation o) ∧ o.name = e.name := by
  obtain ⟨parameters, properties, hoperation, -⟩ := h
  exact ⟨_, by rw [← cell_view, hoperation], rfl⟩

/-- Declaring an operation of an interface makes a node for it and touches the interface. -/
theorem declareListed_spec (hd : d.Tidy) {k : InterfaceId} {f : Interface}
    (hf : d.graph.cell? (.interface k) = some (.interface f)) (path : List Text) (outer : Text)
    {e : OperationEntry} (htext : ∀ q ∈ e.parameters, q.name.isText = true) :
    ∃ i, Grows (· = .interface k) d (declareListed k path outer d e)
      ∧ (declareListed k path outer d e).view (.interface k) = (d.view (.interface k)).withCell
          (some (.interface { f with operations := f.operations.insert e.name i }))
      ∧ (declareListed k path outer d e).OperationAt path outer f.owner (some k) i e := by
  unfold declareListed
  cases hpair : declareOperation path outer d e with
  | mk i d₁ =>
    dsimp only
    obtain ⟨hfresh, hgrows, hat⟩ := declareOperation_spec hd hpair htext
    have hf₁ : d₁.graph.cell? (.interface k) = some (.interface f) := hgrows.keeps.cell_eq hf id
    obtain ⟨o, ho, hname⟩ := hat.cell
    have hcell := fun n => Graph.cell?_addOperation (n := n) hf₁ ho
    have hlist : Grows (fun n => n = .operation i ∨ n = .interface k) d₁
        { d₁ with graph := d₁.graph.addOperation k i } := by
      refine grows_graph hgrows.tidy (fun n _ hn => ?_) (fun n hhas _ => ?_) rfl
      · rw [hcell, if_neg fun h => hn (.inl h), if_neg fun h => hn (.inr h)]
      · rw [hcell]
        split
        · rfl
        · split
          · rfl
          · exact hhas
    refine ⟨i, ?_, ?_, ?_⟩
    -- the operation is new, so all that changes of what was there is the interface
    · refine ((hgrows.weaken fun _ ht _ => ht.elim).trans hlist).weaken fun n ht hn => ht.resolve_left ?_
      rintro rfl
      exact hfresh hn
    · rw [view_graph, hgrows.keeps _ (has_of_cell hf) id, hcell, if_neg (by simp), if_pos rfl, hname]
    · refine hat.relist hlist.keeps (fun n hn => hn.imp_right fun h => .inr ⟨k, h⟩) fun o' ho' => ?_
      cases ho.symm.trans ho'
      rw [view_graph, hcell, if_pos rfl]

/-- Declaring the operations of an interface one after the other: it lists the latest one with each name. -/
theorem declareAllListed_spec (hd : d.Tidy) {k : InterfaceId} {f : Interface} {done : List OperationEntry}
    (hf : d.graph.cell? (.interface k) = some (.interface f))
    (hdone : Lists (d.OperationAt path outer f.owner (some k)) OperationEntry.name f.operations done)
    (es : List OperationEntry) (hname : ∀ e ∈ done ++ es, e.name.isText = true)
    (htext : ∀ e ∈ es, ∀ q ∈ e.parameters, q.name.isText = true) :
    ∃ operations, Grows (· = .interface k) d (es.foldl (declareListed k path outer) d)
      ∧ (es.foldl (declareListed k path outer) d).view (.interface k)
          = (d.view (.interface k)).withCell (some (.interface { f with operations }))
      ∧ Lists ((es.foldl (declareListed k path outer) d).OperationAt path outer f.owner (some k))
          OperationEntry.name operations (done ++ es) := by
  induction es generalizing d f done with
  | nil =>
    refine ⟨f.operations, Grows.refl hd, ?_, by rw [List.append_nil]; exact hdone⟩
    rw [List.foldl_nil]
    ext1
    · exact hf
    · rfl
    · rfl
  | cons e es ih =>
    obtain ⟨i, hgrows, hinterface, hat⟩ :=
      declareListed_spec hd hf path outer (htext e (List.mem_cons_self ..))
    have hf' : (declareListed k path outer d e).graph.cell? (.interface k)
        = some (.interface { f with operations := f.operations.insert e.name i }) := by
      rw [← cell_view, hinterface]
      rfl
    have hdone' : Lists ((declareListed k path outer d e).OperationAt path outer f.owner (some k))
        OperationEntry.name (f.operations.insert e.name i) (done ++ [e]) := by
      refine (hdone.mono fun j o hj => hj.mono hgrows.keeps fun n hn => .inr ⟨k, hn⟩).insert ?_ ?_ hat
      · exact fun x hx => hname x (List.mem_append_left _ hx)
      · exact hname e (List.mem_append_right _ (List.mem_cons_self ..))
    obtain ⟨operations, hgrows', hinterface', hlists⟩ := ih hgrows.tidy hf' hdone' (by simpa using hname)
      fun e' he' => htext e' (List.mem_cons_of_mem _ he')
    refine ⟨operations, hgrows.trans hgrows', ?_, by simpa using hlists⟩
    rw [List.foldl_cons, hinterface', hinterface]
    rfl

/-- A route is bound beside the graph. -/
theorem grows_store {touched : Node → Prop} (hd : d.Tidy) (store : AnnotationStore) :
    Grows touched d { d with store } :=
  ⟨fun _ _ _ => rfl, ⟨hd.references, hd.decorations⟩, rfl⟩

/-- Declaring an interface. -/
theorem declareInterface_spec (hd : d.Tidy) {s : Namespace}
    (hs : d.graph.cell? (.nameSpace space) = some (.nameSpace s)) (path : List Text) (e : InterfaceEntry)
    (hname : ∀ o ∈ e.operations, o.name.isText = true)
    (htext : ∀ o ∈ e.operations, ∀ q ∈ o.parameters, q.name.isText = true) :
    ∃ i, Declares d (declareInterface space path d e) space e.name (.interface i)
      ∧ (declareInterface space path d e).InterfaceAt space path i e
      ∧ (declareInterface space path d e).types
          = (siteOf (Graph.dotted path) e.name, .interface i) :: d.types := by
  cases hpair : d.graph.newInterface { name := e.name } with
  | mk i g =>
    have hnew := isNew_interface hpair
    have hlist := hnew.grows_list hd hs
    unfold declareInterface InterfaceAt
    rw [hpair]
    refine ⟨i, ?_⟩
    dsimp only
    have hregister : Grows (· = .interface i) { d with graph := g.list space (.interface i) }
        (register _ (siteOf (Graph.dotted path) e.name) (.interface i)) := grows_register hlist.tidy _ _
    have hnone : Lists (OperationAt (register { d with graph := g.list space (.interface i) }
        (siteOf (Graph.dotted path) e.name) (.interface i)) path (siteOf (Graph.dotted path) e.name) (some space)
        (some i)) OperationEntry.name [] [] := Lists.nil
    obtain ⟨operations, hgrows, hview, hlists⟩ :=
      declareAllListed_spec hregister.tidy hnew.list_self hnone e.operations (by simpa using hname) htext
    rw [view_register, hnew.view_list hd] at hview
    have htypes := types_declareAllListed i path (siteOf (Graph.dotted path) e.name)
      (register { d with graph := g.list space (.interface i) } (siteOf (Graph.dotted path) e.name)
        (.interface i)) e.operations
    generalize e.operations.foldl _ _ = d₁ at hgrows hview hlists htypes
    cases e.route with
    | none => exact ⟨hnew.declares hd hs (hregister.trans hgrows), ⟨operations, hview, hlists⟩, htypes⟩
    | some route =>
      dsimp only
      generalize d₁.store.put .route (.interface i) (.string route) = store
      have hstore : Grows (· = .interface i) d₁ { d₁ with store } := grows_store hgrows.tidy store
      refine ⟨hnew.declares hd hs ((hregister.trans hgrows).trans hstore), ⟨operations, hview, ?_⟩, htypes⟩
      exact hlists.mono fun j o hj => hj.mono hstore.keeps fun n hn => .inr ⟨i, hn⟩

/-- Declaring an operation of a namespace. -/
theorem declareOwnOperation_spec (hd : d.Tidy) {s : Namespace}
    (hs : d.graph.cell? (.nameSpace space) = some (.nameSpace s)) (path : List Text) (e : OperationEntry)
    (htext : ∀ q ∈ e.parameters, q.name.isText = true) :
    ∃ i, Declares d (declareOwnOperation space path d e) space e.name (.operation i)
      ∧ (declareOwnOperation space path d e).OperationAt path (Graph.dotted path) (some space) none i e
      ∧ (declareOwnOperation space path d e).types
          = (siteOf (Graph.dotted path) e.name, .operation i) :: d.types := by
  unfold declareOwnOperation
  have htypes := types_declareOperation path (Graph.dotted path) d e
  cases hpair : declareOperation path (Graph.dotted path) d e with
  | mk i d₁ =>
    dsimp only
    obtain ⟨hfresh, hgrows, hat⟩ := declareOperation_spec hd hpair htext
    obtain ⟨o, ho, hname⟩ := hat.cell
    have hspace := hgrows.keeps.cell_eq hs id
    have hself : (d₁.graph.list space (.operation i)).cell? (.operation i)
        = some (.operation { o with owner := some space }) := by
      rw [Graph.cell?_list_self (by simp), ho]
      rfl
    have howner : (d₁.graph.list space (.operation i)).cell? (.nameSpace space)
        = some (.nameSpace (s.listing e.name (.operation i))) := by
      rw [Graph.cell?_list_owner hspace (by simp), Graph.nameOf_of_cell ho, ← hname]
      rfl
    have hlist : Grows (fun n => n = .operation i ∨ n = .nameSpace space) d₁
        { d₁ with graph := d₁.graph.list space (.operation i) } := by
      refine grows_graph hgrows.tidy (fun n _ hn => ?_) (fun n _ hn => ?_) (Graph.size_list ..)
      · exact Graph.cell?_list_ne (fun h => hn (.inr h)) fun h => hn (.inl h)
      · rcases hn with rfl | rfl
        · rw [hself]
          rfl
        · rw [howner]
          rfl
    have hregister : Grows (fun n => n = .operation i ∨ n = .nameSpace space) _
        (register { d₁ with graph := d₁.graph.list space (.operation i) } (siteOf (Graph.dotted path) e.name)
          (.operation i)) := grows_register hlist.tidy _ _
    rw [hpair] at htypes
    refine ⟨i, ⟨hfresh, ?_, fun s' hs' => ?_⟩, ?_, congrArg _ htypes⟩
    · refine ((hgrows.weaken fun _ ht _ => ht.elim).trans (hlist.trans hregister)).weaken
        fun n ht hn => ht.resolve_left ?_
      rintro rfl
      exact hfresh hn
    · cases hs.symm.trans hs'
      exact howner
    · refine hat.relist (hlist.trans hregister).keeps
        (fun n hn => hn.imp_right fun h => .inl ⟨space, h⟩) fun o' ho' => ?_
      obtain ⟨parameters, properties, hview, -⟩ := hat
      have hinterface : o.interface = none := by
        rw [← cell_view, hview] at ho
        cases ho
        rfl
      cases ho.symm.trans ho'
      rw [view_register, view_graph, hself, ← hinterface]

/-- Declaring a built-in model. -/
theorem declareBuiltIn_spec (hd : d.Tidy) {s : Namespace}
    (hs : d.graph.cell? (.nameSpace space) = some (.nameSpace s)) (path : List Text) (name : Text) :
    ∃ i, Declares d (declareBuiltIn space d name) space (.text name) (.model i)
      ∧ (declareBuiltIn space d name).ModelAt space path i
          { name := .text name, decorators := [], base := none, properties := [] }
      ∧ (declareBuiltIn space d name).view (.model i)
          = { cell := some (.model { name := .text name, owner := some space }) }
      ∧ (declareBuiltIn space d name).builtIns = d.builtIns ++ [(name, .model i)] := by
  cases hpair : d.graph.newModel { name := .text name } with
  | mk i g =>
    have hnew := isNew_model hpair
    unfold declareBuiltIn
    rw [hpair]
    dsimp only
    have hlist := hnew.grows_list hd hs
    exact ⟨i, hnew.declares hd hs ⟨fun _ _ _ => rfl, ⟨hlist.tidy.references, hlist.tidy.decorations⟩, rfl⟩,
      ⟨[], hnew.view_list hd, Lists.nil⟩, hnew.view_list hd, rfl⟩

end

end Declarations

end Edm
