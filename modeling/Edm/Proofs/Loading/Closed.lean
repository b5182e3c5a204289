import Edm.Proofs.Loading.Resolved
import Edm.Proofs.Loading.Scope
import Mathlib.Logic.Relation

/-!
# Closed graphs

In a loaded program what is listed and what it refers back to agree, and types lead nowhere else.  A namespace lists
each member under its name and owns it, and so do models, enums and interfaces; a type is put together from literals,
template parameters, intrinsic types, the built-in models and what the namespaces list
(`Graph.IsClosed`, `Program.isClosed_of_load`).
-/

namespace Edm

open Relation

namespace Graph

/-! ### Members and owners -/

/-- A namespace that another one lists. -/
structure IsNamespaceOf (g : Graph) (space : NamespaceId) (x : Label × NamespaceId) : Prop where
  name : (g.namespaces.get x.2).name = x.1
  parent : (g.namespaces.get x.2).parent = some space

/-- An enum that a namespace lists, with its members. -/
structure IsEnumOf (g : Graph) (space : NamespaceId) (x : Label × EnumId) : Prop where
  name : (g.enums.get x.2).name = x.1
  owner : (g.enums.get x.2).owner = some space
  members : ∀ j ∈ (g.enums.get x.2).members, (g.members.get j).owner = some x.2

/-- A property that a model lists, or a parameter. -/
structure IsPropertyOf (g : Graph) (model : ModelId) (x : Label × PropertyId) : Prop where
  name : (g.properties.get x.2).name = x.1
  owner : (g.properties.get x.2).owner = some model

/-- A model that a namespace lists, with its properties. -/
structure IsModelOf (g : Graph) (space : NamespaceId) (x : Label × ModelId) : Prop where
  name : (g.models.get x.2).name = x.1
  owner : (g.models.get x.2).owner = some space
  properties : ∀ y ∈ (g.models.get x.2).properties, g.IsPropertyOf x.2 y

/-- A union that a namespace lists. -/
structure IsUnionOf (g : Graph) (space : NamespaceId) (x : Label × UnionId) : Prop where
  name : (g.unions.get x.2).name = x.1
  owner : (g.unions.get x.2).owner = some space

/-- An operation that a namespace lists, or an interface, with its parameters. -/
structure IsOperationOf (g : Graph) (space : Option NamespaceId) (interface : Option InterfaceId)
    (x : Label × OperationId) : Prop where
  name : (g.operations.get x.2).name = x.1
  owner : (g.operations.get x.2).owner = space
  interface : (g.operations.get x.2).interface = interface
  parameters : ∀ y ∈ (g.models.get (g.operations.get x.2).parameters).properties,
    g.IsPropertyOf (g.operations.get x.2).parameters y
  result : (g.operations.get x.2).result.isSome = true

/-- An interface that a namespace lists, with its operations: these belong to its namespace. -/
structure IsInterfaceOf (g : Graph) (space : NamespaceId) (x : Label × InterfaceId) : Prop where
  name : (g.interfaces.get x.2).name = x.1
  owner : (g.interfaces.get x.2).owner = some space
  operations : ∀ y ∈ (g.interfaces.get x.2).operations, g.IsOperationOf (g.interfaces.get x.2).owner (some x.2) y

/-- All that a namespace lists has the name that it is listed under, and the namespace for its owner. -/
structure Owns (g : Graph) (space : NamespaceId) : Prop where
  namespaces : ∀ x ∈ (g.namespaces.get space).namespaces, g.IsNamespaceOf space x
  enums : ∀ x ∈ (g.namespaces.get space).enums, g.IsEnumOf space x
  models : ∀ x ∈ (g.namespaces.get space).models, g.IsModelOf space x
  unions : ∀ x ∈ (g.namespaces.get space).unions, g.IsUnionOf space x
  interfaces : ∀ x ∈ (g.namespaces.get space).interfaces, g.IsInterfaceOf space x
  operations : ∀ x ∈ (g.namespaces.get space).operations, g.IsOperationOf (some space) none x

/-! ### The tree and the types -/

/-- The namespaces that those of the tree list, as often as they are listed. -/
def listings (g : Graph) : List NamespaceId :=
  (g.expand root).flatMap fun i => (g.namespaces.get i).namespaces.values

/-- A type with a name: a built-in model, or what a namespace of the tree lists under the name that it has. -/
inductive IsNamed (g : Graph) : Node → Prop
  | builtIn {name : Text} {i : ModelId} {space : NamespaceId} : (name, .model i) ∈ Declarations.initial.builtIns →
      g.cell? (.model i) = some (.model { name := .text name, owner := some space }) → IsNamed g (.model i)
  | listed {space : NamespaceId} {k : Kind} {t : Text} {n : Node} : space ∈ g.expand root →
      g.listed? space t k = some n → g.IsListed space k t n → IsNamed g n

/-- A type that is put together from named types and types that carry their content with them. -/
def IsType (g : Graph) : Node → Prop :=
  Node.IsType g.IsNamed fun i options => g.cell? (.union i) = some (.union { options })

/-- The namespaces of a graph are a tree, what they list belongs to them, and records have types only. -/
structure IsClosed (g : Graph) : Prop where
  outermost : (g.namespaces.get root).parent = none
  all : ∀ i < g.namespaces.size, i ∈ g.expand root
  once : ∀ i ∈ g.expand root, i ≠ root → g.listings.count i = 1
  inside : ∀ i ∈ g.expand root, i ≠ root → ∃ j ∈ g.expand root,
    (g.namespaces.get i).parent = some j ∧ ((g.namespaces.get i).name, i) ∈ (g.namespaces.get j).namespaces
  rooted : ∀ i ∈ g.expand root, ReflTransGen (fun i j => (g.namespaces.get i).parent = some j) i root
  owns : ∀ i ∈ g.expand root, g.Owns i
  types : ∀ n c, g.cell? n = some c → ∀ type ∈ c.types, g.IsType type ∧ type ≠ .unresolved
  bases : ∀ i m, g.cell? (.model i) = some (.model m) → ∀ b, m.base = some b → ∃ j, b = .model j

end Graph

/-! ### Settled members -/

theorem Lists.of_mem {α β : Type} {At : α → β → Prop} {name : β → Label} {members : Members α} {entries : List β}
    (h : Lists At name members entries) : ∀ x ∈ members, ∃ e, x.1 = name e ∧ At x.2 e :=
  forall_mem_of_forall₂ h.flip fun e _ hx => ⟨e, hx⟩

namespace Declarations

section

variable {d : Declarations} {g : Graph} {space : NamespaceId} {path : List Text} {site : Text}
  (hd : d.Tidy) (h : d.settleAll = .ok g)

include hd h

theorem PropertyAt.isPropertyOf {m : ModelId} {x : Label × PropertyId} {e : PropertyEntry} (hname : x.1 = e.name)
    (hat : d.PropertyAt path site m x.2 e) : g.IsPropertyOf m x := by
  obtain ⟨type, -, hcell⟩ := hat.settled hd h
  have hget := Graph.get_property hcell
  exact ⟨by rw [hget, hname], by rw [hget]⟩

theorem EnumAt.isEnumOf {x : Label × EnumId} {e : EnumEntry} (hname : x.1 = e.name) (hat : d.EnumAt space x.2 e) :
    g.IsEnumOf space x := by
  obtain ⟨members, hcell, hmembers⟩ := hat.settled hd h
  have hget := Graph.get_enum hcell
  refine ⟨by rw [hget, hname], by rw [hget], ?_⟩
  rw [hget]
  exact forall_mem_of_forall₂ hmembers.flip fun m j hj => by rw [Graph.get_member hj]

theorem ModelAt.isModelOf {x : Label × ModelId} {e : ModelEntry} (hname : x.1 = e.name)
    (hat : d.ModelAt space path x.2 e) : g.IsModelOf space x := by
  obtain ⟨properties, base, hcell, -, hproperties⟩ := hat.settledAt hd h
  have hget := Graph.get_model hcell
  refine ⟨by rw [hget, hname], by rw [hget], fun y hy => ?_⟩
  rw [hget] at hy
  obtain ⟨q, hq, -, hat⟩ := hproperties.of_mem y hy
  exact hat.isPropertyOf hd h hq

theorem UnionAt.isUnionOf {x : Label × UnionId} {e : UnionEntry} (hname : x.1 = e.name)
    (hat : d.UnionAt space path x.2 e) : g.IsUnionOf space x := by
  obtain ⟨c, hcell, hmeets⟩ := meets_of_settleAll hd h hat rfl rfl
  cases hmeets with
  | options _ _ =>
    have hget := Graph.get_union hcell
    exact ⟨by rw [hget, hname], by rw [hget]⟩

theorem OperationAt.isOperationOf {owner : Option NamespaceId} {interface : Option InterfaceId}
    {x : Label × OperationId} {e : OperationEntry} (hname : x.1 = e.name)
    (hat : d.OperationAt path site owner interface x.2 e) : g.IsOperationOf owner interface x := by
  obtain ⟨parameters, properties, hoperation, hmodel, hproperties⟩ := hat
  have hget := Graph.get_model (cell_of_settleAll hd h hmodel rfl rfl)
  obtain ⟨c, hcell, hmeets⟩ := meets_of_settleAll hd h hoperation rfl rfl
  cases hmeets with
  | result _ _ =>
    have hself := Graph.get_operation hcell
    refine ⟨by rw [hself, hname], by rw [hself], by rw [hself], fun y hy => ?_, by rw [hself]; rfl⟩
    rw [hself] at hy ⊢
    rw [hget] at hy
    obtain ⟨q, hq, hat⟩ := hproperties.of_mem y hy
    exact hat.isPropertyOf hd h hq

theorem InterfaceAt.isInterfaceOf {x : Label × InterfaceId} {e : InterfaceEntry} (hname : x.1 = e.name)
    (hat : d.InterfaceAt space path x.2 e) : g.IsInterfaceOf space x := by
  obtain ⟨operations, hview, hoperations⟩ := hat
  have hget := Graph.get_interface (cell_of_settleAll hd h hview rfl rfl)
  refine ⟨by rw [hget, hname], by rw [hget], fun y hy => ?_⟩
  rw [hget] at hy ⊢
  obtain ⟨o, ho, hat⟩ := hoperations.of_mem y hy
  exact hat.isOperationOf hd h ho

end

end Declarations

/-! ### Loaded programs -/

namespace Program

open Declarations Opening NamespaceEntry

section

variable {data : Json} {p : Program} {q : List Text}

/-- The namespace of a path owns what it lists. -/
theorem owns_of_load (h : load data = .ok p) (htexts : data.HasTextNames) (hq : q ∈ paths data.openings) :
    p.graph.Owns (place data.openings q) := by
  have hbuilt := built_of_load h htexts.openings
  have hlaid := isLaidOut_of_load h htexts.openings
  obtain ⟨-, hsettle⟩ := settleAll_of_load h
  obtain ⟨s, hs, -, hcontents⟩ := hbuilt.space q hq
  have hget : p.graph.namespaces.get (place data.openings q) = s := by
    rw [namespaces_of_settleAll hbuilt.tidy hsettle, Graph.get_nameSpace hs]
  refine ⟨fun x hx => ?_, ?_, ?_, ?_, ?_, ?_⟩
  · rw [hlaid.namespaces_eq hq] at hx
    obtain ⟨n, hn, rfl⟩ := List.mem_map.1 hx
    have hmem : q ++ [n] ∈ paths data.openings := mem_inside_iff.1 (List.mem_eraseDups.1 hn)
    have hname := hlaid.name_eq hmem
    have hparent := hlaid.parent_eq hmem
    rw [List.getLast?_concat] at hname
    rw [if_neg (by simp), List.dropLast_concat] at hparent
    exact ⟨hname, hparent⟩
  · rw [hget]
    intro x hx
    obtain ⟨e, hname, hat⟩ := hcontents.enums.of_mem x hx
    exact hat.isEnumOf hbuilt.tidy hsettle hname
  · rw [hget]
    intro x hx
    obtain ⟨e, hname, hat⟩ := hcontents.models.of_mem x hx
    exact hat.isModelOf hbuilt.tidy hsettle hname
  · rw [hget]
    intro x hx
    obtain ⟨e, hname, hat⟩ := hcontents.unions.of_mem x hx
    exact hat.isUnionOf hbuilt.tidy hsettle hname
  · rw [hget]
    intro x hx
    obtain ⟨e, hname, hat⟩ := hcontents.interfaces.of_mem x hx
    exact hat.isInterfaceOf hbuilt.tidy hsettle hname
  · rw [hget]
    intro x hx
    obtain ⟨e, hname, hat⟩ := hcontents.operations.of_mem x hx
    exact hat.isOperationOf hbuilt.tidy hsettle hname

/-! ### The tree of a loaded program -/

theorem parent_of_concat (h : load data = .ok p) (htexts : data.HasTextNames) {n : Text}
    (hq : q ++ [n] ∈ paths data.openings) :
    (p.graph.namespaces.get (place data.openings (q ++ [n]))).parent = some (place data.openings q) := by
  have hparent := (isLaidOut_of_load h htexts.openings).parent_eq hq
  rwa [if_neg (by simp), List.dropLast_concat] at hparent

theorem listed_of_concat (h : load data = .ok p) (htexts : data.HasTextNames) {n : Text}
    (hq : q ++ [n] ∈ paths data.openings) : q ∈ paths data.openings
      ∧ ((p.graph.namespaces.get (place data.openings (q ++ [n]))).name, place data.openings (q ++ [n]))
        ∈ (p.graph.namespaces.get (place data.openings q)).namespaces := by
  have hlaid := isLaidOut_of_load h htexts.openings
  have houter := hlaid.rooted.outer_mem q n hq
  have hname := hlaid.name_eq hq
  rw [List.getLast?_concat] at hname
  refine ⟨houter, ?_⟩
  rw [hname, hlaid.namespaces_eq houter]
  exact List.mem_map.2 ⟨n, List.mem_eraseDups.2 (mem_inside_iff.2 hq), rfl⟩

theorem nodup_expand_of_load (h : load data = .ok p) (htexts : data.HasTextNames) :
    (p.graph.expand Graph.root).Nodup := by
  have hplaces : ∀ o ∈ places [] (builtInEntry :: data.outline), o.1 ∈ paths data.openings ∧ o.1 ≠ [] := by
    intro o ho
    obtain ⟨hmem, hne, -⟩ := of_mem_places (filter_isBelow_openingsOf [] _) ho
    exact ⟨hmem, hne⟩
  rw [expand_of_load h htexts.openings, List.nodup_cons]
  constructor
  · intro hroot
    obtain ⟨o, ho, hplace⟩ := List.mem_map.1 hroot
    obtain ⟨hmem, hne⟩ := hplaces o ho
    exact hne (place_inj hmem (hplace.trans (place_nil _).symm))
  · have hnodup := nodup_places [] (builtInEntry :: data.outline)
    rw [List.nodup_map_iff_inj_on hnodup.of_map]
    intro o ho o' ho' heq
    exact List.inj_on_of_nodup_map hnodup ho ho' (place_inj (hplaces o ho).1 heq)

/-- No namespace is listed twice, as it belongs to the one that lists it. -/
theorem nodup_listings (h : load data = .ok p) (htexts : data.HasTextNames) : p.graph.listings.Nodup := by
  have howns : ∀ i ∈ p.graph.expand Graph.root, ∀ j ∈ (p.graph.namespaces.get i).namespaces.values,
      (p.graph.namespaces.get j).parent = some i := by
    intro i hi j hj
    obtain ⟨q, hq, rfl⟩ := (mem_expand_of_load h htexts.openings).1 hi
    obtain ⟨x, hx, rfl⟩ := List.mem_map.1 hj
    exact ((owns_of_load h htexts hq).namespaces x hx).parent
  refine List.nodup_flatMap.2 ⟨fun i hi => ?_, ?_⟩
  · obtain ⟨q, hq, rfl⟩ := (mem_expand_of_load h htexts.openings).1 hi
    rw [(isLaidOut_of_load h htexts.openings).namespaces_eq hq, Members.values, List.map_map,
      List.nodup_map_iff_inj_on (nodup_eraseDups _)]
    intro n hn m _ heq
    have hmem : q ++ [n] ∈ paths data.openings := mem_inside_iff.1 (List.mem_eraseDups.1 hn)
    simpa using place_inj hmem heq
  · refine (nodup_expand_of_load h htexts).imp_of_mem fun {i j} hi hj hne k hk hk' => hne ?_
    exact Option.some.inj ((howns i hi k hk).symm.trans (howns j hj k hk'))

theorem rooted_of_load (h : load data = .ok p) (htexts : data.HasTextNames) (hq : q ∈ paths data.openings) :
    ReflTransGen (fun i j => (p.graph.namespaces.get i).parent = some j) (place data.openings q) Graph.root := by
  induction q using List.reverseRecOn with
  | nil =>
    rw [place_nil]
    exact .refl
  | append_singleton q n ih =>
    obtain ⟨houter, -⟩ := listed_of_concat h htexts hq
    exact .head (parent_of_concat h htexts hq) (ih houter)

/-! ### The types of a loaded program -/

theorem builtIns_eq_initial (es : List NamespaceEntry) : (ofDescription es).builtIns = initial.builtIns := by
  have hadds : Adds [] initial (ofDescription es) (typesOf [] es) (AllSound [] [] es) :=
    adds_namespaces Graph.root [] initial es
  exact hadds.builtIns

/-- What is known by name is built in, or a namespace lists it. -/
theorem isNamed_of_known (h : load data = .ok p) (htexts : data.HasTextNames) {scope : List Text} {name : Text}
    {n : Node} (hknown : (ofDescription data.outline).known? scope name = some n) : p.graph.IsNamed n := by
  have hregistry := registry_of_load h htexts.openings
  obtain ⟨-, hsettle⟩ := settleAll_of_load h
  rcases Option.or_eq_some_iff.1 hknown with hbuiltIn | ⟨-, hfrom⟩
  · have hmem := mem_of_find hbuiltIn
    obtain ⟨-, i, rfl, hview⟩ := hregistry.builtIn hmem
    rw [builtIns_eq_initial] at hmem
    exact .builtIn hmem (cell_of_settleAll hregistry.tidy hsettle hview rfl rfl)
  · have hfind : ∃ site, find site (ofDescription data.outline).types = some n := by
      rcases findFrom_cases (ofDescription data.outline).types name scope with
        ⟨inner, m, -, -, hfound, -, hsame⟩ | ⟨-, hsame⟩
      · cases hfrom.symm.trans hsame
        exact ⟨_, hfound⟩
      · exact ⟨_, hsame.symm.trans hfrom⟩
    obtain ⟨site, hfind⟩ := hfind
    obtain ⟨q, hq, k, t, hl, -⟩ := hregistry.found hfind
    rw [← listed?_of_load h htexts.openings] at hl
    exact .listed ((mem_expand_of_load h htexts.openings).2 ⟨q, hq, rfl⟩) hl (isListed_of_load h htexts.openings hq hl)

theorem ne_unresolved_of_isNamed {g : Graph} {n : Node} (h : g.IsNamed n) : n ≠ .unresolved := by
  cases h with
  | builtIn _ _ => exact nofun
  | listed _ hlisted _ =>
    have hkind := (Namespace.declarableKind?_of_listed? hlisted).1
    rintro rfl
    cases hkind

theorem isType_of_load (h : load data = .ok p) (htexts : data.HasTextNames) {n : Node}
    (hn : (ofDescription data.outline).IsType p.graph n) : p.graph.IsType n :=
  Node.IsType.imp hn (fun _ ⟨_, _, hknown⟩ => isNamed_of_known h htexts hknown) fun _ _ hi => hi.2

/-- The graph of a loaded program is closed. -/
theorem isClosed_of_load (h : load data = .ok p) (htexts : data.HasTextNames) : p.graph.IsClosed := by
  have hlaid := isLaidOut_of_load h htexts.openings
  obtain ⟨hconsistent, -⟩ := consistent_of_load h
  obtain ⟨-, hsettle⟩ := settleAll_of_load h
  have hexpand : ∀ {i}, i ∈ p.graph.expand Graph.root ↔ ∃ q ∈ paths data.openings, i = place data.openings q :=
    mem_expand_of_load h htexts.openings
  have hinside : ∀ i ∈ p.graph.expand Graph.root, i ≠ Graph.root → ∃ j ∈ p.graph.expand Graph.root,
      (p.graph.namespaces.get i).parent = some j
        ∧ ((p.graph.namespaces.get i).name, i) ∈ (p.graph.namespaces.get j).namespaces := by
    intro i hi hroot
    obtain ⟨q, hq, rfl⟩ := hexpand.1 hi
    cases q using List.reverseRecOn with
    | nil => exact absurd (place_nil _) hroot
    | append_singleton q n =>
      obtain ⟨houter, hlisted⟩ := listed_of_concat h htexts hq
      exact ⟨_, hexpand.2 ⟨q, houter, rfl⟩, parent_of_concat h htexts hq, hlisted⟩
  refine ⟨?_, fun i hi => ?_, fun i hi hroot => ?_, hinside, fun i hi => ?_, fun i hi => ?_, ?_, ?_⟩
  · have hparent := hlaid.parent_eq (nil_mem_paths data.openings)
    rwa [place_nil, if_pos rfl] at hparent
  · rw [hlaid.size] at hi
    have hmem := List.getElem_mem hi
    have hplace : place data.openings (paths data.openings)[i] = i := List.Nodup.idxOf_getElem (nodup_eraseDups _) i hi
    exact hexpand.2 ⟨_, hmem, hplace.symm⟩
  · obtain ⟨j, hj, -, hlisted⟩ := hinside i hi hroot
    have hmem : i ∈ p.graph.listings := List.mem_flatMap.2 ⟨j, hj, List.mem_map.2 ⟨_, hlisted, rfl⟩⟩
    exact List.count_eq_one_of_mem (nodup_listings h htexts) hmem
  · obtain ⟨q, hq, rfl⟩ := hexpand.1 hi
    exact rooted_of_load h htexts hq
  · obtain ⟨q, hq, rfl⟩ := hexpand.1 hi
    exact owns_of_load h htexts hq
  · intro n c hc type htype
    have hmade := isType_of_load h htexts ((typed_of_settleAll hconsistent hsettle hc).types type htype)
    exact ⟨hmade, Node.IsType.ne_unresolved hmade fun m hm => ne_unresolved_of_isNamed hm⟩
  · intro i m hm b hb
    exact (typed_of_settleAll hconsistent hsettle hm).base m rfl b hb

/-- A description that replaces a model, opens a namespace twice, and takes the place of a built-in model. -/
def replaced : Json := .object [("namespaces", .array [
  .object [("name", .string "A"),
    ("enums", .array [.object [("name", .string "E"), ("members", .array [.object [("name", .string "x")]])]]),
    ("models", .array [
      .object [("name", .string "M"),
        ("properties", .array [.object [("name", .string "a"), ("type", .string "B.U")]])],
      .object [("name", .string "N"), ("baseModel", .string "M")],
      .object [("name", .string "M"),
        ("properties", .array [.object [("name", .string "a"), ("type", .object [("kind", .string "Union"),
          ("options", .array [.string "string", .string "N[]"])])]])]]),
    ("interfaces", .array [.object [("name", .string "I"), ("operations", .array [.object [("name", .string "Get"),
      ("parameters", .array [.object [("name", .string "key"), ("type", .string "int32")]]),
      ("returnType", .string "M[]")]])]]),
    ("namespaces", .array [
      .object [("name", .string "B"), ("unions", .array [
        .object [("name", .string "U"), ("options", .array [.string "E", .string "A.N"])]])]])],
  .object [("name", .string "Cadl"), ("models", .array [.object [("name", .string "string")]])],
  .object [("name", .string "A"), ("operations", .array [.object [("name", .string "Ping")]])]])]

theorem isClosed_of_load_replaced : ∃ p, load replaced = .ok p ∧ replaced.HasTextNames ∧ p.graph.IsClosed := by
  obtain ⟨p, hload⟩ : ∃ p, load replaced = .ok p := Yields.exists_ok (by decide +kernel)
  have htexts : replaced.HasTextNames := by decide +kernel
  exact ⟨p, hload, htexts, isClosed_of_load hload htexts⟩

end

end Program

end Edm
