import Edm.Proofs.Loading.Loaded
import Edm.Proofs.Loading.Registry

/-!
# Listed declarations

What a namespace of a loaded program lists under a name is a node of the kind, with this name, that refers back
to the namespace (`Graph.IsListed`, `isListed_of_load`).  So the identifier of a listed node is put together from
the path of the namespace and the name that it is listed under (`qualifiedId_of_load`).
-/

namespace Edm

/-! ### Declared names -/

namespace DeclarationEntries

/-- The names that are declared, each with its kind. -/
def named (e : DeclarationEntries) : List (Kind × Label) :=
  e.enums.map (fun x => (.enum, x.name)) ++ e.models.map (fun x => (.model, x.name))
    ++ e.unions.map (fun x => (.union, x.name)) ++ e.interfaces.map (fun x => (.interface, x.name))
    ++ e.operations.map (fun x => (.operation, x.name))

theorem types_eq_named (path : List Text) (e : DeclarationEntries) :
    e.types path = e.named.map fun x => (siteOf (Graph.dotted path) x.2, x.1) := by
  simp [types, named, Function.comp_def]

theorem mem_named_united {ds : List DeclarationEntries} {x : Kind × Label} :
    x ∈ (united ds).named ↔ ∃ d ∈ ds, x ∈ d.named := by
  simp only [named, united, List.mem_append, List.mem_map, List.mem_flatMap]
  constructor
  · rintro ((((⟨y, ⟨d, hd, hy⟩, rfl⟩ | ⟨y, ⟨d, hd, hy⟩, rfl⟩) | ⟨y, ⟨d, hd, hy⟩, rfl⟩) | ⟨y, ⟨d, hd, hy⟩, rfl⟩)
      | ⟨y, ⟨d, hd, hy⟩, rfl⟩)
    · exact ⟨d, hd, .inl (.inl (.inl (.inl ⟨y, hy, rfl⟩)))⟩
    · exact ⟨d, hd, .inl (.inl (.inl (.inr ⟨y, hy, rfl⟩)))⟩
    · exact ⟨d, hd, .inl (.inl (.inr ⟨y, hy, rfl⟩))⟩
    · exact ⟨d, hd, .inl (.inr ⟨y, hy, rfl⟩)⟩
    · exact ⟨d, hd, .inr ⟨y, hy, rfl⟩⟩
  · rintro ⟨d, hd, ((((⟨y, hy, rfl⟩ | ⟨y, hy, rfl⟩) | ⟨y, hy, rfl⟩) | ⟨y, hy, rfl⟩) | ⟨y, hy, rfl⟩)⟩
    · exact .inl (.inl (.inl (.inl ⟨y, ⟨d, hd, hy⟩, rfl⟩)))
    · exact .inl (.inl (.inl (.inr ⟨y, ⟨d, hd, hy⟩, rfl⟩)))
    · exact .inl (.inl (.inr ⟨y, ⟨d, hd, hy⟩, rfl⟩))
    · exact .inl (.inr ⟨y, ⟨d, hd, hy⟩, rfl⟩)
    · exact .inr ⟨y, ⟨d, hd, hy⟩, rfl⟩

theorem isText_of_mem_named {e : DeclarationEntries} (h : e.HasTextNames) {x : Kind × Label} (hx : x ∈ e.named) :
    x.2.isText = true := by
  obtain ⟨henums, hmodels, hunions, hinterfaces, hoperations⟩ := h
  simp only [named, List.mem_append, List.mem_map] at hx
  rcases hx with (((⟨y, hy, rfl⟩ | ⟨y, hy, rfl⟩) | ⟨y, hy, rfl⟩) | ⟨y, hy, rfl⟩) | ⟨y, hy, rfl⟩
  · exact henums y hy
  · exact (hmodels y hy).1
  · exact hunions y hy
  · exact (hinterfaces y hy).1
  · exact (hoperations y hy).1

end DeclarationEntries

/-! ### Names that are read -/

section

variable {outer : Text} {data : Json}

/-- A name that a namespace lists counts as present. -/
theorem truthy_of_declaredName {kind : Kind} {site : Text} {name : Label}
    (h : declaredName kind site data = .ok name) : name.truthy = true := by
  obtain ⟨l, -, h⟩ := bind_eq_ok h
  split at h
  next hcheck =>
    cases h
    exact (checkName_eq_ok.1 hcheck).1
  next => cases h

theorem EnumEntry.truthy_of_read {e : EnumEntry} (h : EnumEntry.read outer data = .ok e) : e.name.truthy = true := by
  obtain ⟨name, hname, h⟩ := bind_eq_ok h
  obtain ⟨_, -, h⟩ := bind_eq_ok h
  obtain ⟨_, -, h⟩ := bind_eq_ok h
  cases h
  exact truthy_of_declaredName hname

theorem ModelEntry.truthy_of_read {e : ModelEntry} (h : ModelEntry.read outer data = .ok e) :
    e.name.truthy = true := by
  obtain ⟨name, hname, h⟩ := bind_eq_ok h
  obtain ⟨_, -, h⟩ := bind_eq_ok h
  obtain ⟨_, -, h⟩ := bind_eq_ok h
  obtain ⟨_, -, h⟩ := bind_eq_ok h
  cases h
  exact truthy_of_declaredName hname

theorem UnionEntry.truthy_of_read {e : UnionEntry} (h : UnionEntry.read outer data = .ok e) :
    e.name.truthy = true := by
  obtain ⟨name, hname, h⟩ := bind_eq_ok h
  obtain ⟨_, -, h⟩ := bind_eq_ok h
  cases h
  exact truthy_of_declaredName hname

theorem InterfaceEntry.truthy_of_read {e : InterfaceEntry} (h : InterfaceEntry.read outer data = .ok e) :
    e.name.truthy = true := by
  obtain ⟨name, hname, h⟩ := bind_eq_ok h
  obtain ⟨_, -, h⟩ := bind_eq_ok h
  obtain ⟨_, -, h⟩ := bind_eq_ok h
  have hkeeps : e.name = name := by
    split at h
    · cases h
      rfl
    · cases h
      rfl
    · cases h
  rw [hkeeps]
  exact truthy_of_declaredName hname

theorem OperationEntry.truthy_of_readDeclared {e : OperationEntry}
    (h : OperationEntry.readDeclared outer data = .ok e) : e.name.truthy = true := by
  obtain ⟨operation, -, h⟩ := bind_eq_ok h
  split at h
  next hcheck =>
    cases h
    exact (checkName_eq_ok.1 hcheck).1
  next => cases h

/-- The names that an opening declares count as present. -/
theorem NamespaceEntry.IsRead.truthy_named {o : Opening} (h : NamespaceEntry.IsRead o) {x : Kind × Label}
    (hx : x ∈ o.2.named) : x.2.truthy = true := by
  obtain ⟨path, entries⟩ := o
  obtain ⟨data, h⟩ := h.read
  obtain ⟨_, -, h⟩ := bind_eq_ok h
  obtain ⟨enums, henums, h⟩ := bind_eq_ok h
  obtain ⟨_, -, h⟩ := bind_eq_ok h
  obtain ⟨models, hmodels, h⟩ := bind_eq_ok h
  obtain ⟨_, -, h⟩ := bind_eq_ok h
  obtain ⟨unions, hunions, h⟩ := bind_eq_ok h
  obtain ⟨_, -, h⟩ := bind_eq_ok h
  obtain ⟨interfaces, hinterfaces, h⟩ := bind_eq_ok h
  obtain ⟨_, -, h⟩ := bind_eq_ok h
  obtain ⟨operations, hoperations, h⟩ := bind_eq_ok h
  cases h
  simp only [DeclarationEntries.named, List.mem_append, List.mem_map] at hx
  rcases hx with (((⟨y, hy, rfl⟩ | ⟨y, hy, rfl⟩) | ⟨y, hy, rfl⟩) | ⟨y, hy, rfl⟩) | ⟨y, hy, rfl⟩
  · obtain ⟨_, -, hitem⟩ := mem_of_mapM henums hy
    exact EnumEntry.truthy_of_read hitem
  · obtain ⟨_, -, hitem⟩ := mem_of_mapM hmodels hy
    exact ModelEntry.truthy_of_read hitem
  · obtain ⟨_, -, hitem⟩ := mem_of_mapM hunions hy
    exact UnionEntry.truthy_of_read hitem
  · obtain ⟨_, -, hitem⟩ := mem_of_mapM hinterfaces hy
    exact InterfaceEntry.truthy_of_read hitem
  · obtain ⟨_, -, hitem⟩ := mem_of_mapM hoperations hy
    exact OperationEntry.truthy_of_readDeclared hitem

end

/-! ### Listed nodes -/

namespace Graph

/-- A node has a kind and a name, and refers to a namespace as its owner. -/
structure IsListed (g : Graph) (space : NamespaceId) (k : Kind) (t : Text) (n : Node) : Prop where
  kind : n.kind? = some k
  cell : ∃ c, g.cell? n = some c ∧ c.name = .text t ∧ c.owner = some space

section

variable {g : Graph} {space : NamespaceId} {k : Kind} {t : Text} {n : Node}

theorem IsListed.qualifiedId_eq (h : g.IsListed space k t n) (hk : n.declarableKind? = some k)
    (hspace : k ≠ .nameSpace) : g.qualifiedId n = siteOf (g.namespaceName space) (.text t) := by
  obtain ⟨c, hc, hname, howner⟩ := h.cell
  have hid : ∀ {l : Label} {o : Option NamespaceId}, l = .text t → o = some space →
      g.declarationId o l = siteOf (g.namespaceName space) (.text t) := by
    rintro _ _ rfl rfl
    rw [declarationId, Label.displayOrEmpty_text]
    rfl
  cases n with
  | model i | enum i | union i | interface i | operation i =>
    obtain ⟨a, ha, rfl⟩ := Option.map_eq_some_iff.1 hc
    have hget := Table.get_of_get? ha
    subst hget
    exact hid hname howner
  | nameSpace i =>
    cases hk
    exact absurd rfl hspace
  | _ => cases hk

theorem IsListed.isIdentifiable_eq (h : g.IsListed space k t n) (hk : n.declarableKind? = some k)
    (hspace : k ≠ .nameSpace) : g.isIdentifiable n = g.hasTextPath space := by
  obtain ⟨c, hc, -, howner⟩ := h.cell
  have hid : ∀ {o : Option NamespaceId}, o = some space → o.all g.hasTextPath = g.hasTextPath space := by
    rintro _ rfl
    rfl
  cases n with
  | model i | enum i | union i | interface i | operation i =>
    obtain ⟨a, ha, rfl⟩ := Option.map_eq_some_iff.1 hc
    have hget := Table.get_of_get? ha
    subst hget
    exact hid howner
  | nameSpace i =>
    cases hk
    exact absurd rfl hspace
  | _ => cases hk

theorem IsListed.modelName_eq {i : ModelId} (h : g.IsListed space k t (.model i)) :
    (g.models.get i).name = .text t := by
  obtain ⟨c, hc, hname, -⟩ := h.cell
  obtain ⟨m, hm, rfl⟩ := Option.map_eq_some_iff.1 hc
  rw [Table.get_of_get? hm]
  exact hname

/-- The name of a listed node as a type; that of a union is put together from other names. -/
theorem IsListed.typeNameWith_eq (h : g.IsListed space k t n) (hk : n.declarableKind? = some k)
    (hspace : k ≠ .nameSpace) (hunion : k ≠ .union) (name : UnionId → Label) :
    g.typeNameWith name n = if k = .model then modelTypeName (.text t) else .text t := by
  obtain ⟨c, hc, hname, -⟩ := h.cell
  cases n with
  | model i =>
    cases hk
    rw [typeNameWith, h.modelName_eq, if_pos rfl]
  | enum i | interface i | operation i =>
    obtain ⟨a, ha, rfl⟩ := Option.map_eq_some_iff.1 hc
    cases hk
    rw [typeNameWith, Table.get_of_get? ha, if_neg (by decide)]
    exact hname
  | union i =>
    cases hk
    exact absurd rfl hunion
  | nameSpace i =>
    cases hk
    exact absurd rfl hspace
  | _ => cases hk

end

end Graph

theorem Node.kind?_of_declarableKind? {n : Node} {k : Kind} (h : n.declarableKind? = some k) :
    n.kind? = some k := by
  cases n <;> cases h <;> rfl

namespace Declarations

section

variable {d : Declarations} {g g' : Graph} {space : NamespaceId} {path : List Text} {s : Namespace}
  {e : DeclarationEntries} {t : Text} {k : Kind} {n : Node}

/-- What is listed under a name is declared, and was made for a declaration with this name. -/
theorem Contents.of_listed? (h : d.Contents space path s e) (hl : s.listed? t k = some n) :
    (k, .text t) ∈ e.named
      ∧ ∃ c, d.graph.cell? n = some c ∧ c.name = .text t ∧ c.owner = some space := by
  simp only [DeclarationEntries.named, List.mem_append, List.mem_map]
  cases k with
  | enum =>
    obtain ⟨i, hi, rfl⟩ := Option.map_eq_some_iff.1 hl
    obtain ⟨x, hx, hname, members, hview, -⟩ := h.enums.of_lookup hi
    exact ⟨.inl (.inl (.inl (.inl ⟨x, mem_of_mem_latest hx, by rw [hname]⟩))), _, congrArg View.cell hview, hname, rfl⟩
  | model =>
    obtain ⟨i, hi, rfl⟩ := Option.map_eq_some_iff.1 hl
    obtain ⟨x, hx, hname, properties, hview, -⟩ := h.models.of_lookup hi
    exact ⟨.inl (.inl (.inl (.inr ⟨x, mem_of_mem_latest hx, by rw [hname]⟩))), _, congrArg View.cell hview, hname, rfl⟩
  | union =>
    obtain ⟨i, hi, rfl⟩ := Option.map_eq_some_iff.1 hl
    obtain ⟨x, hx, hname, hview⟩ := h.unions.of_lookup hi
    exact ⟨.inl (.inl (.inr ⟨x, mem_of_mem_latest hx, by rw [hname]⟩)), _, congrArg View.cell hview, hname, rfl⟩
  | interface =>
    obtain ⟨i, hi, rfl⟩ := Option.map_eq_some_iff.1 hl
    obtain ⟨x, hx, hname, operations, hview, -⟩ := h.interfaces.of_lookup hi
    exact ⟨.inl (.inr ⟨x, mem_of_mem_latest hx, by rw [hname]⟩), _, congrArg View.cell hview, hname, rfl⟩
  | operation =>
    obtain ⟨i, hi, rfl⟩ := Option.map_eq_some_iff.1 hl
    obtain ⟨x, hx, hname, parameters, properties, hview, -⟩ := h.operations.of_lookup hi
    exact ⟨.inr ⟨x, mem_of_mem_latest hx, by rw [hname]⟩, _, congrArg View.cell hview, hname, rfl⟩
  | _ => cases hl

theorem settleEach_frame {rs : List Reference} (hd : d.Holds g) (hrs : ∀ r ∈ rs, d.Has r.pending.target)
    (h : rs.foldlM d.settle g = .ok g') {c : Cell} (hc : g.cell? n = some c) :
    ∃ c', g'.cell? n = some c' ∧ c'.name = c.name ∧ c'.owner = c.owner := by
  obtain ⟨c', hc', ⟨rfl, -⟩ | ⟨r, -, -, hmeets⟩⟩ := settleEach_cell hd hrs h hc
  · exact ⟨_, hc', rfl, rfl⟩
  · exact ⟨c', hc', hmeets.frame⟩

end

end Declarations

/-! ### Loaded programs -/

section

open Opening NamespaceEntry

variable {data : Json} {p : Program} {q : List Text} {k : Kind} {t : Text} {n : Node}

theorem registry_of_load (h : Program.load data = .ok p) (htexts : ∀ o ∈ data.openings, o.2.HasTextNames) :
    Declarations.Registry data.openings (Declarations.ofDescription data.outline) := by
  obtain ⟨hread, -⟩ := Program.settleAll_of_load h
  refine Declarations.registry_ofDescription (fun o ho => (isRead_of_readDescription hread o ho).named)
    fun o ho => htexts o ?_
  rw [Json.openings, openingsOf]
  exact List.mem_append_right _ ho

theorem namespaces_of_load (h : Program.load data = .ok p) (htexts : ∀ o ∈ data.openings, o.2.HasTextNames) :
    p.graph.namespaces = (Declarations.ofDescription data.outline).graph.namespaces := by
  obtain ⟨-, hsettle⟩ := Program.settleAll_of_load h
  exact Declarations.namespaces_of_settleAll (built_of_load h htexts).tidy hsettle

theorem listed?_of_load (h : Program.load data = .ok p) (htexts : ∀ o ∈ data.openings, o.2.HasTextNames)
    (i : NamespaceId) (t : Text) (k : Kind) :
    p.graph.listed? i t k = (Declarations.ofDescription data.outline).graph.listed? i t k := by
  rw [Graph.listed?, namespaces_of_load h htexts, Graph.listed?]

theorem mem_named_of_load (h : Program.load data = .ok p) (htexts : ∀ o ∈ data.openings, o.2.HasTextNames)
    (hq : q ∈ paths data.openings) (hl : p.graph.listed? (place data.openings q) t k = some n) :
    (k, .text t) ∈ (declared data.openings q).named := by
  obtain ⟨s, hs, -, hcontents⟩ := (built_of_load h htexts).space q hq
  rw [listed?_of_load h htexts, Graph.listed?, Graph.get_nameSpace hs] at hl
  exact (hcontents.of_listed? hl).1

/-- Nothing is declared under an empty name. -/
theorem truthy_of_mem_named (h : Program.load data = .ok p) {x : Kind × Label}
    (hx : x ∈ (declared data.openings q).named) : x.2.truthy = true := by
  rw [declared, DeclarationEntries.mem_named_united] at hx
  obtain ⟨_, hd, hx⟩ := hx
  obtain ⟨o, ho, rfl⟩ := List.mem_map.1 hd
  rcases mem_openings_of_load h (List.mem_filter.1 ho).1 with rfl | hread
  · have hall : ∀ x ∈ (Declarations.emptyModels builtInModels).named, x.2.truthy = true := by decide
    exact hall x hx
  · exact hread.truthy_named hx

/-- A node that a namespace lists has the name that it is listed under, and refers to the namespace. -/
theorem isListed_of_load (h : Program.load data = .ok p) (htexts : ∀ o ∈ data.openings, o.2.HasTextNames)
    (hq : q ∈ paths data.openings) (hl : p.graph.listed? (place data.openings q) t k = some n) :
    p.graph.IsListed (place data.openings q) k t n := by
  have hbuilt := built_of_load h htexts
  obtain ⟨-, hsettle⟩ := Program.settleAll_of_load h
  have hkind := Namespace.declarableKind?_of_listed? hl
  obtain ⟨s, hs, -, hcontents⟩ := hbuilt.space q hq
  rw [listed?_of_load h htexts, Graph.listed?, Graph.get_nameSpace hs] at hl
  obtain ⟨-, c, hc, hname, howner⟩ := hcontents.of_listed? hl
  obtain ⟨c', hc', hname', howner'⟩ :=
    Declarations.settleEach_frame (Declarations.holds_graph _) hbuilt.tidy.references hsettle hc
  exact ⟨Node.kind?_of_declarableKind? hkind.1, c', hc', hname'.trans hname, howner'.trans howner⟩

/-- The identifier of a listed node: the path of the namespace and the name that it is listed under. -/
theorem qualifiedId_of_load (h : Program.load data = .ok p) (htexts : ∀ o ∈ data.openings, o.2.HasTextNames)
    (hq : q ∈ paths data.openings) (hl : p.graph.listed? (place data.openings q) t k = some n) :
    p.graph.qualifiedId n = siteOf (Graph.dotted q) (.text t) := by
  obtain ⟨hkind, hspace⟩ := Namespace.declarableKind?_of_listed? hl
  rw [(isListed_of_load h htexts hq hl).qualifiedId_eq hkind hspace, (isLaidOut_of_load h htexts).namespaceName_eq hq]

theorem mem_expand_of_load (h : Program.load data = .ok p) (htexts : ∀ o ∈ data.openings, o.2.HasTextNames)
    {i : NamespaceId} : i ∈ p.graph.expand Graph.root ↔ ∃ q ∈ paths data.openings, i = place data.openings q := by
  have hbelow : data.openings.filter (isBelow []) = data.openings := filter_isBelow_openingsOf [] _
  rw [expand_of_load h htexts, List.mem_cons, List.mem_map]
  constructor
  · rintro (rfl | ⟨o, ho, rfl⟩)
    · exact ⟨[], nil_mem_paths _, (place_nil _).symm⟩
    · exact ⟨o.1, (of_mem_places hbelow ho).1, rfl⟩
  · rintro ⟨q, hq, rfl⟩
    rcases List.mem_cons.1 (List.mem_eraseDups.1 hq) with rfl | hq
    · exact .inl (place_nil _)
    · obtain ⟨o, ho, rfl⟩ := List.mem_map.1 hq
      obtain ⟨x, hx, hpath⟩ := exists_mem_places ho
      exact .inr ⟨x, hx, by rw [hpath]⟩

end

end Edm
