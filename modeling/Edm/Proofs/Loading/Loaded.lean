import Edm.Graph.Flattening
import Edm.Proofs.Loading.Built
import Edm.Proofs.Loading.Settled

/-!
# The graph of a loaded program

What is declared, after all references are settled: enums as they were, properties with the type that their
expression stands for, models with their base (`Declarations.EnumAt.settled` and so on).  The namespaces of
the graph are those of the openings of the description (`Graph.IsLaidOut`), so their names and their order can
be read off the description (`Graph.IsLaidOut.names_eq`, `Graph.IsLaidOut.expand_eq`).
-/

namespace Edm

/-! ### Settled declarations -/

namespace Declarations

section

variable {d : Declarations} {g : Graph} {space : NamespaceId} {path : List Text} {site : Text}

/-- No reference is for an enum member. -/
theorem cell_member_of_settleAll (hd : d.Tidy) (h : d.settleAll = .ok g) {j : MemberId} {c : Cell}
    (hj : d.graph.cell? (.member j) = some c) : g.cell? (.member j) = some c := by
  refine cell_of_settleAll hd h rfl hj ?_
  rw [view, List.filter_eq_nil_iff]
  intro r _ hr
  cases hpending : r.pending <;> simp [hpending, Pending.target] at hr

theorem EnumAt.settled {i : EnumId} {e : EnumEntry} (hd : d.Tidy) (h : d.settleAll = .ok g)
    (hat : d.EnumAt space i e) :
    ∃ members, g.cell? (.enum i) = some (.enum { name := e.name, members, owner := some space })
      ∧ List.Forall₂ (fun j (m : MemberEntry) =>
          g.cell? (.member j) = some (.member { name := m.name, value := m.value, owner := some i }))
        members e.members := by
  obtain ⟨members, hview, hmembers⟩ := hat
  exact ⟨members, cell_of_settleAll hd h hview rfl rfl,
    hmembers.imp fun j m hj => cell_member_of_settleAll hd h hj⟩

/-- A property with the type that its expression stands for. -/
def PropertyIn (d : Declarations) (g : Graph) (path : List Text) (owner : ModelId) (i : PropertyId)
    (e : PropertyEntry) : Prop :=
  ∃ type, d.Denotes g path e.type type
    ∧ g.cell? (.property i) = some (.property { name := e.name, type, optional := e.optional, owner := some owner })

theorem PropertyAt.settled {owner : ModelId} {i : PropertyId} {e : PropertyEntry} (hd : d.Tidy)
    (h : d.settleAll = .ok g) (hat : d.PropertyAt path site owner i e) : d.PropertyIn g path owner i e := by
  obtain ⟨c', hc', hmeets⟩ := meets_of_settleAll hd h hat rfl rfl
  cases hmeets with
  | property hr hdenotes =>
    cases hr
    exact ⟨_, hdenotes, hc'⟩

/-- A settled model, with its properties as they are and as they were declared. -/
theorem ModelAt.settledAt {i : ModelId} {e : ModelEntry} (hd : d.Tidy) (h : d.settleAll = .ok g)
    (hat : d.ModelAt space path i e) :
    ∃ properties base, g.cell? (.model i) = some (.model { name := e.name, properties, base, owner := some space })
      ∧ Option.Rel (fun type n => ∃ j, n = .model j ∧ d.Denotes g path type n) e.base base
      ∧ Lists (fun j q => d.PropertyIn g path i j q ∧ d.PropertyAt path (siteOf (Graph.dotted path) e.name) i j q)
          PropertyEntry.name properties e.properties := by
  obtain ⟨properties, hview, hproperties⟩ := hat
  have hsettled := hproperties.mono fun j q hj => And.intro (PropertyAt.settled hd h hj) hj
  cases hbase : e.base with
  | none =>
    rw [hbase] at hview
    exact ⟨properties, none, cell_of_settleAll hd h hview rfl rfl, .none, hsettled⟩
  | some type =>
    rw [hbase] at hview
    obtain ⟨c', hc', hmeets⟩ := meets_of_settleAll hd h hview rfl rfl
    cases hmeets with
    | base hr hdenotes =>
      cases hr
      exact ⟨properties, _, hc', .some ⟨_, rfl, hdenotes⟩, hsettled⟩

theorem ModelAt.settled {i : ModelId} {e : ModelEntry} (hd : d.Tidy) (h : d.settleAll = .ok g)
    (hat : d.ModelAt space path i e) :
    ∃ properties base, g.cell? (.model i) = some (.model { name := e.name, properties, base, owner := some space })
      ∧ Option.Rel (fun type n => ∃ j, n = .model j ∧ d.Denotes g path type n) e.base base
      ∧ Lists (d.PropertyIn g path i) PropertyEntry.name properties e.properties := by
  obtain ⟨properties, base, hmodel, hbase, hproperties⟩ := hat.settledAt hd h
  exact ⟨properties, base, hmodel, hbase, hproperties.mono fun _ _ hj => hj.1⟩

end

end Declarations

/-! ### Namespaces in order -/

namespace Graph

open Opening NamespaceEntry

/-- The namespaces of a graph are those of some openings. -/
structure IsLaidOut (os : List Opening) (g : Graph) : Prop where
  rooted : Rooted os
  size : g.namespaces.size = (paths os).length
  bare : ∀ p ∈ paths os, (g.namespaces.get (place os p)).bare = Declarations.bareAt os p

section

variable {os : List Opening} {g : Graph} {p : List Text}

theorem IsLaidOut.name_eq (h : g.IsLaidOut os) (hp : p ∈ paths os) :
    (g.namespaces.get (place os p)).name = .text (p.getLast?.getD []) :=
  congrArg Namespace.name (h.bare p hp)

theorem IsLaidOut.parent_eq (h : g.IsLaidOut os) (hp : p ∈ paths os) :
    (g.namespaces.get (place os p)).parent = if p = [] then none else some (place os p.dropLast) :=
  congrArg Namespace.parent (h.bare p hp)

theorem IsLaidOut.namespaces_eq (h : g.IsLaidOut os) (hp : p ∈ paths os) :
    (g.namespaces.get (place os p)).namespaces
      = (inside os p).eraseDups.map fun n => (.text n, place os (p ++ [n])) :=
  congrArg Namespace.namespaces (h.bare p hp)

/-- The names that lead to a namespace are its path. -/
theorem IsLaidOut.namesWithin_eq (h : g.IsLaidOut os) (hp : p ∈ paths os) {fuel : Nat} (hfuel : p.length ≤ fuel) :
    g.namesWithin fuel (place os p) = p.map Label.text := by
  induction p using List.reverseRecOn generalizing fuel with
  | nil =>
    cases fuel with
    | zero => rfl
    | succ fuel =>
      rw [namesWithin, h.name_eq hp, h.parent_eq hp]
      rfl
  | append_singleton p n ih =>
    have hn : n ≠ [] := h.rooted.name_ne p n hp
    cases fuel with
    | zero => simp at hfuel
    | succ fuel =>
      rw [List.length_append, List.length_singleton] at hfuel
      have houter := ih (h.rooted.outer_mem p n hp) (Nat.le_of_succ_le_succ hfuel)
      -- names inside a namespace are gathered up to the root, which alone has an empty one
      have htruthy : (Label.text n).truthy = true := by simpa [Label.truthy] using hn
      have hparent := h.parent_eq hp
      rw [if_neg (by simp), List.dropLast_concat] at hparent
      rw [namesWithin, h.name_eq hp, hparent, List.getLast?_concat, Option.getD_some]
      dsimp only
      rw [if_pos htruthy, houter, List.map_append, List.map_singleton]

theorem IsLaidOut.names_eq (h : g.IsLaidOut os) (hp : p ∈ paths os) :
    g.names (place os p) = p.map Label.text := by
  refine h.namesWithin_eq hp ?_
  have hlength := h.rooted.length_le hp
  have hlt := place_lt hp
  rw [h.size]
  omega

theorem IsLaidOut.path_eq (h : g.IsLaidOut os) (hp : p ∈ paths os) : g.path (place os p) = p := by
  rw [path, h.names_eq hp, List.map_map]
  exact List.map_id p

theorem IsLaidOut.namespaceName_eq (h : g.IsLaidOut os) (hp : p ∈ paths os) :
    g.namespaceName (place os p) = dotted p := by
  rw [namespaceName, h.path_eq hp]

theorem IsLaidOut.hasTextPath (h : g.IsLaidOut os) (hp : p ∈ paths os) : g.hasTextPath (place os p) = true := by
  rw [Graph.hasTextPath, h.names_eq hp, List.all_map, List.all_eq_true]
  intro n _
  rfl

theorem IsLaidOut.idLabel_eq (h : g.IsLaidOut os) (hp : p ∈ paths os) :
    g.idLabel (.nameSpace (place os p)) = .text (dotted p) := by
  rw [idLabel, isIdentifiable, if_pos (h.hasTextPath hp), qualifiedId, h.namespaceName_eq hp]

/-- A namespace and all inside it, in the order of the places. -/
theorem IsLaidOut.expandWithin_eq (h : g.IsLaidOut os) {es : List NamespaceEntry} (hp : p ∈ paths os)
    (hos : os.filter (isBelow p) = openingsOf p es) {fuel : Nat}
    (hfuel : (paths os).length ≤ fuel + p.length) :
    g.expandWithin fuel (place os p) = place os p :: (places p es).map fun o => place os o.1 := by
  induction fuel generalizing p es with
  | zero =>
    -- no path is as long as there are paths
    have hlength := h.rooted.length_le hp
    have hlt := place_lt hp
    omega
  | succ fuel ih =>
    have hinside : inside os p = es.map name := by
      rw [← inside_filter, hos, inside_openingsOf]
    rw [expandWithin, h.namespaces_eq hp, Members.values, List.map_map, hinside, places_eq, List.flatMap_map,
      List.map_flatMap]
    refine congrArg (_ :: ·) (List.flatMap_congr fun n hn => ?_)
    have hmem : p ++ [n] ∈ paths os := by
      rw [← mem_inside_iff, hinside]
      exact List.mem_eraseDups.1 hn
    have hbelow : os.filter (isBelow (p ++ [n])) = openingsOf (p ++ [n]) (childrenOf n es) := by
      rw [← filter_isBelow_filter, hos, filter_isBelow_concat]
    refine ih hmem hbelow ?_
    rw [List.length_append, List.length_singleton]
    omega

end

end Graph

/-! ### Loading -/

namespace Program

/-- A decorator changes annotations and diagnostics, and nothing else. -/
theorem graph_bind (p : Program) (site : Label) (kind : AnnotationKind) (target : Node) (value : Json) :
    (p.bind site kind target value).2.graph = p.graph := by
  unfold bind
  split <;> rfl

theorem graph_decorate (p : Program) (site : Label) (name : Text) (target : Node) (arguments : List Json) :
    (p.decorate site name target arguments).2.graph = p.graph := by
  have hkey : ∀ argument, (p.bindKey site target argument).2.graph = p.graph := by
    intro argument
    unfold bindKey
    split
    · split
      · exact graph_bind ..
      · split <;> exact graph_bind ..
      · rfl
    · exact graph_bind ..
  unfold decorate
  dsimp only
  split
  · rfl
  · split
    next result happly =>
      unfold applyDecorator? at happly
      split at happly <;> cases happly
      · exact hkey _
      · exact hkey _
      all_goals exact graph_bind ..
    · rfl

theorem graph_decorateAll {p p' : Program} {c : Decoration} (h : p.decorateAll c = .ok p') :
    p'.graph = p.graph := by
  refine foldlM_keeps (P := fun q => q.graph = p.graph) (fun q x q' hq hx => ?_) rfl h
  obtain ⟨⟨name, arguments⟩, -, hx⟩ := bind_eq_ok hx
  cases hx
  exact (graph_decorate ..).trans hq

/-- A program is loaded by settling the references of what its description declares. -/
theorem settleAll_of_load {data : Json} {p : Program} (h : load data = .ok p) :
    readDescription data = .ok data.outline
      ∧ (Declarations.ofDescription data.outline).settleAll = .ok p.graph := by
  unfold load at h
  obtain ⟨es, hes, h⟩ := bind_eq_ok h
  have houtline := readDescription_eq hes
  subst houtline
  obtain ⟨g, hg, h⟩ := bind_eq_ok h
  have hgraph : p.graph = g :=
    foldlM_keeps (P := fun q => q.graph = g) (fun q c q' hq hc => (graph_decorateAll hc).trans hq) rfl h
  refine ⟨hes, ?_⟩
  rw [hgraph]
  exact hg

end Program

section

open Opening NamespaceEntry

variable {data : Json} {p : Program}

/-- The openings of a description, the built-in one first. -/
def Json.openings (data : Json) : List Opening :=
  openingsOf [] (Declarations.builtInEntry :: data.outline)

/-- Whether everything that a description lists by name has a text for a name. -/
def Json.HasTextNames (data : Json) : Prop :=
  ∀ o ∈ NamespaceEntry.openingsOf [] data.outline, o.2.HasTextNames

instance : DecidablePred Json.HasTextNames := fun _ => inferInstanceAs (Decidable (∀ o ∈ _, _))

theorem Json.HasTextNames.openings {data : Json} (h : data.HasTextNames) :
    ∀ o ∈ data.openings, o.2.HasTextNames := by
  intro o ho
  rw [Json.openings, NamespaceEntry.openingsOf] at ho
  rcases List.mem_append.1 ho with ho | ho
  · have hbuilt := Declarations.built_initial
    exact hbuilt.texts o ho
  · exact h o ho

/-- An opening of a loaded description is the built-in one, or it was read. -/
theorem mem_openings_of_load (h : Program.load data = .ok p) {o : Opening} (ho : o ∈ data.openings) :
    o = ([builtInNamespace], Declarations.emptyModels builtInModels) ∨ IsRead o := by
  obtain ⟨hread, -⟩ := Program.settleAll_of_load h
  rw [Json.openings, openingsOf] at ho
  rcases List.mem_append.1 ho with hbuiltIn | hwritten
  · exact .inl (List.mem_singleton.1 hbuiltIn)
  · exact .inr (isRead_of_readDescription hread o hwritten)

theorem built_of_load (h : Program.load data = .ok p) (htexts : ∀ o ∈ data.openings, o.2.HasTextNames) :
    Declarations.Built data.openings (Declarations.ofDescription data.outline) := by
  obtain ⟨hread, -⟩ := Program.settleAll_of_load h
  refine Declarations.built_ofDescription (fun o ho => (isRead_of_readDescription hread o ho).named)
    fun o ho => htexts o ?_
  rw [Json.openings, openingsOf]
  exact List.mem_append_right _ ho

theorem isLaidOut_of_load (h : Program.load data = .ok p) (htexts : ∀ o ∈ data.openings, o.2.HasTextNames) :
    p.graph.IsLaidOut data.openings := by
  obtain ⟨-, hsettle⟩ := Program.settleAll_of_load h
  have hbuilt := built_of_load h htexts
  have hnamespaces := Declarations.namespaces_of_settleAll hbuilt.tidy hsettle
  refine ⟨hbuilt.rooted, by rw [hnamespaces, hbuilt.size], fun q hq => ?_⟩
  obtain ⟨s, hs, hbare, -⟩ := hbuilt.space q hq
  rw [hnamespaces, Graph.get_nameSpace hs, hbare]

/-- A loaded program has the namespaces of its description in the order of the places. -/
theorem expand_of_load (h : Program.load data = .ok p) (htexts : ∀ o ∈ data.openings, o.2.HasTextNames) :
    p.graph.expand Graph.root = Graph.root
      :: (places [] (Declarations.builtInEntry :: data.outline)).map fun o => place data.openings o.1 := by
  have hlaid := isLaidOut_of_load h htexts
  have hbelow : data.openings.filter (isBelow []) = data.openings := filter_isBelow_openingsOf [] _
  have hexpand := hlaid.expandWithin_eq (nil_mem_paths _) hbelow (Nat.le_refl _)
  rw [place_nil, ← hlaid.size] at hexpand
  exact hexpand

end

end Edm
