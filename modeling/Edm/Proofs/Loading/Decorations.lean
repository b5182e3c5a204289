import Edm.Proofs.Loading.Built
import Mathlib.Data.List.Forall2

/-!
# Decorators that are left to apply

Declaring applies no decorators: it leaves those of each declaration for later, in the order of the description, one
entry for each model, property and parameter (`Decorable`), and the declarations that a later one of the same name
replaces are no exception.  `Declarations.Decorates` says what a step leaves, and
`Declarations.isLeft_ofDescription` what a whole description does.
-/

namespace Edm

/-! ### What can have decorators -/

/-- A declaration that can have decorators, with those that it has. -/
structure Decorable where
  kind : Kind
  name : Label
  decorators : List Json

/-- A property or a parameter. -/
def PropertyEntry.decorable (e : PropertyEntry) : Decorable := ⟨.property, e.name, e.decorators⟩

/-- A model, and then its properties. -/
def ModelEntry.decorables (e : ModelEntry) : List Decorable :=
  ⟨.model, e.name, e.decorators⟩ :: e.properties.map PropertyEntry.decorable

/-- The parameters of an operation. -/
def OperationEntry.decorables (e : OperationEntry) : List Decorable := e.parameters.map PropertyEntry.decorable

/-- The parameters of the operations of an interface. -/
def InterfaceEntry.decorables (e : InterfaceEntry) : List Decorable := e.operations.flatMap OperationEntry.decorables

/-- What can have decorators among the declarations of a namespace. -/
def DeclarationEntries.decorables (e : DeclarationEntries) : List Decorable :=
  e.models.flatMap ModelEntry.decorables ++ e.interfaces.flatMap InterfaceEntry.decorables
    ++ e.operations.flatMap OperationEntry.decorables

namespace NamespaceEntry

mutual

/-- What can have decorators in a namespace and in all inside it. -/
def decorables : NamespaceEntry → List Decorable
  | entry _ x cs => x.decorables ++ decorablesOf cs

/-- What can have decorators in some namespaces and in all inside them. -/
def decorablesOf : List NamespaceEntry → List Decorable
  | [] => []
  | e :: es => e.decorables ++ decorablesOf es

end

end NamespaceEntry

namespace Declarations

/-! ### What a step leaves -/

/-- The decorators that are left for the node of a declaration. -/
inductive IsLeft (g : Graph) : Decorable → Decoration → Prop
  | model {name : Label} {site : Text} {i : ModelId} {decorators : List Json} :
      IsLeft g ⟨.model, name, decorators⟩ ⟨site, .model i, decorators⟩
  | property {q : Property} {site : Text} {i : PropertyId} {decorators : List Json} :
      g.properties.get? i = some q → IsLeft g ⟨.property, q.name, decorators⟩ ⟨site, .property i, decorators⟩

/-- What a step of declaring leaves to decorate, while the properties that are there stay as they are. -/
structure Decorates (d d' : Declarations) (xs : List Decorable) : Prop where
  properties : ∀ i q, d.graph.properties.get? i = some q → d'.graph.properties.get? i = some q
  decorations : ∃ cs, d'.decorations = d.decorations ++ cs ∧ List.Forall₂ (IsLeft d'.graph) xs cs

section

variable {d d' d'' : Declarations} {xs ys : List Decorable}

theorem IsLeft.mono {g g' : Graph} {x : Decorable} {c : Decoration} (h : IsLeft g x c)
    (hg : ∀ i q, g.properties.get? i = some q → g'.properties.get? i = some q) : IsLeft g' x c := by
  cases h with
  | model => exact .model
  | property hq => exact .property (hg _ _ hq)

namespace Decorates

theorem of_properties (hgraph : d'.graph.properties = d.graph.properties)
    (hdecorations : d'.decorations = d.decorations) :
    Decorates d d' [] :=
  ⟨fun i q hq => by rw [hgraph, hq], [], by rw [hdecorations, List.append_nil], .nil⟩

theorem refl (d : Declarations) : Decorates d d [] := of_properties rfl rfl

theorem trans (h : Decorates d d' xs) (h' : Decorates d' d'' ys) : Decorates d d'' (xs ++ ys) := by
  obtain ⟨cs, hcs, hleft⟩ := h.decorations
  obtain ⟨cs', hcs', hleft'⟩ := h'.decorations
  refine ⟨fun i q hq => h'.properties i q (h.properties i q hq), cs ++ cs', ?_, ?_⟩
  · rw [hcs', hcs, List.append_assoc]
  · exact List.rel_append (hleft.imp fun _ _ hc => hc.mono h'.properties) hleft'

/-- A step that leaves nothing may come before or after. -/
theorem silent (h : Decorates d d' xs) (h' : Decorates d' d'' []) : Decorates d d'' xs := by
  have hboth := h.trans h'
  rwa [List.append_nil] at hboth

theorem foldl {α : Type} {f : Declarations → α → Declarations} {left : α → List Decorable}
    (h : ∀ d a, Decorates d (f d a) (left a)) (d : Declarations) (l : List α) :
    Decorates d (l.foldl f d) (l.flatMap left) := by
  induction l generalizing d with
  | nil => exact refl d
  | cons a l ih => exact (h d a).trans (ih (f d a))

end Decorates

/-! ### Declarations -/

theorem properties_list (g : Graph) (space : NamespaceId) (n : Node) : (g.list space n).properties = g.properties := by
  cases n <;> rfl

theorem properties_openNamespace (g : Graph) (outer : NamespaceId) (name : Label) :
    (g.openNamespace outer name).2.properties = g.properties := by
  unfold Graph.openNamespace
  split
  · rfl
  · exact properties_list ..

theorem decorates_decorate (d : Declarations) (site : Text) {n : Node} {x : Decorable}
    (h : IsLeft d.graph x ⟨site, n, x.decorators⟩) : Decorates d (d.decorate site n x.decorators) [x] :=
  ⟨fun _ _ hq => hq, _, rfl, .cons h .nil⟩

theorem decorates_property (owner : ModelId) (path : List Text) (site : Text) (d : Declarations) (e : PropertyEntry) :
    Decorates d (declareProperty owner path site d e) [e.decorable] := by
  let q : Property := { name := e.name, type := .unresolved, optional := e.optional, owner := some owner }
  have hproperties : (declareProperty owner path site d e).graph.properties = d.graph.properties.push q := rfl
  have hleft : IsLeft (declareProperty owner path site d e).graph e.decorable
      ⟨siteOf site e.name, .property d.graph.properties.size, e.decorators⟩ := by
    refine .property (q := q) ?_
    rw [hproperties, Table.get?_push, if_pos rfl]
  refine ⟨fun i r hr => ?_, _, rfl, .cons hleft .nil⟩
  have hi : i < d.graph.properties.size := Table.lt_size_of_get? (by rw [hr]; rfl)
  rw [hproperties, Table.get?_push, if_neg (Nat.ne_of_lt hi), hr]

theorem decorates_properties (owner : ModelId) (path : List Text) (site : Text) (d : Declarations)
    (es : List PropertyEntry) :
    Decorates d (es.foldl (declareProperty owner path site) d) (es.map PropertyEntry.decorable) := by
  have hfold := Decorates.foldl (decorates_property owner path site) d es
  rwa [← List.map_eq_flatMap] at hfold

theorem decorates_enum (space : NamespaceId) (path : List Text) (d : Declarations) (e : EnumEntry) :
    Decorates d (declareEnum space path d e) [] := by
  refine .of_properties ?_ rfl
  exact List.foldlRecOn (motive := fun g : Graph => g.properties = d.graph.properties) e.members _
    (properties_list ..) fun _ h _ _ => h

theorem decorates_model (space : NamespaceId) (path : List Text) (d : Declarations) (e : ModelEntry) :
    Decorates d (declareModel space path d e) e.decorables := by
  obtain ⟨name, decorators, base, properties⟩ := e
  let site := siteOf (Graph.dotted path) name
  let i := d.graph.models.size
  let d₁ := { d with graph := (d.graph.newModel { name }).2.list space (.model i) }.register site (.model i)
  have hlist : Decorates d d₁ [] := .of_properties (properties_list ..) rfl
  have hown : Decorates d₁ (d₁.decorate site (.model i) decorators) [⟨.model, name, decorators⟩] :=
    decorates_decorate d₁ site .model
  have hproperties := fun d₂ => decorates_properties i path site d₂ properties
  cases base with
  | none => exact (hlist.trans hown).trans (hproperties _)
  | some type =>
    let d₂ := d₁.decorate site (.model i) decorators
    have hbase : Decorates d₂ (d₂.refer path site (.base i type)) [] := .of_properties rfl rfl
    exact ((hlist.trans hown).silent hbase).trans (hproperties _)

theorem decorates_union (space : NamespaceId) (path : List Text) (d : Declarations) (e : UnionEntry) :
    Decorates d (declareUnion space path d e) [] :=
  .of_properties (properties_list ..) rfl

theorem decorates_operation (path : List Text) (outer : Text) (d : Declarations) (e : OperationEntry) :
    Decorates d (declareOperation path outer d e).2 e.decorables := by
  let g := (d.graph.newOperation e.name none).2
  have hnew : Decorates d { d with graph := g } [] := .of_properties rfl rfl
  have hparameters := decorates_properties (g.operations.get d.graph.operations.size).parameters path
    (siteOf outer e.name) { d with graph := g } e.parameters
  exact (hnew.trans hparameters).silent (.of_properties rfl rfl)

theorem decorates_interface (space : NamespaceId) (path : List Text) (d : Declarations) (e : InterfaceEntry) :
    Decorates d (declareInterface space path d e) e.decorables := by
  let site := siteOf (Graph.dotted path) e.name
  let i := d.graph.interfaces.size
  let d₁ := { d with graph := (d.graph.newInterface { name := e.name }).2.list space (.interface i) }.register site
    (.interface i)
  have hlist : Decorates d d₁ [] := .of_properties (properties_list ..) rfl
  have hlisted : ∀ d₂ x, Decorates d₂ (declareListed i path site d₂ x) x.decorables := by
    intro d₂ x
    exact (decorates_operation path site d₂ x).silent (.of_properties rfl rfl)
  have hall := hlist.trans (Decorates.foldl hlisted d₁ e.operations)
  unfold declareInterface
  dsimp only
  cases e.route with
  | none => exact hall
  | some route => exact hall.silent (.of_properties rfl rfl)

theorem decorates_ownOperation (space : NamespaceId) (path : List Text) (d : Declarations) (e : OperationEntry) :
    Decorates d (declareOwnOperation space path d e) e.decorables :=
  (decorates_operation path _ d e).silent (.of_properties (properties_list ..) rfl)

theorem decorates_entries (space : NamespaceId) (path : List Text) (d : Declarations) (e : DeclarationEntries) :
    Decorates d (declareEntries space path d e) e.decorables := by
  have henums := Decorates.foldl (decorates_enum space path) d e.enums
  have hmodels := henums.trans (Decorates.foldl (decorates_model space path) _ e.models)
  have hunions := hmodels.trans (Decorates.foldl (decorates_union space path) _ e.unions)
  have hinterfaces := hunions.trans (Decorates.foldl (decorates_interface space path) _ e.interfaces)
  have hall := hinterfaces.trans (Decorates.foldl (decorates_ownOperation space path) _ e.operations)
  have hnothing : ∀ {α : Type} (l : List α), l.flatMap (fun _ => ([] : List Decorable)) = [] := fun l => by simp
  rw [hnothing, hnothing, List.nil_append, List.append_nil] at hall
  exact hall

end

mutual

theorem decorates_namespace (outer : NamespaceId) (path : List Text) (d : Declarations) :
    (e : NamespaceEntry) → Decorates d (declareNamespace outer path d e) e.decorables
  | .entry name x cs => by
    rw [declareNamespace, NamespaceEntry.decorables]
    have hopen : Decorates d { d with graph := (d.graph.openNamespace outer (.text name)).2 } [] :=
      .of_properties (properties_openNamespace ..) rfl
    exact (hopen.trans (decorates_entries _ _ _ x)).trans (decorates_declareNamespaces _ _ _ cs)

/-- Declaring namespaces leaves the decorators of all that can have some, in their order. -/
theorem decorates_declareNamespaces (outer : NamespaceId) (path : List Text) (d : Declarations) :
    (es : List NamespaceEntry) → Decorates d (declareNamespaces outer path d es) (NamespaceEntry.decorablesOf es)
  | [] => Decorates.refl d
  | e :: es => by
    rw [declareNamespaces, NamespaceEntry.decorablesOf]
    exact (decorates_namespace outer path d e).trans (decorates_declareNamespaces outer path _ es)

end

theorem decorations_initial : initial.decorations = [] := by
  unfold initial
  exact List.foldlRecOn (motive := fun d : Declarations => d.decorations = []) builtInModels _ rfl fun _ h _ _ => h

/-- The decorators of a description are left for the nodes of its declarations, in their order. -/
theorem isLeft_ofDescription (es : List NamespaceEntry) : List.Forall₂ (IsLeft (ofDescription es).graph)
    (NamespaceEntry.decorablesOf es) (ofDescription es).decorations := by
  obtain ⟨-, cs, hcs, hleft⟩ := decorates_declareNamespaces Graph.root [] initial es
  rw [decorations_initial, List.nil_append] at hcs
  rw [ofDescription, hcs]
  exact hleft

end Declarations

end Edm
