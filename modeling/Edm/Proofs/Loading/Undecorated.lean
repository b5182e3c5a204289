import Edm.Loading

/-!
# Declaring without decorators

Decorators are not looked at while declarations are made and types are resolved.  Leaving them out of a description
leaves them out of what is declared, and changes nothing else (`Declarations.undecorated_declareNamespaces`); the graph
comes out the same (`Declarations.settleAll_undecorated`).
-/

namespace Edm

/-! ### Entries without decorators -/

/-- A property or a parameter without its decorators. -/
def PropertyEntry.undecorated (e : PropertyEntry) : PropertyEntry := { e with decorators := [] }

/-- A model without decorators on it and on its properties. -/
def ModelEntry.undecorated (e : ModelEntry) : ModelEntry :=
  { e with decorators := [], properties := e.properties.map PropertyEntry.undecorated }

/-- An operation without decorators on its parameters. -/
def OperationEntry.undecorated (e : OperationEntry) : OperationEntry :=
  { e with parameters := e.parameters.map PropertyEntry.undecorated }

/-- An interface without decorators on the parameters of its operations. -/
def InterfaceEntry.undecorated (e : InterfaceEntry) : InterfaceEntry :=
  { e with operations := e.operations.map OperationEntry.undecorated }

/-- The declarations of a namespace without decorators. -/
def DeclarationEntries.undecorated (e : DeclarationEntries) : DeclarationEntries :=
  { e with
    models := e.models.map ModelEntry.undecorated
    interfaces := e.interfaces.map InterfaceEntry.undecorated
    operations := e.operations.map OperationEntry.undecorated }

namespace NamespaceEntry

mutual

/-- A namespace without decorators anywhere inside. -/
def undecorated : NamespaceEntry → NamespaceEntry
  | entry n x cs => entry n x.undecorated (undecoratedAll cs)

/-- Namespaces without decorators anywhere inside. -/
def undecoratedAll : List NamespaceEntry → List NamespaceEntry
  | [] => []
  | e :: es => e.undecorated :: undecoratedAll es

end

theorem undecoratedAll_eq (es : List NamespaceEntry) : undecoratedAll es = es.map undecorated := by
  induction es with
  | nil => rfl
  | cons e es ih => rw [undecoratedAll, List.map_cons, ih]

end NamespaceEntry

namespace Declarations

/-! ### Declaring -/

/-- What is declared, with no decorators left to apply. -/
def undecorated (d : Declarations) : Declarations :=
  { d with decorations := d.decorations.map fun c => { c with decorators := [] } }

theorem undecorated_decorate (d : Declarations) (site : Text) (n : Node) (decorators : List Json) :
    (d.decorate site n decorators).undecorated = d.undecorated.decorate site n [] := by
  simp [undecorated, decorate]

theorem undecorated_refer (d : Declarations) (scope : List Text) (site : Text) (pending : Pending) :
    (d.refer scope site pending).undecorated = d.undecorated.refer scope site pending := rfl

/-- Steps that look at no decorators, one after the other. -/
theorem undecorated_foldl {α : Type} {f : Declarations → α → Declarations} {k : α → α}
    (h : ∀ d a, (f d a).undecorated = f d.undecorated (k a)) (d : Declarations) (l : List α) :
    (l.foldl f d).undecorated = (l.map k).foldl f d.undecorated := by
  induction l generalizing d with
  | nil => rfl
  | cons a l ih => rw [List.foldl_cons, List.map_cons, List.foldl_cons, ih, h]

theorem undecorated_property (owner : ModelId) (path : List Text) (site : Text) (d : Declarations) (e : PropertyEntry) :
    (declareProperty owner path site d e).undecorated
      = declareProperty owner path site d.undecorated e.undecorated := by
  unfold declareProperty
  dsimp only
  rw [undecorated_refer, undecorated_decorate]
  rfl

theorem undecorated_properties (owner : ModelId) (path : List Text) (site : Text) (d : Declarations)
    (es : List PropertyEntry) : (es.foldl (declareProperty owner path site) d).undecorated
      = (es.map PropertyEntry.undecorated).foldl (declareProperty owner path site) d.undecorated :=
  undecorated_foldl (undecorated_property owner path site) d es

theorem undecorated_model (space : NamespaceId) (path : List Text) (d : Declarations) (e : ModelEntry) :
    (declareModel space path d e).undecorated = declareModel space path d.undecorated e.undecorated := by
  obtain ⟨name, decorators, base, properties⟩ := e
  unfold declareModel
  dsimp only
  rw [undecorated_properties]
  cases base with
  | none =>
    dsimp only
    rw [undecorated_decorate]
    rfl
  | some type =>
    dsimp only
    rw [undecorated_refer, undecorated_decorate]
    rfl

theorem undecorated_operation (path : List Text) (outer : Text) (d : Declarations) (e : OperationEntry) :
    (declareOperation path outer d e).2.undecorated = (declareOperation path outer d.undecorated e.undecorated).2 := by
  unfold declareOperation
  dsimp only
  rw [undecorated_refer, undecorated_properties]
  rfl

theorem undecorated_listed (i : InterfaceId) (path : List Text) (outer : Text) (d : Declarations) (e : OperationEntry) :
    (declareListed i path outer d e).undecorated = declareListed i path outer d.undecorated e.undecorated := by
  have hoperation := undecorated_operation path outer d e
  exact congrArg (fun d' : Declarations =>
    { d' with graph := d'.graph.addOperation i (declareOperation path outer d e).1 }) hoperation

theorem undecorated_interface (space : NamespaceId) (path : List Text) (d : Declarations) (e : InterfaceEntry) :
    (declareInterface space path d e).undecorated = declareInterface space path d.undecorated e.undecorated := by
  obtain ⟨name, operations, route⟩ := e
  have hlisted := fun i site d => undecorated_foldl (undecorated_listed i path site) d operations
  unfold declareInterface
  dsimp only
  cases route with
  | none => exact hlisted _ _ _
  | some route =>
    exact congrArg (fun d' : Declarations =>
      { d' with store := d'.store.put .route (.interface d.graph.interfaces.size) (.string route) }) (hlisted _ _ _)

theorem undecorated_ownOperation (space : NamespaceId) (path : List Text) (d : Declarations) (e : OperationEntry) :
    (declareOwnOperation space path d e).undecorated = declareOwnOperation space path d.undecorated e.undecorated := by
  have hoperation := undecorated_operation path (Graph.dotted path) d e
  exact congrArg (fun d' : Declarations =>
    let i := (declareOperation path (Graph.dotted path) d e).1
    { d' with graph := d'.graph.list space (.operation i) }.register (siteOf (Graph.dotted path) e.name) (.operation i))
    hoperation

theorem undecorated_entries (space : NamespaceId) (path : List Text) (d : Declarations) (e : DeclarationEntries) :
    (declareEntries space path d e).undecorated = declareEntries space path d.undecorated e.undecorated := by
  have henums := undecorated_foldl (f := declareEnum space path) (k := id) (fun _ _ => rfl) d e.enums
  have hunions := fun d => undecorated_foldl (f := declareUnion space path) (k := id) (fun _ _ => rfl) d e.unions
  rw [List.map_id] at henums
  simp only [List.map_id] at hunions
  unfold declareEntries
  dsimp only
  rw [undecorated_foldl (undecorated_ownOperation space path), undecorated_foldl (undecorated_interface space path),
    hunions, undecorated_foldl (undecorated_model space path), henums]
  rfl

mutual

theorem undecorated_declareNamespace (outer : NamespaceId) (path : List Text) (d : Declarations) :
    (e : NamespaceEntry) →
      (declareNamespace outer path d e).undecorated = declareNamespace outer path d.undecorated e.undecorated
  | .entry n x cs => by
    rw [NamespaceEntry.undecorated, declareNamespace, declareNamespace]
    dsimp only
    rw [undecorated_declareNamespaces, undecorated_entries]
    rfl

/-- Declaring a description without its decorators gives the same, but for the decorators. -/
theorem undecorated_declareNamespaces (outer : NamespaceId) (path : List Text) (d : Declarations) :
    (es : List NamespaceEntry) → (declareNamespaces outer path d es).undecorated
      = declareNamespaces outer path d.undecorated (NamespaceEntry.undecoratedAll es)
  | [] => rfl
  | e :: es => by
    rw [NamespaceEntry.undecoratedAll, declareNamespaces, declareNamespaces, undecorated_declareNamespaces,
      undecorated_declareNamespace]

end

/-! ### Resolving -/

mutual

theorem resolve_undecorated (d : Declarations) (scope : List Text) (site : Text) : (e : TypeExpr) → (g : Graph) →
    d.undecorated.resolve scope site e g = d.resolve scope site e g
  | .named _, _ => rfl
  | .array e, g => by
    rw [resolve, resolve, resolve_undecorated]
  | .union es, g => by
    rw [resolve, resolve, resolveAll_undecorated]
  | .parameter _, _ | .intrinsic _, _ | .literal _ _, _ | .invalid _, _ | .optionsNotList, _ | .unnamed, _ => rfl

theorem resolveAll_undecorated (d : Declarations) (scope : List Text) (site : Text) : (es : List TypeExpr) →
    (g : Graph) → d.undecorated.resolveAll scope site es g = d.resolveAll scope site es g
  | [], _ => rfl
  | e :: es, g => by
    simp only [resolveAll, resolve_undecorated d scope site e, resolveAll_undecorated d scope site es]

end

/-- Types are resolved without a look at decorators. -/
theorem settleAll_undecorated (d : Declarations) : d.undecorated.settleAll = d.settleAll := by
  have hsettle : d.undecorated.settle = d.settle := by
    funext g r
    unfold settle
    simp only [resolve_undecorated, resolveAll_undecorated]
  rw [settleAll, settleAll, hsettle]
  rfl

end Declarations

end Edm
