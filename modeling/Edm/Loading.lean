import Edm.Description
import Edm.Graph.TypeName
import Edm.Program

/-!
# Loading

From a description to a program, in three steps.  All declarations are made first, so that references may
lead forward and in circles; then the references to types are resolved, each in the scope of the namespace
that it is written in; then the decorators are applied.
-/

namespace Edm

/-- The namespace of the built-in models. -/
def builtInNamespace : Text := "Cadl"

/-- The built-in models that are no primitive types of schemas. -/
def otherBuiltInModels : List Text :=
  ["uint8", "uint16", "uint32", "uint64", "safeint", "numeric", "integer", "float"]

/-- The models that are there before a description is read. -/
def builtInModels : List Text :=
  primitiveTypes.map Prod.fst ++ otherBuiltInModels

/-- The intrinsic types. -/
def intrinsicTypes : List Text := ["void", "null", "unknown", "never"]

/-- Something that waits for a type. -/
inductive Pending
  | base (model : ModelId) (type : TypeExpr)
  | property (id : PropertyId) (type : TypeExpr)
  | options (union : UnionId) (types : List TypeExpr)
  | result (operation : OperationId) (type : TypeExpr)
deriving Repr

/-- A reference that is to be resolved: what for, in the namespace at which path, and at which site. -/
structure Reference where
  pending : Pending
  scope : List Text
  site : Text
deriving Repr

/-- The decorators of a declaration. -/
structure Decoration where
  site : Text
  target : Node
  decorators : List Json
deriving Repr

/-- How far loading has come: the graph and the routes, the built-in models and the declared types by name,
and what is left to resolve and to apply, in order. -/
structure Declarations where
  graph : Graph := {}
  store : AnnotationStore := {}
  builtIns : List (Text × Node) := []
  /-- The declared types by site, the last one first. -/
  types : List (Text × Node) := []
  references : List Reference := []
  decorations : List Decoration := []

namespace Declarations

/-! ### Declarations -/

/-- Makes a declared type known under its site. -/
def register (d : Declarations) (site : Text) (node : Node) : Declarations :=
  { d with types := (site, node) :: d.types }

/-- Leaves a reference to be resolved. -/
def refer (d : Declarations) (scope : List Text) (site : Text) (pending : Pending) : Declarations :=
  { d with references := d.references ++ [{ pending, scope, site }] }

/-- Leaves decorators to be applied. -/
def decorate (d : Declarations) (site : Text) (target : Node) (decorators : List Json) : Declarations :=
  { d with decorations := d.decorations ++ [{ site, target, decorators }] }

/-- Declares a built-in model. -/
def declareBuiltIn (space : NamespaceId) (d : Declarations) (name : Text) : Declarations :=
  let (i, g) := d.graph.newModel { name := .text name }
  { d with graph := g.list space (.model i), builtIns := d.builtIns ++ [(name, .model i)] }

/-- The declarations that are there before a description is read. -/
def initial : Declarations :=
  let (space, g) := ({} : Graph).openNamespace Graph.root (.text builtInNamespace)
  builtInModels.foldl (declareBuiltIn space) { graph := g }

/-- Declares an enum of the namespace at a path. -/
def declareEnum (space : NamespaceId) (path : List Text) (d : Declarations) (e : EnumEntry) : Declarations :=
  let (i, g) := d.graph.newEnum { name := e.name }
  let g := g.list space (.enum i)
  let g := e.members.foldl (fun g m => (g.addMember i m.name m.value).2) g
  { d with graph := g }.register (siteOf (Graph.dotted path) e.name) (.enum i)

/-- Declares a property or a parameter of the declaration at a site. -/
def declareProperty (owner : ModelId) (path : List Text) (site : Text) (d : Declarations)
    (e : PropertyEntry) : Declarations :=
  let (i, g) := d.graph.addProperty owner e.name .unresolved e.optional
  let here := siteOf site e.name
  ({ d with graph := g }.decorate here (.property i) e.decorators).refer path here (.property i e.type)

/-- Declares a model of the namespace at a path. -/
def declareModel (space : NamespaceId) (path : List Text) (d : Declarations) (e : ModelEntry) :
    Declarations :=
  let (i, g) := d.graph.newModel { name := e.name }
  let site := siteOf (Graph.dotted path) e.name
  let d := ({ d with graph := g.list space (.model i) }.register site (.model i)).decorate site (.model i)
    e.decorators
  let d := match e.base with
    | some type => d.refer path site (.base i type)
    | none => d
  e.properties.foldl (declareProperty i path site) d

/-- Declares a union of the namespace at a path. -/
def declareUnion (space : NamespaceId) (path : List Text) (d : Declarations) (e : UnionEntry) :
    Declarations :=
  let (i, g) := d.graph.newUnion { name := e.name }
  let site := siteOf (Graph.dotted path) e.name
  ({ d with graph := g.list space (.union i) }.register site (.union i)).refer path site (.options i e.options)

/-- Declares an operation that is inside the declaration at a site. -/
def declareOperation (path : List Text) (outer : Text) (d : Declarations) (e : OperationEntry) :
    OperationId × Declarations :=
  let (i, g) := d.graph.newOperation e.name none
  let site := siteOf outer e.name
  let parameters := (g.operations.get i).parameters
  let d := e.parameters.foldl (declareProperty parameters path site) { d with graph := g }
  (i, d.refer path site (.result i e.result))

/-- Declares an operation of an interface. -/
def declareListed (interface : InterfaceId) (path : List Text) (outer : Text) (d : Declarations)
    (e : OperationEntry) : Declarations :=
  let (i, d) := d.declareOperation path outer e
  { d with graph := d.graph.addOperation interface i }

/-- Declares an interface of the namespace at a path. -/
def declareInterface (space : NamespaceId) (path : List Text) (d : Declarations) (e : InterfaceEntry) :
    Declarations :=
  let (i, g) := d.graph.newInterface { name := e.name }
  let site := siteOf (Graph.dotted path) e.name
  let d := { d with graph := g.list space (.interface i) }.register site (.interface i)
  let d := e.operations.foldl (declareListed i path site) d
  match e.route with
  | some route => { d with store := d.store.put .route (.interface i) (.string route) }
  | none => d

/-- Declares an operation of the namespace at a path. -/
def declareOwnOperation (space : NamespaceId) (path : List Text) (d : Declarations) (e : OperationEntry) :
    Declarations :=
  let (i, d) := d.declareOperation path (Graph.dotted path) e
  { d with graph := d.graph.list space (.operation i) }.register (siteOf (Graph.dotted path) e.name)
    (.operation i)

/-- Makes the declarations of the namespace at a path. -/
def declareEntries (space : NamespaceId) (path : List Text) (d : Declarations) (e : DeclarationEntries) :
    Declarations :=
  let d := e.enums.foldl (declareEnum space path) d
  let d := e.models.foldl (declareModel space path) d
  let d := e.unions.foldl (declareUnion space path) d
  let d := e.interfaces.foldl (declareInterface space path) d
  e.operations.foldl (declareOwnOperation space path) d

mutual

/-- Declares a namespace that is inside the one at a path.  One that is there already is continued. -/
def declareNamespace (outer : NamespaceId) (path : List Text) (d : Declarations) :
    NamespaceEntry → Declarations
  | .entry name declarations children =>
    let (space, g) := d.graph.openNamespace outer (.text name)
    let path := path ++ [name]
    declareNamespaces space path (declareEntries space path { d with graph := g } declarations) children

/-- Declares namespaces that are inside the one at a path. -/
def declareNamespaces (outer : NamespaceId) (path : List Text) (d : Declarations) :
    List NamespaceEntry → Declarations
  | [] => d
  | n :: ns => declareNamespaces outer path (declareNamespace outer path d n) ns

end

/-! ### References -/

/-- The node that is known under a name. -/
def find (name : Text) : List (Text × Node) → Option Node
  | [] => none
  | (n, node) :: rest => if n = name then some node else find name rest

/-- The declared type that a name refers to in the namespaces of a path, given from the innermost one
outward, or else by itself. -/
def findFrom (types : List (Text × Node)) (name : Text) : (inward : List Text) → Option Node
  | [] => find name types
  | n :: outer =>
    match find (Graph.dotted (outer.reverse ++ [n]) ++ "." ++ name) types with
    | some node => some node
    | none => findFrom types name outer

/-- The type that a name refers to in the namespace at a path.  An intrinsic type is made anew each time. -/
def resolveName (d : Declarations) (scope : List Text) (site name : Text) (g : Graph) :
    Except LoadError (Node × Graph) :=
  if intrinsicTypes.contains name then .ok (g.newType fun i => .intrinsic i (.text name))
  else match find name d.builtIns with
    | some node => .ok (node, g)
    | none => match findFrom d.types name scope.reverse with
      | some node => .ok (node, g)
      | none => .error (.unknownType name site)

mutual

/-- The type that an expression refers to in the namespace at a path, with the types that it makes. -/
def resolve (d : Declarations) (scope : List Text) (site : Text) :
    TypeExpr → Graph → Except LoadError (Node × Graph)
  | .named name, g => d.resolveName scope site name g
  | .array element, g => do
    let (node, g) ← d.resolve scope site element g
    return g.newType fun i => .array i node
  | .union options, g => do
    let (nodes, g) ← d.resolveAll scope site options g
    let (i, g) := g.newUnion { options := nodes }
    return (.union i, g)
  | .parameter name, g => .ok (g.newType fun i => .parameter i name)
  | .intrinsic name, g => .ok (g.newType fun i => .intrinsic i name)
  | .literal kind value, g => .ok (g.newType fun i => .literal i kind value)
  | .invalid value, _ => .error (.invalidReference value site)
  | .optionsNotList, _ => .error (.optionsNotList site)
  | .unnamed, _ => .error (.missing "name" site)

/-- The types that expressions refer to in the namespace at a path, with the types that they make. -/
def resolveAll (d : Declarations) (scope : List Text) (site : Text) :
    List TypeExpr → Graph → Except LoadError (List Node × Graph)
  | [], g => .ok ([], g)
  | e :: es, g => do
    let (node, g) ← d.resolve scope site e g
    let (nodes, g) ← d.resolveAll scope site es g
    return (node :: nodes, g)

end

/-- Resolves a reference. -/
def settle (d : Declarations) (g : Graph) (r : Reference) : Except LoadError Graph :=
  match r.pending with
  | .base model type => do
    let (node, g) ← d.resolve r.scope r.site type g
    match node with
    | .model _ => return g.modifyModel model fun m => { m with base := some node }
    | other => throw (.baseNotModel r.site other.tag)
  | .property id type => do
    let (node, g) ← d.resolve r.scope r.site type g
    return g.modifyProperty id fun p => { p with type := node }
  | .options union types => do
    let (nodes, g) ← d.resolveAll r.scope r.site types g
    return g.modifyUnion union fun u => { u with options := nodes }
  | .result operation type => do
    let (node, g) ← d.resolve r.scope r.site type g
    return g.modifyOperation operation fun o => { o with result := some node }

/-- Resolves all references. -/
def settleAll (d : Declarations) : Except LoadError Graph := d.references.foldlM d.settle d.graph

end Declarations

/-! ### Decorators -/

/-- The name and the arguments of a decorator: a text, or an object with both. -/
def decoratorCall (site : Text) (decorator : Json) : Except LoadError (Text × List Json) :=
  match decorator with
  | .string name => .ok (name, [])
  | v => match v.field? "name" with
    | some (.string name) => match v.field? "args" with
      | none => .ok (name, [])
      | some (.array arguments) => .ok (name, arguments)
      | some _ => .error (.argumentsNotList site)
    | _ => .error (.invalidDecorator v site)

namespace Program

/-- Applies the decorators of a declaration. -/
def decorateAll (p : Program) (d : Decoration) : Except LoadError Program :=
  d.decorators.foldlM
    (fun p decorator => do
      let (name, arguments) ← decoratorCall d.site decorator
      return (p.decorate (.text d.site) name d.target arguments).2)
    p

/-- The program that a description gives. -/
def load (data : Json) : Except LoadError Program := do
  let description ← readDescription data
  let d := Declarations.declareNamespaces Graph.root [] Declarations.initial description
  let graph ← d.settleAll
  d.decorations.foldlM decorateAll { graph, store := d.store }

end Program

end Edm
