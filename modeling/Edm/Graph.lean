import Edm.Graph.Members
import Edm.Graph.Node

/-!
# Type graphs

The nodes of a graph and what they own.  An owner lists its members by name, and a member refers back to
its owner; `Graph.list`, `Graph.addProperty`, `Graph.addMember` and `Graph.addOperation` set both, and
`Graph.attach`, `Graph.child`, `Graph.declareProperty` and `Graph.attachOperation` look at the name first.
Namespace zero is the root, which has no name.
-/

namespace Edm

/-- A namespace and its members. -/
structure Namespace where
  name : Label := .text []
  parent : Option NamespaceId := none
  namespaces : Members NamespaceId := []
  models : Members ModelId := []
  enums : Members EnumId := []
  interfaces : Members InterfaceId := []
  operations : Members OperationId := []
  unions : Members UnionId := []
deriving Repr, Inhabited

/-- A model; one without a name is a bag of properties. -/
structure Model where
  name : Label := .text []
  properties : Members PropertyId := []
  base : Option Node := none
  owner : Option NamespaceId := none
deriving Repr, Inhabited

/-- A property of a model, or a parameter of an operation. -/
structure Property where
  name : Label
  type : Node
  optional : Bool := false
  owner : Option ModelId := none
deriving Repr, Inhabited

/-- An enum and its members in order; names may repeat. -/
structure Enum where
  name : Label
  members : List MemberId := []
  owner : Option NamespaceId := none
deriving Repr, Inhabited

/-- A member of an enum; its value is null if it has none. -/
structure Member where
  name : Label
  value : Json := .null
  owner : Option EnumId := none
deriving Repr, Inhabited

/-- A group of operations. -/
structure Interface where
  name : Label
  operations : Members OperationId := []
  owner : Option NamespaceId := none
deriving Repr, Inhabited

/-- An operation: its parameters are the properties of a model without a name. -/
structure Operation where
  name : Label
  parameters : ModelId
  result : Option Node := none
  owner : Option NamespaceId := none
  interface : Option InterfaceId := none
deriving Repr, Inhabited

/-- A union; the name of one that is written in place is null. -/
structure Union where
  name : Label := .raw .null
  options : List Node := []
  owner : Option NamespaceId := none
deriving Repr, Inhabited

/-- A type graph.  `serial` numbers the types that have no place in a table; zero is the type that is not
resolved. -/
structure Graph where
  namespaces : Table Namespace := ⟨#[{}]⟩
  models : Table Model := {}
  properties : Table Property := {}
  enums : Table Enum := {}
  members : Table Member := {}
  interfaces : Table Interface := {}
  operations : Table Operation := {}
  unions : Table Union := {}
  serial : Nat := 1
deriving Repr, Inhabited

/-- Why a node cannot become a member of a namespace. -/
inductive DeclareError
  | undeclarable (kind : Kind)
  | unnamed (kind : Kind)
  | unkeyable
  | kindless
deriving DecidableEq, Repr

/-- The wording of an error; there is none for a name that cannot be a key and for an object without a
kind. -/
def DeclareError.message : DeclareError → Option Text
  | undeclarable kind => some (kind.tag ++ " cannot be declared in a namespace")
  | unnamed kind => some ("Namespace members must be named (" ++ kind.tag ++ ")")
  | unkeyable => none
  | kindless => none

namespace Graph

/-- The namespace that all others are in. -/
def root : NamespaceId := 0

/-! ### New nodes -/

/-- A new namespace that nothing owns. -/
def newNamespace (g : Graph) (n : Namespace) : NamespaceId × Graph :=
  (g.namespaces.size, { g with namespaces := g.namespaces.push n })

/-- A new model that nothing owns. -/
def newModel (g : Graph) (m : Model) : ModelId × Graph :=
  (g.models.size, { g with models := g.models.push m })

/-- A new property that no model lists. -/
def newProperty (g : Graph) (p : Property) : PropertyId × Graph :=
  (g.properties.size, { g with properties := g.properties.push p })

/-- A new enum that nothing owns. -/
def newEnum (g : Graph) (e : Enum) : EnumId × Graph :=
  (g.enums.size, { g with enums := g.enums.push e })

/-- A new member that no enum lists. -/
def newMember (g : Graph) (m : Member) : MemberId × Graph :=
  (g.members.size, { g with members := g.members.push m })

/-- A new interface that nothing owns. -/
def newInterface (g : Graph) (i : Interface) : InterfaceId × Graph :=
  (g.interfaces.size, { g with interfaces := g.interfaces.push i })

/-- A new operation without parameters that nothing owns. -/
def newOperation (g : Graph) (name : Label) (result : Option Node) : OperationId × Graph :=
  let (parameters, g) := g.newModel {}
  (g.operations.size, { g with operations := g.operations.push { name, parameters, result } })

/-- A new union that nothing owns. -/
def newUnion (g : Graph) (u : Union) : UnionId × Graph :=
  (g.unions.size, { g with unions := g.unions.push u })

/-- A new type made by `make` from a number that no other type has. -/
def newType (g : Graph) (make : Nat → Node) : Node × Graph :=
  (make g.serial, { g with serial := g.serial + 1 })

/-! ### Changes -/

/-- Changes a namespace. -/
def modifyNamespace (g : Graph) (i : NamespaceId) (f : Namespace → Namespace) : Graph :=
  { g with namespaces := g.namespaces.modify i f }

/-- Changes a model. -/
def modifyModel (g : Graph) (i : ModelId) (f : Model → Model) : Graph :=
  { g with models := g.models.modify i f }

/-- Changes a property. -/
def modifyProperty (g : Graph) (i : PropertyId) (f : Property → Property) : Graph :=
  { g with properties := g.properties.modify i f }

/-- Changes an enum. -/
def modifyEnum (g : Graph) (i : EnumId) (f : Enum → Enum) : Graph :=
  { g with enums := g.enums.modify i f }

/-- Changes an interface. -/
def modifyInterface (g : Graph) (i : InterfaceId) (f : Interface → Interface) : Graph :=
  { g with interfaces := g.interfaces.modify i f }

/-- Changes an operation. -/
def modifyOperation (g : Graph) (i : OperationId) (f : Operation → Operation) : Graph :=
  { g with operations := g.operations.modify i f }

/-- Changes a union. -/
def modifyUnion (g : Graph) (i : UnionId) (f : Union → Union) : Graph :=
  { g with unions := g.unions.modify i f }

/-! ### Ownership -/

/-- The name of a node, if it is of a kind that has names. -/
def name? (g : Graph) : Node → Option Label
  | .nameSpace i => some (g.namespaces.get i).name
  | .model i => some (g.models.get i).name
  | .property i => some (g.properties.get i).name
  | .enum i => some (g.enums.get i).name
  | .member i => some (g.members.get i).name
  | .interface i => some (g.interfaces.get i).name
  | .operation i => some (g.operations.get i).name
  | .union i => some (g.unions.get i).name
  | .parameter _ name => some name
  | .intrinsic _ name => some name
  | _ => none

/-- The name of a node; one of a kind without names has no name that could be written. -/
def nameOf (g : Graph) (node : Node) : Label := (g.name? node).getD .unformed

/-- Makes a node refer to a namespace as its owner. -/
def setOwner (g : Graph) (owner : NamespaceId) : Node → Graph
  | .nameSpace i => g.modifyNamespace i fun n => { n with parent := some owner }
  | .model i => g.modifyModel i fun m => { m with owner := some owner }
  | .enum i => g.modifyEnum i fun e => { e with owner := some owner }
  | .interface i => g.modifyInterface i fun f => { f with owner := some owner }
  | .operation i => g.modifyOperation i fun o => { o with owner := some owner }
  | .union i => g.modifyUnion i fun u => { u with owner := some owner }
  | _ => g

/-- Makes a namespace list a node under a name, in the place of one of the same kind and name if there is
one. -/
def enter (g : Graph) (owner : NamespaceId) (name : Label) : Node → Graph
  | .nameSpace i => g.modifyNamespace owner fun n => { n with namespaces := n.namespaces.insert name i }
  | .model i => g.modifyNamespace owner fun n => { n with models := n.models.insert name i }
  | .enum i => g.modifyNamespace owner fun n => { n with enums := n.enums.insert name i }
  | .interface i => g.modifyNamespace owner fun n => { n with interfaces := n.interfaces.insert name i }
  | .operation i => g.modifyNamespace owner fun n => { n with operations := n.operations.insert name i }
  | .union i => g.modifyNamespace owner fun n => { n with unions := n.unions.insert name i }
  | _ => g

/-- Lists a node under its name in a namespace.  The node refers to the namespace from then on; no earlier
owner forgets it. -/
def list (g : Graph) (owner : NamespaceId) (node : Node) : Graph :=
  (g.setOwner owner node).enter owner (g.nameOf node) node

/-- Whether a namespace can list a member of a kind under a name. -/
def checkName (kind : Kind) (name : Label) : Except DeclareError Unit :=
  if !name.truthy then .error (.unnamed kind)
  else if !name.keyable then .error .unkeyable
  else .ok ()

/-- Lists a node in a namespace if it is of a kind that namespaces list and has a name.  A node whose name
cannot be a key refers to the namespace all the same. -/
def attach (g : Graph) (owner : NamespaceId) (node : Node) : Except DeclareError Unit × Graph :=
  match node.declarableKind? with
  | none =>
    (.error (match node.kind? with
      | some kind => .undeclarable kind
      | none => .kindless), g)
  | some kind => match checkName kind (g.nameOf node) with
    | .ok () => (.ok (), g.list owner node)
    | .error .unkeyable => (.error .unkeyable, g.setOwner owner node)
    | .error e => (.error e, g)

/-- The namespace of a name in another one; it is made if it is not there. -/
def openNamespace (g : Graph) (owner : NamespaceId) (name : Label) : NamespaceId × Graph :=
  match (g.namespaces.get owner).namespaces.lookup name with
  | some i => (i, g)
  | none =>
    let (i, g) := g.newNamespace { name }
    (i, g.list owner (.nameSpace i))

/-- The namespace of a name in another one; it is made if it is not there and the name can be used. -/
def child (g : Graph) (owner : NamespaceId) (name : Label) : Except DeclareError (NamespaceId × Graph) :=
  if !name.keyable then .error .unkeyable
  else match (g.namespaces.get owner).namespaces.lookup name with
    | some i => .ok (i, g)
    | none => if name.truthy then .ok (g.openNamespace owner name) else .error (.unnamed .nameSpace)

/-- Adds a new property to a model, in the place of one of the same name if there is one. -/
def addProperty (g : Graph) (owner : ModelId) (name : Label) (type : Node) (optional : Bool) :
    PropertyId × Graph :=
  let (i, g) := g.newProperty { name, type, optional, owner := some owner }
  (i, g.modifyModel owner fun m => { m with properties := m.properties.insert name i })

/-- Adds a new property to a model if its name can be a key. -/
def declareProperty (g : Graph) (owner : ModelId) (name : Label) (type : Node) (optional : Bool) :
    Except DeclareError (PropertyId × Graph) :=
  if name.keyable then .ok (g.addProperty owner name type optional) else .error .unkeyable

/-- Adds a new member at the end of an enum. -/
def addMember (g : Graph) (owner : EnumId) (name : Label) (value : Json) : MemberId × Graph :=
  let (i, g) := g.newMember { name, value, owner := some owner }
  (i, g.modifyEnum owner fun e => { e with members := e.members ++ [i] })

/-- Makes an operation refer to an interface, and to the namespace that the interface is in at this time. -/
def setInterface (g : Graph) (owner : InterfaceId) (operation : OperationId) : Graph :=
  let space := (g.interfaces.get owner).owner
  g.modifyOperation operation fun o => { o with interface := some owner, owner := space }

/-- Lists an operation in an interface, in the place of one of the same name if there is one. -/
def addOperation (g : Graph) (owner : InterfaceId) (operation : OperationId) : Graph :=
  let name := (g.operations.get operation).name
  (g.setInterface owner operation).modifyInterface owner
    fun f => { f with operations := f.operations.insert name operation }

/-- Lists an operation in an interface if its name can be a key; it refers to the interface in any case. -/
def attachOperation (g : Graph) (owner : InterfaceId) (operation : OperationId) :
    Except DeclareError Unit × Graph :=
  if (g.operations.get operation).name.keyable then (.ok (), g.addOperation owner operation)
  else (.error .unkeyable, g.setInterface owner operation)

end Graph

end Edm
