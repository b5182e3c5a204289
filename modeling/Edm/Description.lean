import Edm.Description.TypeExpr
import Edm.Graph.Identifier
import Edm.LoadError

/-!
# Descriptions

The entries of a description of a type graph, and how they are read from a JSON value.  Reading checks
everything that can be checked entry by entry; references to types and decorators are kept as they are,
until all declarations are known.
-/

namespace Edm

/-- An enum member. -/
structure MemberEntry where
  name : Label
  value : Json
deriving Repr

/-- An enum. -/
structure EnumEntry where
  name : Label
  members : List MemberEntry
deriving Repr

/-- A property of a model, or a parameter of an operation. -/
structure PropertyEntry where
  name : Label
  type : TypeExpr
  optional : Bool
  decorators : List Json
deriving Repr

/-- A model. -/
structure ModelEntry where
  name : Label
  decorators : List Json
  base : Option TypeExpr
  properties : List PropertyEntry
deriving Repr

/-- A union. -/
structure UnionEntry where
  name : Label
  options : List TypeExpr
deriving Repr

/-- An operation. -/
structure OperationEntry where
  name : Label
  parameters : List PropertyEntry
  result : TypeExpr
deriving Repr

/-- An interface. -/
structure InterfaceEntry where
  name : Label
  operations : List OperationEntry
  route : Option Text
deriving Repr

/-- The declarations of a namespace. -/
structure DeclarationEntries where
  enums : List EnumEntry
  models : List ModelEntry
  unions : List UnionEntry
  interfaces : List InterfaceEntry
  operations : List OperationEntry
deriving Repr

/-- A namespace with its declarations and the namespaces inside it. -/
inductive NamespaceEntry
  | entry (name : Text) (declarations : DeclarationEntries) (children : List NamespaceEntry)
deriving Repr

/-- The site of a declaration inside another one. -/
def siteOf (outer : Text) (name : Label) : Text := outer ++ "." ++ name.display

/-! ### Fields -/

/-- A field that has to be there. -/
def requireField (key site : Text) (data : Json) : Except LoadError Json :=
  match data.field? key with
  | some value => .ok value
  | none => .error (.missing key site)

/-- A field that is a list, or is not there. -/
def listField (key site : Text) (data : Json) : Except LoadError (List Json) :=
  match data.field? key with
  | none => .ok []
  | some (.array items) => .ok items
  | some _ => .error (.notAList key site)

/-- A field that is there and not null. -/
def presentField (key : Text) (data : Json) : Option Json :=
  match data.field? key with
  | some .null => none
  | found => found

/-- The name of an entry. -/
def nameField (site : Text) (data : Json) : Except LoadError Label := do
  return Label.ofJson (← requireField "name" site data)

/-- The name of an entry that a namespace lists. -/
def declaredName (kind : Kind) (site : Text) (data : Json) : Except LoadError Label := do
  let name ← nameField site data
  match Graph.checkName kind name with
  | .ok () => return name
  | .error e => throw (.declaration e)

/-- A name that properties and operations of an interface are listed under. -/
def checkKey (name : Label) : Except LoadError Unit :=
  if name.keyable then .ok () else .error (.declaration .unkeyable)

/-! ### Entries -/

/-- Reads the value of an enum member; without one, it is null. -/
def memberValue (site : Text) (data : Json) : Except LoadError Json :=
  match data.field? "value" with
  | none => .ok .null
  | some .null => .ok .null
  | some (.string t) => .ok (.string t)
  | some (.number n) => .ok (.number n)
  | some _ => .error (.memberValue site)

/-- Reads an enum member. -/
def MemberEntry.read (site : Text) (data : Json) : Except LoadError MemberEntry := do
  let value ← memberValue site data
  let name ← nameField site data
  return { name, value }

/-- Reads an enum of the namespace with a dotted name. -/
def EnumEntry.read (outer : Text) (data : Json) : Except LoadError EnumEntry := do
  let name ← declaredName .enum outer data
  let site := siteOf outer name
  let members ← (← listField "members" site data).mapM (MemberEntry.read site)
  return { name, members }

/-- Reads a property or a parameter of the declaration at a site. -/
def PropertyEntry.read (site : Text) (data : Json) : Except LoadError PropertyEntry := do
  let name ← nameField site data
  let here := siteOf site name
  let type ← requireField "type" here data
  checkKey name
  let optional := ((data.field? "optional").getD (.boolean false)).truthy
  let decorators ← listField "decorators" here data
  return { name, type := TypeExpr.ofJson type, optional, decorators }

/-- Reads a model of the namespace with a dotted name. -/
def ModelEntry.read (outer : Text) (data : Json) : Except LoadError ModelEntry := do
  let name ← declaredName .model outer data
  let site := siteOf outer name
  let decorators ← listField "decorators" site data
  let base := (presentField "baseModel" data).map TypeExpr.ofJson
  let properties ← (← listField "properties" site data).mapM (PropertyEntry.read site)
  return { name, decorators, base, properties }

/-- Reads a union of the namespace with a dotted name. -/
def UnionEntry.read (outer : Text) (data : Json) : Except LoadError UnionEntry := do
  let name ← declaredName .union outer data
  let options ← listField "options" (siteOf outer name) data
  return { name, options := options.map TypeExpr.ofJson }

/-- Reads an operation of the interface or the namespace at a site; without a result it returns nothing. -/
def OperationEntry.read (outer : Text) (data : Json) : Except LoadError OperationEntry := do
  let name ← nameField outer data
  let site := siteOf outer name
  let parameters ← (← listField "parameters" site data).mapM (PropertyEntry.read site)
  let result := (data.field? "returnType").getD (.string "void")
  return { name, parameters, result := TypeExpr.ofJson result }

/-- Reads an operation that an interface lists. -/
def OperationEntry.readListed (outer : Text) (data : Json) : Except LoadError OperationEntry := do
  let operation ← OperationEntry.read outer data
  checkKey operation.name
  return operation

/-- Reads an operation that a namespace lists. -/
def OperationEntry.readDeclared (outer : Text) (data : Json) : Except LoadError OperationEntry := do
  let operation ← OperationEntry.read outer data
  match Graph.checkName .operation operation.name with
  | .ok () => return operation
  | .error e => throw (.declaration e)

/-- Reads an interface of the namespace with a dotted name. -/
def InterfaceEntry.read (outer : Text) (data : Json) : Except LoadError InterfaceEntry := do
  let name ← declaredName .interface outer data
  let site := siteOf outer name
  let operations ← (← listField "operations" site data).mapM (OperationEntry.readListed site)
  match presentField "route" data with
  | none => return { name, operations, route := none }
  | some (.string route) => return { name, operations, route := some route }
  | some _ => throw (.routeNotText site)

/-- Reads the declarations of the namespace with a dotted name. -/
def DeclarationEntries.read (outer : Text) (data : Json) : Except LoadError DeclarationEntries := do
  let enums ← (← listField "enums" outer data).mapM (EnumEntry.read outer)
  let models ← (← listField "models" outer data).mapM (ModelEntry.read outer)
  let unions ← (← listField "unions" outer data).mapM (UnionEntry.read outer)
  let interfaces ← (← listField "interfaces" outer data).mapM (InterfaceEntry.read outer)
  let operations ← (← listField "operations" outer data).mapM (OperationEntry.readDeclared outer)
  return { enums, models, unions, interfaces, operations }

/-! ### Namespaces -/

namespace NamespaceEntry

/-- The name of a namespace has to be a text that is not empty. -/
def checkName : Json → Except LoadError Text
  | .string [] => .error (.declaration (.unnamed .nameSpace))
  | .string name => .ok name
  | v =>
    if !v.keyable then .error (.declaration .unkeyable)
    else if !v.truthy then .error (.declaration (.unnamed .nameSpace))
    else .error .namespaceNotText

/-- The site of the namespace at a path. -/
def site (path : List Text) : Text := if path.isEmpty then "<root>" else Graph.dotted path

mutual

/-- Reads a namespace that is inside the one at a path. -/
def read (outer : List Text) : Json → Except LoadError NamespaceEntry
  | .object fields => do
    let name ← checkName (← requireField "name" (site outer) (.object fields))
    let path := outer ++ [name]
    let declarations ← DeclarationEntries.read (Graph.dotted path) (.object fields)
    let children ← readChildren path fields
    return .entry name declarations children
  | _ => .error (.missing "name" (site outer))

/-- Reads the namespaces in the fields of the one at a path. -/
def readChildren (path : List Text) : List (Text × Json) → Except LoadError (List NamespaceEntry)
  | [] => .ok []
  | (key, value) :: rest => if key = "namespaces" then readItems path value else readChildren path rest

/-- Reads a list of namespaces that are inside the one at a path. -/
def readItems (path : List Text) : Json → Except LoadError (List NamespaceEntry)
  | .array items => readList path items
  | _ => .error (.notAList "namespaces" (site path))

/-- Reads namespaces that are inside the one at a path. -/
def readList (path : List Text) : List Json → Except LoadError (List NamespaceEntry)
  | [] => .ok []
  | item :: rest => do
    let n ← read path item
    let ns ← readList path rest
    return n :: ns

end

end NamespaceEntry

/-- The namespaces that a value describes. -/
def readDescription : Json → Except LoadError (List NamespaceEntry)
  | .object fields => NamespaceEntry.readChildren [] fields
  | _ => .error .notAnObject

end Edm
