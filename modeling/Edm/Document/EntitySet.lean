import Edm.Document.Fault
import Edm.Graph.Identifier

/-!
# Entity sets

An interface backs an entity set if its route has a slash after the first character and it has a `Get`
operation that returns something.  The set is named by the last segment of the route.
`Graph.setsFault?` says whether the sets of a namespace can be told at all.
-/

namespace Edm

/-- A set of entities: its name, the route that it comes from, and the type of its members. -/
structure EntitySet where
  name : Text
  path : Text
  entityType : Label
deriving DecidableEq, Repr

/-- The routes of interfaces; an interface without a route has null. -/
abbrev Routes := InterfaceId → Label

/-- Whether a route has a slash after its first character. -/
def hasSegment (path : Text) : Bool := (path.drop 1).contains ('/' : CodePoint)

/-- The last segment of a route; slashes at the end do not count. -/
def lastSegment (path : Text) : Text := Text.afterLast '/' (Text.trimRight '/' path)

/-- The type that a collection, or one of its items, is about. -/
def Node.itemType : Node → Node
  | .array _ element => element
  | n => n

namespace Graph

/-- The type that the `Get` operation of an interface returns. -/
def getResult? (g : Graph) (i : InterfaceId) : Option Node := do
  let operation ← (g.interfaces.get i).operations.lookup (.text "Get")
  (g.operations.get operation).result

/-- The entity set of an interface, given the routes. -/
def entitySet? (g : Graph) (routes : Routes) (i : InterfaceId) : Option EntitySet := do
  let path ← (routes i).text?
  if hasSegment path then
    let result ← g.getResult? i
    return ⟨lastSegment path, path, g.idLabel result.itemType⟩
  else none

/-- The entity sets of a namespace, in the order of its interfaces. -/
def entitySets (g : Graph) (routes : Routes) (i : NamespaceId) : List EntitySet :=
  (g.namespaces.get i).interfaces.values.filterMap (g.entitySet? routes)

/-- Why it cannot be told whether an interface backs an entity set, or of what.  A route has to be a text if
it counts as present, what is returned has to be a node, and its identifier has to be formed. -/
def setFault? (g : Graph) (routes : Routes) (i : InterfaceId) : Option DocumentFault :=
  match routes i with
  | .text path => if !hasSegment path then none else match g.getResult? i with
    | none => none
    | some (.foreign _) => some .lacking
    | some result => if g.isIdentifiable result.itemType then none else some .notText
  | path => if path.truthy then some .lacking else none

/-- The first fault among the interfaces of a namespace. -/
def setsFault? (g : Graph) (routes : Routes) (i : NamespaceId) : Option DocumentFault :=
  (g.namespaces.get i).interfaces.values.findSome? (g.setFault? routes)

end Graph

end Edm
