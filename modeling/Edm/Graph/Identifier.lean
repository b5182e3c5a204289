import Edm.Graph

/-!
# Identifiers

The dotted name of a namespace and the identifier of a node.  The identifier serves both as the place that
a reference leads to and as the reference, so nothing else puts one together.  A node without a rule for
its identifier falls back to the word for its kind (`Node.hasIdentifier` says which have one).  Where a
namespace has a name that is no text, no identifier can be formed (`Graph.idLabel`).
-/

namespace Edm

namespace Graph

/-- The names from the outermost namespace to a namespace at most `fuel` levels deep; the ones without a
name are left out. -/
def namesWithin (g : Graph) : (fuel : Nat) → NamespaceId → List Label
  | 0, _ => []
  | fuel + 1, i =>
    let n := g.namespaces.get i
    let outer := match n.parent with
      | some p => g.namesWithin fuel p
      | none => []
    if n.name.truthy then outer ++ [n.name] else outer

/-- The names from the outermost namespace to a given one.  No way outward is longer than there are
namespaces. -/
def names (g : Graph) (i : NamespaceId) : List Label := g.namesWithin g.namespaces.size i

/-- The path of a namespace: the names that lead to it, as texts. -/
def path (g : Graph) (i : NamespaceId) : List Text := (g.names i).map Label.display

/-- Whether the names that lead to a namespace are texts; only then can they be put together. -/
def hasTextPath (g : Graph) (i : NamespaceId) : Bool := (g.names i).all Label.isText

/-- Names with dots between them. -/
def dotted (names : List Text) : Text := Text.join "." names

/-- The dotted name of a namespace; that of the root is empty. -/
def namespaceName (g : Graph) (i : NamespaceId) : Text := dotted (g.path i)

/-- The dotted name of an owner; nothing if there is none. -/
def ownerName (g : Graph) : Option NamespaceId → Text
  | some i => g.namespaceName i
  | none => []

/-- The identifier of a declaration: its namespace, a dot, and its name. -/
def declarationId (g : Graph) (owner : Option NamespaceId) (name : Label) : Text :=
  g.ownerName owner ++ "." ++ name.displayOrEmpty

/-- The identifier of a model. -/
def modelId (g : Graph) (i : ModelId) : Text :=
  let m := g.models.get i
  g.declarationId m.owner m.name

/-- What stands around the name of the items of a collection. -/
def collection (item : Text) : Text := "Collection(" ++ item ++ ")"

/-- The identifier of a node. -/
def qualifiedId (g : Graph) : Node → Text
  | .array _ element => collection (g.qualifiedId element)
  | .nameSpace i => g.namespaceName i
  | .model i => g.modelId i
  | .enum i => let e := g.enums.get i; g.declarationId e.owner e.name
  | .union i => let u := g.unions.get i; g.declarationId u.owner u.name
  | .operation i => let o := g.operations.get i; g.declarationId o.owner o.name
  | .interface i => let f := g.interfaces.get i; g.declarationId f.owner f.name
  | .literal _ _ value => value.schemaText
  | n => n.tag

/-- Whether the path of the namespace that a node is in, or of the namespace that it is, consists of
texts. -/
def isIdentifiable (g : Graph) : Node → Bool
  | .array _ element => g.isIdentifiable element
  | .nameSpace i => g.hasTextPath i
  | .model i => (g.models.get i).owner.all g.hasTextPath
  | .enum i => (g.enums.get i).owner.all g.hasTextPath
  | .union i => (g.unions.get i).owner.all g.hasTextPath
  | .operation i => (g.operations.get i).owner.all g.hasTextPath
  | .interface i => (g.interfaces.get i).owner.all g.hasTextPath
  | _ => true

/-- The identifier of a node, if it can be formed. -/
def idLabel (g : Graph) (n : Node) : Label := if g.isIdentifiable n then .text (g.qualifiedId n) else .unformed

theorem idLabel_array (g : Graph) (serial : Nat) (n : Node) :
    g.idLabel (.array serial n) = (g.idLabel n).enclose "Collection(" ")" := by
  rw [idLabel, idLabel, isIdentifiable]
  by_cases hn : g.isIdentifiable n = true
  · rw [if_pos hn, if_pos hn]
    rfl
  · rw [if_neg hn, if_neg hn]
    rfl

end Graph

namespace Node

/-- Whether there is a rule for the identifier of a node. -/
def hasIdentifier : Node → Bool
  | array _ element => element.hasIdentifier
  | nameSpace _ | model _ | enum _ | union _ | operation _ | interface _ | literal _ _ _ => true
  | _ => false

end Node

end Edm
