import Edm.Graph.Identifier

/-!
# Flattening

The namespaces of a graph that get a schema: those with a name and something to show, less the excluded
ones, in pre-order.
-/

namespace Edm

/-- A dotted name is excluded by any prefix that it starts with, at a dot or not. -/
def isExcluded (excluded : List Text) (name : Text) : Bool :=
  excluded.any fun part => part.isPrefixOf name

/-- The namespaces that are excluded unless something else is asked for. -/
def defaultExcluded : List Text := ["Cadl"]

/-- Whether a namespace declares something that a schema shows or that operations belong to. -/
def Namespace.isRenderable (n : Namespace) : Bool :=
  !(n.enums.isEmpty && n.models.isEmpty && n.interfaces.isEmpty && n.operations.isEmpty)

namespace Graph

/-- A namespace and all inside it to a depth of at most `fuel`, in pre-order. -/
def expandWithin (g : Graph) : (fuel : Nat) → NamespaceId → List NamespaceId
  | 0, i => [i]
  | fuel + 1, i => i :: (g.namespaces.get i).namespaces.values.flatMap (g.expandWithin fuel)

/-- A namespace and all inside it, in pre-order.  No way inward is longer than there are namespaces. -/
def expand (g : Graph) (i : NamespaceId) : List NamespaceId := g.expandWithin g.namespaces.size i

/-- Whether a namespace gets a schema. -/
def isIncluded (g : Graph) (excluded : List Text) (i : NamespaceId) : Bool :=
  let name := g.namespaceName i
  !name.isEmpty && (g.namespaces.get i).isRenderable && !isExcluded excluded name

/-- The namespaces inside a given one, itself included, that get a schema. -/
def flatten (g : Graph) (excluded : List Text) (i : NamespaceId) : List NamespaceId :=
  (g.expand i).filter (g.isIncluded excluded)

theorem mem_flatten {g : Graph} {excluded : List Text} {i j : NamespaceId} :
    j ∈ g.flatten excluded i ↔ j ∈ g.expand i ∧ g.isIncluded excluded j = true := by
  simp [flatten]

end Graph

end Edm
