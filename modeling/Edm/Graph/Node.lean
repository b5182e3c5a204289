import Edm.Label

/-!
# Nodes

A node of a type graph is named by its kind and a number, so that two nodes of equal content stay two
nodes.  Array types, template parameters, literals and intrinsic types never change, and carry their
content with them; the others are looked up in the graph.  `Node.kind?` reads the kind off the node itself.
-/

namespace Edm

/-- The kinds of nodes. -/
inductive Kind
  | nameSpace
  | model
  | property
  | enum
  | member
  | interface
  | operation
  | union
  | array
  | parameter
  | text
  | number
  | boolean
  | intrinsic
deriving DecidableEq, Repr

namespace Kind

/-- The word for a kind. -/
def tag : Kind → Text
  | nameSpace => "Namespace"
  | model => "Model"
  | property => "ModelProperty"
  | enum => "Enum"
  | member => "EnumMember"
  | interface => "Interface"
  | operation => "Operation"
  | union => "Union"
  | array => "Array"
  | parameter => "TemplateParameter"
  | text => "String"
  | number => "Number"
  | boolean => "Boolean"
  | intrinsic => "Intrinsic"

/-- All kinds in the order of their words. -/
def sorted : List Kind :=
  [array, boolean, enum, member, interface, intrinsic, model, property, nameSpace, number, operation, text,
   parameter, union]

theorem mem_sorted (k : Kind) : k ∈ sorted := by
  cases k <;> decide

end Kind

/-- The kinds of literal types. -/
inductive LiteralKind
  | text
  | number
  | boolean
deriving DecidableEq, Repr

namespace LiteralKind

/-- The kind of nodes that literal types of a kind are. -/
def toKind : LiteralKind → Kind
  | text => .text
  | number => .number
  | boolean => .boolean

/-- Whether a value is one that a literal type of a kind stands for. -/
def fits : LiteralKind → Json → Bool
  | text, .string _ => true
  | number, .number _ => true
  | boolean, .boolean _ => true
  | _, _ => false

end LiteralKind

/-- A namespace of a graph. -/
abbrev NamespaceId := Nat
/-- A model of a graph. -/
abbrev ModelId := Nat
/-- A property of a graph. -/
abbrev PropertyId := Nat
/-- An enum of a graph. -/
abbrev EnumId := Nat
/-- An enum member of a graph. -/
abbrev MemberId := Nat
/-- An interface of a graph. -/
abbrev InterfaceId := Nat
/-- An operation of a graph. -/
abbrev OperationId := Nat
/-- A union of a graph. -/
abbrev UnionId := Nat

/-- A node of a graph, or an object that is none and has only the name of its class.  The numbers of array
types, template parameters, literals and intrinsic types tell equal ones apart. -/
inductive Node
  | nameSpace (id : NamespaceId)
  | model (id : ModelId)
  | property (id : PropertyId)
  | enum (id : EnumId)
  | member (id : MemberId)
  | interface (id : InterfaceId)
  | operation (id : OperationId)
  | union (id : UnionId)
  | array (serial : Nat) (element : Node)
  | parameter (serial : Nat) (name : Label)
  | literal (serial : Nat) (kind : LiteralKind) (value : Json)
  | intrinsic (serial : Nat) (name : Label)
  | foreign (className : Text)
deriving DecidableEq, Repr

namespace Node

/-- The kind of a node; a foreign object has none. -/
def kind? : Node → Option Kind
  | nameSpace _ => some .nameSpace
  | model _ => some .model
  | property _ => some .property
  | enum _ => some .enum
  | member _ => some .member
  | interface _ => some .interface
  | operation _ => some .operation
  | union _ => some .union
  | array _ _ => some .array
  | parameter _ _ => some .parameter
  | literal _ kind _ => some kind.toKind
  | intrinsic _ _ => some .intrinsic
  | foreign _ => none

/-- The word for the kind of a node, or the class of a foreign object. -/
def tag : Node → Text
  | foreign className => className
  | literal _ kind _ => kind.toKind.tag
  | nameSpace _ => Kind.nameSpace.tag
  | model _ => Kind.model.tag
  | property _ => Kind.property.tag
  | enum _ => Kind.enum.tag
  | member _ => Kind.member.tag
  | interface _ => Kind.interface.tag
  | operation _ => Kind.operation.tag
  | union _ => Kind.union.tag
  | array _ _ => Kind.array.tag
  | parameter _ _ => Kind.parameter.tag
  | intrinsic _ _ => Kind.intrinsic.tag

theorem tag_eq_of_kind {n : Node} {k : Kind} (h : n.kind? = some k) : n.tag = k.tag := by
  cases n <;> simp_all [kind?, tag]

/-- The kind of a node that a namespace can list. -/
def declarableKind? : Node → Option Kind
  | nameSpace _ => some .nameSpace
  | model _ => some .model
  | enum _ => some .enum
  | interface _ => some .interface
  | operation _ => some .operation
  | union _ => some .union
  | _ => none

/-- The type of a property before its type is known. -/
def unresolved : Node := intrinsic 0 (.text "unknown")

instance : Inhabited Node := ⟨unresolved⟩

end Node

end Edm
