import Edm.Graph.Identifier

/-!
# Names of scalar types

The name by which a schema refers to the type of a property that holds values.  The built-in models have
the names of the primitive types; unions are written out; a type without a rule falls back to the word for
its kind (`Graph.isUnnameable` says which do so anywhere inside).
-/

namespace Edm

/-- The primitive types of schemas for the built-in models. -/
def primitiveTypes : List (Text × Text) :=
  [("string", "Edm.String"), ("bytes", "Collection(Edm.Byte)"), ("int8", "Edm.Byte"), ("int16", "Edm.Int16"),
   ("int32", "Edm.Int32"), ("int64", "Edm.Int64"), ("float32", "Edm.Single"), ("float64", "Edm.Double"),
   ("plainDate", "Edm.Date"), ("plainTime", "Edm.TimeOfDay"), ("zonedDateTime", "Edm.DateTimeOffset"),
   ("duration", "Edm.Duration"), ("boolean", "Edm.Boolean"), ("stream", "Edm.Stream")]

/-- The name of a model as a type: a built-in one has the name of a primitive type.  A name that cannot be
a key cannot be looked up. -/
def modelTypeName (name : Label) : Label :=
  match name with
  | .text t => match primitiveTypes.find? fun (builtIn, _) => builtIn == t with
    | some (_, primitive) => .text primitive
    | none => name
  | name => if name.keyable then name else .unformed

namespace Graph

/-- The name of a type, given the names of the unions. -/
def typeNameWith (g : Graph) (unionName : UnionId → Label) : Node → Label
  | .array _ element => (g.typeNameWith unionName element).enclose "Collection(" ")"
  | .union i => unionName i
  | .parameter _ name => name
  | .literal _ _ value => .text value.schemaText
  | .nameSpace i => (g.namespaces.get i).name
  | .operation i => (g.operations.get i).name
  | .interface i => (g.interfaces.get i).name
  | .enum i => (g.enums.get i).name
  | .model i => modelTypeName (g.models.get i).name
  | n => .text n.tag

/-- The name of a union whose options reach at most `fuel` unions deep. -/
def unionNameWithin (g : Graph) : (fuel : Nat) → UnionId → Label
  | 0, _ => .text []
  | fuel + 1, i =>
    Label.join " | " ((g.unions.get i).options.map (g.typeNameWith (g.unionNameWithin fuel)))

/-- The name of a type.  A way through options that meets no union twice is no longer than there are
unions. -/
def typeName (g : Graph) (n : Node) : Label := g.typeNameWith (g.unionNameWithin g.unions.size) n

/-- Whether the name of a type falls back to the word for a kind, given for which unions it does. -/
def isUnnameableWith (unionIs : UnionId → Bool) : Node → Bool
  | .array _ element => isUnnameableWith unionIs element
  | .union i => unionIs i
  | .parameter _ _ | .literal _ _ _ | .nameSpace _ | .operation _ | .interface _ | .enum _ | .model _ => false
  | _ => true

/-- Whether the name of a union whose options reach at most `fuel` unions deep falls back anywhere. -/
def unionIsUnnameableWithin (g : Graph) : (fuel : Nat) → UnionId → Bool
  | 0, _ => false
  | fuel + 1, i => (g.unions.get i).options.any (isUnnameableWith (g.unionIsUnnameableWithin fuel))

/-- Whether the name of a type falls back to the word for a kind anywhere. -/
def isUnnameable (g : Graph) (n : Node) : Bool :=
  isUnnameableWith (g.unionIsUnnameableWithin g.unions.size) n

end Graph

end Edm
