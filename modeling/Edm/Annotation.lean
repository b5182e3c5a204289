import Edm.Graph.Node

/-!
# Annotations

Values bound to nodes outside the graph, one map for each kind of annotation.  A binding is checked when it
is made (`AnnotationStore.set`).  Kinds are listed in the order of their first binding, and the nodes of a
kind in the order in which they were first bound for it.
-/

namespace Edm

/-- A kind of annotation.  Kinds are told apart by their number, whatever their names. -/
structure AnnotationKind where
  id : Nat
  name : Label
  targets : List Kind
  /-- Which values may be bound. -/
  accepts : Json → Bool := fun _ => true
  /-- What the accepted values are, in words. -/
  description : Label := .text "any value"

instance : BEq AnnotationKind := ⟨fun a b => a.id == b.id⟩

namespace AnnotationKind

/-- Whether a kind may be attached to a node. -/
def acceptsTarget (kind : AnnotationKind) (node : Node) : Bool :=
  match node.kind? with
  | some k => kind.targets.contains k
  | none => false

/-- A kind as messages show it. -/
def display (kind : AnnotationKind) : Text := "AnnotationKind(" ++ kind.name.toJson.quoted ++ ")"

end AnnotationKind

/-- Why a binding is rejected. -/
inductive AnnotationError
  | target (kind : AnnotationKind) (node : Node)
  | value (kind : AnnotationKind) (value : Json)

/-- The wording of a rejection; the kinds of nodes that are expected are listed in alphabetical order. -/
def AnnotationError.message : AnnotationError → Text
  | target kind node =>
    "Cannot apply " ++ kind.name.display ++ " to " ++ node.tag ++ "; expected "
      ++ Text.join ", " ((Kind.sorted.filter kind.targets.contains).map Kind.tag)
  | value kind v =>
    "Invalid value " ++ v.quoted ++ " for " ++ kind.name.display ++ "; expected " ++ kind.description.display

/-- The bindings of all kinds. -/
structure AnnotationStore where
  /-- The kinds in the order of their first binding, each with its bindings in the order in which the nodes
  were first bound. -/
  maps : List (AnnotationKind × List (Node × Json)) := []

namespace AnnotationStore

instance : Inhabited AnnotationStore := ⟨{}⟩

/-- Bindings of one kind with one more; a node that is bound already keeps its place. -/
def bindNode (node : Node) (value : Json) : List (Node × Json) → List (Node × Json)
  | [] => [(node, value)]
  | (n, v) :: rest => if n = node then (n, value) :: rest else (n, v) :: bindNode node value rest

/-- Bindings of all kinds with one more; a kind that is in use already keeps its place. -/
def bindKind (kind : AnnotationKind) (node : Node) (value : Json) :
    List (AnnotationKind × List (Node × Json)) → List (AnnotationKind × List (Node × Json))
  | [] => [(kind, [(node, value)])]
  | (k, bindings) :: rest =>
    if k == kind then (k, bindNode node value bindings) :: rest
    else (k, bindings) :: bindKind kind node value rest

/-- Binds a value to a node, in place of an earlier one of the same kind, without a check. -/
def put (s : AnnotationStore) (kind : AnnotationKind) (node : Node) (value : Json) : AnnotationStore :=
  ⟨bindKind kind node value s.maps⟩

/-- Binds a value to a node, in place of an earlier one of the same kind, if the kind accepts both. -/
def set (s : AnnotationStore) (kind : AnnotationKind) (node : Node) (value : Json) :
    Except AnnotationError AnnotationStore :=
  if !kind.acceptsTarget node then .error (.target kind node)
  else if !kind.accepts value then .error (.value kind value)
  else .ok (s.put kind node value)

/-- The value that a list of bindings has for a node. -/
def valueOf (node : Node) : List (Node × Json) → Option Json
  | [] => none
  | (n, v) :: rest => if n = node then some v else valueOf node rest

/-- The bindings of a kind. -/
def bindingsOf (s : AnnotationStore) (kind : AnnotationKind) : List (Node × Json) :=
  ((s.maps.find? fun m => m.1 == kind).map Prod.snd).getD []

/-- The value that is bound to a node for a kind. -/
def get? (s : AnnotationStore) (kind : AnnotationKind) (node : Node) : Option Json :=
  valueOf node (s.bindingsOf kind)

/-- Whether a value is bound to a node for a kind. -/
def has (s : AnnotationStore) (kind : AnnotationKind) (node : Node) : Bool := (s.get? kind node).isSome

/-- The kinds and values that are bound to a node. -/
def annotationsFor (s : AnnotationStore) (node : Node) : List (AnnotationKind × Json) :=
  s.maps.filterMap fun (kind, bindings) => (valueOf node bindings).map fun v => (kind, v)

/-- A list of nodes without repetitions, each at its first place. -/
def distinct : List Node → List Node
  | [] => []
  | n :: rest => n :: (distinct rest).filter (· != n)

/-- The nodes to which something is bound, kind by kind, each once. -/
def annotatedNodes (s : AnnotationStore) : List Node :=
  distinct (s.maps.flatMap fun m => m.2.map Prod.fst)

/-- How many bindings there are. -/
def size (s : AnnotationStore) : Nat := (s.maps.flatMap Prod.snd).length

end AnnotationStore

end Edm
