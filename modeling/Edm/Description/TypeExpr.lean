import Edm.Graph.Node

/-!
# Type expressions

A reference to a type as a description writes it: a name, perhaps with pairs of square brackets after it,
or an object that says what kind of type it is.  Every value is a type expression; the faulty ones say what
is wrong with them when they are resolved.
-/

namespace Edm

/-- A reference to a type. -/
inductive TypeExpr
  | named (reference : Text)
  | array (element : TypeExpr)
  | union (options : List TypeExpr)
  | parameter (name : Label)
  | intrinsic (name : Label)
  | literal (kind : LiteralKind) (value : Json)
  /-- A value that refers to no type. -/
  | invalid (value : Json)
  /-- A union whose options are not a list. -/
  | optionsNotList
  /-- A type that has to have a name and has none. -/
  | unnamed
deriving Repr, Inhabited

namespace TypeExpr

/-- The type that a reversed text refers to: each pair of square brackets at its end is an array. -/
def ofReversed : Text → TypeExpr
  | [] => invalid (.string [])
  | .scalar ']' :: .scalar '[' :: rest => array (ofReversed rest)
  | t => named t.reverse

/-- The type that a text refers to. -/
def ofText (t : Text) : TypeExpr := ofReversed t.reverse

/-- What an object says about the type that it refers to. -/
inductive Form
  | array
  | union
  | other (e : TypeExpr)

/-- A type that is given by its name. -/
def ofName (make : Label → TypeExpr) (fields : List (Text × Json)) : TypeExpr :=
  match Json.lookup "name" fields with
  | some name => make (Label.ofJson name)
  | none => unnamed

/-- A literal type of a kind. -/
def ofValue (kind : LiteralKind) (fields : List (Text × Json)) : TypeExpr :=
  match Json.lookup "value" fields with
  | some value => if kind.fits value then literal kind value else invalid (.object fields)
  | none => invalid (.object fields)

/-- The form of an object. -/
def formOf (fields : List (Text × Json)) : Form :=
  match Json.lookup "kind" fields with
  | some (.string kind) =>
    if kind = "Array" then .array
    else if kind = "Union" then .union
    else if kind = "TemplateParameter" then .other (ofName parameter fields)
    else if kind = "String" then .other (ofValue .text fields)
    else if kind = "Boolean" then .other (ofValue .boolean fields)
    else if kind = "Number" then .other (ofValue .number fields)
    else if kind = "Intrinsic" then .other (ofName intrinsic fields)
    else .other (invalid (.object fields))
  | _ => .other (invalid (.object fields))

mutual

/-- The type that a value refers to. -/
def ofJson : Json → TypeExpr
  | .string t => ofText t
  | .object fields => match formOf fields with
    | .array => array (elementOf fields)
    | .union => match optionsOf fields with
      | some options => union options
      | none => optionsNotList
    | .other e => e
  | v => invalid v

/-- The type of the items of an array. -/
def elementOf : List (Text × Json) → TypeExpr
  | [] => invalid .null
  | (key, value) :: rest => if key = "elementType" then ofJson value else elementOf rest

/-- The options of a union, if they are a list. -/
def optionsOf : List (Text × Json) → Option (List TypeExpr)
  | [] => none
  | (key, value) :: rest => if key = "options" then itemsOf value else optionsOf rest

/-- The types that the items of a list refer to. -/
def itemsOf : Json → Option (List TypeExpr)
  | .array items => some (ofItems items)
  | _ => none

/-- The types that values refer to. -/
def ofItems : List Json → List TypeExpr
  | [] => []
  | v :: vs => ofJson v :: ofItems vs

end

theorem ofItems_eq_map (vs : List Json) : ofItems vs = vs.map ofJson := by
  induction vs with
  | nil => simp [ofItems]
  | cons v vs ih => simp [ofItems, ih]

end TypeExpr

end Edm
