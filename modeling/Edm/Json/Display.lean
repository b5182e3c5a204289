import Edm.Json
import Edm.Text.Quoted

/-!
# JSON values in messages

The form in which a value is quoted in a message (`Json.quoted`), in which it stands inside a text that is
put together from several parts (`Json.display`), and in which a schema writes it (`Json.schemaText`).
-/

namespace Edm

namespace Json

mutual

/-- A value as messages quote it. -/
def quoted : Json → Text
  | null => "None"
  | boolean b => if b then "True" else "False"
  | number n => n.text
  | string t => Quoted.quote t
  | array items => "[" ++ Text.join ", " (quotedItems items) ++ "]"
  | object fields => "\x7b" ++ Text.join ", " (quotedFields fields) ++ "\x7d"

/-- The items of an array as messages quote them. -/
def quotedItems : List Json → List Text
  | [] => []
  | item :: rest => item.quoted :: quotedItems rest

/-- The fields of an object as messages quote them. -/
def quotedFields : List (Text × Json) → List Text
  | [] => []
  | (key, value) :: rest => (Quoted.quote key ++ ": " ++ value.quoted) :: quotedFields rest

end

/-- A value as a part of a text: a text as it is, any other value as messages quote it. -/
def display : Json → Text
  | string t => t
  | v => v.quoted

/-- A value as a schema writes it: booleans in lower case, and a double that is an integer as that integer. -/
def schemaText : Json → Text
  | boolean b => if b then "true" else "false"
  | number n => n.schemaText
  | v => v.display

end Json

end Edm
