import Edm.Json

/-!
# Indented JSON

The text of a JSON value with each item and each field on a line of its own.
-/

namespace Edm

namespace Json

/-- A character in a JSON string. -/
def stringChar (c : Char) : List Char :=
  if c = '"' then ['\\', '"']
  else if c = '\\' then ['\\', '\\']
  else if c = '\n' then ['\\', 'n']
  else if c = '\r' then ['\\', 'r']
  else if c = '\t' then ['\\', 't']
  else if c.toNat < 0x20 then
    let digits := Nat.toDigits 16 c.toNat
    '\\' :: 'u' :: (List.replicate (4 - digits.length) '0' ++ digits)
  else [c]

/-- A text as a JSON string. -/
def stringText (t : Text) : List Char := '"' :: (t.toChars.flatMap stringChar ++ ['"'])

/-- The start of a line at a depth. -/
def lineStart (depth : Nat) : List Char := '\n' :: List.replicate (2 * depth) ' '

mutual

/-- A value that starts at a depth. -/
def indentedAt (depth : Nat) : Json → List Char
  | null => "null".toList
  | boolean b => if b then "true".toList else "false".toList
  | number n => n.text.toChars
  | string t => stringText t
  | array [] => ['[', ']']
  | array (item :: rest) =>
    '[' :: (lineStart (depth + 1) ++ indentedAt (depth + 1) item ++ indentedItems (depth + 1) rest
      ++ lineStart depth ++ [']'])
  | object [] => ['\x7b', '\x7d']
  | object ((key, value) :: rest) =>
    '\x7b' :: (lineStart (depth + 1) ++ stringText key ++ [':', ' '] ++ indentedAt (depth + 1) value
      ++ indentedFields (depth + 1) rest ++ lineStart depth ++ ['\x7d'])

/-- Further items at a depth. -/
def indentedItems (depth : Nat) : List Json → List Char
  | [] => []
  | item :: rest => ',' :: (lineStart depth ++ indentedAt depth item ++ indentedItems depth rest)

/-- Further fields at a depth. -/
def indentedFields (depth : Nat) : List (Text × Json) → List Char
  | [] => []
  | (key, value) :: rest =>
    ',' :: (lineStart depth ++ stringText key ++ [':', ' '] ++ indentedAt depth value
      ++ indentedFields depth rest)

end

/-- The text of a value. -/
def indented (v : Json) : List Char := v.indentedAt 0

end Json

end Edm
