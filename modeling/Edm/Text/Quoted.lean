import Edm.Text
import Edm.Text.Printable

/-!
# Quoted texts

A text between quotation marks, with escapes for what could not be seen: the mark in use, the backslash,
and every code point that is not printable.
-/

namespace Edm

namespace Quoted

/-- A number in lower-case hexadecimal, with zeros in front up to the given width. -/
def hexadecimal (width code : Nat) : List Char :=
  let digits := Nat.toDigits 16 code
  List.replicate (width - digits.length) '0' ++ digits

/-- An apostrophe, unless the text holds an apostrophe and no quotation mark. -/
def markFor (t : Text) : Char :=
  if t.contains ('\'' : CodePoint) && !t.contains ('"' : CodePoint) then '"' else '\''

/-- The code point in the shortest escape that can name it. -/
def escapeByNumber (code : Nat) : List Char :=
  if code ≤ 0xFF then '\\' :: 'x' :: hexadecimal 2 code
  else if code ≤ 0xFFFF then '\\' :: 'u' :: hexadecimal 4 code
  else '\\' :: 'U' :: hexadecimal 8 code

/-- A code point as it stands between two marks. -/
def encode (mark : Char) : CodePoint → List Char
  | .scalar c =>
    if c = mark ∨ c = '\\' then ['\\', c]
    else if c = '\n' then ['\\', 'n']
    else if c = '\r' then ['\\', 'r']
    else if c = '\t' then ['\\', 't']
    else if Printable.isPrintable c.toNat then [c]
    else escapeByNumber c.toNat
  | .surrogate offset => escapeByNumber (0xD800 + offset.val)

/-- A text in quotation marks. -/
def quote (t : Text) : Text :=
  let mark := markFor t
  Text.ofChars (mark :: (t.flatMap (encode mark) ++ [mark]))

end Quoted

end Edm
