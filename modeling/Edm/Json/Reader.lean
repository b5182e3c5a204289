import Edm.Json

/-!
# Reading JSON

A reader for JSON texts that also accepts `NaN`, `Infinity` and `-Infinity`, halves of surrogate pairs in
escapes, and repeated keys, of which the last counts.  A fault says what was expected and where; the
position counts code points from the start (`Json.parse`).
-/

namespace Edm

namespace Json

/-- What is wrong with a JSON text. -/
inductive Complaint
  | value
  | comma
  | colon
  | propertyName
  | extraData
  | escape
  | unicodeEscape
  | controlCharacter
  | unterminatedString
  | byteOrderMark
deriving DecidableEq, Repr

/-- Why a JSON text cannot be read: a complaint about a position, or an integer with too many digits. -/
inductive ReadError
  | malformed (complaint : Complaint) (position : Nat)
  | longInteger
deriving DecidableEq, Repr

/-- The part of a text that has not been read, and the position at which it starts. -/
structure Cursor where
  position : Nat
  rest : List Char
deriving Repr

namespace Cursor

/-- The cursor after `n` more characters. -/
def advance (n : Nat) (c : Cursor) : Cursor := ⟨c.position + n, c.rest.drop n⟩

/-- The four characters that may stand between tokens. -/
def isSpace (c : Char) : Bool := c == ' ' || c == '\t' || c == '\n' || c == '\r'

/-- The cursor after any spaces. -/
def skipSpaces (c : Cursor) : Cursor := c.advance (c.rest.takeWhile isSpace).length

end Cursor

/-! ### Strings -/

/-- The value of a hexadecimal digit. -/
def hexDigit? (c : Char) : Option Nat :=
  if '0' ≤ c ∧ c ≤ '9' then some (c.toNat - '0'.toNat)
  else if 'a' ≤ c ∧ c ≤ 'f' then some (c.toNat - 'a'.toNat + 10)
  else if 'A' ≤ c ∧ c ≤ 'F' then some (c.toNat - 'A'.toNat + 10)
  else none

/-- The number that four hexadecimal digits give, if another character follows them. -/
def hexEscape? : List Char → Option Nat
  | a :: b :: c :: d :: _ :: _ => do
    let a ← hexDigit? a
    let b ← hexDigit? b
    let c ← hexDigit? c
    let d ← hexDigit? d
    return ((a * 16 + b) * 16 + c) * 16 + d
  | _ => none

/-- The character that a letter after a backslash stands for. -/
def simpleEscape? : Char → Option Char
  | '"' => some '"'
  | '\\' => some '\\'
  | '/' => some '/'
  | 'b' => some '\x08'
  | 'f' => some '\x0c'
  | 'n' => some '\n'
  | 'r' => some '\r'
  | 't' => some '\t'
  | _ => none

/-- Whether a number is the first half of a surrogate pair. -/
def isHighSurrogate (n : Nat) : Bool := 0xD800 ≤ n && n ≤ 0xDBFF

/-- Whether a number is the second half of a surrogate pair. -/
def isLowSurrogate (n : Nat) : Bool := 0xDC00 ≤ n && n ≤ 0xDFFF

/-- The code point with a number of at most four hexadecimal digits. -/
def codePoint (n : Nat) : CodePoint :=
  if 0xD800 ≤ n ∧ n ≤ 0xDFFF then .surrogate (Fin.ofNat 0x800 (n - 0xD800)) else .scalar (Char.ofNat n)

/-- The character that two halves of a surrogate pair make. -/
def pair (high low : Nat) : CodePoint :=
  .scalar (Char.ofNat (0x10000 + (high - 0xD800) * 0x400 + (low - 0xDC00)))

/-- Reads an escape of the form `\uXXXX` of which the cursor stands on the `u`.  A first half of a surrogate
pair that is followed by an escape for a second half makes one code point with it. -/
def readUnicodeEscape (c : Cursor) : Except ReadError (CodePoint × Cursor) :=
  match hexEscape? (c.rest.drop 1) with
  | none => .error (.malformed .unicodeEscape c.position)
  | some n =>
    let after := c.advance 5
    match after.rest with
    | '\\' :: 'u' :: digits =>
      if isHighSurrogate n ∧ 4 < digits.length then
        match hexEscape? digits with
        | none => .error (.malformed .unicodeEscape (after.position + 1))
        | some m => .ok (if isLowSurrogate m then (pair n m, after.advance 6) else (codePoint n, after))
      else .ok (codePoint n, after)
    | _ => .ok (codePoint n, after)

/-- Reads the rest of a string that starts at `start`; `read` holds the code points so far, the last one
first. -/
def readString (start : Nat) : (fuel : Nat) → (read : Text) → Cursor → Except ReadError (Text × Cursor)
  | 0, _, _ => .error (.malformed .unterminatedString start)
  | fuel + 1, read, c => match c.rest with
    | [] => .error (.malformed .unterminatedString start)
    | '"' :: _ => .ok (read.reverse, c.advance 1)
    | '\\' :: [] => .error (.malformed .unterminatedString start)
    | '\\' :: 'u' :: _ => do
      let (p, c) ← readUnicodeEscape (c.advance 1)
      readString start fuel (p :: read) c
    | '\\' :: letter :: _ => match simpleEscape? letter with
      | none => .error (.malformed .escape c.position)
      | some e => readString start fuel (e :: read) (c.advance 2)
    | ch :: _ =>
      if ch.toNat < 0x20 then .error (.malformed .controlCharacter c.position)
      else readString start fuel (ch :: read) (c.advance 1)

/-! ### Numbers -/

/-- Integers may have this many digits. -/
def mostIntegerDigits : Nat := 4300

/-- The number that decimal digits give. -/
def digitsValue (digits : List Char) : Nat :=
  digits.foldl (fun n d => n * 10 + (d.toNat - '0'.toNat)) 0

/-- The digits at the front: a zero alone, or all that follow another digit. -/
def integerDigits (cs : List Char) : List Char :=
  match cs with
  | '0' :: _ => ['0']
  | _ => cs.takeWhile Char.isDigit

/-- The digits after a point, if there are any. -/
def fractionDigits : List Char → List Char
  | '.' :: cs => cs.takeWhile Char.isDigit
  | _ => []

/-- An exponent and the number of characters that it takes, if there is one. -/
def exponent? : List Char → Option (Int × Nat)
  | e :: cs =>
    if e = 'e' ∨ e = 'E' then
      let (negative, signed, cs) := match cs with
        | '-' :: cs => (true, 1, cs)
        | '+' :: cs => (false, 1, cs)
        | cs => (false, 0, cs)
      let digits := cs.takeWhile Char.isDigit
      if digits.isEmpty then none
      else
        let magnitude : Int := digitsValue digits
        some (if negative then -magnitude else magnitude, 1 + signed + digits.length)
    else none
  | [] => none

/-- Reads a number; one with a fraction or an exponent is a double. -/
def readNumber (c : Cursor) : Except ReadError (Json × Cursor) :=
  let (negative, unsigned) := match c.rest with
    | '-' :: rest => (true, rest)
    | rest => (false, rest)
  let whole := integerDigits unsigned
  if whole.isEmpty then .error (.malformed .value c.position)
  else
    let afterWhole := unsigned.drop whole.length
    let fraction := fractionDigits afterWhole
    let fractionLength := if fraction.isEmpty then 0 else fraction.length + 1
    let exponent := exponent? (afterWhole.drop fractionLength)
    let length := (if negative then 1 else 0) + whole.length + fractionLength + (exponent.map Prod.snd).getD 0
    let after := c.advance length
    if fraction.isEmpty && exponent.isNone then
      if whole.length > mostIntegerDigits then .error .longInteger
      else
        let magnitude : Int := digitsValue whole
        .ok (.number (.integer (if negative then -magnitude else magnitude)), after)
    else
      let scale := (exponent.map Prod.fst).getD 0 - fraction.length
      .ok (.number (.real (.ofDecimal negative (digitsValue (whole ++ fraction)) scale)), after)

/-! ### Values -/

/-- The values that are written as words. -/
def words : List (List Char × Json) :=
  [("null".toList, .null), ("true".toList, .boolean true), ("false".toList, .boolean false),
   ("NaN".toList, .number (.real .nan)), ("Infinity".toList, .number (.real (.infinity false))),
   ("-Infinity".toList, .number (.real (.infinity true)))]

/-- Reads a word or a number. -/
def readAtom (c : Cursor) : Except ReadError (Json × Cursor) :=
  match words.find? fun (word, _) => word.isPrefixOf c.rest with
  | some (word, value) => .ok (value, c.advance word.length)
  | none => readNumber c

mutual

/-- Reads a value at a cursor that stands on its first character. -/
def readValue : (fuel : Nat) → Cursor → Except ReadError (Json × Cursor)
  | 0, c => .error (.malformed .value c.position)
  | fuel + 1, c => match c.rest with
    | '"' :: rest => do
      let (t, c) ← readString c.position (rest.length + 1) [] (c.advance 1)
      return (.string t, c)
    | '[' :: _ =>
      let c := (c.advance 1).skipSpaces
      match c.rest with
      | ']' :: _ => .ok (.array [], c.advance 1)
      | _ => do
        let (items, c) ← readItems fuel [] c
        return (.array items, c)
    | '\x7b' :: _ =>
      let c := (c.advance 1).skipSpaces
      match c.rest with
      | '\x7d' :: _ => .ok (.object [], c.advance 1)
      | _ => do
        let (fields, c) ← readFields fuel [] c
        return (.object fields, c)
    | _ => readAtom c

/-- Reads the rest of an array from the first character of an item on; `read` holds the items so far, the
last one first. -/
def readItems : (fuel : Nat) → (read : List Json) → Cursor → Except ReadError (List Json × Cursor)
  | 0, _, c => .error (.malformed .value c.position)
  | fuel + 1, read, c => do
    let (item, c) ← readValue fuel c
    let c := c.skipSpaces
    match c.rest with
    | ']' :: _ => return ((item :: read).reverse, c.advance 1)
    | ',' :: _ => readItems fuel (item :: read) (c.advance 1).skipSpaces
    | _ => throw (.malformed .comma c.position)

/-- Reads the rest of an object from the key of a field on. -/
def readFields : (fuel : Nat) → (read : List (Text × Json)) → Cursor →
    Except ReadError (List (Text × Json) × Cursor)
  | 0, _, c => .error (.malformed .value c.position)
  | fuel + 1, read, c => match c.rest with
    | '"' :: rest => do
      let (key, c) ← readString c.position (rest.length + 1) [] (c.advance 1)
      let c := c.skipSpaces
      match c.rest with
      | ':' :: _ =>
        let (value, c) ← readValue fuel (c.advance 1).skipSpaces
        let c := c.skipSpaces
        let read := insertField key value read
        match c.rest with
        | '\x7d' :: _ => return (read, c.advance 1)
        | ',' :: _ => readFields fuel read (c.advance 1).skipSpaces
        | _ => throw (.malformed .comma c.position)
      | _ => throw (.malformed .colon c.position)
    | _ => throw (.malformed .propertyName c.position)

end

/-- The value that a whole text stands for. -/
def parse (cs : List Char) : Except ReadError Json :=
  match cs with
  | '\uFEFF' :: _ => .error (.malformed .byteOrderMark 0)
  | _ => do
    let (value, c) ← readValue (2 * cs.length + 2) (Cursor.skipSpaces ⟨0, cs⟩)
    let c := c.skipSpaces
    if c.rest.isEmpty then return value else throw (.malformed .extraData c.position)

/-! ### Messages -/

/-- The words for a complaint. -/
def Complaint.message : Complaint → Text
  | .value => "Expecting value"
  | .comma => "Expecting ',' delimiter"
  | .colon => "Expecting ':' delimiter"
  | .propertyName => "Expecting property name enclosed in double quotes"
  | .extraData => "Extra data"
  | .escape => "Invalid \\escape"
  | .unicodeEscape => "Invalid \\uXXXX escape"
  | .controlCharacter => "Invalid control character at"
  | .unterminatedString => "Unterminated string starting at"
  | .byteOrderMark => "Unexpected UTF-8 BOM (decode using utf-8-sig)"

/-- A complaint with the line, the column and the position that it is about, for the text `cs`. -/
def Complaint.located (complaint : Complaint) (position : Nat) (cs : List Char) : Text :=
  let before := cs.take position
  let line := before.count '\n' + 1
  let column := (before.reverse.takeWhile (· != '\n')).length + 1
  complaint.message ++ ": line " ++ Number.integerText line ++ " column " ++ Number.integerText column
    ++ " (char " ++ Number.integerText position ++ ")"

end Json

end Edm
