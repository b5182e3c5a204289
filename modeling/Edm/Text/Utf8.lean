import Edm.Number

/-!
# UTF-8

Decoding of bytes, one at a time.  A first byte says how many continuation bytes are owed and which range
the next of them must lie in; the ranges leave out overlong forms, surrogates and numbers above U+10FFFF.
A fault names the bytes of the character that cannot be completed.
-/

namespace Edm

namespace Utf8

/-- Why bytes are not UTF-8. -/
inductive Reason
  | invalidStart
  | invalidContinuation
  | truncated
deriving DecidableEq, Repr

/-- The bytes at fault, the position of the first of them, and the reason. -/
structure Fault where
  reason : Reason
  position : Nat
  bytes : List UInt8
deriving DecidableEq, Repr

/-- A character of which `taken` bytes have been read, the last one first: `owed` bytes follow, the next of
them between `low` and `high`, and `code` is the number so far. -/
structure Pending where
  owed : Nat
  low : Nat
  high : Nat
  code : Nat
  taken : List UInt8
deriving Repr

/-- What a first byte from U+0080 on announces. -/
def lead? (byte : UInt8) : Option Pending :=
  let b := byte.toNat
  if 0xC2 ≤ b ∧ b ≤ 0xDF then some ⟨1, 0x80, 0xBF, b - 0xC0, [byte]⟩
  else if b = 0xE0 then some ⟨2, 0xA0, 0xBF, 0, [byte]⟩
  else if b = 0xED then some ⟨2, 0x80, 0x9F, 0xD, [byte]⟩
  else if 0xE1 ≤ b ∧ b ≤ 0xEF then some ⟨2, 0x80, 0xBF, b - 0xE0, [byte]⟩
  else if b = 0xF0 then some ⟨3, 0x90, 0xBF, 0, [byte]⟩
  else if 0xF1 ≤ b ∧ b ≤ 0xF3 then some ⟨3, 0x80, 0xBF, b - 0xF0, [byte]⟩
  else if b = 0xF4 then some ⟨3, 0x80, 0x8F, 4, [byte]⟩
  else none

/-- How far decoding has come: the bytes read, the character that is not complete, and the characters
before it, the last one first. -/
structure Progress where
  position : Nat
  pending : Option Pending
  chars : List Char
deriving Repr

/-- One byte more. -/
def step (p : Progress) (byte : UInt8) : Except Fault Progress :=
  match p.pending with
  | none =>
    if byte.toNat < 0x80 then .ok ⟨p.position + 1, none, Char.ofNat byte.toNat :: p.chars⟩
    else match lead? byte with
      | some pending => .ok ⟨p.position + 1, some pending, p.chars⟩
      | none => .error ⟨.invalidStart, p.position, [byte]⟩
  | some c =>
    if c.low ≤ byte.toNat ∧ byte.toNat ≤ c.high then
      let code := c.code * 0x40 + (byte.toNat - 0x80)
      if c.owed ≤ 1 then .ok ⟨p.position + 1, none, Char.ofNat code :: p.chars⟩
      else .ok ⟨p.position + 1, some ⟨c.owed - 1, 0x80, 0xBF, code, byte :: c.taken⟩, p.chars⟩
    else .error ⟨.invalidContinuation, p.position - c.taken.length, c.taken.reverse⟩

/-- The characters that bytes stand for. -/
def decode (bytes : List UInt8) : Except Fault (List Char) := do
  let p ← bytes.foldlM step ⟨0, none, []⟩
  match p.pending with
  | none => return p.chars.reverse
  | some c => throw ⟨.truncated, p.position - c.taken.length, c.taken.reverse⟩

/-! ### Messages -/

/-- The words for a reason. -/
def Reason.message : Reason → Text
  | .invalidStart => "invalid start byte"
  | .invalidContinuation => "invalid continuation byte"
  | .truncated => "unexpected end of data"

/-- The wording of a fault; a single byte is shown, of several only the positions. -/
def Fault.message (f : Fault) : Text :=
  let natText (n : Nat) := Number.integerText n
  let span := match f.bytes with
    | [byte] =>
      "byte 0x" ++ Text.ofChars (Nat.toDigits 16 byte.toNat) ++ " in position " ++ natText f.position
    | bytes =>
      "bytes in position " ++ natText f.position ++ "-" ++ natText (f.position + bytes.length - 1)
  "'utf-8' codec can't decode " ++ span ++ ": " ++ f.reason.message

end Utf8

end Edm
