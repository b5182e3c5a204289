import Edm.Text
import Edm.Text.Range

/-!
# Characters and names of XML

The characters that a document may hold, and those that its names are made of, as the productions `Char`,
`NameStartChar` and `NameChar` of XML 1.0 have them.
-/

namespace Edm

namespace Xml

/-- The production `Char`. -/
def charRanges : Ranges :=
  [(0x9, 0xA), (0xD, 0xD), (0x20, 0xD7FF), (0xE000, 0xFFFD), (0x10000, 0x10FFFF)]

/-- Whether a document may hold a character. -/
def isChar (c : Char) : Bool := charRanges.holds c.toNat

/-- The character in a document for a code point: U+FFFD where the document cannot hold it. -/
def safeChar : CodePoint → Char
  | .scalar c => if isChar c then c else '\uFFFD'
  | .surrogate _ => '\uFFFD'

/-- A text with every code point that a document cannot hold replaced by U+FFFD. -/
def safe (t : Text) : List Char := t.map safeChar

theorem isChar_safeChar (p : CodePoint) : isChar (safeChar p) = true := by
  cases p with
  | scalar c =>
    by_cases h : isChar c = true
    · simp [safeChar, h]
    · rw [safeChar, if_neg h]
      decide
  | surrogate offset =>
    simp only [safeChar]
    decide

/-- All that a document gets to hold are characters that it may hold. -/
theorem isChar_of_mem_safe {t : Text} {c : Char} (h : c ∈ safe t) : isChar c = true := by
  obtain ⟨p, _, rfl⟩ := List.mem_map.1 h
  exact isChar_safeChar p

/-- The production `NameStartChar`, less the colon. -/
def nameStartRanges : Ranges :=
  [(0x41, 0x5A), (0x5F, 0x5F), (0x61, 0x7A), (0xC0, 0xD6), (0xD8, 0xF6), (0xF8, 0x2FF), (0x370, 0x37D),
   (0x37F, 0x1FFF), (0x200C, 0x200D), (0x2070, 0x218F), (0x2C00, 0x2FEF), (0x3001, 0xD7FF), (0xF900, 0xFDCF),
   (0xFDF0, 0xFFFD), (0x10000, 0xEFFFF)]

/-- The characters that a name may hold after the first, in addition. -/
def nameRestRanges : Ranges :=
  [(0x2D, 0x2E), (0x30, 0x39), (0xB7, 0xB7), (0x300, 0x36F), (0x203F, 0x2040)]

/-- Whether a name may start with a character. -/
def isNameStart (c : Char) : Bool := nameStartRanges.holds c.toNat

/-- Whether a name may hold a character. -/
def isNameChar (c : Char) : Bool := isNameStart c || nameRestRanges.holds c.toNat

/-- Whether characters are a name without a colon. -/
def isName : List Char → Bool
  | [] => false
  | c :: cs => isNameStart c && cs.all isNameChar

/-- The characters of a text that is a name without a colon. -/
def name? (t : Text) : Option (List Char) :=
  let cs := t.toChars
  if Text.ofChars cs = t ∧ isName cs then some cs else none

end Xml

end Edm
