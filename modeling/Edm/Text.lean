/-!
# Text

A text is a list of code points.  Escapes in a graph file can name one half of a surrogate pair without
the other, so a code point is either a character or such a half; everything else about text is list
arithmetic.  The main facts are that characters survive the round trip through a text
(`Text.toChars_ofChars`) and that the pieces around a separator can be put together again
(`Text.join_cons_cons`).
-/

namespace Edm

/-- A character, or half of a surrogate pair that stands alone. -/
inductive CodePoint
  | scalar (c : Char)
  | surrogate (offset : Fin 0x800)
deriving DecidableEq, Repr, Inhabited

namespace CodePoint

instance : Coe Char CodePoint := ⟨scalar⟩

/-- The number of a code point. -/
def value : CodePoint → Nat
  | scalar c => c.toNat
  | surrogate offset => 0xD800 + offset.val

/-- The character for a code point; a lone surrogate is shown as U+FFFD. -/
def toChar : CodePoint → Char
  | scalar c => c
  | surrogate _ => '\uFFFD'

end CodePoint

/-- A sequence of code points. -/
abbrev Text := List CodePoint

namespace Text

/-- The text with the given characters. -/
def ofChars (cs : List Char) : Text := cs.map CodePoint.scalar

/-- The text with the characters of a string. -/
def ofString (s : String) : Text := ofChars s.toList

instance : Coe String Text := ⟨ofString⟩

/-- The characters of a text, with U+FFFD for each lone surrogate. -/
def toChars (t : Text) : List Char := t.map CodePoint.toChar

/-- A text as a string, with U+FFFD for each lone surrogate. -/
def toString (t : Text) : String := String.ofList t.toChars

theorem toChars_ofChars (cs : List Char) : (ofChars cs).toChars = cs := by
  simp [ofChars, toChars, Function.comp_def, CodePoint.toChar]

theorem ofChars_append (cs ds : List Char) : ofChars (cs ++ ds) = ofChars cs ++ ofChars ds := by
  simp [ofChars]

/-! ### Pieces of a text -/

/-- The given texts in order, with `separator` between any two neighbours. -/
def join (separator : Text) : List Text → Text
  | [] => []
  | [t] => t
  | t :: u :: rest => t ++ separator ++ join separator (u :: rest)

theorem join_cons_cons (separator t u : Text) (rest : List Text) :
    join separator (t :: u :: rest) = t ++ separator ++ join separator (u :: rest) := rfl

/-- A text without its trailing copies of one code point. -/
def trimRight (c : CodePoint) (t : Text) : Text := (t.reverse.dropWhile (· == c)).reverse

/-- What follows the last copy of a code point; the whole text if there is none. -/
def afterLast (c : CodePoint) (t : Text) : Text := (t.reverse.takeWhile (· != c)).reverse

theorem not_mem_afterLast (c : CodePoint) (t : Text) : c ∉ afterLast c t := by
  intro h
  have h' := List.all_eq_true.1 List.all_takeWhile _ (List.mem_reverse.1 h)
  simp at h'

end Text

end Edm
