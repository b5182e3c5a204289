import Edm.Number.Binary64
import Edm.Text

/-!
# Shortest decimals

The decimal with the fewest digits that is nearer to a double than to any other double, and its layout.
On the grid of `n`-digit decimals only the two neighbours of the value can be such a decimal, so for
`n = 1, 2, …, 17` these two are tested, in exact arithmetic.
-/

namespace Edm

namespace Binary64

/-- The least `k`, counting up from `k`, with `num / den < 10 ^ k`; it is at most `steps` above. -/
def decimalPointFrom (num den : Nat) : (steps : Nat) → (k : Int) → Int
  | 0, k => k
  | steps + 1, k =>
    if num * Nat.pow 10 (-k).toNat < den * Nat.pow 10 k.toNat then k else decimalPointFrom num den steps (k + 1)

/-- The `k` with `10 ^ (k - 1) ≤ num / den < 10 ^ k`, for a positive fraction. -/
def decimalPoint (num den : Nat) : Int :=
  let bits : Int := (num.log2 : Int) - (den.log2 : Int) - 1
  decimalPointFrom num den 4 (bits * 30103 / 100000)

/-- A decimal `digits · 10 ^ exponent`. -/
structure Decimal where
  digits : Nat
  exponent : Int
deriving DecidableEq, Repr

/-- A decimal whose last digit is not zero, with the same value. -/
def Decimal.trim : (fuel : Nat) → Decimal → Decimal
  | 0, d => d
  | fuel + 1, d =>
    if d.digits % 10 = 0 then Decimal.trim fuel ⟨d.digits / 10, d.exponent + 1⟩ else d

/-- The nearer of the two neighbours of `significand · 2 ^ exponent` on the grid `10 ^ grid` that read back
as it; the even one of two that are equally near.

All is measured in quarters of the last bit: the value is `4 · significand`, the doubles above begin two
quarters higher, and the doubles below two quarters lower, or one where the spacing halves. -/
def neighbour? (significand : Nat) (exponent grid : Int) : Option Decimal :=
  let below := if significand = Nat.pow 2 52 ∧ exponent > leastExponent then 1 else 2
  let quarter := exponent - 2
  -- `x` quarters are `x * scale` parts, and `d` steps of the grid are `d * step` parts
  let scale := Nat.pow 2 quarter.toNat * Nat.pow 10 (-grid).toNat
  let step := Nat.pow 10 grid.toNat * Nat.pow 2 (-quarter).toNat
  let value := 4 * significand * scale
  let low := (4 * significand - below) * scale
  let high := (4 * significand + 2) * scale
  let readsBack (d : Nat) : Bool :=
    if significand % 2 = 0 then decide (low ≤ d * step ∧ d * step ≤ high)
    else decide (low < d * step ∧ d * step < high)
  let down := value / step
  let up := down + 1
  let remainder := value % step
  match readsBack down && down != 0, readsBack up with
  | true, true =>
    if 2 * remainder < step ∨ (2 * remainder = step ∧ down % 2 = 0) then some ⟨down, grid⟩
    else some ⟨up, grid⟩
  | true, false => some ⟨down, grid⟩
  | false, true => some ⟨up, grid⟩
  | false, false => none

/-- The shortest decimal for a positive double. -/
def shortest (significand : Nat) (exponent : Int) : Decimal :=
  let point := decimalPoint (significand * Nat.pow 2 exponent.toNat) (Nat.pow 2 (-exponent).toNat)
  let candidate := (List.range 17).findSome? fun n => neighbour? significand exponent (point - (n + 1 : Nat))
  (candidate.getD ⟨significand, exponent⟩).trim 17

/-! ### Layout -/

/-- Decimals are positional while the point stands after at most this many digits. -/
def mostPlaces : Int := 16

/-- Decimals are positional while at most this many zeros follow the point. -/
def mostZeros : Int := 3

/-- Digits of a natural number. -/
def decimalDigits (n : Nat) : List Char := Nat.toDigits 10 n

/-- An exponent has a sign and at least two digits. -/
def exponentText (n : Int) : List Char :=
  let magnitude := decimalDigits n.natAbs
  (if n < 0 then '-' else '+') :: (if magnitude.length < 2 then '0' :: magnitude else magnitude)

/-- A decimal in positional notation with a digit on both sides of the point, or in scientific notation
when the point would be far from the digits. -/
def Decimal.layout (d : Decimal) : List Char :=
  let digits := decimalDigits d.digits
  let point : Int := digits.length + d.exponent
  if -mostZeros ≤ point ∧ point ≤ mostPlaces then
    if point ≤ 0 then '0' :: '.' :: (List.replicate (-point).toNat '0' ++ digits)
    else if (digits.length : Int) ≤ point then
      digits ++ List.replicate (point.toNat - digits.length) '0' ++ ['.', '0']
    else digits.take point.toNat ++ '.' :: digits.drop point.toNat
  else
    let mantissa := match digits with
      | first :: second :: rest => first :: '.' :: second :: rest
      | short => short
    mantissa ++ 'e' :: exponentText (point - 1)

/-- The text of a double: the shortest decimal that reads back. -/
def text : Binary64 → Text
  | nan => "nan"
  | infinity negative => if negative then "-inf" else "inf"
  | finite negative significand exponent =>
    let magnitude := if significand = 0 then ['0', '.', '0'] else (shortest significand exponent).layout
    Text.ofChars (if negative then '-' :: magnitude else magnitude)

end Binary64

end Edm
