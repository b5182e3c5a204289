/-!
# Double-precision numbers

A finite double is kept as a sign, a significand and a power of two, so that its value is exact and
every operation on it is arithmetic on natural numbers.  `Binary64.ofRatio` and `Binary64.ofDecimal`
give the double nearest to a fraction and to a decimal; a tie goes to the even significand.
-/

namespace Edm

/-- A double: `± significand · 2 ^ exponent`, an infinity, or not a number. -/
inductive Binary64
  | nan
  | infinity (negative : Bool)
  | finite (negative : Bool) (significand : Nat) (exponent : Int)
deriving DecidableEq, Repr, Inhabited

namespace Binary64

/-- The exponent of the smallest doubles. -/
def leastExponent : Int := -1074

/-- The exponent of the largest doubles. -/
def greatestExponent : Int := 971

/-- The zero of a sign. -/
def zero (negative : Bool) : Binary64 := finite negative 0 leastExponent

/-- The nearest natural number to a fraction; a half goes to the even neighbour. -/
def roundHalfEven (num den : Nat) : Nat :=
  let quotient := num / den
  let twice := 2 * (num % den)
  if twice < den ∨ (twice = den ∧ quotient % 2 = 0) then quotient else quotient + 1

/-- The fraction `num / den` in units of `2 ^ exponent`, as a fraction again. -/
def inUnits (num den : Nat) (exponent : Int) : Nat × Nat :=
  (num * Nat.pow 2 (-exponent).toNat, den * Nat.pow 2 exponent.toNat)

/-- The exponent at which a positive fraction has a significand of 53 bits, or the least exponent if it
is too small for that. -/
def exponentOf (num den : Nat) : Int :=
  let guess : Int := (num.log2 : Int) - (den.log2 : Int) - 52
  let (n, d) := inUnits num den guess
  max leastExponent (if n < Nat.pow 2 52 * d then guess - 1 else guess)

/-- The double nearest to the positive fraction `num / den`, up to its sign. -/
def ofRatio (negative : Bool) (num den : Nat) : Binary64 :=
  let exponent := exponentOf num den
  let (n, d) := inUnits num den exponent
  let significand := roundHalfEven n d
  let (significand, exponent) :=
    if significand = Nat.pow 2 53 then (Nat.pow 2 52, exponent + 1) else (significand, exponent)
  if exponent > greatestExponent then infinity negative else finite negative significand exponent

/-- The double nearest to `digits · 10 ^ exponent`, up to its sign.  Far outside the range of a double the
power of ten is not computed. -/
def ofDecimal (negative : Bool) (digits : Nat) (exponent : Int) : Binary64 :=
  if digits = 0 then zero negative
  else if exponent > 400 then infinity negative
  else if exponent < -(400 + (digits.log2 : Int)) then zero negative
  else ofRatio negative (digits * Nat.pow 10 exponent.toNat) (Nat.pow 10 (-exponent).toNat)

/-- The integer that a double is equal to, if it is one. -/
def toInt? : Binary64 → Option Int
  | finite negative significand exponent =>
    let scale := Nat.pow 2 (-exponent).toNat
    if significand % scale = 0 then
      let magnitude : Int := ((significand / scale * Nat.pow 2 exponent.toNat : Nat) : Int)
      some (if negative then -magnitude else magnitude)
    else none
  | _ => none

/-- Whether a double is a zero of either sign. -/
def isZero : Binary64 → Bool
  | finite _ significand _ => significand == 0
  | _ => false

end Binary64

end Edm
