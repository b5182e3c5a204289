import Edm.Number.Shortest

/-!
# Numbers

A number is written either as an integer of any size or as a double, and remembers which.
-/

namespace Edm

/-- An integer or a double. -/
inductive Number
  | integer (n : Int)
  | real (x : Binary64)
deriving DecidableEq, Repr, Inhabited

namespace Number

/-- The decimal text of an integer of any size.  A limit on its digits, as reading has one
(`Json.mostIntegerDigits`), is left out. -/
def integerText (n : Int) : Text :=
  let magnitude := Binary64.decimalDigits n.natAbs
  Text.ofChars (if n < 0 then '-' :: magnitude else magnitude)

/-- The text that tells integers and doubles apart: a double has a point or an exponent. -/
def text : Number → Text
  | integer n => integerText n
  | real x => x.text

/-- The text of a number in a schema: a double that is an integer is written as that integer. -/
def schemaText : Number → Text
  | integer n => integerText n
  | real x => match x.toInt? with
    | some n => integerText n
    | none => x.text

/-- Whether a number is zero. -/
def isZero : Number → Bool
  | integer n => n == 0
  | real x => x.isZero

/-- Whether two numbers have one value; a value that is not a number counts as equal to itself. -/
def sameValue : Number → Number → Bool
  | integer m, integer n => m == n
  | integer m, real x => x.toInt? == some m
  | real x, integer n => x.toInt? == some n
  | real x, real y => x == y || (x.isZero && y.isZero)

end Number

end Edm
