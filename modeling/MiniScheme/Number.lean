import MiniScheme.Decimal.Layout
import MiniScheme.Error

/-!
# Numbers

A number is a 64-bit integer or a binary64 real. Arithmetic on two integers is exact or refused:
a result outside the 64-bit range is an error, never a wrapped value. As soon as one operand is
real the other is rounded to the nearest real and the operation is that of binary64.

Two integers compare exactly; any other pair compares as reals, and a NaN is unordered.
-/

namespace MiniScheme

/-- A number of the language. -/
inductive Number where
  | integer (value : Int64)
  | real (value : Float)
  deriving DecidableEq

namespace Number

/-! ## Text -/

/-- Integers in decimal with a minus sign where needed, reals as `Decimal.realText` lays down. -/
def render : Number → String
  | .integer n => n.toInt.repr
  | .real x => String.ofList (Decimal.realText x)

/-- The integer that a text denotes: an optional sign and digits, within the 64-bit range. -/
def integerOfChars? (cs : List Char) : Option Int64 :=
  (Decimal.readInt? cs).bind fun n =>
    if Int64.minValue.toInt ≤ n ∧ n ≤ Int64.maxValue.toInt then some (Int64.ofInt n) else none

/-- The number that a text denotes; what fits an integer is one. -/
def ofChars? (cs : List Char) : Option Number :=
  match integerOfChars? cs with
  | some n => some (.integer n)
  | none => (Decimal.realOfChars? cs).map .real

/-! ## Arithmetic -/

/-- The real nearest to an integer. -/
def realOfInteger (n : Int64) : Float := Float.ofInt n.toInt

/-- A number as a real. -/
def toReal : Number → Float
  | .integer n => realOfInteger n
  | .real x => x

/-- An exact integer result, refused outside the 64-bit range. -/
def checked (n : Int) : Except Cause Number :=
  if Int64.minValue.toInt ≤ n ∧ n ≤ Int64.maxValue.toInt then .ok (.integer (Int64.ofInt n))
  else .error .integerOverflow

/-- An operation on two numbers: exact on integers, where the result has to be representable, and
the operation of reals as soon as one of the two is real. -/
def combine (exact : Int → Int → Int) (real : Float → Float → Float) :
    Number → Number → Except Cause Number
  | .integer a, .integer b => checked (exact a.toInt b.toInt)
  | a, b => .ok (.real (real a.toReal b.toReal))

/-- The sum of two numbers. -/
def add : Number → Number → Except Cause Number := combine (· + ·) (· + ·)

/-- The difference of two numbers. -/
def sub : Number → Number → Except Cause Number := combine (· - ·) (· - ·)

/-- The product of two numbers. -/
def mul : Number → Number → Except Cause Number := combine (· * ·) (· * ·)

/-- The quotient of two numbers. An exact integer quotient stays an integer, any other is the
quotient of the two as reals; a zero divisor of either kind is refused. -/
def div : Number → Number → Except Cause Number
  | .integer a, .integer b =>
      if b.toInt = 0 then .error .divisionByZero
      else if a.toInt.tmod b.toInt = 0 then checked (a.toInt.tdiv b.toInt)
      else .ok (.real (realOfInteger a / realOfInteger b))
  | a, b =>
      if b.toReal == 0.0 then .error .divisionByZero
      else .ok (.real (a.toReal / b.toReal))

/-! ## Order -/

/-- Equality of numbers by value, across the two kinds. -/
def same : Number → Number → Bool
  | .integer a, .integer b => a == b
  | a, b => a.toReal == b.toReal

/-- The order of two reals, which a NaN has not. -/
def orderReals (x y : Float) : Option Ordering :=
  if x < y then some .lt
  else if x == y then some .eq
  else if y < x then some .gt
  else none

/-- The order of two numbers, which a NaN has not. -/
def order : Number → Number → Option Ordering
  | .integer a, .integer b => some (compare a.toInt b.toInt)
  | a, b => orderReals a.toReal b.toReal

/-- The four chained comparisons. -/
inductive Comparison where
  | greater
  | greaterEqual
  | less
  | lessEqual
  deriving DecidableEq, Repr

/-- Whether an order satisfies a comparison. -/
def Comparison.admits : Comparison → Ordering → Bool
  | .greater, .gt => true
  | .greaterEqual, .gt => true
  | .greaterEqual, .eq => true
  | .less, .lt => true
  | .lessEqual, .lt => true
  | .lessEqual, .eq => true
  | _, _ => false

/-- Whether two numbers stand in the relation that a comparison asks for. -/
def holds (comparison : Comparison) (a b : Number) : Bool :=
  (order a b).any comparison.admits

end Number

end MiniScheme
