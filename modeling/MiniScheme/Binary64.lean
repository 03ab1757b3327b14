/-!
# Binary64: nearest values and exact fractions

Non-negative binary64 values are handled through their bit patterns, as natural numbers: a
pattern below `infinity` stands for the fraction `fraction pattern`, and larger patterns of the
same sign stand for larger values. `nearest num den` is the pattern of the value nearest to
`num / den`, a tie going to the even pattern; everything from half a unit above the greatest
finite value on becomes `infinity`.

All of this is exact arithmetic on natural numbers.
-/

namespace MiniScheme.Binary64

/-- Number of patterns between two powers of two. -/
def octave : Nat := Nat.pow 2 52

/-- The pattern of positive infinity, one above that of the greatest finite value. -/
def infinity : Nat := 2047 * octave

/-- Binary exponent of the smallest positive value. -/
def leastExponent : Int := -1074

/-- The quotient of two natural numbers rounded to the nearest one, a tie to the even one. -/
def roundDiv (num den : Nat) : Nat :=
  let quotient := num / den
  let doubled := 2 * (num % den)
  if doubled < den then quotient
  else if den < doubled then quotient + 1
  else quotient + quotient % 2

/-- The fraction `num / den` divided by `2 ^ exponent`. -/
def scale (num den : Nat) (exponent : Int) : Nat × Nat :=
  if 0 ≤ exponent then (num, den * Nat.pow 2 exponent.toNat)
  else (num * Nat.pow 2 (-exponent).toNat, den)

/-- Exponent of the last place of a value near `num / den`: in units of that place the fraction
lies below `2 ^ 53`, and not below `2 ^ 52` unless the exponent is the least one. -/
def placeExponent (num den : Nat) : Int :=
  let guess : Int := num.log2 - den.log2 - 53
  let scaled := scale num den guess
  max leastExponent (if scaled.1 / scaled.2 < 2 * octave then guess else guess + 1)

/-- The pattern of the value nearest to `num / den`. In units of its last place a value has a
significand below `2 ^ 53`; adding the significand to the exponent field lets the hidden bit,
and a carry out of rounding, raise the exponent by one. -/
def nearest (num den : Nat) : Nat :=
  let exponent := placeExponent num den
  let scaled := scale num den exponent
  min infinity ((exponent - leastExponent).toNat * octave + roundDiv scaled.1 scaled.2)

/-- Significand and exponent of the value with the given finite pattern. -/
def parts (pattern : Nat) : Nat × Int :=
  let field := pattern / octave
  let significand := pattern % octave
  if field = 0 then (significand, leastExponent)
  else (octave + significand, leastExponent + (field - 1 : Nat))

/-- The value of a finite pattern, as a fraction. -/
def fraction (pattern : Nat) : Nat × Nat :=
  let value := parts pattern
  scale value.1 1 (-value.2)

/-- The bit that marks a negative value. -/
def signBit : Nat := Nat.pow 2 63

/-- The value with the given sign and magnitude. -/
def ofPattern (negative : Bool) (pattern : Nat) : Float :=
  Float.ofBits (UInt64.ofNat (if negative then signBit + pattern else pattern))

/-- Whether the sign bit is set. -/
def isNegative (x : Float) : Bool := decide (signBit ≤ x.toBits.toNat)

/-- The pattern of the magnitude. -/
def pattern (x : Float) : Nat := x.toBits.toNat % signBit

end MiniScheme.Binary64
