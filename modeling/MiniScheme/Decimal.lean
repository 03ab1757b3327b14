import MiniScheme.Binary64

/-!
# Decimals

A decimal is a sign, a natural number and a power of ten. This module reads decimals from text
and rounds them to binary64.

The grammar is an optional sign; digits with an optional point, at least one digit on some side
of it; and optionally `e` or `E`, an optional sign and at least one digit.
-/

namespace MiniScheme

/-- The number `± digits · 10 ^ exponent`. -/
structure Decimal where
  negative : Bool
  digits : Nat
  exponent : Int
  deriving DecidableEq, Repr

namespace Decimal

/-! ## Reading -/

/-- Splits off an optional sign; the flag tells whether it was a minus. -/
def splitSign : List Char → Bool × List Char
  | '-' :: cs => (true, cs)
  | '+' :: cs => (false, cs)
  | cs => (false, cs)

/-- The natural number that a run of digits denotes, leading zeros allowed. -/
def natOfDigits (cs : List Char) : Nat :=
  cs.foldl (fun n c => 10 * n + (c.toNat - '0'.toNat)) 0

/-- An integer as a sign and a non-empty run of digits, the sign optional. -/
def readInt? (cs : List Char) : Option Int :=
  let signed := splitSign cs
  if signed.2 ≠ [] ∧ signed.2.all Char.isDigit then
    let magnitude : Int := natOfDigits signed.2
    some (if signed.1 then -magnitude else magnitude)
  else none

/-- Splits off the digits behind a point, if there is one. -/
def splitFraction : List Char → List Char × List Char
  | '.' :: cs => (cs.takeWhile Char.isDigit, cs.dropWhile Char.isDigit)
  | cs => ([], cs)

/-- The power of ten at the end of a decimal; nothing at all stands for zero. -/
def readExponent? : List Char → Option Int
  | [] => some 0
  | c :: cs => if c = 'e' ∨ c = 'E' then readInt? cs else none

/-- Reads a decimal, using up the whole text. -/
def read? (cs : List Char) : Option Decimal :=
  let signed := splitSign cs
  let whole := signed.2.takeWhile Char.isDigit
  let split := splitFraction (signed.2.dropWhile Char.isDigit)
  if whole = [] ∧ split.1 = [] then none
  else
    (readExponent? split.2).map fun exponent =>
      ⟨signed.1, natOfDigits (whole ++ split.1), exponent - split.1.length⟩

/-! ## Rounding to binary64 -/

/-- Number of decimal digits of a natural number; zero has none. -/
def length (n : Nat) : Nat :=
  if n = 0 then 0 else (Nat.toDigits 10 n).length

/-- The fraction `digits · 10 ^ exponent`. -/
def toFraction (digits : Nat) (exponent : Int) : Nat × Nat :=
  if 0 ≤ exponent then (digits * Nat.pow 10 exponent.toNat, 1)
  else (digits, Nat.pow 10 (-exponent).toNat)

/-- The pattern of the binary64 value nearest to `digits · 10 ^ exponent`. A number of more than
310 integer digits is beyond every finite value, and one that starts more than 330 places behind
the point is below half the smallest positive value; these need no power of ten at all. -/
def nearestPattern (digits : Nat) (exponent : Int) : Nat :=
  let point := length digits + exponent
  if digits = 0 ∨ point < -330 then 0
  else if 310 < point then Binary64.infinity
  else
    let value := toFraction digits exponent
    Binary64.nearest value.1 value.2

/-- The binary64 value nearest to a decimal. -/
def toFloat (d : Decimal) : Float :=
  Binary64.ofPattern d.negative (nearestPattern d.digits d.exponent)

end Decimal

end MiniScheme
