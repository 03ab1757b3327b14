import MiniScheme.Decimal

/-!
# The shortest decimal of a binary64 value

Of all decimals that round to a given positive value, `shortest` picks one with the fewest
digits, and among those the nearest to the value; between two that are equally near it takes the
greater. For each number of digits in turn, only the two neighbours of the value on the grid of
that many digits have to be tried: if any decimal on the grid rounds to the value, one of these
two does.
-/

namespace MiniScheme.Decimal

/-- The `p` for which `10 ^ (p - 1) ≤ num / den < 10 ^ p`, for a positive fraction. -/
def pointOf (num den : Nat) : Int :=
  if den ≤ num then length (num / den)
  else 1 - (length ((den - 1) / num) : Int)

/-- The fraction `num / den` in units of `10 ^ exponent`. -/
def inUnits (num den : Nat) (exponent : Int) : Nat × Nat :=
  if 0 ≤ exponent then (num, den * Nat.pow 10 exponent.toNat)
  else (num * Nat.pow 10 (-exponent).toNat, den)

/-- A number of at most `count` digits and a power of ten; the power of ten just above all such
numbers has a single digit. -/
def withDigits (count digits : Nat) (exponent : Int) : Nat × Int :=
  if digits = Nat.pow 10 count then (1, exponent + count) else (digits, exponent)

/-- The decimal of `count` digits for the value with the given pattern and fraction: the nearer
of its neighbours on the grid, the upper one on a tie, if both round to the value; otherwise the
one that does, if any. -/
def neighbour? (pattern num den : Nat) (point : Int) (count : Nat) : Option (Nat × Int) :=
  let exponent := point - count
  let units := inUnits num den exponent
  let below := units.1 / units.2
  let lowFits := nearestPattern below exponent == pattern
  let highFits := nearestPattern (below + 1) exponent == pattern
  if highFits && (!lowFits || decide (units.2 ≤ 2 * (units.1 % units.2))) then
    some (withDigits count (below + 1) exponent)
  else if lowFits then some (below, exponent)
  else none

/-- All digits of the value with the given finite pattern. -/
def exact (pattern : Nat) : Nat × Int :=
  let value := Binary64.parts pattern
  if 0 ≤ value.2 then (value.1 * Nat.pow 2 value.2.toNat, 0)
  else (value.1 * Nat.pow 5 (-value.2).toNat, value.2)

/-- Digits and power of ten of the shortest decimal for a positive finite pattern. Seventeen
digits are enough for every value, so the exact decimal only completes the definition. -/
def shortest (pattern : Nat) : Nat × Int :=
  let value := Binary64.fraction pattern
  let point := pointOf value.1 value.2
  let found := (List.range 17).findSome? fun n =>
    neighbour? pattern value.1 value.2 point (n + 1)
  found.getD (exact pattern)

end MiniScheme.Decimal
