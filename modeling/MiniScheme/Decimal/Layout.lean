import MiniScheme.Decimal.Shortest

/-!
# The text of a real

A real is written with the digits of its shortest decimal. From `0.0001` up to but not including
`10 ^ 16` the text is positional and has at least one digit on each side of the point; outside
that range it is scientific, with a point only where more than one digit needs it and no plus
sign in the exponent. Zero keeps its sign, and the values that are not finite are written as
words.

`realOfChars?` reads reals back: decimals, and the words `inf`, `infinity` and `nan` in any
letter case, all with an optional sign.
-/

namespace MiniScheme.Decimal

/-- How many digits may stand in front of the point in positional notation. -/
def longestWhole : Int := 16

/-- How many zeros may stand behind the point before the first other digit. -/
def mostLeadingZeros : Int := 3

/-- Digits with the point behind the first `point` of them. -/
def positional (digits : List Char) (point : Int) : List Char :=
  if point ≤ 0 then
    '0' :: '.' :: (List.replicate (-point).toNat '0' ++ digits)
  else
    let whole := digits.take point.toNat
    let padding := List.replicate (point.toNat - digits.length) '0'
    let behind := digits.drop point.toNat
    whole ++ padding ++ '.' :: (if behind = [] then ['0'] else behind)

/-- Digits with the point behind the first of them, and a power of ten. -/
def scientific (digits : List Char) (point : Int) : List Char :=
  let behind := digits.drop 1
  digits.take 1 ++ (if behind = [] then [] else '.' :: behind) ++ 'e' :: (point - 1).repr.toList

/-- The text of `digits · 10 ^ exponent`. -/
def layout (digits : Nat) (exponent : Int) : List Char :=
  let text := Nat.toDigits 10 digits
  let point := text.length + exponent
  if -mostLeadingZeros ≤ point ∧ point ≤ longestWhole then positional text point
  else scientific text point

/-- The text of a magnitude that is not a NaN. -/
def magnitudeText (pattern : Nat) : List Char :=
  if pattern = 0 then "0.0".toList
  else if pattern = Binary64.infinity then "inf".toList
  else
    let decimal := shortest pattern
    layout decimal.1 decimal.2

/-- The characters of a real. -/
def realText (x : Float) : List Char :=
  let pattern := Binary64.pattern x
  if Binary64.infinity < pattern then "NaN".toList
  else if Binary64.isNegative x then '-' :: magnitudeText pattern
  else magnitudeText pattern

/-- The values that are written as words. -/
def readWord? (word : List Char) (negative : Bool) : Option Float :=
  if word = "inf".toList ∨ word = "infinity".toList then
    some (Binary64.ofPattern negative Binary64.infinity)
  else if word = "nan".toList then
    some (Binary64.ofPattern false (Binary64.infinity + Binary64.octave / 2))
  else none

/-- Reads a real, using up the whole text. -/
def realOfChars? (cs : List Char) : Option Float :=
  let signed := splitSign cs
  match readWord? (signed.2.map Char.toLower) signed.1 with
  | some x => some x
  | none => (read? cs).map toFloat

end MiniScheme.Decimal
