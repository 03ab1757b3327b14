import MiniScheme.Text.BreakTable

/-!
# Clusters

What a reader takes for one character may be written with several: a letter and its accents, a
syllable of Hangul, two letters of a flag, a family of pictographs held together by joiners. Such
a group is a *cluster*. The rules are those of extended grapheme clusters: a text is read from its
start, and each character either joins the cluster before it or starts a new one.

Whether it joins depends on the cluster so far only. Every rule that looks back further than one
character looks back over characters that have joined already, so the cluster holds all that the
rule asks for.

## Main definitions

* `Text.BreakClass`: the classes that the rules speak of.
* `Text.joins`: whether a character joins the cluster before it.
* `Text.clusters`: the clusters of a text.

## Main results

* `Text.flatten_clusters`: the clusters of a text, put together, are the text.
-/

namespace MiniScheme.Text

/-- The part that a character plays in clusters. -/
inductive BreakClass where
  | carriageReturn
  | lineFeed
  /-- Stands alone. -/
  | control
  /-- Extends what is before it. -/
  | extend
  /-- Joins two pictographs. -/
  | joiner
  /-- A mark with room of its own. -/
  | spacing
  /-- Belongs to what follows. -/
  | prepend
  /-- Opens a syllable. -/
  | leading
  /-- Stands in the middle of a syllable. -/
  | vowel
  /-- Closes a syllable. -/
  | trailing
  /-- A syllable that is open at its end. -/
  | openSyllable
  /-- A syllable that is closed at its end. -/
  | closedSyllable
  /-- Half a flag. -/
  | regional
  | pictograph
  /-- A consonant that can be tied to another one. -/
  | consonant
  | other
deriving DecidableEq, Repr

/-- The first syllable of Hangul. -/
def firstSyllable : Nat := 0xAC00

/-- The last syllable of Hangul. -/
def lastSyllable : Nat := 0xD7A3

/-- Syllables come in runs of this length, each with the open syllable first. -/
def syllableRun : Nat := 28

/-- The character that joins pictographs. -/
def zeroWidthJoiner : Nat := 0x200D

/-- The character that keeps letters from being tied together. -/
def zeroWidthNonJoiner : Nat := 0x200C

/-- The class of a character. -/
def BreakClass.ofChar (c : Char) : BreakClass :=
  let code := c.toNat
  if c = '\r' then .carriageReturn
  else if c = '\n' then .lineFeed
  else if code = zeroWidthJoiner then .joiner
  else if covers controlRanges code then .control
  else if covers extendRanges code then .extend
  else if covers spacingRanges code then .spacing
  else if covers prependRanges code then .prepend
  else if covers consonantRanges code then .consonant
  else if covers pictographRanges code then .pictograph
  else if covers regionalRanges code then .regional
  else if covers leadingRanges code then .leading
  else if covers vowelRanges code then .vowel
  else if covers trailingRanges code then .trailing
  else if firstSyllable ≤ code && code ≤ lastSyllable then
    if (code - firstSyllable) % syllableRun = 0 then .openSyllable else .closedSyllable
  else .other

/-- Whether a cluster, its last character first, ends with a pictograph that may have been
extended. -/
def endsWithPictograph (cluster : List Char) : Bool :=
  match cluster.dropWhile fun c => BreakClass.ofChar c = .extend with
  | [] => false
  | c :: _ => BreakClass.ofChar c = .pictograph

/-- Whether a character may stand between two consonants that are tied together. -/
def isBinding (c : Char) : Bool :=
  (BreakClass.ofChar c = .extend && c.toNat ≠ zeroWidthNonJoiner) || BreakClass.ofChar c = .joiner

/-- Whether a cluster, its last character first, ends with a consonant and a linker, perhaps among
other extensions. -/
def endsLinked (cluster : List Char) : Bool :=
  (cluster.takeWhile isBinding).any (fun c => linkers.contains c.toNat) &&
    match cluster.dropWhile isBinding with
    | [] => false
    | c :: _ => BreakClass.ofChar c = .consonant

/-- Whether a cluster, its last character first, ends with full flags only. -/
def endsWithFlags (cluster : List Char) : Bool :=
  (cluster.takeWhile fun c => BreakClass.ofChar c = .regional).length % 2 = 0

/-- Whether a character joins the cluster that ends with `last`; `before` holds the characters of
that cluster before `last`, the last one first. -/
def joins (last : Char) (before : List Char) (next : Char) : Bool :=
  match BreakClass.ofChar last, BreakClass.ofChar next with
  | .carriageReturn, .lineFeed => true
  | .carriageReturn, _ | .lineFeed, _ | .control, _ => false
  | _, .carriageReturn | _, .lineFeed | _, .control => false
  | .leading, .leading | .leading, .vowel => true
  | .leading, .openSyllable | .leading, .closedSyllable => true
  | .openSyllable, .vowel | .openSyllable, .trailing => true
  | .vowel, .vowel | .vowel, .trailing => true
  | .closedSyllable, .trailing | .trailing, .trailing => true
  | _, .extend | _, .joiner | _, .spacing => true
  | .prepend, _ => true
  | _, .consonant => endsLinked (last :: before)
  | .joiner, .pictograph => endsWithPictograph before
  | .regional, .regional => endsWithFlags before
  | _, _ => false

/-- The clusters of the remaining text after the beginning of a cluster, which ends with `last`;
`before` holds its characters before `last`, the last one first. -/
def clustersFrom (last : Char) (before : List Char) : List Char → List (List Char)
  | [] => [(last :: before).reverse]
  | c :: cs =>
      if joins last before c then clustersFrom c (last :: before) cs
      else (last :: before).reverse :: clustersFrom c [] cs

/-- The clusters of a text. -/
def clusters : List Char → List (List Char)
  | [] => []
  | c :: cs => clustersFrom c [] cs

theorem flatten_clustersFrom (last : Char) (before cs : List Char) :
    (clustersFrom last before cs).flatten = (last :: before).reverse ++ cs := by
  induction cs generalizing last before with
  | nil => simp [clustersFrom]
  | cons c cs ih => by_cases h : joins last before c <;> simp [clustersFrom, h, ih]

/-- The clusters of a text, put together, are the text. -/
theorem flatten_clusters (cs : List Char) : (clusters cs).flatten = cs := by
  cases cs with
  | nil => rfl
  | cons c cs => simp [clusters, flatten_clustersFrom]

end MiniScheme.Text
