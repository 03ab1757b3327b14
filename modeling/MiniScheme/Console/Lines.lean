import MiniScheme.Text.Backspace

/-!
# Lines of input

Input comes as bytes. A line ends with a line feed, or with a carriage return and a line feed;
the last line may end with the input instead. The text of a line is its bytes as UTF-8, if they
are valid, after every backspace in it has taken back what it can.
-/

namespace MiniScheme.Console

/-- The byte that ends a line. -/
def lineFeed : UInt8 := 10

/-- The byte that may stand before the one that ends a line. -/
def carriageReturn : UInt8 := 13

/-- The line whose bytes before the line feed are given, the last one first. -/
def endedLine : List UInt8 → List UInt8
  | b :: bs => if b = carriageReturn then bs.reverse else (b :: bs).reverse
  | [] => []

/-- Splits bytes into lines; `read` holds the bytes of the present line, the last one first. -/
def linesFrom (read : List UInt8) : List UInt8 → List (List UInt8)
  | [] => if read = [] then [] else [read.reverse]
  | b :: bs =>
      if b = lineFeed then endedLine read :: linesFrom [] bs else linesFrom (b :: read) bs

/-- The text of some bytes, if they are valid UTF-8. -/
def decode? (bytes : List UInt8) : Option String :=
  String.fromUTF8? ⟨bytes.toArray⟩

/-- What the bytes of a line stand for. -/
inductive Line where
  | text (line : String)
  /-- The bytes are not UTF-8. -/
  | invalid
  /-- A backspace would cut a character. -/
  | broken
  deriving DecidableEq, Repr

/-- Reads the bytes of a line. -/
def Line.ofBytes (bytes : List UInt8) : Line :=
  match decode? bytes with
  | none => .invalid
  | some typed =>
      match Text.applyBackspaces? typed with
      | none => .broken
      | some line => .text line

/-- The lines of an input. -/
def lines (input : ByteArray) : List Line := (linesFrom [] input.toList).map Line.ofBytes

end MiniScheme.Console
