/-!
# Places in a source text

A location is a line and a column, both counted from one. Columns count characters, whatever
their width; only a line feed starts a new line. `Location.after` moves past one character, so
the location of the n-th character is the start location moved past the n characters before it.
-/

namespace MiniScheme

/-- A place in a source text; lines and columns count from one. -/
structure Location where
  line : Nat
  column : Nat
  deriving DecidableEq, Repr

namespace Location

/-- The place of the first character of a text. -/
def start : Location := ⟨1, 1⟩

/-- The place behind the character `c` that stands at `l`. -/
def after (l : Location) (c : Char) : Location :=
  if c = '\n' then ⟨l.line + 1, 1⟩ else ⟨l.line, l.column + 1⟩

@[simp]
theorem after_newline (l : Location) : l.after '\n' = ⟨l.line + 1, 1⟩ := rfl

theorem after_of_ne {c : Char} (h : c ≠ '\n') (l : Location) :
    l.after c = ⟨l.line, l.column + 1⟩ := if_neg h

/-- A location is written as line and column with a colon between them. -/
def render (l : Location) : String :=
  l.line.repr ++ ":" ++ l.column.repr

end Location

end MiniScheme
