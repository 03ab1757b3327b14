/-!
# Formal parameters

A parameter list names a fixed number of parameters and, optionally, one more name that takes
all further arguments as a list.
-/

namespace MiniScheme

/-- Names of the fixed parameters, in order, and of the list of further arguments, if any. -/
structure Formals where
  fixed : List String
  rest : Option String
  deriving DecidableEq, Repr

namespace Formals

/-- Without a rest name the count has to be exact; with one it is a lower bound. -/
def accepts (f : Formals) (count : Nat) : Bool :=
  match f.rest with
  | some _ => f.fixed.length ≤ count
  | none => count == f.fixed.length

theorem accepts_of_rest_eq_none {f : Formals} (h : f.rest = none) (count : Nat) :
    f.accepts count = true ↔ count = f.fixed.length := by
  simp [accepts, h]

theorem accepts_of_rest_eq_some {f : Formals} {rest : String} (h : f.rest = some rest)
    (count : Nat) : f.accepts count = true ↔ f.fixed.length ≤ count := by
  simp [accepts, h]

/-- All names of a parameter list, the rest name last. -/
def names (f : Formals) : List String := f.fixed ++ f.rest.toList

/-- A parameter list is written the way it is read: `()`, `(a b)`, `(a b . rest)`, or `rest`
alone when there is nothing but a rest name. -/
def render (f : Formals) : String :=
  match f.fixed, f.rest with
  | [], none => "()"
  | [], some rest => rest
  | fixed, none => "(" ++ " ".intercalate fixed ++ ")"
  | fixed, some rest => "(" ++ " ".intercalate fixed ++ " . " ++ rest ++ ")"

end Formals

end MiniScheme
