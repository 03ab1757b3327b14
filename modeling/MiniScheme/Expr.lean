import MiniScheme.Number
import MiniScheme.Location

/-!
# Expressions

An expression is a number, a symbol or a list of expressions. Each node remembers the place it
was read from, if it was read. An atom is a number if it follows the grammar of numbers and a
symbol otherwise, so every text is some atom.

The printed form of an expression leaves places out.
-/

namespace MiniScheme

/-- An expression; every node carries the place of its first character, where it has one. -/
inductive Expr where
  | number (location : Option Location) (value : Number)
  | symbol (location : Option Location) (name : String)
  | list (location : Option Location) (items : List Expr)

namespace Expr

/-- The place of an expression. -/
def location : Expr → Option Location
  | .number l _ => l
  | .symbol l _ => l
  | .list l _ => l

/-- The atom with the given text. -/
def ofAtom (l : Option Location) (text : String) : Expr :=
  match Number.ofChars? text.toList with
  | some n => .number l n
  | none => .symbol l text

/-- The name of a symbol. -/
def name? : Expr → Option String
  | .symbol _ name => some name
  | _ => none

mutual

/-- The printed form: atoms as they are, lists in parentheses with single spaces. -/
def render : Expr → String
  | .number _ n => n.render
  | .symbol _ name => name
  | .list _ items => "(" ++ renderItems items ++ ")"

/-- The printed forms of several expressions, with single spaces between them. -/
def renderItems : List Expr → String
  | [] => ""
  | [e] => e.render
  | e :: e' :: es => e.render ++ " " ++ renderItems (e' :: es)

end

mutual

/-- The height of the tree; an atom and the empty list have height one. -/
def height : Expr → Nat
  | .number _ _ => 1
  | .symbol _ _ => 1
  | .list _ items => heightItems items + 1

/-- The greatest height among several expressions. -/
def heightItems : List Expr → Nat
  | [] => 0
  | e :: es => max e.height (heightItems es)

end

theorem height_pos (e : Expr) : 0 < e.height := by
  cases e <;> simp [height]

theorem height_le_heightItems {e : Expr} {es : List Expr} (h : e ∈ es) :
    e.height ≤ heightItems es := by
  induction es with
  | nil => simp at h
  | cons head tail ih =>
      rw [heightItems]
      rcases List.mem_cons.1 h with rfl | h
      · exact Nat.le_max_left _ _
      · exact Nat.le_trans (ih h) (Nat.le_max_right _ _)

end Expr

end MiniScheme
