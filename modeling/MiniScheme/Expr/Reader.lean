import MiniScheme.Expr
import MiniScheme.Token
import MiniScheme.Error

/-!
# Reading expressions from tokens

`Expr.forms` reads a token sequence from left to right and keeps a stack of the lists that are
still open. Every top-level form, every closing parenthesis that closes nothing, and a list left
open at the end give one item of the result, in order.

`Expr.parse` reads a single expression. It first checks the sequence as a whole (`validate`):
the sequence is not empty, does not start with a closing parenthesis, has as many opening as
closing parentheses, and is a single token or has a parenthesis. It then takes the first form
and ignores what follows it.
-/

namespace MiniScheme.Expr

/-- A list whose closing parenthesis has not come yet; `items` holds the last element first. -/
structure OpenList where
  location : Option Location
  items : List Expr

/-- The expression for a list that closes now. -/
def OpenList.close (group : OpenList) : Expr :=
  .list group.location group.items.reverse

/-- Reads the remaining tokens; `groups` holds the open lists, the innermost first, and `last`
is the place of the token before. A finished expression belongs to the innermost open list, and
is a form of its own if there is none. -/
def formsFrom (groups : List OpenList) (last : Option Location) :
    List Token → List (Except Error Expr)
  | [] =>
      match groups with
      | [] => []
      | _ :: _ => [.error ⟨.unexpectedEnd, last⟩]
  | ⟨.left, l⟩ :: tokens => formsFrom (⟨l, []⟩ :: groups) l tokens
  | ⟨.atom text, l⟩ :: tokens =>
      match groups with
      | [] => .ok (ofAtom l text) :: formsFrom [] l tokens
      | group :: outer =>
          formsFrom ({ group with items := ofAtom l text :: group.items } :: outer) l tokens
  | ⟨.right, l⟩ :: tokens =>
      match groups with
      | [] => .error ⟨.unmatchedParenthesis, l⟩ :: formsFrom [] l tokens
      | [group] => .ok group.close :: formsFrom [] l tokens
      | group :: group' :: outer =>
          formsFrom ({ group' with items := group.close :: group'.items } :: outer) l tokens

/-- All top-level forms of a token sequence, with an error for whatever is not one. -/
def forms (tokens : List Token) : List (Except Error Expr) :=
  formsFrom [] none tokens

/-- Checks a token sequence as a whole. -/
def validate (tokens : List Token) : Except Error Unit :=
  match tokens with
  | [] => .error (.bare .unexpectedEnd)
  | first :: rest =>
      let opening := Token.count .left tokens
      let closing := Token.count .right tokens
      if first.lexeme = .right then .error ⟨.unmatchedParenthesis, first.location⟩
      else if opening ≠ closing then .error (.bare (.unbalancedParentheses opening closing))
      else if rest ≠ [] ∧ opening = 0 then .error (.bare .ungroupedAtoms)
      else .ok ()

/-- The first expression of a token sequence that passes `validate`. -/
def parse (tokens : List Token) : Except Error Expr :=
  match validate tokens with
  | .error e => .error e
  | .ok () => (forms tokens).headD (.error (.bare .unexpectedEnd))

/-- The first expression of a source text. -/
def ofSource (source : String) : Except Error Expr :=
  parse (Token.scan source)

end MiniScheme.Expr
