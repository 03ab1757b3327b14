import MiniScheme.Location
import MiniScheme.Text.Blank

/-!
# Tokens

A source text is a sequence of parentheses and atoms. White space separates tokens, and so does
a comment, which runs from a semicolon to the end of its line. An atom is a maximal run of
characters that are none of these.

`Token.scan` reads a text from left to right, one character at a time. What it has to remember
is its `Scan` mode: it is between tokens, inside a comment, or inside an atom whose place and
first characters it carries.
-/

namespace MiniScheme

/-- A token without its place. -/
inductive Lexeme where
  | left
  | right
  | atom (text : String)
  deriving DecidableEq, Repr

/-- The characters a token was read from. -/
def Lexeme.text : Lexeme → String
  | .left => "("
  | .right => ")"
  | .atom text => text

/-- A token and the place of its first character. -/
structure Token where
  lexeme : Lexeme
  location : Option Location
  deriving DecidableEq, Repr

namespace Token

/-- The characters that end an atom. -/
def isDelimiter (c : Char) : Bool :=
  c == '(' || c == ')' || c == ';' || Text.isBlank c

/-- What the scanner remembers of the characters behind it. -/
inductive Scan where
  | between
  | comment
  /-- Inside an atom; `read` holds its characters, the last one first. -/
  | atom (start : Location) (read : List Char)
  deriving DecidableEq, Repr

/-- The token that ends here, if the scanner is inside one. -/
def Scan.finish : Scan → List Token
  | .atom start read => [⟨.atom (String.ofList read.reverse), some start⟩]
  | _ => []

/-- Outside comments and atoms a character stands for itself: the token it makes up, if it does,
and the mode it leaves the scanner in. -/
def Scan.lead (l : Location) (c : Char) : List Token × Scan :=
  if c = '(' then ([⟨.left, some l⟩], .between)
  else if c = ')' then ([⟨.right, some l⟩], .between)
  else if c = ';' then ([], .comment)
  else if Text.isBlank c then ([], .between)
  else ([], .atom l [c])

/-- Reads one character at `l`: the tokens it completes and the mode after it. -/
def Scan.step (mode : Scan) (l : Location) (c : Char) : List Token × Scan :=
  match mode with
  | .between => Scan.lead l c
  | .comment => ([], if c = '\n' then .between else .comment)
  | .atom start read =>
      if isDelimiter c then
        let next := Scan.lead l c
        (mode.finish ++ next.1, next.2)
      else ([], .atom start (c :: read))

/-- The tokens of the characters that remain, from the given mode and place. -/
def scanFrom (mode : Scan) (l : Location) : List Char → List Token
  | [] => mode.finish
  | c :: cs =>
      let next := mode.step l c
      next.1 ++ scanFrom next.2 (l.after c) cs

/-- The tokens of a text, in order, each with the place of its first character. -/
def scan (source : String) : List Token :=
  scanFrom .between .start source.toList

/-- Number of tokens that are the given parenthesis. -/
def count (lexeme : Lexeme) (tokens : List Token) : Nat :=
  tokens.countP fun token => token.lexeme == lexeme

end Token

end MiniScheme
