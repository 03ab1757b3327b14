/-!
# Keywords

A list headed by one of these symbols is a special form with an evaluation rule of its own.
-/

namespace MiniScheme

/-- The special forms. -/
inductive Keyword where
  | define
  | lambda
  | ifThenElse
  | begin
  | and
  | or
  | letIn
  | set
  | del
  | cons
  | list
  deriving DecidableEq, Repr

namespace Keyword

/-- All keywords. -/
def all : List Keyword :=
  [.define, .lambda, .ifThenElse, .begin, .and, .or, .letIn, .set, .del, .cons, .list]

/-- The symbol of a keyword. -/
def text : Keyword → String
  | .define => "define"
  | .lambda => "lambda"
  | .ifThenElse => "if"
  | .begin => "begin"
  | .and => "and"
  | .or => "or"
  | .letIn => "let"
  | .set => "set!"
  | .del => "del"
  | .cons => "cons"
  | .list => "list"

/-- The keyword with the given symbol. -/
def ofText? (text : String) : Option Keyword :=
  all.find? fun keyword => keyword.text == text

theorem ofText?_text (k : Keyword) : ofText? k.text = some k := by
  cases k <;> decide

theorem text_of_ofText? {text : String} {k : Keyword} (h : ofText? text = some k) :
    k.text = text := by
  simpa using List.find?_some h

end Keyword

end MiniScheme
