import MiniScheme.Location
import MiniScheme.Formals

/-!
# Errors

An error is a cause and, once it is known, the place in the source that it points at. Causes are
data; their wording is the single function `Cause.message`. An error that travels outward keeps
the first place it was given (`Error.orAt`), so the innermost expression wins.

Values that appear in a message are carried as their printed text.
-/

namespace MiniScheme

/-- What an operation expected where it found something else. -/
inductive Kind where
  | number
  | integer
  | pair
  | list
  deriving DecidableEq, Repr

/-- The name of a kind in messages. -/
def Kind.render : Kind → String
  | .number => "Number"
  | .integer => "Integer"
  | .pair => "Pair"
  | .list => "List"

/-- Why the text of a file could not be had. -/
inductive FileFault where
  | notFound
  | isDirectory
  /-- A file stands where the path needs a directory. -/
  | notDirectory
  | nameTooLong
  | notUtf8
  | other (description : String)
  deriving DecidableEq, Repr

/-- The description of a fault, in the words of the operating system. -/
def FileFault.message : FileFault → String
  | .notFound => "No such file or directory (os error 2)"
  | .isDirectory => "Is a directory (os error 21)"
  | .notDirectory => "Not a directory (os error 20)"
  | .nameTooLong => "File name too long (os error 36)"
  | .notUtf8 => "stream did not contain valid UTF-8"
  | .other description => description

/-- The reasons for which reading or evaluating a text can fail. -/
inductive Cause where
  /-- The text ends inside a form, or holds none. -/
  | unexpectedEnd
  /-- A closing parenthesis that closes nothing. -/
  | unmatchedParenthesis
  /-- The counts of opening and closing parentheses differ. -/
  | unbalancedParentheses (opening closing : Nat)
  /-- Several atoms and no parenthesis at all. -/
  | ungroupedAtoms
  /-- No frame in sight binds the name. -/
  | unboundSymbol (name : String)
  /-- The frame itself does not define the name. -/
  | notLocallyBound (name : String)
  | typeMismatch (value : String) (expected : Kind)
  | argumentMismatch (formals : Formals) (count : Nat)
  | emptyCall
  | notCallable (value : String)
  | malformedForm (form : String)
  | divisionByZero
  | integerOverflow
  | indexOutOfRange (index : Int)
  | improperList (value : String)
  /-- More procedure bodies would be active at once than the limit allows. -/
  | depthExceeded (limit : Nat)
  | file (fault : FileFault)
  deriving DecidableEq, Repr

/-- The four families of causes. -/
inductive Category where
  | reading
  | naming
  | evaluation
  | file
  deriving DecidableEq, Repr

/-- The family a cause belongs to. -/
def Cause.category : Cause → Category
  | .unexpectedEnd => .reading
  | .unmatchedParenthesis => .reading
  | .unbalancedParentheses _ _ => .reading
  | .ungroupedAtoms => .reading
  | .unboundSymbol _ => .naming
  | .notLocallyBound _ => .naming
  | .file _ => .file
  | _ => .evaluation

/-- The name under which a family is shown to the user. -/
def Category.title : Category → String
  | .reading => "SchemeSyntaxError"
  | .naming => "SchemeNameError"
  | .evaluation => "SchemeEvaluationError"
  | .file => "IoError"

/-- What stands in front of the messages of a family. -/
def Category.lead : Category → String
  | .file => "io error: "
  | category => category.title ++ ": "

/-- The wording of a cause, without its family. -/
def Cause.message : Cause → String
  | .unexpectedEnd => "unexpected end of input"
  | .unmatchedParenthesis => "unmatched parentheses!"
  | .unbalancedParentheses opening closing =>
      opening.repr ++ " opening and " ++ closing.repr ++ " closing parentheses"
  | .ungroupedAtoms => "multiple atoms outside of any parentheses"
  | .unboundSymbol name => "unbound symbol " ++ name
  | .notLocallyBound name => name ++ " is not bound in the current frame"
  | .typeMismatch value expected => value ++ " is not " ++ expected.render
  | .argumentMismatch formals count =>
      "expect " ++ (if formals.rest.isSome then "at least " else "")
        ++ formals.fixed.length.repr ++ " arguments, got " ++ count.repr
        ++ ". parameter list is: " ++ formals.render
  | .emptyCall => "cannot evaluate an empty combination ()"
  | .notCallable value => value ++ " is not callable"
  | .malformedForm form => "malformed special form: " ++ form
  | .divisionByZero => "division by zero"
  | .integerOverflow => "integer overflow"
  | .indexOutOfRange index => "index " ++ index.repr ++ " out of range"
  | .improperList value => value ++ " is not a proper list"
  | .depthExceeded limit => "maximum recursion depth " ++ limit.repr ++ " exceeded"
  | .file fault => fault.message

/-- A cause and the place it points at, if that is known. -/
structure Error where
  cause : Cause
  location : Option Location
  deriving DecidableEq, Repr

namespace Error

/-- An error that points nowhere yet. -/
def bare (cause : Cause) : Error := ⟨cause, none⟩

/-- Gives an error a place unless it has one. -/
def orAt (e : Error) (location : Option Location) : Error :=
  { e with location := e.location.or location }

@[simp]
theorem cause_orAt (e : Error) (location : Option Location) :
    (e.orAt location).cause = e.cause := rfl

@[simp]
theorem location_orAt (e : Error) (location : Option Location) :
    (e.orAt location).location = e.location.or location := rfl

/-- The full wording: family, cause, and place in parentheses where it is known. -/
def render (e : Error) : String :=
  let text := e.cause.category.lead ++ e.cause.message
  match e.location with
  | some location => text ++ " (at " ++ location.render ++ ")"
  | none => text

end Error

end MiniScheme
