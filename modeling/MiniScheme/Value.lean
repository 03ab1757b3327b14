import MiniScheme.Builtin
import MiniScheme.Expr

/-!
# Values

Evaluation yields numbers, booleans, the empty list, pairs and procedures. Pairs and procedures
have an identity, a number that is given out once, when they are made: a procedure is equal only
to itself, and equality of pairs takes a shared tail for granted. Pairs never change, so a pair
is its identity together with its two parts. A procedure written in the language keeps the frame
it was made in, as the index of that frame.
-/

namespace MiniScheme

/-- The index of a frame. -/
abbrev FrameId := Nat

/-- Parameters and body of a procedure, as written. -/
structure Lambda where
  formals : Formals
  body : List Expr

/-- A procedure: a built-in one, or one made by evaluating a lambda in a frame. -/
inductive Procedure where
  | builtin (builtin : Builtin)
  | closure (id : Nat) (code : Lambda) (frame : FrameId)

/-- A value of the language. -/
inductive Value where
  | number (value : Number)
  | boolean (value : Bool)
  | nil
  | pair (id : Nat) (car cdr : Value)
  | procedure (procedure : Procedure)

namespace Procedure

/-- The declared parameters. -/
def formals : Procedure → Formals
  | .builtin b => b.formals
  | .closure _ code _ => code.formals

/-- A procedure prints as its name or its parameters. -/
def render : Procedure → String
  | .builtin b => b.render
  | .closure _ code _ => "<procedure (lambda " ++ code.formals.render ++ ")>"

/-- Procedures are equal only to themselves. -/
def same : Procedure → Procedure → Bool
  | .builtin a, .builtin b => a == b
  | .closure a _ _, .closure b _ _ => a == b
  | _, _ => false

end Procedure

namespace Value

/-! ## Text -/

/-- The text of a boolean. -/
def renderBoolean : Bool → String
  | true => "#t"
  | false => "#f"

mutual

/-- The printed form of a value; a chain of pairs prints as a list, with a dot before its last
tail unless that is the empty list. -/
def render : Value → String
  | .number n => n.render
  | .boolean b => renderBoolean b
  | .nil => "nil"
  | .pair _ car cdr => "(" ++ car.render ++ cdr.renderTail
  | .procedure p => p.render

/-- The printed form of what follows the first element of a chain. -/
def renderTail : Value → String
  | .number n => " . " ++ n.render ++ ")"
  | .boolean b => " . " ++ renderBoolean b ++ ")"
  | .nil => ")"
  | .pair _ car cdr => " " ++ car.render ++ cdr.renderTail
  | .procedure p => " . " ++ p.render ++ ")"

end

/-! ## Truth and equality -/

/-- Only the boolean true counts as true. -/
def isTrue : Value → Bool
  | .boolean b => b
  | _ => false

/-- Only the boolean false counts as false. -/
def isFalse : Value → Bool
  | .boolean b => !b
  | _ => false

/-- Whether two values are one and the same pair. -/
def samePair : Value → Value → Bool
  | .pair a _ _, .pair b _ _ => a == b
  | _, _ => false

/-- Equality: numbers by value, procedures by identity, pairs by their parts. A tail that both
chains share is not compared again. -/
def same : Value → Value → Bool
  | .number a, .number b => a.same b
  | .boolean a, .boolean b => a == b
  | .nil, .nil => true
  | .pair _ a as, .pair _ b bs => a.same b && (samePair as bs || as.same bs)
  | .procedure p, .procedure q => p.same q
  | _, _ => false

/-! ## Parts of a value, or an error that names it -/

/-- The number that a value is. -/
def asNumber : Value → Except Cause Number
  | .number n => .ok n
  | v => .error (.typeMismatch v.render .number)

/-- The integer that a value is. -/
def asInteger : Value → Except Cause Int64
  | .number (.integer n) => .ok n
  | v => .error (.typeMismatch v.render .integer)

/-- The two parts of a pair. -/
def asPair : Value → Except Cause (Value × Value)
  | .pair _ car cdr => .ok (car, cdr)
  | v => .error (.typeMismatch v.render .pair)

end Value

end MiniScheme
