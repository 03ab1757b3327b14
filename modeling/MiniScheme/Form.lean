import MiniScheme.Keyword
import MiniScheme.Value

/-!
# Special forms

A special form is a list headed by a keyword. Its shape is read before anything is evaluated:
`Form.read?` gives the parts of a form, or nothing if the shape is wrong. The one exception are
the bindings of a `let`, which stay expressions here; each of them is read when its turn comes
(`Form.binding?`).

The literals `#t`, `#f` and `nil` and the lone dot cannot be bound.
-/

namespace MiniScheme

/-- The parts of a special form. -/
inductive Form where
  | define (name : String) (value : Expr)
  | procedure (name : String) (code : Lambda)
  | lambda (code : Lambda)
  | branch (test consequent alternative : Expr)
  | sequence (body : List Expr)
  | conjunction (operands : List Expr)
  | disjunction (operands : List Expr)
  | bind (bindings : List Expr) (body : List Expr)
  | set (name : String) (value : Expr)
  | delete (name : String)
  | pair (car cdr : Expr)
  | list (items : List Expr)

namespace Form

/-- Names with a fixed meaning, and the dot of a parameter list. -/
def reserved : List String := ["#t", "#f", "nil", "."]

/-- Whether a name can be bound. -/
def isBindable (name : String) : Bool := !reserved.contains name

/-- The name of a symbol that can be bound. -/
def bindable? (e : Expr) : Option String :=
  e.name?.filter isBindable

/-- Reads names up to the end of the list, or up to a dot that exactly one name follows. -/
def readNames? : List Expr → Option Formals
  | [] => some ⟨[], none⟩
  | e :: es =>
      if e.name? = some "." then
        match es with
        | [last] => (bindable? last).map fun rest => ⟨[], some rest⟩
        | _ => none
      else
        (bindable? e).bind fun name =>
          (readNames? es).map fun formals => { formals with fixed := name :: formals.fixed }

/-- Reads a parameter list; its names have to be different from each other. -/
def readFormalList? (es : List Expr) : Option Formals :=
  (readNames? es).filter fun formals => decide formals.names.Nodup

/-- Reads parameters: a list of names, or one name for all arguments. -/
def readFormals? : Expr → Option Formals
  | .symbol l name => (bindable? (.symbol l name)).map fun rest => ⟨[], some rest⟩
  | .list _ es => readFormalList? es
  | .number _ _ => none

/-- Reads a binding `(name value)` of a `let`. -/
def binding? : Expr → Option (String × Expr)
  | .list _ [name, value] => (bindable? name).map fun name => (name, value)
  | _ => none

/-- Reads `(define name value)` and `(define (name . formals) body …)`. -/
def readDefine? : List Expr → Option Form
  | [.symbol l name, value] =>
      (bindable? (.symbol l name)).map fun name => .define name value
  | .list _ (name :: formals) :: e :: es =>
      (bindable? name).bind fun name =>
        (readFormalList? formals).map fun formals => .procedure name ⟨formals, e :: es⟩
  | _ => none

/-- Reads the operands of a keyword; nothing if their shape is wrong. -/
def read? (keyword : Keyword) (operands : List Expr) : Option Form :=
  match keyword, operands with
  | .define, es => readDefine? es
  | .lambda, formals :: e :: es =>
      (readFormals? formals).map fun formals => .lambda ⟨formals, e :: es⟩
  | .ifThenElse, [test, consequent, alternative] => some (.branch test consequent alternative)
  | .begin, e :: es => some (.sequence (e :: es))
  | .and, es => some (.conjunction es)
  | .or, es => some (.disjunction es)
  | .letIn, .list _ bindings :: e :: es => some (.bind bindings (e :: es))
  | .set, [name, value] => (bindable? name).map fun name => .set name value
  | .del, [name] => (bindable? name).map .delete
  | .cons, [car, cdr] => some (.pair car cdr)
  | .list, es => some (.list es)
  | _, _ => none

end Form

/-- The keyword at the head of a form. -/
def Expr.keyword? (e : Expr) : Option Keyword :=
  e.name?.bind Keyword.ofText?

end MiniScheme
