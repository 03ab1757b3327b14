import MiniScheme.Eval.Machine
import MiniScheme.Form

/-!
# The rules of evaluation

How an expression is evaluated, given an evaluator `self` for the expressions inside it. No rule
here is recursive through `self`: tying the knot is the business of `MiniScheme.Eval`, and a
property of evaluation is proved by showing that the rules carry it from `self` to the whole.

* A number is itself; a symbol is a literal or is looked up.
* A list headed by a keyword is a special form.
* Any other list is a call: head and operands are evaluated from left to right, and then the
  procedure is applied.
-/

namespace MiniScheme.Eval

/-- An evaluator: the value of an expression in a frame. -/
abbrev Evaluator := FrameId → Expr → Eval Value

/-! ## Several expressions -/

/-- The values of several expressions, from left to right, behind those in `done`, which holds
the last one first. -/
def eachFrom (self : Evaluator) (env : FrameId) (done : List Value) :
    List Expr → Eval (List Value)
  | [] => pure done.reverse
  | e :: es => do
      let v ← self env e
      eachFrom self env (v :: done) es

/-- The values of several expressions, from left to right. -/
def each (self : Evaluator) (env : FrameId) (es : List Expr) : Eval (List Value) :=
  eachFrom self env [] es

/-- Evaluates expressions in order and keeps the last value. -/
def body (self : Evaluator) (env : FrameId) : List Expr → Eval Value
  | [] => fail (.malformedForm "empty body")
  | [e] => self env e
  | e :: es => do
      let _ ← self env e
      body self env es

/-- True unless some operand is false; what follows that one is not evaluated. -/
def conjunction (self : Evaluator) (env : FrameId) : List Expr → Eval Value
  | [] => pure (.boolean true)
  | e :: es => do
      let v ← self env e
      if v.isFalse then pure (.boolean false) else conjunction self env es

/-- False unless some operand is true; what follows that one is not evaluated. -/
def disjunction (self : Evaluator) (env : FrameId) : List Expr → Eval Value
  | [] => pure (.boolean false)
  | e :: es => do
      let v ← self env e
      if v.isTrue then pure (.boolean true) else disjunction self env es

/-- Evaluates the bindings of a `let` in the outer frame `env` and defines their names in the
inner one. A binding of the wrong shape stops it, with the text of the whole form. -/
def bindings (self : Evaluator) (env inner : FrameId) (form : Expr) : List Expr → Eval Unit
  | [] => pure ()
  | e :: es =>
      match Form.binding? e with
      | none => fail (.malformedForm form.render)
      | some (name, value) => do
          let v ← self env value
          define inner name v
          bindings self env inner form es

/-! ## Calls -/

/-- Names take arguments in turn, one each, until there are no more names or no more arguments. The
second result is the arguments that are left. -/
def handOut : List String → List Value → List (String × Value) × List Value
  | name :: names, arg :: args =>
      let others := handOut names args
      ((name, arg) :: others.1, others.2)
  | _, args => ([], args)

theorem handOut_eq (names : List String) :
    ∀ args, handOut names args = (names.zip args, args.drop names.length) := by
  induction names with
  | nil => exact fun args => by cases args <;> rfl
  | cons name names ih =>
      intro args
      cases args with
      | nil => rfl
      | cons arg args => rw [handOut, ih, List.zip_cons_cons, List.length_cons, List.drop_succ_cons]

/-- What the parameters of a procedure are bound to: the fixed ones to the first arguments, the
rest name to the list of the arguments that these leave. -/
def bindArguments (formals : Formals) (args : List Value) : Eval (List (String × Value)) :=
  let handed := handOut formals.fixed args
  match formals.rest with
  | none => pure handed.1
  | some rest => do
      let others ← chain handed.2 .nil
      pure (handed.1 ++ [(rest, others)])

theorem bindArguments_eq (formals : Formals) (args : List Value) :
    bindArguments formals args =
      match formals.rest with
      | none => pure (formals.fixed.zip args)
      | some rest =>
          chain (args.drop formals.fixed.length) .nil >>= fun others =>
            pure (formals.fixed.zip args ++ [(rest, others)]) := by
  rw [bindArguments, handOut_eq]

/-- Evaluates a procedure body in a new frame that binds the arguments. -/
def enterBody (self : Evaluator) (code : Lambda) (frame : FrameId) (args : List Value) :
    Eval Value := do
  let inner ← newChild frame
  let entries ← bindArguments code.formals args
  defineAll inner entries
  body self inner code.body

/-- Applies a procedure to arguments, whose number has to fit the parameters. -/
def applyProcedure (limit : Option Nat) (self : Evaluator) (p : Procedure) (args : List Value) :
    Eval Value :=
  if p.formals.accepts args.length then
    match p with
    | .builtin b => callBuiltin b args
    | .closure _ code frame => nested limit (enterBody self code frame args)
  else fail (.argumentMismatch p.formals args.length)

/-- The procedure that a value is; `location` is the place of the head it comes from. -/
def callee (location : Option Location) : Value → Eval Procedure
  | .procedure p => pure p
  | v => throw (.error ⟨.notCallable v.render, location⟩)

/-- Evaluates a call. -/
def call (limit : Option Nat) (self : Evaluator) (env : FrameId) (head : Expr)
    (operands : List Expr) : Eval Value := do
  let v ← self env head
  let p ← callee head.location v
  let args ← each self env operands
  applyProcedure limit self p args

/-! ## Special forms -/

/-- Evaluates a special form; `whole` is the form as an expression. -/
def form (self : Evaluator) (env : FrameId) (whole : Expr) : Form → Eval Value
  | .define name value => do
      let v ← self env value
      define env name v
      pure v
  | .procedure name code => do
      let v ← closure code env
      define env name v
      pure v
  | .lambda code => closure code env
  | .branch test consequent alternative => do
      let v ← self env test
      if v.isTrue then self env consequent else self env alternative
  | .sequence es => body self env es
  | .conjunction es => conjunction self env es
  | .disjunction es => disjunction self env es
  | .bind es inside => do
      let inner ← newChild env
      bindings self env inner whole es
      body self inner inside
  | .set name value => do
      let v ← self env value
      set env name v
      pure v
  | .delete name => delete env name
  | .pair car cdr => do
      let a ← self env car
      let d ← self env cdr
      cons a d
  | .list es => do
      let vs ← each self env es
      chain vs .nil

/-! ## Expressions -/

/-- The value of a symbol: the literals stand for themselves. -/
def symbol (env : FrameId) (name : String) : Eval Value :=
  if name = "#t" then pure (.boolean true)
  else if name = "#f" then pure (.boolean false)
  else if name = "nil" then pure .nil
  else lookup env name

/-- Evaluates a non-empty list. -/
def combination (limit : Option Nat) (self : Evaluator) (env : FrameId) (whole head : Expr)
    (operands : List Expr) : Eval Value :=
  match head.keyword? with
  | none => call limit self env head operands
  | some keyword =>
      match Form.read? keyword operands with
      | none => fail (.malformedForm whole.render)
      | some parts => form self env whole parts

/-- Evaluates an expression, before an error is given its place. -/
def expression (limit : Option Nat) (self : Evaluator) (env : FrameId) (e : Expr) : Eval Value :=
  match e with
  | .number _ n => pure (.number n)
  | .symbol _ name => symbol env name
  | .list _ [] => fail .emptyCall
  | .list l (head :: operands) =>
      combination limit self env (.list l (head :: operands)) head operands

/-- Evaluates an expression; an error that has no place yet points at the expression. -/
def rules (limit : Option Nat) (self : Evaluator) : Evaluator := fun env e =>
  locate e.location (expression limit self env e)

end MiniScheme.Eval
