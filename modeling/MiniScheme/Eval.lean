import MiniScheme.Eval.Rules

/-!
# Evaluation

`Eval.run limit fuel` applies the rules of evaluation to themselves, at most `fuel` expressions
deep. `limit` bounds the number of procedure bodies that are active at once; without a limit a
program may recurse for ever, and then every amount of fuel is exhausted.

With a limit the depth of nested expressions is bounded by `Eval.budget`: while the number of
active bodies stays the same the expressions get smaller, and it grows at most up to the limit.
`Eval.evaluate` uses that much fuel, so it needs none from its caller.
-/

namespace MiniScheme.Eval

/-- The evaluator that looks at most `fuel` expressions deep. -/
def run (limit : Option Nat) : Nat → Evaluator
  | 0 => fun _ _ => throw .exhausted
  | fuel + 1 => rules limit (run limit fuel)

/-- How deep expressions can nest: for each active procedure body, and for the expression that
evaluation starts with, at most `height` of them. -/
def budget (limit depth height : Nat) : Nat := (limit - depth + 1) * height

/-- The outcome of a step, as a result and a machine. With a fuel of `budget` a step is never
exhausted; the error of the depth limit stands for that case. -/
def outcome {α : Type} (limit : Nat) (step : Eval α) (m : Machine) : Except Error α × Machine :=
  match step m with
  | .ok a m' => (.ok a, m')
  | .error (.error e) m' => (.error e, m')
  | .error .exhausted m' => (.error (.bare (.depthExceeded limit)), m')

/-- The machine with the height of an expression noted in its heap. -/
def note (e : Expr) (m : Machine) : Machine := { m with heap := m.heap.noteHeight e.height }

/-- Evaluates an expression in a frame. -/
def evaluate (limit : Nat) (env : FrameId) (e : Expr) (m : Machine) :
    Except Error Value × Machine :=
  let m := note e m
  outcome limit (run (some limit) (budget limit m.depth m.heap.tallest) env e) m

/-- Applies a procedure to arguments. -/
def apply (limit : Nat) (p : Procedure) (args : List Value) (m : Machine) :
    Except Error Value × Machine :=
  let self := run (some limit) (budget limit m.depth m.heap.tallest)
  outcome limit (applyProcedure (some limit) self p args) m

end MiniScheme.Eval
