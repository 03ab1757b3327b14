import MiniScheme.Eval
import MiniScheme.Expr.Reader

/-!
# The interpreter

An interpreter evaluates source texts in its global frame, under a limit on the number of active
procedure bodies. Its counter of active bodies is part of its state; between two evaluations it
is zero.

* `eval` evaluates the first expression of a text and ignores the rest.
* `program` evaluates all top-level forms of a text, up to the first error.
* `evalFile` evaluates the first expression of a file.
* `respond` is the answer of an interactive session to one input.
-/

namespace MiniScheme

/-- The global frame, the limit on active procedure bodies, and their present number. -/
structure Interpreter where
  global : FrameId
  limit : Nat
  depth : Nat

/-- The limit on active procedure bodies where none is given. -/
def defaultLimit : Nat := 3000

/-- The bytes of a file, or why there are none. -/
abbrev FileContent := Except FileFault ByteArray

/-- The text of a file, which has to be valid UTF-8. -/
def FileContent.text (content : FileContent) : Except Error String :=
  match content with
  | .error fault => .error (.bare (.file fault))
  | .ok bytes =>
      match String.fromUTF8? bytes with
      | some text => .ok text
      | none => .error (.bare (.file .notUtf8))

namespace Interpreter

/-- An interpreter whose global frame is the given one. -/
def ofFrame (global : FrameId) (limit : Nat) : Interpreter := ⟨global, limit, 0⟩

/-- An interpreter together with the heap it works on. -/
structure State where
  interpreter : Interpreter
  heap : Heap

namespace State

/-- An interpreter on a heap that holds its global frame only. -/
def initial (limit : Nat) : State :=
  let next := Heap.empty.newGlobal
  ⟨.ofFrame next.1 limit, next.2⟩

/-- The machine that evaluation starts from. -/
def machine (s : State) : Machine := ⟨s.heap, s.interpreter.depth⟩

/-- The state that a machine leaves behind. -/
def resume (s : State) (m : Machine) : State :=
  ⟨{ s.interpreter with depth := m.depth }, m.heap⟩

/-- Evaluates an expression in a frame. -/
def evalExpr (s : State) (env : FrameId) (e : Expr) : Except Error Value × State :=
  let next := Eval.evaluate s.interpreter.limit env e s.machine
  (next.1, s.resume next.2)

/-- Applies a procedure to arguments. -/
def apply (s : State) (p : Procedure) (args : List Value) : Except Error Value × State :=
  let next := Eval.apply s.interpreter.limit p args s.machine
  (next.1, s.resume next.2)

/-- Evaluates an expression in a frame, unless reading it failed. -/
def evalRead (s : State) (env : FrameId) (e : Except Error Expr) : Except Error Value × State :=
  match e with
  | .error error => (.error error, s)
  | .ok e => s.evalExpr env e

/-- Evaluates the first expression of a text in a frame. -/
def evalIn (s : State) (env : FrameId) (source : String) : Except Error Value × State :=
  s.evalRead env (Expr.ofSource source)

/-- Evaluates the first expression of a text in the global frame. -/
def eval (s : State) (source : String) : Except Error Value × State :=
  s.evalIn s.interpreter.global source

/-- Evaluates forms in order in the global frame; `last` is the value so far. The first error,
of reading or of evaluation, ends it. -/
def evalForms (s : State) (last : Option Value) :
    List (Except Error Expr) → Except Error (Option Value) × State
  | [] => (.ok last, s)
  | form :: forms =>
      match s.evalRead s.interpreter.global form with
      | (.error e, s') => (.error e, s')
      | (.ok v, s') => s'.evalForms (some v) forms

/-- Evaluates all top-level forms of a text, which is checked as a whole first. A text without
tokens has no value. -/
def program (s : State) (source : String) : Except Error (Option Value) × State :=
  let tokens := Token.scan source
  if tokens.isEmpty then (.ok none, s)
  else
    match Expr.validate tokens with
    | .error e => (.error e, s)
    | .ok () => s.evalForms none (Expr.forms tokens)

/-- Evaluates the first expression of a file in the global frame. -/
def evalFile (s : State) (content : FileContent) : Except Error Value × State :=
  match FileContent.text content with
  | .error e => (.error e, s)
  | .ok text => s.eval text

/-- The answer to one input: the value of a program or its error, if there is either. -/
def respond (s : State) (source : String) : Option String × State :=
  match s.program source with
  | (.ok (some v), s') => (some ("  out> " ++ v.render), s')
  | (.ok none, s') => (none, s')
  | (.error e, s') => (some ("  " ++ e.render), s')

end State

/-- Evaluates the first expression of a file in a frame, with an interpreter of its own that has
the default limit. -/
def evaluateFile (h : Heap) (env : FrameId) (content : FileContent) : Except Error Value × Heap :=
  let next := State.evalFile ⟨.ofFrame env defaultLimit, h⟩ content
  (next.1, next.2.heap)

end Interpreter

end MiniScheme
