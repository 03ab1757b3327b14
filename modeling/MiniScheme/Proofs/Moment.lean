import MiniScheme.Eval

/-!
# Evaluation, moment by moment

`Eval.run` says what an evaluation amounts to and nothing about what happens under way. Here the
same evaluation is laid out as a sequence of moments. A moment is what is being done just then
(`Focus`), the machine, and what waits for it to be done (`Waiting`), the innermost first. One
step leads from each moment to the next. No step is recursive, and none knows of fuel.

Two numbers can be read off a moment, both from what waits: how many evaluations of expressions
are active (`Moment.calls`), and how many procedure bodies (`Moment.bodies`). A procedure body
becomes active before its frame is made, so that the moment at which it does is one at which
nothing has changed yet but the counter.

The steps use the operations on the machine that the rules of evaluation use. What they have of
their own is the order of things: which expression comes next, and who waits for it.
-/

namespace MiniScheme

/-- An error that has no place yet gets one. -/
def Stop.orAt : Stop → Option Location → Stop
  | .error e, location => .error (e.orAt location)
  | .exhausted, _ => .exhausted

namespace Eval

/-! ## Moments -/

/-- What is done at a moment. -/
inductive Focus where
  /-- The evaluation of an expression begins. -/
  | expression (env : FrameId) (e : Expr)
  /-- A procedure is to be applied. -/
  | application (p : Procedure) (args : List Value)
  /-- A procedure body has become active; its frame is still to be made. -/
  | entry (code : Lambda) (frame : FrameId) (args : List Value)
  /-- A value is handed to what waits. -/
  | value (v : Value)
  /-- There is no value, and what waits is given up. -/
  | stop (stop : Stop)

/-- What the values of several expressions are collected for. -/
inductive Purpose where
  | call (p : Procedure)
  | list

/-- What waits for a value. -/
inductive Waiting where
  /-- The evaluation of the expression at that place, for its own value. -/
  | evaluation (location : Option Location)
  /-- An active procedure body. -/
  | body
  | head (env : FrameId) (location : Option Location) (operands : List Expr)
  | collection (env : FrameId) (purpose : Purpose) (done : List Value) (rest : List Expr)
  | sequence (env : FrameId) (rest : List Expr)
  | define (env : FrameId) (name : String)
  | branch (env : FrameId) (consequent alternative : Expr)
  | conjunction (env : FrameId) (rest : List Expr)
  | disjunction (env : FrameId) (rest : List Expr)
  | binding (env inner : FrameId) (whole : Expr) (name : String) (rest inside : List Expr)
  | set (env : FrameId) (name : String)
  | car (env : FrameId) (cdr : Expr)
  | cdr (car : Value)

/-- What is done, on which machine, and what waits for it, the innermost first. -/
structure Moment where
  focus : Focus
  machine : Machine
  waiting : List Waiting

/-- The active evaluations among what waits. -/
def activeCalls (ws : List Waiting) : Nat :=
  ws.countP fun w => w matches .evaluation _

/-- The active procedure bodies among what waits. -/
def activeBodies (ws : List Waiting) : Nat :=
  ws.countP fun w => w matches .body

/-! ## Operations that end in a value -/

/-- Binds a name and hands its value on. -/
def defined (env : FrameId) (name : String) (v : Value) : Eval Value := do
  define env name v
  pure v

/-- Gives a name a new value and hands it on. -/
def assigned (env : FrameId) (name : String) (v : Value) : Eval Value := do
  set env name v
  pure v

/-- Makes the frame of a procedure body, with the arguments bound in it. -/
def bodyFrame (code : Lambda) (frame : FrameId) (args : List Value) : Eval FrameId := do
  let inner ← newChild frame
  let entries ← bindArguments code.formals args
  defineAll inner entries
  pure inner

namespace Moment

/-- The number of evaluations of expressions that are active. -/
def calls (s : Moment) : Nat := activeCalls s.waiting

/-- The number of procedure bodies that are active. -/
def bodies (s : Moment) : Nat := activeBodies s.waiting

/-! ## What comes next -/

/-- The result of an operation goes to what waits. -/
def pass (r : EStateM.Result Stop Machine Value) (ws : List Waiting) : Moment :=
  match r with
  | .ok v m => ⟨.value v, m, ws⟩
  | .error stop m => ⟨.stop stop, m, ws⟩

/-- The evaluation of an expression begins, and is active from then on. -/
def ask (env : FrameId) (e : Expr) (m : Machine) (ws : List Waiting) : Moment :=
  ⟨.expression env e, m, .evaluation e.location :: ws⟩

/-- Collects the values of the remaining expressions behind those in `done`. -/
def collect (env : FrameId) (purpose : Purpose) (done : List Value) (es : List Expr) (m : Machine)
    (ws : List Waiting) : Moment :=
  match es, purpose with
  | [], .call p => ⟨.application p done.reverse, m, ws⟩
  | [], .list => pass (chain done.reverse .nil m) ws
  | e :: es, _ => ask env e m (.collection env purpose done es :: ws)

/-- Evaluates expressions in order; the last one hands its value on by itself. -/
def sequence (env : FrameId) (es : List Expr) (m : Machine) (ws : List Waiting) : Moment :=
  match es with
  | [] => pass (fail (.malformedForm "empty body") m) ws
  | [e] => ask env e m ws
  | e :: es => ask env e m (.sequence env es :: ws)

/-- Looks for an operand that is false. -/
def conjunction (env : FrameId) (es : List Expr) (m : Machine) (ws : List Waiting) : Moment :=
  match es with
  | [] => ⟨.value (.boolean true), m, ws⟩
  | e :: es => ask env e m (.conjunction env es :: ws)

/-- Looks for an operand that is true. -/
def disjunction (env : FrameId) (es : List Expr) (m : Machine) (ws : List Waiting) : Moment :=
  match es with
  | [] => ⟨.value (.boolean false), m, ws⟩
  | e :: es => ask env e m (.disjunction env es :: ws)

/-- Goes through the bindings of a `let` and then evaluates what is inside. -/
def bindings (env inner : FrameId) (whole : Expr) (es inside : List Expr) (m : Machine)
    (ws : List Waiting) : Moment :=
  match es with
  | [] => sequence inner inside m ws
  | e :: es =>
      match Form.binding? e with
      | none => pass (fail (.malformedForm whole.render) m) ws
      | some (name, value) => ask env value m (.binding env inner whole name es inside :: ws)

/-- Begins a special form. -/
def form (env : FrameId) (whole : Expr) (parts : Form) (m : Machine) (ws : List Waiting) :
    Moment :=
  match parts with
  | .define name value => ask env value m (.define env name :: ws)
  | .procedure name code => pass ((closure code env >>= defined env name) m) ws
  | .lambda code => pass (closure code env m) ws
  | .branch test consequent alternative => ask env test m (.branch env consequent alternative :: ws)
  | .sequence es => sequence env es m ws
  | .conjunction es => conjunction env es m ws
  | .disjunction es => disjunction env es m ws
  | .bind es inside =>
      let next := m.heap.newChild env
      bindings env next.1 whole es inside { m with heap := next.2 } ws
  | .set name value => ask env value m (.set env name :: ws)
  | .delete name => pass (delete env name m) ws
  | .pair car cdr => ask env car m (.car env cdr :: ws)
  | .list es => collect env .list [] es m ws

/-- Begins an expression. -/
def expression (env : FrameId) (e : Expr) (m : Machine) (ws : List Waiting) : Moment :=
  match e with
  | .number _ n => ⟨.value (.number n), m, ws⟩
  | .symbol _ name => pass (symbol env name m) ws
  | .list _ [] => pass (fail .emptyCall m) ws
  | .list l (head :: operands) =>
      match head.keyword? with
      | none => ask env head m (.head env head.location operands :: ws)
      | some keyword =>
          match Form.read? keyword operands with
          | none => pass (fail (.malformedForm (Expr.list l (head :: operands)).render) m) ws
          | some parts => form env (.list l (head :: operands)) parts m ws

/-- Applies a procedure. A body that the limit admits becomes active. -/
def application (limit : Option Nat) (p : Procedure) (args : List Value) (m : Machine)
    (ws : List Waiting) : Moment :=
  if p.formals.accepts args.length then
    match p with
    | .builtin b => pass (callBuiltin b args m) ws
    | .closure _ code frame =>
        if admits limit m.depth then ⟨.entry code frame args, enter m, .body :: ws⟩
        else pass (fail (.depthExceeded (limit.getD 0)) m) ws
  else pass (fail (.argumentMismatch p.formals args.length) m) ws

/-- Makes the frame of a body that has become active and begins with its expressions. -/
def entry (code : Lambda) (frame : FrameId) (args : List Value) (m : Machine)
    (ws : List Waiting) : Moment :=
  match bodyFrame code frame args m with
  | .ok inner m' => sequence inner code.body m' ws
  | .error stop m' => ⟨.stop stop, m', ws⟩

/-- Hands a value to what waits for it. -/
def resume (v : Value) (m : Machine) (w : Waiting) (ws : List Waiting) : Moment :=
  match w with
  | .evaluation _ => ⟨.value v, m, ws⟩
  | .body => ⟨.value v, leave m, ws⟩
  | .head env location operands =>
      match callee location v m with
      | .ok p m' => collect env (.call p) [] operands m' ws
      | .error stop m' => ⟨.stop stop, m', ws⟩
  | .collection env purpose done rest => collect env purpose (v :: done) rest m ws
  | .sequence env rest => sequence env rest m ws
  | .define env name => pass (defined env name v m) ws
  | .branch env consequent alternative =>
      if v.isTrue then ask env consequent m ws else ask env alternative m ws
  | .conjunction env rest =>
      if v.isFalse then ⟨.value (.boolean false), m, ws⟩ else conjunction env rest m ws
  | .disjunction env rest =>
      if v.isTrue then ⟨.value (.boolean true), m, ws⟩ else disjunction env rest m ws
  | .binding env inner whole name rest inside =>
      bindings env inner whole rest inside { m with heap := m.heap.define inner name v } ws
  | .set env name => pass (assigned env name v m) ws
  | .car env cdr => ask env cdr m (.cdr v :: ws)
  | .cdr a => pass (cons a v m) ws

/-- Gives up what waits: an evaluation gives the error its place, a body is no longer active. -/
def unwind (stop : Stop) (m : Machine) (w : Waiting) (ws : List Waiting) : Moment :=
  match w with
  | .evaluation location => ⟨.stop (stop.orAt location), m, ws⟩
  | .body => ⟨.stop stop, leave m, ws⟩
  | _ => ⟨.stop stop, m, ws⟩

/-! ## Steps -/

/-- The next moment. When nothing waits any more, the evaluation is over. -/
def step (limit : Option Nat) (s : Moment) : Moment :=
  match s with
  | ⟨.expression env e, m, ws⟩ => expression env e m ws
  | ⟨.application p args, m, ws⟩ => application limit p args m ws
  | ⟨.entry code frame args, m, ws⟩ => entry code frame args m ws
  | ⟨.value v, m, w :: ws⟩ => resume v m w ws
  | ⟨.stop stop, m, w :: ws⟩ => unwind stop m w ws
  | ⟨.value v, m, []⟩ => ⟨.value v, m, []⟩
  | ⟨.stop stop, m, []⟩ => ⟨.stop stop, m, []⟩

/-- The moment after so many steps. -/
def after (limit : Option Nat) : Nat → Moment → Moment
  | 0, s => s
  | k + 1, s => after limit k (step limit s)

/-- The moment at which the evaluation of an expression begins, with nothing else under way. -/
def start (env : FrameId) (e : Expr) (m : Machine) : Moment := ask env e m []

theorem after_add (limit : Option Nat) (j k : Nat) :
    ∀ s, after limit (j + k) s = after limit k (after limit j s) := by
  induction j with
  | zero => intro s; rw [Nat.zero_add]; rfl
  | succ j ih =>
      intro s
      rw [Nat.add_right_comm]
      exact ih (step limit s)

theorem after_succ (limit : Option Nat) (k : Nat) (s : Moment) :
    after limit (k + 1) s = step limit (after limit k s) :=
  after_add limit k 1 s

/-- The moment at which an evaluation is over. -/
def Final (s : Moment) : Prop := ∃ r, s = pass r []

theorem Final.step_eq {s : Moment} (h : s.Final) (limit : Option Nat) : step limit s = s := by
  obtain ⟨r, rfl⟩ := h
  cases r <;> rfl

/-- Nothing happens after the end. -/
theorem Final.after_eq {s : Moment} (h : s.Final) (limit : Option Nat) (k : Nat) :
    after limit k s = s := by
  induction k with
  | zero => rfl
  | succ k ih => rw [after_succ, ih, h.step_eq]

end Moment

end Eval

end MiniScheme
