import MiniScheme.Proofs.Adequacy

/-!
# Active bodies and the counter

The machine counts the procedure bodies that are active, and what waits at a moment shows which
they are. The two agree at every moment. Everything rests on what one step can do: the operations
of the machine leave the counter alone (`KeepsDepth`), and a step either leaves counter and active
bodies as they are (`Moment.Steady`), or gives a body up, or makes one active.

The last happens only where a procedure written in the language is applied to as many arguments as
it accepts (`Moment.Enters`). Built-in procedures, `let` and nested expressions make no body
active, and no other step even looks at the limit.

## Main results

* `Moment.step_eq_of_not_enters`: where no body becomes active, the limit does not matter.
* `Moment.step_of_not_enters`: there, a body is given up, or counter and active bodies stay.
* `Moment.Counted.step_of_not_enters`: there, no more bodies are active than before.
* `Moment.Counted.after`: the counter is the number of active bodies, at every moment.
-/

namespace MiniScheme.Eval

/-! ## Operations do not touch the counter -/

/-- The machine that a result leaves. -/
def machineOf {α : Type} : EStateM.Result Stop Machine α → Machine
  | .ok _ m => m
  | .error _ m => m

/-- Whatever the end, the counter is what it was. -/
def KeepsDepth {α : Type} (x : Eval α) : Prop :=
  ∀ m, (machineOf (x m)).depth = m.depth

section KeepsDepth

variable {α β : Type}

theorem KeepsDepth.bind {x : Eval α} {f : α → Eval β} (hx : KeepsDepth x)
    (hf : ∀ a, KeepsDepth (f a)) : KeepsDepth (x >>= f) := by
  intro m
  have hFirst := hx m
  show (machineOf (EStateM.bind x f m)).depth = m.depth
  unfold EStateM.bind
  cases hEnd : x m with
  | ok a m' =>
      rw [hEnd] at hFirst
      exact (hf a m').trans hFirst
  | error stop m' =>
      rw [hEnd] at hFirst
      exact hFirst

theorem keepsDepth_pure (a : α) : KeepsDepth (pure a : Eval α) := fun _ => rfl

theorem keepsDepth_fail (cause : Cause) : KeepsDepth (fail cause : Eval α) := fun _ => rfl

theorem keepsDepth_define (env : FrameId) (name : String) (v : Value) :
    KeepsDepth (define env name v) := fun _ => rfl

theorem keepsDepth_defined (env : FrameId) (name : String) (v : Value) :
    KeepsDepth (defined env name v) :=
  (keepsDepth_define env name v).bind fun _ => keepsDepth_pure v

theorem keepsDepth_closure (code : Lambda) (env : FrameId) : KeepsDepth (closure code env) :=
  fun _ => rfl

theorem keepsDepth_chain (items : List Value) (last : Value) : KeepsDepth (chain items last) :=
  fun _ => rfl

theorem keepsDepth_ofExcept (x : Except Cause α) : KeepsDepth (ofExcept x) := by
  cases x with
  | ok a => exact keepsDepth_pure a
  | error cause => exact keepsDepth_fail cause

theorem keepsDepth_symbol (env : FrameId) (name : String) : KeepsDepth (symbol env name) := by
  unfold symbol
  split
  · exact keepsDepth_pure _
  · split
    · exact keepsDepth_pure _
    · split
      · exact keepsDepth_pure _
      · exact fun m => keepsDepth_ofExcept _ m

theorem keepsDepth_assigned (env : FrameId) (name : String) (v : Value) :
    KeepsDepth (assigned env name v) := by
  refine KeepsDepth.bind (fun m => ?_) fun _ => keepsDepth_pure v
  unfold set
  split
  · rfl
  · exact keepsDepth_fail _ m

theorem keepsDepth_delete (env : FrameId) (name : String) : KeepsDepth (delete env name) := by
  intro m
  unfold delete
  split
  · rfl
  · exact keepsDepth_fail _ m

theorem keepsDepth_callBuiltin (b : Builtin) (args : List Value) :
    KeepsDepth (callBuiltin b args) := by
  intro m
  unfold callBuiltin
  split
  · rfl
  · exact keepsDepth_fail _ m

theorem keepsDepth_bodyFrame (code : Lambda) (frame : FrameId) (args : List Value) :
    KeepsDepth (bodyFrame code frame args) := by
  refine KeepsDepth.bind (fun _ => rfl) fun inner => ?_
  refine KeepsDepth.bind ?_ fun entries => ?_
  · unfold bindArguments
    split
    · exact keepsDepth_pure _
    · exact (keepsDepth_chain _ _).bind fun _ => keepsDepth_pure _
  · exact KeepsDepth.bind (fun _ => rfl) fun _ => keepsDepth_pure inner

end KeepsDepth

namespace Moment

/-! ## What a step does to the counter -/

/-- The counter is that of `m`, and as many bodies are active as wait in `ws`. -/
structure Steady (m : Machine) (ws : List Waiting) (s : Moment) : Prop where
  depth : s.machine.depth = m.depth
  bodies : s.bodies = activeBodies ws

variable {m : Machine} {ws : List Waiting}

theorem steady_value (v : Value) : Steady m ws ⟨.value v, m, ws⟩ := ⟨rfl, rfl⟩

theorem steady_pass {x : Eval Value} (hx : KeepsDepth x) : Steady m ws (pass (x m) ws) := by
  have hDepth := hx m
  cases hEnd : x m with
  | ok v m' =>
      rw [hEnd] at hDepth
      exact ⟨hDepth, rfl⟩
  | error stop m' =>
      rw [hEnd] at hDepth
      exact ⟨hDepth, rfl⟩

theorem steady_ask (env : FrameId) (e : Expr) : Steady m ws (ask env e m ws) :=
  ⟨rfl, by simp [ask, bodies, activeBodies]⟩

/-- Something more waits that is no body. -/
theorem steady_ask_below {w : Waiting} (env : FrameId) (e : Expr) (hw : w.isPlain = true) :
    Steady m ws (ask env e m (w :: ws)) := by
  refine ⟨rfl, ?_⟩
  cases w <;> simp_all [ask, bodies, activeBodies, Waiting.isPlain]

theorem steady_collect (env : FrameId) (purpose : Purpose) (done : List Value) (es : List Expr) :
    Steady m ws (collect env purpose done es m ws) := by
  cases es with
  | nil =>
      cases purpose with
      | call p => exact ⟨rfl, rfl⟩
      | list => exact steady_pass (keepsDepth_chain _ _)
  | cons e es => exact steady_ask_below env e rfl

theorem steady_sequence (env : FrameId) (es : List Expr) :
    Steady m ws (sequence env es m ws) := by
  cases es with
  | nil => exact steady_pass (keepsDepth_fail _)
  | cons e es =>
      cases es with
      | nil => exact steady_ask env e
      | cons e' es => exact steady_ask_below env e rfl

theorem steady_conjunction (env : FrameId) (es : List Expr) :
    Steady m ws (conjunction env es m ws) := by
  cases es with
  | nil => exact steady_value _
  | cons e es => exact steady_ask_below env e rfl

theorem steady_disjunction (env : FrameId) (es : List Expr) :
    Steady m ws (disjunction env es m ws) := by
  cases es with
  | nil => exact steady_value _
  | cons e es => exact steady_ask_below env e rfl

theorem steady_bindings (env inner : FrameId) (whole : Expr) (es inside : List Expr) :
    Steady m ws (bindings env inner whole es inside m ws) := by
  cases es with
  | nil => exact steady_sequence inner inside
  | cons e es =>
      cases hBinding : Form.binding? e with
      | none =>
          simp only [bindings, hBinding]
          exact steady_pass (keepsDepth_fail _)
      | some entry =>
          simp only [bindings, hBinding]
          exact steady_ask_below env entry.2 rfl

/-- A machine with another heap has the same counter. -/
theorem Steady.of_depth {m' : Machine} {s : Moment} (h : Steady m' ws s)
    (hDepth : m'.depth = m.depth) : Steady m ws s :=
  ⟨h.depth.trans hDepth, h.bodies⟩

theorem steady_form (env : FrameId) (whole : Expr) (parts : Form) :
    Steady m ws (form env whole parts m ws) := by
  cases parts with
  | define name value => exact steady_ask_below env value rfl
  | procedure name code =>
      exact steady_pass ((keepsDepth_closure code env).bind (keepsDepth_defined env name))
  | lambda code => exact steady_pass (keepsDepth_closure code env)
  | branch test _ _ => exact steady_ask_below env test rfl
  | sequence es => exact steady_sequence env es
  | conjunction es => exact steady_conjunction env es
  | disjunction es => exact steady_disjunction env es
  | bind es inside => exact (steady_bindings env _ whole es inside).of_depth rfl
  | set name value => exact steady_ask_below env value rfl
  | delete name => exact steady_pass (keepsDepth_delete env name)
  | pair car cdr => exact steady_ask_below env car rfl
  | list es => exact steady_collect env .list [] es

theorem steady_expression (env : FrameId) (e : Expr) : Steady m ws (expression env e m ws) := by
  cases e with
  | number l n => exact steady_value _
  | symbol l name => exact steady_pass (keepsDepth_symbol env name)
  | list l es =>
      cases es with
      | nil => exact steady_pass (keepsDepth_fail _)
      | cons head operands =>
          cases hKeyword : head.keyword? with
          | none =>
              simp only [expression, hKeyword]
              exact steady_ask_below env head rfl
          | some keyword =>
              cases hRead : Form.read? keyword operands with
              | none =>
                  simp only [expression, hKeyword, hRead]
                  exact steady_pass (keepsDepth_fail _)
              | some parts =>
                  simp only [expression, hKeyword, hRead]
                  exact steady_form env _ parts

theorem steady_entry (code : Lambda) (frame : FrameId) (args : List Value) :
    Steady m ws (entry code frame args m ws) := by
  have hDepth := keepsDepth_bodyFrame code frame args m
  cases hFrame : bodyFrame code frame args m with
  | ok inner m' =>
      rw [hFrame] at hDepth
      simp only [entry, hFrame]
      exact (steady_sequence inner code.body).of_depth hDepth
  | error stop m' =>
      rw [hFrame] at hDepth
      simp only [entry, hFrame]
      exact ⟨hDepth, rfl⟩

theorem steady_resume (v : Value) {w : Waiting} (hw : w ≠ .body) :
    Steady m ws (resume v m w ws) := by
  cases w with
  | evaluation location => exact steady_value v
  | body => exact absurd rfl hw
  | head env location operands =>
      cases v with
      | procedure p => exact steady_collect env (.call p) [] operands
      | _ => exact ⟨rfl, rfl⟩
  | collection env purpose done rest => exact steady_collect env purpose (v :: done) rest
  | sequence env rest => exact steady_sequence env rest
  | define env name => exact steady_pass (keepsDepth_defined env name v)
  | branch env consequent alternative =>
      by_cases hTest : v.isTrue = true
      · simp only [resume, if_pos hTest]
        exact steady_ask env consequent
      · simp only [resume, if_neg hTest]
        exact steady_ask env alternative
  | conjunction env rest =>
      by_cases hTest : v.isFalse = true
      · simp only [resume, if_pos hTest]
        exact steady_value _
      · simp only [resume, if_neg hTest]
        exact steady_conjunction env rest
  | disjunction env rest =>
      by_cases hTest : v.isTrue = true
      · simp only [resume, if_pos hTest]
        exact steady_value _
      · simp only [resume, if_neg hTest]
        exact steady_disjunction env rest
  | binding env inner whole name rest inside =>
      exact (steady_bindings env inner whole rest inside).of_depth rfl
  | set env name => exact steady_pass (keepsDepth_assigned env name v)
  | car env cdr => exact steady_ask_below env cdr rfl
  | cdr a => exact ⟨rfl, rfl⟩

theorem steady_unwind (stop : Stop) {w : Waiting} (hw : w ≠ .body) :
    Steady m ws (unwind stop m w ws) := by
  cases w with
  | body => exact absurd rfl hw
  | _ => exact ⟨rfl, rfl⟩

/-! ## Steps -/

/-- A body is about to become active: a procedure written in the language is applied to as many
arguments as it accepts. -/
def Enters (s : Moment) : Prop :=
  match s.focus with
  | .application (.closure _ code _) args => code.formals.accepts args.length = true
  | _ => False

/-- The counter is the number of active bodies. -/
def Counted (s : Moment) : Prop := s.machine.depth = s.bodies

variable {s : Moment}

/-- Only there does the limit matter. -/
theorem step_eq_of_not_enters (h : ¬ s.Enters) (limit : Option Nat) :
    step limit s = step none s := by
  obtain ⟨focus, m, ws⟩ := s
  cases focus with
  | application p args =>
      cases p with
      | builtin b => rfl
      | closure id code frame =>
          have hAccepts :
              ¬ (Procedure.closure id code frame).formals.accepts args.length = true := h
          simp only [step, application, if_neg hAccepts]
  | value v => cases ws <;> rfl
  | stop stop => cases ws <;> rfl
  | _ => rfl

theorem Enters.exists_eq (h : s.Enters) :
    ∃ id code frame args, s.focus = .application (.closure id code frame) args ∧
      (Procedure.closure id code frame).formals.accepts args.length = true := by
  unfold Enters at h
  split at h
  · next id code frame args hFocus => exact ⟨id, code, frame, args, hFocus, h⟩
  · exact absurd h id

theorem Enters.step_of_admits (h : s.Enters) {limit : Option Nat}
    (hAdmits : admits limit s.machine.depth = true) :
    ∃ code frame args,
      step limit s = ⟨.entry code frame args, enter s.machine, .body :: s.waiting⟩ := by
  obtain ⟨id, code, frame, args, hFocus, hAccepts⟩ := h.exists_eq
  obtain ⟨focus, m, ws⟩ := s
  obtain rfl : focus = .application (.closure id code frame) args := hFocus
  refine ⟨code, frame, args, ?_⟩
  simp only [step, application, if_pos hAccepts, if_pos hAdmits]

theorem Enters.step_of_not_admits (h : s.Enters) {limit : Option Nat}
    (hAdmits : ¬ admits limit s.machine.depth = true) :
    step limit s =
      ⟨.stop (.error (.bare (.depthExceeded (limit.getD 0)))), s.machine, s.waiting⟩ := by
  obtain ⟨id, code, frame, args, hFocus, hAccepts⟩ := h.exists_eq
  obtain ⟨focus, m, ws⟩ := s
  obtain rfl : focus = .application (.closure id code frame) args := hFocus
  simp only [step, application, if_pos hAccepts, if_neg hAdmits]
  rfl

/-- A limit that admits one more body makes no difference. -/
theorem step_eq_of_admits {limit : Option Nat} (hAdmits : admits limit s.machine.depth = true) :
    step limit s = step none s := by
  by_cases h : s.Enters
  · obtain ⟨id, code, frame, args, hFocus, hAccepts⟩ := h.exists_eq
    obtain ⟨focus, m, ws⟩ := s
    obtain rfl : focus = .application (.closure id code frame) args := hFocus
    have hNone : admits none m.depth = true := rfl
    simp only [step, application, if_pos hAccepts, if_pos hAdmits, if_pos hNone]
  · exact step_eq_of_not_enters h limit

theorem activeBodies_cons_of_ne {w : Waiting} (hw : w ≠ .body) (ws : List Waiting) :
    activeBodies (w :: ws) = activeBodies ws := by
  cases w <;> simp_all [activeBodies]

theorem activeBodies_body (ws : List Waiting) :
    activeBodies (.body :: ws) = activeBodies ws + 1 := by
  simp [activeBodies]

theorem Steady.cons {w : Waiting} {t : Moment} (h : Steady m ws t) (hw : w ≠ .body) :
    Steady m (w :: ws) t :=
  ⟨h.depth, h.bodies.trans (activeBodies_cons_of_ne hw ws).symm⟩

/-- What a step does that makes no body active: it leaves counter and active bodies as they are, or
gives up the innermost of them. -/
theorem step_of_not_enters (h : ¬ s.Enters) :
    Steady s.machine s.waiting (step none s) ∨
      ∃ ws, s.waiting = .body :: ws ∧ (step none s).machine = leave s.machine ∧
        (step none s).waiting = ws := by
  obtain ⟨focus, m, ws⟩ := s
  cases focus with
  | expression env e => exact .inl (steady_expression env e)
  | application p args =>
      by_cases hAccepts : p.formals.accepts args.length = true
      · cases p with
        | builtin b =>
            simp only [step, application, if_pos hAccepts]
            exact .inl (steady_pass (keepsDepth_callBuiltin b args))
        | closure id code frame => exact absurd hAccepts h
      · simp only [step, application, if_neg hAccepts]
        exact .inl (steady_pass (keepsDepth_fail _))
  | entry code frame args => exact .inl (steady_entry code frame args)
  | value v =>
      cases ws with
      | nil => exact .inl (steady_value v)
      | cons w ws =>
          by_cases hw : w = .body
          · subst hw
            exact .inr ⟨ws, rfl, rfl, rfl⟩
          · exact .inl ((steady_resume v hw).cons hw)
  | stop stop =>
      cases ws with
      | nil => exact .inl ⟨rfl, rfl⟩
      | cons w ws =>
          by_cases hw : w = .body
          · subst hw
            exact .inr ⟨ws, rfl, rfl, rfl⟩
          · exact .inl ((steady_unwind stop hw).cons hw)

/-- Where no body becomes active, the counter follows, and no more bodies are active. -/
theorem Counted.step_of_not_enters (hs : s.Counted) (h : ¬ s.Enters) :
    (step none s).Counted ∧ (step none s).bodies ≤ s.bodies := by
  rcases Moment.step_of_not_enters h with hSteady | ⟨ws, hWaiting, hMachine, hRest⟩
  · exact ⟨(hSteady.depth.trans hs).trans hSteady.bodies.symm, Nat.le_of_eq hSteady.bodies⟩
  · have hDepth : s.machine.depth = activeBodies s.waiting := hs
    rw [hWaiting, activeBodies_body] at hDepth
    have hBodies : (Moment.step none s).bodies = activeBodies ws := congrArg activeBodies hRest
    constructor
    · show (Moment.step none s).machine.depth = (Moment.step none s).bodies
      rw [hMachine, hBodies]
      show s.machine.depth - 1 = activeBodies ws
      omega
    · rw [hBodies, Moment.bodies, hWaiting, activeBodies_body]
      exact Nat.le_succ _

/-- Where a body becomes active, there is one more, and the heap is as before. -/
theorem Enters.step_none (h : s.Enters) :
    (step none s).machine = enter s.machine ∧ (step none s).bodies = s.bodies + 1 := by
  have hAdmits : admits none s.machine.depth = true := rfl
  obtain ⟨code, frame, args, hStep⟩ := h.step_of_admits hAdmits
  rw [hStep]
  exact ⟨rfl, activeBodies_body s.waiting⟩

/-- The counter stays the number of active bodies. -/
theorem Counted.step (hs : s.Counted) : (step none s).Counted := by
  by_cases h : s.Enters
  · obtain ⟨hMachine, hBodies⟩ := h.step_none
    show (Moment.step none s).machine.depth = (Moment.step none s).bodies
    rw [hMachine, hBodies, ← hs]
    rfl
  · exact (hs.step_of_not_enters h).1

/-- At every moment of an evaluation without a limit the counter is the number of active bodies. -/
theorem Counted.after (hs : s.Counted) (k : Nat) : (after none k s).Counted := by
  induction k with
  | zero => exact hs
  | succ k ih =>
      rw [after_succ]
      exact ih.step

theorem counted_start (env : FrameId) (e : Expr) (h : Heap) : (start env e ⟨h, 0⟩).Counted := by
  simp [Counted, start, ask, bodies, activeBodies]

end Moment

end MiniScheme.Eval
