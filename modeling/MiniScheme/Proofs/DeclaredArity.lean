import MiniScheme.Proofs.BuiltinFaults
import MiniScheme.Eval

/-!
# Built-in procedures take what they declare

How many arguments a built-in procedure takes is written down twice: in the parameters that it
declares, which are checked whenever it is applied, and in its body, which unpacks the arguments by
itself (`Builtin.expects`). The names differ, but the numbers are the same, so a body complains of a
number of arguments exactly where the check does.

The check comes first, and so the bodies never get to complain. This is said not only of the errors
that come out. What a body would raise against a wrong number can be replaced by anything
(`Refusal`), and every application and every evaluation stays as it is.

## Main results

* `Builtin.apply_eq_argumentMismatch_iff`: when a body complains of the number of its arguments.
* `Eval.applyProcedureWith_eq`, `Eval.runWith_eq`: what it would raise makes no difference.
* `Eval.builtins_take_what_they_declare`: both, and the errors that an application raises itself.
-/

namespace MiniScheme

namespace Builtin

variable {b : Builtin} {args : List Value}

/-- The parameters that a procedure declares accept the numbers of arguments that its body can
unpack. -/
theorem accepts_formals (b : Builtin) (count : Nat) :
    b.formals.accepts count = b.expects.accepts count := by
  cases b <;> rfl

/-- The body of a procedure complains of a number of arguments if that does not fit the declared
parameters, and only then. -/
theorem apply_eq_argumentMismatch_iff {id : Nat} {formals : Formals} {count : Nat} :
    b.apply args id = .error (.argumentMismatch formals count) ↔
      b.formals.accepts args.length = false ∧ formals = b.expects ∧ count = args.length := by
  have hUnpacks := unpacks_applyWith b args id
  rw [← applyWith_argumentMismatch, accepts_formals]
  cases hAccepts : b.expects.accepts args.length with
  | false =>
      rw [hUnpacks.refused hAccepts]
      constructor
      · rintro ⟨⟩
        exact ⟨rfl, rfl, rfl⟩
      · rintro ⟨_, rfl, rfl⟩
        rfl
  | true =>
      obtain ⟨r, hr, hEq⟩ := hUnpacks.admitted hAccepts
      rw [hEq]
      constructor
      · -- what fails because of the arguments themselves is no complaint about their number
        rintro rfl
        exact False.elim hr
      · rintro ⟨⟨⟩, _⟩

/-- With a number of arguments that fits the declared parameters, the body does not refuse. -/
theorem applyWith_of_accepts (refusal : Refusal) (hAccepts : b.formals.accepts args.length = true)
    (id : Nat) : b.applyWith refusal args id = b.apply args id := by
  rw [accepts_formals] at hAccepts
  obtain ⟨r, _, hEq⟩ := (unpacks_applyWith b args id).admitted hAccepts
  rw [← applyWith_argumentMismatch, hEq, hEq]

end Builtin

namespace Eval

variable {limit : Option Nat} {self : Evaluator} {b : Builtin} {args : List Value}
  {m m' : Machine}

/-! ## Errors of an application -/

/-- An error of a built-in procedure is an error of its body, without a place. -/
theorem apply_of_callBuiltin {error : Error}
    (h : callBuiltin b args m = .error (.error error) m') :
    b.apply args m.heap.nextId = .error error.cause := by
  cases hApply : b.apply args m.heap.nextId with
  | ok result =>
      simp only [callBuiltin, hApply] at h
      cases h
  | error cause =>
      simp only [callBuiltin, hApply] at h
      cases h
      rfl

/-- The application of a built-in procedure complains of the number of arguments in the words of the
declared parameters, and before anything is changed. -/
theorem applyProcedure_eq_argumentMismatch_iff {formals : Formals} {count : Nat}
    {place : Option Location} :
    applyProcedure limit self (.builtin b) args m =
        .error (.error ⟨.argumentMismatch formals count, place⟩) m' ↔
      b.formals.accepts args.length = false ∧
        formals = b.formals ∧ count = args.length ∧ place = none ∧ m' = m := by
  cases hAccepts : b.formals.accepts args.length with
  | false =>
      have hRefused : applyProcedure limit self (.builtin b) args m =
          .error (.error (.bare (.argumentMismatch b.formals args.length))) m := by
        rw [applyProcedure, Procedure.formals, if_neg (by simp [hAccepts])]
        rfl
      rw [hRefused]
      constructor
      · rintro ⟨⟩
        exact ⟨rfl, rfl, rfl, rfl, rfl⟩
      · rintro ⟨_, rfl, rfl, rfl, rfl⟩
        rfl
  | true =>
      have hCalled : applyProcedure limit self (.builtin b) args m = callBuiltin b args m := by
        rw [applyProcedure, Procedure.formals, if_pos hAccepts]
      rw [hCalled]
      constructor
      · intro h
        have hOwn := (Builtin.apply_eq_argumentMismatch_iff.1 (apply_of_callBuiltin h)).1
        rw [hAccepts] at hOwn
        cases hOwn
      · rintro ⟨⟨⟩, _⟩

/-! ## Bodies that refuse in another way -/

/-- The value of a built-in procedure whose body refuses in the given way. -/
def callBuiltinWith (refusal : Refusal) (b : Builtin) (args : List Value) : Eval Value := fun m =>
  match b.applyWith refusal args m.heap.nextId with
  | .ok (v, id) => .ok v { m with heap := { m.heap with nextId := id } }
  | .error cause => fail cause m

/-- Applies a procedure, with bodies of built-in procedures that refuse in the given way. -/
def applyProcedureWith (refusal : Refusal) (limit : Option Nat) (self : Evaluator) (p : Procedure)
    (args : List Value) : Eval Value :=
  if p.formals.accepts args.length then
    match p with
    | .builtin b => callBuiltinWith refusal b args
    | .closure _ code frame => nested limit (enterBody self code frame args)
  else fail (.argumentMismatch p.formals args.length)

/-- Evaluates a call, with bodies that refuse in the given way. -/
def callWith (refusal : Refusal) (limit : Option Nat) (self : Evaluator) (env : FrameId)
    (head : Expr) (operands : List Expr) : Eval Value := do
  let v ← self env head
  let p ← callee head.location v
  let args ← each self env operands
  applyProcedureWith refusal limit self p args

/-- The rules of evaluation, with bodies that refuse in the given way. No expression but a call
applies a procedure. -/
def rulesWith (refusal : Refusal) (limit : Option Nat) (self : Evaluator) (env : FrameId)
    (e : Expr) : Eval Value :=
  match e with
  | .list l (head :: operands) =>
      match head.keyword? with
      | none => locate l (callWith refusal limit self env head operands)
      | some _ => rules limit self env e
  | _ => rules limit self env e

/-- The evaluator, with bodies that refuse in the given way. -/
def runWith (refusal : Refusal) (limit : Option Nat) : Nat → Evaluator
  | 0 => fun _ _ => throw .exhausted
  | fuel + 1 => rulesWith refusal limit (runWith refusal limit fuel)

theorem callBuiltinWith_of_accepts (refusal : Refusal)
    (hAccepts : b.formals.accepts args.length = true) :
    callBuiltinWith refusal b args = callBuiltin b args := by
  funext m
  have hApply := Builtin.applyWith_of_accepts refusal hAccepts m.heap.nextId
  cases hResult : b.apply args m.heap.nextId <;>
    simp only [callBuiltinWith, callBuiltin, hApply, hResult]

/-- An application never comes to the refusal of a body. -/
theorem applyProcedureWith_eq (refusal : Refusal) (limit : Option Nat) (self : Evaluator)
    (p : Procedure) (args : List Value) :
    applyProcedureWith refusal limit self p args = applyProcedure limit self p args := by
  unfold applyProcedureWith applyProcedure
  by_cases hAccepts : p.formals.accepts args.length = true
  · rw [if_pos hAccepts, if_pos hAccepts]
    cases p with
    | builtin b => exact callBuiltinWith_of_accepts refusal hAccepts
    | closure id code frame => rfl
  · rw [if_neg hAccepts, if_neg hAccepts]

theorem callWith_eq (refusal : Refusal) (limit : Option Nat) (self : Evaluator) (env : FrameId)
    (head : Expr) (operands : List Expr) :
    callWith refusal limit self env head operands = call limit self env head operands := by
  simp only [callWith, call, applyProcedureWith_eq]

theorem rulesWith_eq (refusal : Refusal) (limit : Option Nat) (self : Evaluator) :
    rulesWith refusal limit self = rules limit self := by
  funext env e
  cases e with
  | number l n => rfl
  | symbol l name => rfl
  | list l es =>
      cases es with
      | nil => rfl
      | cons head operands =>
          cases hKeyword : head.keyword? with
          | some keyword => simp only [rulesWith, hKeyword]
          | none =>
              simp only [rulesWith, rules, expression, combination, hKeyword, callWith_eq]
              rfl

/-- An evaluation never comes to the refusal of a body. -/
theorem runWith_eq (refusal : Refusal) (limit : Option Nat) (fuel : Nat) :
    runWith refusal limit fuel = run limit fuel := by
  induction fuel with
  | zero => rfl
  | succ fuel ih => rw [runWith, run, ih, rulesWith_eq]

/-- The bodies of the built-in procedures take the numbers of arguments that the procedures declare.

* Called by itself, a body complains of the number of arguments exactly if the declared parameters
  do not accept it, and the number that it reports is that of the arguments.
* An application complains of the number exactly then, too, and always by itself: it names the
  declared parameters and leaves the machine as it was.
* So no application and no evaluation ever comes to a branch of a body for a wrong number of
  arguments: whatever is raised there, the application and the evaluation are the same. -/
theorem builtins_take_what_they_declare :
    (∀ (b : Builtin) (args : List Value) (id : Nat) (formals : Formals) (count : Nat),
      b.apply args id = .error (.argumentMismatch formals count) ↔
        b.formals.accepts args.length = false ∧ formals = b.expects ∧ count = args.length) ∧
    (∀ (limit : Option Nat) (self : Evaluator) (b : Builtin) (args : List Value) (m m' : Machine)
        (formals : Formals) (count : Nat) (place : Option Location),
      applyProcedure limit self (.builtin b) args m =
          .error (.error ⟨.argumentMismatch formals count, place⟩) m' ↔
        b.formals.accepts args.length = false ∧
          formals = b.formals ∧ count = args.length ∧ place = none ∧ m' = m) ∧
    (∀ (refusal : Refusal) (limit : Option Nat) (self : Evaluator) (p : Procedure)
        (args : List Value),
      applyProcedureWith refusal limit self p args = applyProcedure limit self p args) ∧
    ∀ (refusal : Refusal) (limit : Option Nat) (fuel : Nat),
      runWith refusal limit fuel = run limit fuel :=
  ⟨fun _ _ _ _ _ => Builtin.apply_eq_argumentMismatch_iff,
    fun _ _ _ _ _ _ _ _ _ => applyProcedure_eq_argumentMismatch_iff,
    applyProcedureWith_eq, runWith_eq⟩

/-- Given one argument, the body of `list-ref` has its own names for the two that it wants, and an
application has the declared ones. -/
example :
    Builtin.listRef.apply [.nil] 0 = .error (.argumentMismatch ⟨["x1", "x2"], none⟩ 1) ∧
      applyProcedure none (run none 0) (.builtin .listRef) [.nil] ⟨.empty, 0⟩ =
        .error (.error (.bare (.argumentMismatch ⟨["list", "k"], none⟩ 1))) ⟨.empty, 0⟩ :=
  ⟨rfl, rfl⟩

end Eval

end MiniScheme
