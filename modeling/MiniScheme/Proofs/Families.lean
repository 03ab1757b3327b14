import MiniScheme.Interpreter
import MiniScheme.Proofs.Regime.Rules

/-!
# The families of errors that evaluation has

Whatever lies in the heap, evaluation does not complain of the text that an expression was read
from, nor of files: its errors are about names and about evaluation itself. Neither does it take
frames away, or change the bound on heights or the number of active procedure bodies.

There is nothing to assume of the heap for that, so it comes from the regime in which all
procedures and frames may occur.

## Main results

* `Eval.families_run`: the regime is kept by evaluation with any amount of fuel.
* `Eval.families_evaluate`, `Eval.families_apply`: what it says of an evaluation and of an
  application under a limit.
* `Interpreter.State.cause_of_evalForms`: the errors of the forms of a text.
-/

namespace MiniScheme

/-- A cause that is not about a text or a file. -/
def Cause.OfEvaluation (cause : Cause) : Prop :=
  cause.category ≠ .reading ∧ cause.category ≠ .file

/-- All procedures and frames may occur, and errors are not about a text or a file. -/
def Regime.families : Regime where
  closure _ _ _ := True
  frame _ _ := True
  link _ _ := True
  stop
    | .error e => e.cause.OfEvaluation
    | .exhausted => True
  closure_mono _ h := h
  frame_mono _ h := h
  frame_of_lt _ h := h
  frame_child _ h := h
  link_child h := h
  frame_parent _ h _ := h
  frame_closure h := h
  stop_locate _ _ h := h
  stop_body _ _ := by simp [Error.bare, Cause.emptyBody, Cause.OfEvaluation, Cause.category]

theorem Regime.families_holds (h : Heap) : Regime.families.Holds h :=
  ⟨fun _ _ _ _ _ v _ => Value.all_of_forall (fun _ _ => trivial) v, fun _ _ _ _ _ _ => trivial,
    fun _ _ _ _ _ _ _ => trivial⟩

namespace Eval

theorem ready_families (env : FrameId) (m : Machine) : Regime.families.Ready m env :=
  ⟨Regime.families_holds m.heap, trivial, Nat.zero_le _, trivial⟩

/-- With any amount of fuel an evaluation only grows the machine, and if it fails, the error is not
about a text or a file. -/
theorem families_run (limit : Option Nat) (fuel : Nat) (env : FrameId) (e : Expr) (m : Machine) :
    Regime.families.Safe m Regime.families.Fine (run limit fuel env e m) := by
  have hPass : Regime.families.Passes limit (fun _ _ => True) (fun _ _ => True) :=
    { operand := fun _ _ => trivial
      element := fun _ _ => trivial
      body := fun _ _ _ _ => trivial
      code := fun _ _ _ _ _ => trivial
      name := fun _ _ _ _ => trivial
      raised := fun _ hRaised => hRaised.ordinary.2 }
  exact @Regime.keeps_run Regime.families limit (fun _ _ _ => True) (fun _ _ _ => trivial)
    (fun _ => hPass) fuel env e m (ready_families env m) trivial

theorem keeps_families (limit : Option Nat) (fuel : Nat) :
    Regime.families.Keeps (fun _ _ => True) (run limit fuel) :=
  fun env e m _ _ => families_run limit fuel env e m

theorem families_outcome {α : Type} {limit : Nat} {step : Eval α} {m : Machine}
    {good : Heap → α → Prop} (h : Regime.families.Safe m good (step m)) {error : Error}
    (hError : (outcome limit step m).1 = .error error) : error.cause.OfEvaluation := by
  unfold outcome at hError
  cases hStep : step m with
  | ok a m' =>
      rw [hStep] at hError
      cases hError
  | error stop m' =>
      rw [hStep] at h hError
      cases stop with
      | error e =>
          cases hError
          exact h.2.2
      | exhausted =>
          cases hError
          simp [Error.bare, Cause.OfEvaluation, Cause.category]

/-- Evaluation changes the machine by growth only, once the height of the expression is noted, and
its errors are not about a text or a file. -/
theorem families_evaluate (limit : Nat) (env : FrameId) (e : Expr) (m : Machine) :
    (note e m).Grows (evaluate limit env e m).2 ∧
      ∀ error, (evaluate limit env e m).1 = .error error → error.cause.OfEvaluation := by
  have hSafe := families_run (some limit)
    (budget limit (note e m).depth (note e m).heap.tallest) env e (note e m)
  exact ⟨(hSafe.outcome limit).1.toGrows, fun error => families_outcome hSafe⟩

/-- An application changes the machine by growth only. -/
theorem families_apply (limit : Nat) (p : Procedure) (args : List Value) (m : Machine) :
    m.Grows (apply limit p args m).2 := by
  have hAll : ∀ v : Value, Regime.families.Fine m.heap v :=
    Value.all_of_forall fun _ _ => trivial
  have hSafe : Regime.families.Safe m Regime.families.Fine (applyProcedure (some limit)
      (run (some limit) (budget limit m.depth m.heap.tallest)) p args m) :=
    Regime.safe_applyProcedure (keeps_families (some limit) _) (Regime.families_holds m.heap)
      (Nat.zero_le _) (hAll (.procedure p)) (fun v _ => hAll v) (fun _ _ _ _ _ _ _ => trivial)
      (fun _ hStop => hStop) fun _ hCall => hCall.ordinary.2
  exact (hSafe.outcome limit).1.toGrows

end Eval

/-- An error of evaluating forms is the error of reading one of them, or one of evaluation. -/
theorem Interpreter.State.cause_of_evalForms {forms : List (Except Error Expr)} :
    ∀ {s : Interpreter.State} {last : Option Value} {error : Error},
      (s.evalForms last forms).1 = .error error →
      .error error ∈ forms ∨ error.cause.OfEvaluation := by
  induction forms with
  | nil =>
      intro s last error h
      cases h
  | cons form forms ih =>
      intro s last error h
      unfold evalForms at h
      split at h
      · next e s' hRead =>
          cases h
          cases form with
          | error e' =>
              cases hRead
              exact .inl List.mem_cons_self
          | ok expr =>
              have hFamilies := (Eval.families_evaluate s.interpreter.limit
                s.interpreter.global expr s.machine).2 error
              exact .inr (hFamilies (congrArg Prod.fst hRead))
      · rcases ih h with hMem | hEvaluation
        · exact .inl (List.mem_cons_of_mem _ hMem)
        · exact .inr hEvaluation

end MiniScheme
