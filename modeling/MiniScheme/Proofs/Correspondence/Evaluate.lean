import MiniScheme.Proofs.Families
import MiniScheme.Proofs.Termination
import MiniScheme.Proofs.Correspondence.Rules

/-!
# Alike evaluations under a limit

Under a limit an evaluation chooses its fuel by itself, from the bound on the height of bodies that
the heap keeps. Two evaluations that are alike may thus have different amounts of fuel. This does
not matter where the bounds are the same, because then the fuel is, nor where they are true bounds,
because then both amounts suffice. Bounds of either kind stay so.

## Main results

* `Eval.agrees_evaluate`: evaluations of alike expressions under a limit have alike outcomes.
* `Eval.agrees_apply`: and so do applications of alike procedures.
-/

namespace MiniScheme

variable {C : Correspondence} {M : Matching}

/-- The bounds of two heaps are the same, or both are true bounds. -/
def Heap.BoundsAgree (h h' : Heap) : Prop :=
  h.tallest = h'.tallest ∨ h.BodiesWithin h.tallest ∧ h'.BodiesWithin h'.tallest

namespace Eval

/-- Steps that agree have alike outcomes, unless the first was refused a procedure body that the
second was not. -/
theorem Agrees.outcome {α : Type} {good : Matching → α → α → Prop} (limit : Nat)
    {step step' : Eval α} {m m' : Machine} (h : Agrees C M good (step m) (step' m'))
    (hRefused : C.lenient → ∀ e most, (outcome limit step m).1 = .error e →
      e.cause ≠ .depthExceeded most) :
    ∃ M', M ≤ M' ∧
      ExceptRel (Error.Alike C) (good M') (outcome limit step m).1 (outcome limit step' m').1 ∧
      (outcome limit step m).2.Alike C M' (outcome limit step' m').2 := by
  unfold Eval.outcome at hRefused ⊢
  generalize step m = x, step' m' = x' at h hRefused
  cases h with
  | ok hM hm ha => exact ⟨_, hM, .ok ha, hm⟩
  | error hM hm hStop =>
      cases hStop with
      | error he => exact ⟨_, hM, .error he, hm⟩
      | exhausted => exact ⟨_, hM, .error ⟨rfl, C.place_none⟩, hm⟩
  | refused hC hCause =>
      obtain ⟨most, hMost⟩ := hCause
      exact absurd hMost (hRefused hC _ most rfl)

/-- The runs behind two evaluations agree: they have the same fuel, because the same heights are
noted, or both have enough. -/
theorem agrees_noted (hC : ¬C.lenient) (limit : Nat) {env env' : FrameId} (hEnv : M env env')
    {e e' : Expr} (he : e.Alike C e') {m m' : Machine} (hm : m.Alike C M m')
    (hBounds : m.heap.BoundsAgree m'.heap) :
    Agrees C M (Value.Alike C)
      (run (some limit) (budget limit (note e m).depth (note e m).heap.tallest) env e (note e m))
      (run (some limit) (budget limit (note e' m').depth (note e' m').heap.tallest) env' e'
        (note e' m')) := by
  have hNote : (note e m).Alike C M (note e' m') := ⟨hm.heap.noteHeight _ _, hm.depth⟩
  rcases hBounds with hTallest | ⟨hBodies, hBodies'⟩
  · have hFuel : budget limit (note e m).depth (note e m).heap.tallest =
        budget limit (note e' m').depth (note e' m').heap.tallest := by
      show budget limit m.depth (max m.heap.tallest e.height) =
        budget limit m'.depth (max m'.heap.tallest e'.height)
      rw [hm.depth_eq hC, hTallest, he.height_eq]
    rw [← hFuel]
    exact consistent_run (some limit) _ hEnv he hNote
  · exact agrees_of_definite hEnv he hNote
      (definite_run_budget limit env (bodiesWithin_note e hBodies) (Nat.le_max_right _ _))
      (definite_run_budget limit env' (bodiesWithin_note e' hBodies') (Nat.le_max_right _ _))

theorem boundsAgree_evaluate (limit : Nat) (env env' : FrameId) {e e' : Expr}
    (he : e.height = e'.height) {m m' : Machine} (hBounds : m.heap.BoundsAgree m'.heap) :
    (evaluate limit env e m).2.heap.BoundsAgree (evaluate limit env' e' m').2.heap := by
  rcases hBounds with hTallest | ⟨hBodies, hBodies'⟩
  · have hNoted : (note e m).heap.tallest = (note e' m').heap.tallest := by
      show max m.heap.tallest e.height = max m'.heap.tallest e'.height
      rw [hTallest, he]
    have hGrown := (families_evaluate limit env e m).1.tallest
    have hGrown' := (families_evaluate limit env' e' m').1.tallest
    exact .inl (hGrown.trans (hNoted.trans hGrown'.symm))
  · exact .inr ⟨bodiesWithin_evaluate limit env e hBodies,
      bodiesWithin_evaluate limit env' e' hBodies'⟩

/-- Evaluations of alike expressions, in matching frames of alike machines, have alike outcomes. -/
theorem agrees_evaluate (hC : ¬C.lenient) (limit : Nat) {env env' : FrameId} (hEnv : M env env')
    {e e' : Expr} (he : e.Alike C e') {m m' : Machine} (hm : m.Alike C M m')
    (hBounds : m.heap.BoundsAgree m'.heap) :
    ∃ M', M ≤ M' ∧
      ExceptRel (Error.Alike C) (Value.Alike C M') (evaluate limit env e m).1
        (evaluate limit env' e' m').1 ∧
      (evaluate limit env e m).2.Alike C M' (evaluate limit env' e' m').2 :=
  (agrees_noted hC limit hEnv he hm hBounds).outcome limit fun hLenient => absurd hLenient hC

/-! ## Applications -/

section Applications

variable {p p' : Procedure} {args args' : List Value} {m m' : Machine}

/-- Applications of alike procedures to alike arguments have alike outcomes: they have the same
fuel, or both have enough. -/
theorem agrees_apply (hC : ¬C.lenient) (limit : Nat) (hp : p.Alike C M p')
    (hArgs : Value.AllAlike C M args args') (hm : m.Alike C M m')
    (hBounds : m.heap.tallest = m'.heap.tallest ∨
      m.heap.Bounds (.procedure p :: args) ∧ m'.heap.Bounds (.procedure p' :: args')) :
    ∃ M', M ≤ M' ∧
      ExceptRel (Error.Alike C) (Value.Alike C M') (apply limit p args m).1
        (apply limit p' args' m').1 ∧
      (apply limit p args m).2.Alike C M' (apply limit p' args' m').2 := by
  refine Agrees.outcome limit ?_ fun hLenient => absurd hLenient hC
  rcases hBounds with hTallest | ⟨hBounds, hBounds'⟩
  · rw [hm.depth_eq hC, hTallest]
    exact agrees_applyProcedure (consistent_run (some limit) _) hp hArgs hm
  · have hDefinite := definite_of_heights (heights_apply limit hBounds.frames hBounds.values)
    have hDefinite' := definite_of_heights (heights_apply limit hBounds'.frames hBounds'.values)
    rw [← applyProcedure_eq_of_le (Nat.le_max_left _ _) hDefinite,
      ← applyProcedure_eq_of_le (Nat.le_max_right _ _) hDefinite']
    exact agrees_applyProcedure (consistent_run (some limit) _) hp hArgs hm

theorem boundsAgree_apply (limit : Nat)
    (hBounds : m.heap.tallest = m'.heap.tallest ∨
      m.heap.Bounds (.procedure p :: args) ∧ m'.heap.Bounds (.procedure p' :: args')) :
    (apply limit p args m).2.heap.BoundsAgree (apply limit p' args' m').2.heap := by
  rcases hBounds with hTallest | ⟨hBounds, hBounds'⟩
  · have hGrown := (families_apply limit p args m).tallest
    have hGrown' := (families_apply limit p' args' m').tallest
    exact .inl (hGrown.trans (hTallest.trans hGrown'.symm))
  · exact .inr ⟨bodiesWithin_apply limit hBounds, bodiesWithin_apply limit hBounds'⟩

end Applications

end Eval

end MiniScheme
