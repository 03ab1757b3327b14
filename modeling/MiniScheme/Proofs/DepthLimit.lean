import Mathlib.Data.Nat.Find
import MiniScheme.Proofs.ActiveBodies
import MiniScheme.Proofs.Termination

/-!
# The depth limit is exact

Evaluation under a limit is compared with evaluation without one, moment by moment. The two agree
up to the moment at which one body too many would become active. There the limited one stops, and
its error goes outward through everything that waits: nothing on the way catches it, gives it
another cause or touches the heap.

Since the counter is the number of active bodies, what the limit is compared with can be read off
the moments of the evaluation without a limit.

## Main results

* `Moment.Counted.after_eq_of_bodies_le`: up to the limit, both go through the same moments.
* `Moment.after_stop`: an error goes outward, with its cause and the heap as they are.
* `depth_limit_is_exact`: the comparison of the results.
-/

namespace MiniScheme.Eval

namespace Moment

variable {s : Moment}

/-! ## Runs -/

/-- A step that leaves no more bodies active than the limit allows is the same under the limit. -/
theorem Counted.step_eq_of_bodies_le (hs : s.Counted) {limit : Nat}
    (hLe : (Moment.step none s).bodies ≤ limit) :
    Moment.step (some limit) s = Moment.step none s := by
  by_cases h : s.Enters
  · have hBodies := h.step_none.2
    have hAdmits : admits (some limit) s.machine.depth = true := by
      have hDepth : s.machine.depth < limit := by
        rw [hs]
        omega
      simpa [admits] using hDepth
    exact step_eq_of_admits hAdmits
  · exact step_eq_of_not_enters h (some limit)

/-- Up to the limit, both evaluations go through the same moments. -/
theorem Counted.after_eq_of_bodies_le (hs : s.Counted) {limit k : Nat}
    (hLe : ∀ j ≤ k, (Moment.after none j s).bodies ≤ limit) :
    Moment.after (some limit) k s = Moment.after none k s := by
  induction k with
  | zero => rfl
  | succ k ih =>
      have hBefore := ih fun j hj => hLe j (Nat.le_succ_of_le hj)
      have hNext := hLe (k + 1) (Nat.le_refl _)
      rw [after_succ] at hNext
      rw [after_succ, after_succ, hBefore]
      exact (hs.after k).step_eq_of_bodies_le hNext

/-- An error goes outward through everything that waits, with its cause and the heap as they
are. -/
theorem after_stop (limit : Option Nat) (ws : List Waiting) :
    ∀ (error : Error) (m : Machine), ∃ error', error'.cause = error.cause ∧
      after limit ws.length ⟨.stop (.error error), m, ws⟩ =
        pass (.error (.error error') ⟨m.heap, m.depth - activeBodies ws⟩) [] := by
  induction ws with
  | nil => exact fun error m => ⟨error, rfl, rfl⟩
  | cons w ws ih =>
      intro error m
      by_cases hw : w = .body
      · subst hw
        obtain ⟨error', hCause, hEnd⟩ := ih error (leave m)
        refine ⟨error', hCause, ?_⟩
        rw [activeBodies_body, Nat.add_comm, ← Nat.sub_sub]
        exact hEnd
      · rw [activeBodies_cons_of_ne hw]
        cases w with
        | evaluation location =>
            obtain ⟨error', hCause, hEnd⟩ := ih (error.orAt location) m
            exact ⟨error', hCause.trans (error.cause_orAt location), hEnd⟩
        | body => exact absurd rfl hw
        | _ => exact ih error m

/-- The first moment with more active bodies than the limit allows has just one more, and there
the limited evaluation stops, with the heap of that moment. -/
theorem Counted.stops_at_first (hs : s.Counted) {limit k : Nat}
    (hBefore : ∀ j ≤ k, (Moment.after none j s).bodies ≤ limit)
    (hMore : limit < (Moment.after none (k + 1) s).bodies) :
    (Moment.after none (k + 1) s).bodies = limit + 1 ∧
    ∃ k' location, Moment.after (some limit) k' s =
      pass (.error (.error ⟨.depthExceeded limit, location⟩)
        ⟨(Moment.after none (k + 1) s).machine.heap, 0⟩) [] := by
  have hSame := hs.after_eq_of_bodies_le hBefore
  have hCounted := hs.after k
  have hLast := hBefore k (Nat.le_refl k)
  rw [after_succ] at hMore ⊢
  generalize hEq : Moment.after none k s = t at *
  have hEnters : t.Enters := by
    by_contra hNot
    have hLe := (hCounted.step_of_not_enters hNot).2
    omega
  obtain ⟨hMachine, hBodies⟩ := hEnters.step_none
  have hFull : t.bodies = limit := by omega
  have hDepth : t.machine.depth = limit := hCounted.trans hFull
  refine ⟨by omega, ?_⟩
  have hRefused : ¬ admits (some limit) t.machine.depth = true := by
    simp [admits, hDepth]
  obtain ⟨error, hCause, hEnd⟩ :=
    after_stop (some limit) t.waiting (.bare (.depthExceeded limit)) t.machine
  refine ⟨k + (1 + t.waiting.length), error.location, ?_⟩
  rw [after_add, hSame, after_add]
  show Moment.after (some limit) t.waiting.length (Moment.step (some limit) t) = _
  rw [hEnters.step_of_not_admits hRefused]
  refine hEnd.trans ?_
  have hZero : t.machine.depth - activeBodies t.waiting = 0 := by
    show t.machine.depth - t.bodies = 0
    omega
  obtain ⟨cause, location⟩ := error
  obtain rfl : cause = .depthExceeded limit := hCause
  rw [hZero, hMachine]
  rfl

/-- If more bodies than the limit allows are ever active, there is a first such moment. -/
theorem exists_first_above {limit : Nat} (hStart : s.bodies ≤ limit)
    (hMore : ∃ k, limit < (Moment.after none k s).bodies) :
    ∃ k, (∀ j ≤ k, (Moment.after none j s).bodies ≤ limit) ∧
      limit < (Moment.after none (k + 1) s).bodies := by
  have hFirst := Nat.find_spec hMore
  have hBefore : ∀ j < Nat.find hMore, (Moment.after none j s).bodies ≤ limit :=
    fun j hj => Nat.not_lt.1 (Nat.find_min hMore hj)
  cases hk : Nat.find hMore with
  | zero =>
      rw [hk] at hFirst
      exact absurd hStart (Nat.not_le.2 hFirst)
  | succ k =>
      rw [hk] at hFirst hBefore
      exact ⟨k, fun j hj => hBefore j (Nat.lt_succ_of_le hj), hFirst⟩

end Moment

/-! ## Results -/

open Moment (after start)

variable {limit : Nat} {env : FrameId} {e : Expr} {h : Heap}

theorem bodies_start (env : FrameId) (e : Expr) (m : Machine) : (start env e m).bodies = 0 := by
  simp [start, Moment.ask, Moment.bodies, activeBodies]

/-- Below the limit, evaluation returns the same with and without it. -/
theorem returns_limit_iff (hLe : ∀ k, (after none k (start env e ⟨h, 0⟩)).bodies ≤ limit)
    (r : EStateM.Result Stop Machine Value) :
    Returns (some limit) env e ⟨h, 0⟩ r ↔ Returns none env e ⟨h, 0⟩ r := by
  have hSame : ∀ k, after (some limit) k (start env e ⟨h, 0⟩) = after none k (start env e ⟨h, 0⟩) :=
    fun k => (Moment.counted_start env e h).after_eq_of_bodies_le fun j _ => hLe j
  constructor
  · intro hReturns
    obtain ⟨k, hEnd⟩ := (returns_iff hReturns.1).1 hReturns
    rw [hSame] at hEnd
    exact (returns_iff hReturns.1).2 ⟨k, hEnd⟩
  · intro hReturns
    obtain ⟨k, hEnd⟩ := (returns_iff hReturns.1).1 hReturns
    rw [← hSame] at hEnd
    exact (returns_iff hReturns.1).2 ⟨k, hEnd⟩

/-- Above the limit, evaluation fails with the heap of the first moment that is. -/
theorem returns_depthExceeded
    (hMore : ∃ k, limit < (after none k (start env e ⟨h, 0⟩)).bodies) :
    ∃ k location, (after none k (start env e ⟨h, 0⟩)).bodies = limit + 1 ∧
      (∀ j < k, (after none j (start env e ⟨h, 0⟩)).bodies ≤ limit) ∧
      Returns (some limit) env e ⟨h, 0⟩ (.error (.error ⟨.depthExceeded limit, location⟩)
        ⟨(after none k (start env e ⟨h, 0⟩)).machine.heap, 0⟩) := by
  have hStart : (start env e ⟨h, 0⟩).bodies ≤ limit := by
    rw [bodies_start]
    exact Nat.zero_le limit
  obtain ⟨k, hBefore, hFirst⟩ := Moment.exists_first_above hStart hMore
  obtain ⟨hBodies, k', location, hEnd⟩ :=
    (Moment.counted_start env e h).stops_at_first hBefore hFirst
  refine ⟨k + 1, location, hBodies, fun j hj => hBefore j (Nat.le_of_lt_succ hj), ?_⟩
  refine (returns_iff ?_).2 ⟨k', hEnd⟩
  trivial

/-- Evaluation under a limit against evaluation without one. If never more bodies are active than
the limit allows, both return the same, on the same heap. If at some moment there is one more, the
limited evaluation returns the error of the limit, with the heap of the first such moment. The
number of active bodies rises only where a procedure written in the language is applied. A result
that is not the error of the limit is the result under every higher limit. -/
theorem depth_limit_is_exact (limit : Nat) (env : FrameId) (e : Expr) (h : Heap) :
    ((∀ k, (after none k (start env e ⟨h, 0⟩)).bodies ≤ limit) →
      ∃ r, Returns none env e ⟨h, 0⟩ r ∧ Returns (some limit) env e ⟨h, 0⟩ r) ∧
    ((∃ k, (after none k (start env e ⟨h, 0⟩)).bodies = limit + 1) →
      ∃ k location, (after none k (start env e ⟨h, 0⟩)).bodies = limit + 1 ∧
        (∀ j < k, (after none j (start env e ⟨h, 0⟩)).bodies ≤ limit) ∧
        Returns (some limit) env e ⟨h, 0⟩ (.error (.error ⟨.depthExceeded limit, location⟩)
          ⟨(after none k (start env e ⟨h, 0⟩)).machine.heap, 0⟩)) ∧
    (∀ k, (after none k (start env e ⟨h, 0⟩)).bodies <
        (after none (k + 1) (start env e ⟨h, 0⟩)).bodies →
      (after none k (start env e ⟨h, 0⟩)).Enters) ∧
    (∀ limit' ≥ limit, ∀ r, Returns (some limit) env e ⟨h, 0⟩ r →
      (∀ location m, r ≠ .error (.error ⟨.depthExceeded limit, location⟩) m) →
      Returns (some limit') env e ⟨h, 0⟩ r) := by
  refine ⟨fun hLe => ?_, fun ⟨k, hk⟩ => ?_, fun k hRise => ?_, ?_⟩
  · obtain ⟨r, hReturns⟩ := exists_returns limit env e ⟨h, 0⟩
    exact ⟨r, (returns_limit_iff hLe r).1 hReturns, hReturns⟩
  · exact returns_depthExceeded ⟨k, by omega⟩
  · by_contra hNot
    have hCounted := (Moment.counted_start env e h).after k
    have hLe := (hCounted.step_of_not_enters hNot).2
    rw [Moment.after_succ] at hRise
    omega
  · intro limit' hLimit r hReturns hOther
    by_cases hLe : ∀ k, (after none k (start env e ⟨h, 0⟩)).bodies ≤ limit
    · have hLe' := fun k => Nat.le_trans (hLe k) hLimit
      exact (returns_limit_iff hLe' r).2 ((returns_limit_iff hLe r).1 hReturns)
    · have hMore : ∃ k, limit < (after none k (start env e ⟨h, 0⟩)).bodies := by
        simpa using hLe
      obtain ⟨k, location, _, _, hExceeded⟩ := returns_depthExceeded hMore
      exact absurd (hReturns.unique hExceeded) (hOther location _)

/-- A heap whose global frame binds `id` to the procedure `(lambda (x) x)`. -/
def idHeap : Heap :=
  Heap.empty.newGlobal.2.define 1 "id"
    (.procedure (.closure 0 ⟨⟨["x"], none⟩, [.symbol none "x"]⟩ 1))

/-- The call `(id (id nil))`. -/
def idCall : Expr :=
  .list none [.symbol none "id", .list none [.symbol none "id", .symbol none "nil"]]

theorem bodies_idCall_le (k : Nat) : (after none k (start 1 idCall ⟨idHeap, 0⟩)).bodies ≤ 1 := by
  have hBefore : ∀ j < 24, (after none j (start 1 idCall ⟨idHeap, 0⟩)).bodies ≤ 1 := by decide
  have hEnd : (after none 24 (start 1 idCall ⟨idHeap, 0⟩)).Final := ⟨.ok .nil _, rfl⟩
  rcases Nat.lt_or_ge k 24 with hk | hk
  · exact hBefore k hk
  · obtain ⟨i, rfl⟩ := Nat.exists_eq_add_of_le hk
    rw [Moment.after_add, hEnd.after_eq]
    decide

/-- Endless recursion meets a limit of two. Two calls, one of them for the operand of the other,
keep to a limit of one and return the same under a limit of seven. -/
theorem depth_limit_at_loop_and_id :
    (after none 26 (start 1 loopCall ⟨loopHeap, 0⟩)).bodies = 3 ∧
    (∃ location m, Returns (some 2) 1 loopCall ⟨loopHeap, 0⟩
      (.error (.error ⟨.depthExceeded 2, location⟩) m)) ∧
    (∀ k, (after none k (start 1 idCall ⟨idHeap, 0⟩)).bodies ≤ 1) ∧
    (after none 18 (start 1 idCall ⟨idHeap, 0⟩)).Enters ∧
    ∃ m, Returns none 1 idCall ⟨idHeap, 0⟩ (.ok .nil m) ∧
      Returns (some 1) 1 idCall ⟨idHeap, 0⟩ (.ok .nil m) ∧
      Returns (some 7) 1 idCall ⟨idHeap, 0⟩ (.ok .nil m) := by
  have hThree : (after none 26 (start 1 loopCall ⟨loopHeap, 0⟩)).bodies = 3 := by decide
  obtain ⟨_, hAbove, _, _⟩ := depth_limit_is_exact 2 1 loopCall loopHeap
  obtain ⟨k, location, _, _, hExceeded⟩ := hAbove ⟨26, hThree⟩
  obtain ⟨hBelow, _, hRise, hHigher⟩ := depth_limit_is_exact 1 1 idCall idHeap
  obtain ⟨r, hNone, hOne⟩ := hBelow bodies_idCall_le
  have hDefinite : Definite (run (some 1) 6 1 idCall ⟨idHeap, 0⟩) := trivial
  have hNil : Returns (some 1) 1 idCall ⟨idHeap, 0⟩ (.ok .nil _) := .of_definite hDefinite
  obtain rfl := hOne.unique hNil
  have hEnters := hRise 18 (by decide)
  refine ⟨hThree, ⟨location, _, hExceeded⟩, bodies_idCall_le, hEnters, _, hNone, hOne, ?_⟩
  exact hHigher 7 (by decide) _ hOne fun _ _ => nofun

end MiniScheme.Eval
