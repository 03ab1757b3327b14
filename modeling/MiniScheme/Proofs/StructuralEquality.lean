import MiniScheme.Proofs.Acts
import MiniScheme.Proofs.NumberOrder

/-!
# Equality without looking at identities

Equality of pairs takes a shared tail for granted: chains whose tails are one and the same pair
are not compared any further. This is an abbreviation and no more if two things hold. One pair
must not have two contents, which is what the ledger of identities is for: whatever is around at
any moment of a history is entered in it, if the pairs and procedures that were handed over came
from the session (`World.Permits`), so that an identity determines a value. And a value must be
equal to itself, which fails for one number only, the one that is no number.

`Value.structural` compares without the abbreviation. Where values are free of that number, the
two equalities are the same.

## Main results

* `Value.same_of_structural`: the abbreviation never separates.
* `Value.structural_of_same`: among values that are entered, it never identifies either.
* `World.equality_is_structural`: both for everything that is around at any moment of any history,
  and what follows for shared tails.
-/

namespace MiniScheme

namespace Procedure

theorem same_self (p : Procedure) : p.same p = true := by
  cases p <;> exact beq_self_eq_true _

theorem same_comm (p q : Procedure) : p.same q = q.same p := by
  cases p <;> cases q
  case builtin.builtin a b => exact Bool.beq_comm
  case closure.closure => exact Bool.beq_comm
  all_goals rfl

end Procedure

theorem Number.same_self {n : Number} (h : n.isNaN = false) : n.same n = true := by
  rw [Number.same_iff h h]
  refine ⟨rfl, ?_⟩
  cases n with
  | integer i => exact compare_eq_iff_eq.2 rfl
  | real x => rfl

namespace Value

/-- Equality that compares all parts: numbers by value, procedures by identity. -/
def structural : Value → Value → Bool
  | .number a, .number b => a.same b
  | .boolean a, .boolean b => a == b
  | .nil, .nil => true
  | .pair _ a as, .pair _ b bs => a.structural b && as.structural bs
  | .procedure p, .procedure q => p.same q
  | _, _ => false

/-- Whether the number that is no number occurs. -/
def hasNaN : Value → Bool
  | .number n => n.isNaN
  | .pair _ car cdr => car.hasNaN || cdr.hasNaN
  | _ => false

/-- The value with the identities of its pairs forgotten. -/
def unshared : Value → Value
  | .pair _ car cdr => .pair 0 car.unshared cdr.unshared
  | v => v

theorem hasNaN_pair {id : Nat} {car cdr : Value} :
    (Value.pair id car cdr).hasNaN = false ↔ car.hasNaN = false ∧ cdr.hasNaN = false :=
  Bool.or_eq_false_iff

theorem structural_pair {id id' : Nat} {a as b bs : Value} :
    (Value.pair id a as).structural (.pair id' b bs) = true ↔
      a.structural b = true ∧ as.structural bs = true := by
  rw [structural, Bool.and_eq_true]

theorem same_pair {id id' : Nat} {a as b bs : Value} :
    (Value.pair id a as).same (.pair id' b bs) = true ↔
      a.same b = true ∧ (as.samePair bs = true ∨ as.same bs = true) := by
  rw [same, Bool.and_eq_true, Bool.or_eq_true]

theorem structural_self {v : Value} (h : v.hasNaN = false) : v.structural v = true := by
  induction v with
  | number n => exact Number.same_self h
  | boolean b => exact beq_self_eq_true b
  | nil => rfl
  | pair id car cdr ihCar ihCdr =>
      obtain ⟨hCar, hCdr⟩ := hasNaN_pair.1 h
      exact structural_pair.2 ⟨ihCar hCar, ihCdr hCdr⟩
  | procedure p => exact p.same_self

theorem structural_comm {v : Value} (hv : v.hasNaN = false) :
    ∀ {w : Value}, w.hasNaN = false → v.structural w = w.structural v := by
  induction v with
  | number n =>
      intro w hw
      cases w with
      | number m => exact Number.same_comm hv hw
      | _ => rfl
  | boolean b =>
      intro w _
      cases w with
      | boolean c => exact Bool.beq_comm
      | _ => rfl
  | nil =>
      intro w _
      cases w <;> rfl
  | pair id car cdr ihCar ihCdr =>
      intro w hw
      obtain ⟨hCar, hCdr⟩ := hasNaN_pair.1 hv
      cases w with
      | pair id' car' cdr' =>
          obtain ⟨hCar', hCdr'⟩ := hasNaN_pair.1 hw
          rw [structural, structural, ihCar hCar hCar', ihCdr hCdr hCdr']
      | _ => rfl
  | procedure p =>
      intro w _
      cases w with
      | procedure q => exact p.same_comm q
      | _ => rfl

theorem structural_unshared (v : Value) :
    ∀ w : Value, v.unshared.structural w.unshared = v.structural w := by
  induction v with
  | pair id car cdr ihCar ihCdr =>
      intro w
      cases w with
      | pair id' car' cdr' =>
          show (car.unshared.structural car'.unshared && cdr.unshared.structural cdr'.unshared) = _
          rw [ihCar, ihCdr, structural]
      | _ => rfl
  | _ =>
      intro w
      cases w <;> rfl

theorem hasNaN_unshared (v : Value) : v.unshared.hasNaN = v.hasNaN := by
  induction v with
  | pair id car cdr ihCar ihCdr =>
      show (car.unshared.hasNaN || cdr.unshared.hasNaN) = _
      rw [ihCar, ihCdr, hasNaN]
  | _ => rfl

/-! ## The two equalities -/

/-- Taking shared tails for granted never separates values with equal parts. -/
theorem same_of_structural {v : Value} :
    ∀ {w : Value}, v.structural w = true → v.same w = true := by
  induction v with
  | pair id car cdr ihCar ihCdr =>
      intro w h
      cases w with
      | pair id' car' cdr' =>
          obtain ⟨hCar, hCdr⟩ := structural_pair.1 h
          exact same_pair.2 ⟨ihCar hCar, .inr (ihCdr hCdr)⟩
      | _ => cases h
  | _ =>
      intro w h
      cases w <;> exact h

/-- One and the same pair has one content. -/
theorem eq_of_samePair {σ : Ledger} {v w : Value} (hv : v.Entered σ) (hw : w.Entered σ)
    (h : v.samePair w = true) : v = w := by
  cases v with
  | pair id car cdr =>
      cases w with
      | pair id' car' cdr' =>
          obtain rfl : id = id' := beq_iff_eq.1 h
          have hEntry := hv _ id .whole rfl
          rw [hw _ id .whole rfl] at hEntry
          exact (Option.some_inj.1 hEntry).symm
      | _ => cases h
  | _ => cases w <;> cases h

/-- Among values that are entered, taking shared tails for granted identifies only values with
equal parts. The induction is on the chain: a tail that is shared is compared with itself. -/
theorem structural_of_same {σ : Ledger} {v : Value} (hv : v.Entered σ)
    (hNumbers : v.hasNaN = false) :
    ∀ {w : Value}, w.Entered σ → v.same w = true → v.structural w = true := by
  induction v with
  | pair id car cdr ihCar ihCdr =>
      intro w hw h
      obtain ⟨hCarNumbers, hCdrNumbers⟩ := hasNaN_pair.1 hNumbers
      have hCar : car.Entered σ := hv.part (.car .whole)
      have hCdr : cdr.Entered σ := hv.part (.cdr .whole)
      cases w with
      | pair id' car' cdr' =>
          have hCar' : car'.Entered σ := hw.part (.car .whole)
          have hCdr' : cdr'.Entered σ := hw.part (.cdr .whole)
          obtain ⟨hFirst, hShared | hRest⟩ := same_pair.1 h
          · refine structural_pair.2 ⟨ihCar hCar hCarNumbers hCar' hFirst, ?_⟩
            rw [← eq_of_samePair hCdr hCdr' hShared]
            exact structural_self hCdrNumbers
          · exact structural_pair.2
              ⟨ihCar hCar hCarNumbers hCar' hFirst, ihCdr hCdr hCdrNumbers hCdr' hRest⟩
      | _ => cases h
  | _ =>
      intro w _ h
      cases w <;> exact h

theorem same_eq_structural {σ : Ledger} {v w : Value} (hv : v.Entered σ) (hw : w.Entered σ)
    (hNumbers : v.hasNaN = false) : v.same w = v.structural w :=
  Bool.eq_iff_iff.2 ⟨structural_of_same hv hNumbers hw, same_of_structural⟩

end Value

/-! ## Everything that is around -/

namespace Eval

/-- The values that are being dealt with. -/
def Focus.values : Focus → List Value
  | .application p args => .procedure p :: args
  | .entry _ _ args => args
  | .value v => [v]
  | _ => []

/-- The procedure that is going to be called. -/
def Purpose.values : Purpose → List Value
  | .call p => [.procedure p]
  | .list => []

/-- The values that wait for others. -/
def Waiting.values : Waiting → List Value
  | .collection _ purpose done _ => purpose.values ++ done
  | .cdr a => [a]
  | _ => []

/-- A value that a frame has, or that is dealt with, or that waits. -/
inductive Moment.Has (s : Moment) (v : Value) : Prop where
  | frame {f : FrameId} {frame : Frame} {name : String}
      (hFrame : s.machine.heap.frames[f]? = some frame) (hv : frame.get? name = some v)
  | focus (hv : v ∈ s.focus.values)
  | waiting {w : Waiting} (hw : w ∈ s.waiting) (hv : v ∈ w.values)

theorem Focus.Entered.of_mem {σ : Ledger} {focus : Focus} (h : focus.Entered σ) {v : Value}
    (hv : v ∈ focus.values) : v.Entered σ := by
  cases focus with
  | application p args => exact List.forall_mem_cons.2 h v hv
  | entry code frame args => exact h v hv
  | value u => exact List.mem_singleton.1 hv ▸ h
  | _ => simp [values] at hv

theorem Waiting.Entered.of_mem {σ : Ledger} {w : Waiting} (h : w.Entered σ) {v : Value}
    (hv : v ∈ w.values) : v.Entered σ := by
  cases w with
  | collection env purpose done rest =>
      rcases List.mem_append.1 hv with hPurpose | hDone
      · cases purpose with
        | call p => exact List.mem_singleton.1 hPurpose ▸ h.1
        | list => simp [Purpose.values] at hPurpose
      · exact h.2 v hDone
  | cdr a => exact List.mem_singleton.1 hv ▸ h
  | _ => simp [values] at hv

theorem Moment.Entered.of_has {σ : Ledger} {s : Moment} (hs : s.Entered σ) {v : Value}
    (h : s.Has v) : v.Entered σ := by
  cases h with
  | frame hFrame hv => exact hs.heap.of_frame hFrame hv
  | focus hv => exact hs.focus.of_mem hv
  | waiting hw hv => exact (hs.waiting _ hw).of_mem hv

end Eval

namespace World

open Eval (Moment)

/-- A moment of an evaluation, or of the application of a procedure, that starts in the world. -/
inductive Shows (w : World) : Moment → Prop where
  | evaluation (env : FrameId) (e : Expr) (limit : Option Nat) (depth k : Nat) :
      Shows w (.after limit k (.start env e (Eval.note e ⟨w.heap, depth⟩)))
  | application {p : Procedure} {args : List Value} (hPermits : w.Permits (.apply p args))
      (limit : Option Nat) (depth k : Nat) :
      Shows w (.after limit k ⟨.application p args, ⟨w.heap, depth⟩, []⟩)

/-- A value that was handed out or that the moment has, or a part of such a value. -/
def Around (w : World) (s : Moment) (v : Value) : Prop :=
  ∃ x, v.Part x ∧ (x ∈ w.given ∨ s.Has x)

/-- Whatever is around at a moment is entered in one ledger, which has no identity that is still to
be given out. -/
theorem Traces.exists_ledger {limit : Nat} {w : World} (hw : (initial limit).Traces w)
    {s : Moment} (hs : w.Shows s) : ∃ σ : Ledger, σ.Before s.machine.heap.nextId ∧
      ∀ v, w.Around s v → v.Entered σ := by
  obtain ⟨_, σ, _, hScene⟩ := hw.standing (sound_initial limit) (standing_initial limit)
  have hMoment : s.Extends σ := by
    cases hs with
    | evaluation env e limit depth k =>
        have hStart : (Moment.start env e (Eval.note e ⟨w.heap, depth⟩)).Entered σ :=
          ⟨⟨hScene.heap.before, hScene.heap.frame⟩, trivial,
            List.forall_mem_cons.2 ⟨trivial, by simp⟩⟩
        exact hStart.after limit k
    | @application p args hPermits limit depth k =>
        have hValues : ∀ v ∈ Value.procedure p :: args, v.Entered σ := by
          intro v hv u id hPart hId
          obtain ⟨x, hx, hPart'⟩ := hPermits.values v hv u id hPart hId
          exact hScene.values x hx u id hPart' hId
        have hStart : Moment.Entered σ ⟨.application p args, ⟨w.heap, depth⟩, []⟩ :=
          ⟨hScene.heap, List.forall_mem_cons.1 hValues, by simp⟩
        exact hStart.after limit k
  obtain ⟨σ', hGrows, hEntered⟩ := hMoment
  refine ⟨σ', hEntered.heap.before, ?_⟩
  rintro v ⟨x, hPart, hGiven | hHas⟩
  · exact ((hScene.values x hGiven).grow hGrows).part hPart
  · exact (hEntered.of_has hHas).part hPart

theorem Traces.exists_entered {limit : Nat} {w : World} (hw : (initial limit).Traces w)
    {s : Moment} (hs : w.Shows s) : ∃ σ : Ledger, ∀ v, w.Around s v → v.Entered σ := by
  obtain ⟨σ, _, hEntered⟩ := hw.exists_ledger hs
  exact ⟨σ, hEntered⟩

/-- **Equality is structural.** At every moment of every history, for every two values that are
around: values with equal parts are equal; equal values have equal parts, if the number that is no
number occurs in neither. On such values equality does not depend on which tails are shared: other
values that differ from them in the identities of pairs only, at whatever moment of whatever
history, are equal or not as they are. And it is reflexive and symmetric there. -/
theorem equality_is_structural {limit : Nat} {w : World} (hw : (initial limit).Traces w)
    {s : Moment} (hs : w.Shows s) {v u : Value} (hv : w.Around s v) (hu : w.Around s u) :
    (v.structural u = true → v.same u = true) ∧
    (v.hasNaN = false → u.hasNaN = false →
      (v.same u = true → v.structural u = true) ∧
      (∀ {limit' : Nat} {w' : World} {s' : Moment} {v' u' : Value}, (initial limit').Traces w' →
        w'.Shows s' → w'.Around s' v' → w'.Around s' u' → v'.unshared = v.unshared →
        u'.unshared = u.unshared → v'.same u' = v.same u) ∧
      v.same v = true ∧ v.same u = u.same v) := by
  obtain ⟨σ, hEntered⟩ := hw.exists_entered hs
  refine ⟨Value.same_of_structural, fun hvNumbers huNumbers => ⟨?_, ?_, ?_, ?_⟩⟩
  · exact Value.structural_of_same (hEntered v hv) hvNumbers (hEntered u hu)
  · intro limit' w' s' v' u' hw' hs' hv' hu' hvEq huEq
    obtain ⟨σ', hEntered'⟩ := hw'.exists_entered hs'
    have hvNumbers' : v'.hasNaN = false := by
      rw [← Value.hasNaN_unshared, hvEq, Value.hasNaN_unshared, hvNumbers]
    rw [Value.same_eq_structural (hEntered' v' hv') (hEntered' u' hu') hvNumbers',
      Value.same_eq_structural (hEntered v hv) (hEntered u hu) hvNumbers,
      ← v'.structural_unshared, ← v.structural_unshared, hvEq, huEq]
  · exact Value.same_of_structural (Value.structural_self hvNumbers)
  · rw [Value.same_eq_structural (hEntered v hv) (hEntered u hu) hvNumbers,
      Value.same_eq_structural (hEntered u hu) (hEntered v hv) huNumbers,
      Value.structural_comm hvNumbers huNumbers]

/-- The expression `(cons 0 e)`. -/
def zeroBefore (e : Expr) : Expr :=
  .list none [.symbol none "cons", .number none (.integer 0), e]

/-- The history of `(define ones (cons 1 nil))`, then `(cons 0 ones)` twice, which share their
tail, and then `(cons 0 (cons 1 nil))`, which does not. -/
def withOnes : World :=
  let ones := Expr.list none
    [.symbol none "cons", .number none (.integer 1), .symbol none "nil"]
  ((((initial 5).serve (.evaluate 1 (.list none
    [.symbol none "define", .symbol none "ones", ones]))).serve
      (.evaluate 1 (zeroBefore (.symbol none "ones")))).serve
        (.evaluate 1 (zeroBefore (.symbol none "ones")))).serve (.evaluate 1 (zeroBefore ones))

theorem traces_withOnes : (initial 5).Traces withOnes := by
  have hPermits : ∀ {w : World} {e : Expr}, 1 < w.heap.frames.size → w.Permits (.evaluate 1 e) := by
    intro w e h
    refine ⟨fun f hf => ?_, by simp [Request.values]⟩
    rw [List.mem_singleton.1 hf]
    exact h
  refine .serve (.serve (.serve (.serve .refl (hPermits ?_)) (hPermits ?_)) (hPermits ?_))
    (hPermits ?_) <;> decide +kernel

/-- Lists with a shared tail and lists without one are equal alike. -/
theorem equality_with_and_without_shared_tail :
    let fresh := withOnes.given.getD 0 .nil
    let second := withOnes.given.getD 1 .nil
    let first := withOnes.given.getD 2 .nil
    (first.render = "(0 1)" ∧ second.render = "(0 1)" ∧ fresh.render = "(0 1)") ∧
      first.same second = true ∧ first.same fresh = true ∧ fresh.same first = true := by
  intro fresh second first
  have hLength : withOnes.given.length = 4 := by decide +kernel
  have hMem : ∀ i < 4, withOnes.given.getD i .nil ∈ withOnes.given := by
    intro i hi
    rw [List.getD_eq_getElem?_getD, List.getElem?_eq_getElem (by omega), Option.getD_some]
    exact List.getElem_mem _
  have hShows : withOnes.Shows _ := .evaluation 1 (.list none []) none 0 0
  have hAround : ∀ i < 4, withOnes.Around (.start 1 (.list none [])
      (Eval.note (.list none []) ⟨withOnes.heap, 0⟩)) (withOnes.given.getD i .nil) :=
    fun i hi => ⟨_, .whole, .inl (hMem i hi)⟩
  have hShared := equality_is_structural traces_withOnes hShows (hAround 2 (by omega))
    (hAround 1 (by omega))
  have hFresh := equality_is_structural traces_withOnes hShows (hAround 2 (by omega))
    (hAround 0 (by omega))
  have hEqual : first.same fresh = true := hFresh.1 (by decide +kernel)
  obtain ⟨_, _, _, hComm⟩ := hFresh.2 (by decide +kernel) (by decide +kernel)
  exact ⟨by decide +kernel, hShared.1 (by decide +kernel), hEqual, hComm ▸ hEqual⟩

end World

end MiniScheme
