import Mathlib.Algebra.Ring.Int.Defs
import Mathlib.Data.List.Infix
import MiniScheme.Builtin.Apply

/-!
# Sums, products and differences are exact or refused

The arguments of `+`, `*` and `-` are taken in from left to right. As long as all of them were
integers there is an exact total so far, and it has to fit into 64 bits after every argument: what
comes later cannot make up for an overflow. The first real turns the rest of the computation into
one with reals, which never overflows. The first argument that is no number ends the computation,
unless an overflow has ended it before.

So there are four ways for a computation to end, and which of them it is can be told from the
arguments alone (`Builtin.Verdict`). It does not matter for this which operation is computed. An
operation is described by the total that it has reached after some integers; the fold over the
arguments is gone through once (`Builtin.verdict_fold`).

## Main results

* `Builtin.verdict_fold`: how a fold over the arguments ends.
* `Builtin.Verdict.overflow_iff`, `Builtin.Verdict.mismatch_iff`: when it ends with an error.
* `Builtin.arithmetic_is_exact_or_refused`: what follows for `+`, `*` and `-`.
-/

namespace MiniScheme

/-! ## Numbers -/

namespace Number

/-- The integer can be represented in 64 bits. -/
def Fits (n : Int) : Prop := Int64.minValue.toInt ≤ n ∧ n ≤ Int64.maxValue.toInt

instance (n : Int) : Decidable (Fits n) := inferInstanceAs (Decidable (_ ∧ _))

theorem fits_toInt (n : Int64) : Fits n.toInt := ⟨n.minValue_le_toInt, n.toInt_le⟩

theorem exists_checked {n : Int} (h : Fits n) :
    ∃ k : Int64, k.toInt = n ∧ checked n = .ok (.integer k) := by
  have hLow : -2 ^ 63 ≤ n := h.1
  have hHigh : n < 2 ^ 63 := Int.lt_of_le_of_lt h.2 (by decide)
  exact ⟨Int64.ofInt n, Int64.toInt_ofInt_of_le hLow hHigh, if_pos h⟩

theorem checked_of_not_fits {n : Int} (h : ¬Fits n) : checked n = .error .integerOverflow :=
  if_neg h

/-- The operation computes `f` for two integers, and a real as soon as one operand is real. -/
structure Computes (op : Number → Number → Except Cause Number) (f : Int → Int → Int) : Prop where
  integers : ∀ a b : Int64, op (.integer a) (.integer b) = checked (f a.toInt b.toInt)
  left : ∀ (x : Float) (b : Number), ∃ y, op (.real x) b = .ok (.real y)
  right : ∀ (a : Number) (y : Float), ∃ z, op a (.real y) = .ok (.real z)

theorem computes_combine (exact : Int → Int → Int) (real : Float → Float → Float) :
    Computes (combine exact real) exact where
  integers _ _ := rfl
  left _ b := by cases b <;> exact ⟨_, rfl⟩
  right a _ := by cases a <;> exact ⟨_, rfl⟩

end Number

namespace Value

/-- The value is a number. -/
def IsNumber (v : Value) : Prop := ∃ n, v = .number n

/-- The value is an integer. -/
def IsInteger (v : Value) : Prop := ∃ n, v = .number (.integer n)

theorem IsInteger.isNumber {v : Value} (h : v.IsInteger) : v.IsNumber := by
  obtain ⟨n, rfl⟩ := h
  exact ⟨.integer n, rfl⟩

theorem not_isInteger_real (x : Float) : ¬(Value.number (.real x)).IsInteger := by
  rintro ⟨n, h⟩
  cases h

theorem asNumber_of_not_isNumber {v : Value} (h : ¬v.IsNumber) :
    v.asNumber = .error (.typeMismatch v.render .number) := by
  cases v with
  | number n => exact absurd ⟨n, rfl⟩ h
  | _ => rfl

end Value

namespace Builtin

open Number (Fits Computes)

/-! ## Arguments -/

/-- Integers as arguments. -/
def integers (ns : List Int64) : List Value := ns.map fun n => .number (.integer n)

theorem isInteger_of_mem_integers {ns : List Int64} {v : Value} (h : v ∈ integers ns) :
    v.IsInteger := by
  obtain ⟨n, _, rfl⟩ := List.mem_map.1 h
  exact ⟨n, rfl⟩

theorem integers_injective : Function.Injective integers := by
  refine List.map_injective_iff.2 fun a b h => ?_
  cases h
  rfl

theorem integers_prefix_iff {ns ms : List Int64} : integers ns <+: integers ms ↔ ns <+: ms := by
  constructor
  · intro h
    obtain ⟨ks, hks, hEq⟩ := List.prefix_map_iff.1 h
    rw [integers_injective hEq]
    exact hks
  · exact fun h => h.map _

/-- Arguments that start with integers whose total does not fit. -/
def Overflows (total : List Int → Int) (args : List Value) : Prop :=
  ∃ ns : List Int64, integers ns <+: args ∧ ¬Fits (total (ns.map Int64.toInt))

section Overflows

variable {total : List Int → Int} {args : List Value} {v : Value}

theorem overflows_integers_iff {ns : List Int64} :
    Overflows total (integers ns) ↔ ∃ p, p <+: ns ∧ ¬Fits (total (p.map Int64.toInt)) := by
  simp only [Overflows, integers_prefix_iff]

theorem not_overflows_nil (hStart : Fits (total [])) : ¬Overflows total [] := by
  rintro ⟨ns, hns, hFits⟩
  obtain rfl : ns = [] := List.map_eq_nil_iff.1 (List.prefix_nil.1 hns)
  exact hFits hStart

/-- An argument that is no integer ends the integers that the arguments start with. -/
theorem not_overflows_cons (hStart : Fits (total [])) (hv : ¬v.IsInteger) :
    ¬Overflows total (v :: args) := by
  rintro ⟨ns, hns, hFits⟩
  cases ns with
  | nil => exact hFits hStart
  | cons n ns => exact hv ⟨n, (List.cons_prefix_cons.1 hns).1.symm⟩

theorem overflows_cons_iff (hStart : Fits (total [])) (n : Int64) :
    Overflows total (.number (.integer n) :: args) ↔
      Overflows (fun ns => total (n.toInt :: ns)) args := by
  constructor
  · rintro ⟨ns, hns, hFits⟩
    cases ns with
    | nil => exact absurd hStart hFits
    | cons m ns =>
        obtain ⟨hEq, hRest⟩ := List.cons_prefix_cons.1 hns
        cases hEq
        exact ⟨ns, hRest, hFits⟩
  · rintro ⟨ns, hns, hFits⟩
    exact ⟨n :: ns, List.cons_prefix_cons.2 ⟨rfl, hns⟩, hFits⟩

/-- What comes behind an argument that is no integer cannot overflow. -/
theorem overflows_append_iff {before after : List Value} (hv : ¬v.IsInteger) :
    Overflows total (before ++ v :: after) ↔ Overflows total before := by
  constructor
  · rintro ⟨ns, hns, hFits⟩
    have hUpTo : before ++ [v] <+: before ++ v :: after := ⟨after, by simp⟩
    rcases List.prefix_or_prefix_of_prefix hns hUpTo with hShort | hLong
    · rcases List.prefix_concat_iff.1 hShort with hEq | hShorter
      · exact absurd (isInteger_of_mem_integers (hEq ▸ List.mem_concat_self)) hv
      · exact ⟨ns, hShorter, hFits⟩
    · exact absurd (isInteger_of_mem_integers (hLong.subset List.mem_concat_self)) hv
  · rintro ⟨ns, hns, hFits⟩
    exact ⟨ns, hns.trans (List.prefix_append _ _), hFits⟩

end Overflows

/-- The arguments are numbers up to `v`, which is none. -/
structure StopsAt (args before : List Value) (v : Value) : Prop where
  split : ∃ after, args = before ++ v :: after
  before : ∀ w ∈ before, w.IsNumber
  stop : ¬v.IsNumber

theorem StopsAt.cons {args before : List Value} {v w : Value} (h : StopsAt args before v)
    (hw : w.IsNumber) : StopsAt (w :: args) (w :: before) v := by
  obtain ⟨after, rfl⟩ := h.split
  exact ⟨⟨after, rfl⟩, List.forall_mem_cons.2 ⟨hw, h.before⟩, h.stop⟩

/-- There is only one argument to stop at. -/
theorem StopsAt.unique {args before before' : List Value} {v v' : Value}
    (h : StopsAt args before v) (h' : StopsAt args before' v') : v = v' := by
  induction args generalizing before before' with
  | nil =>
      obtain ⟨after, hEq⟩ := h.split
      simp at hEq
  | cons w args ih =>
      obtain ⟨after, hEq⟩ := h.split
      obtain ⟨after', hEq'⟩ := h'.split
      cases before with
      | nil =>
          cases before' with
          | nil =>
              rw [List.nil_append] at hEq hEq'
              exact (List.cons.inj (hEq.symm.trans hEq')).1
          | cons u us =>
              obtain ⟨rfl, _⟩ := List.cons.inj hEq
              obtain ⟨rfl, _⟩ := List.cons.inj hEq'
              exact absurd (h'.before w List.mem_cons_self) h.stop
      | cons u us =>
          obtain ⟨rfl, hRest⟩ := List.cons.inj hEq
          cases before' with
          | nil =>
              obtain ⟨rfl, _⟩ := List.cons.inj hEq'
              exact absurd (h.before w List.mem_cons_self) h'.stop
          | cons u' us' =>
              obtain ⟨rfl, hRest'⟩ := List.cons.inj hEq'
              exact ih ⟨⟨after, hRest⟩, (List.forall_mem_cons.1 h.before).2, h.stop⟩
                ⟨⟨after', hRest'⟩, (List.forall_mem_cons.1 h'.before).2, h'.stop⟩

/-! ## The four ends of a computation -/

/-- How a computation with a running total ends. -/
inductive Verdict (total : List Int → Int) (args : List Value) : Except Cause Number → Prop where
  | overflow (h : Overflows total args) : Verdict total args (.error .integerOverflow)
  | mismatch {before : List Value} {v : Value} (hStop : StopsAt args before v)
      (hFits : ¬Overflows total before) :
      Verdict total args (.error (.typeMismatch v.render .number))
  | integer (ns : List Int64) {n : Int64} (hArgs : args = integers ns)
      (hFits : ¬Overflows total args) (hn : n.toInt = total (ns.map Int64.toInt)) :
      Verdict total args (.ok (.integer n))
  | real (x : Float) (hArgs : ∀ w ∈ args, w.IsNumber) (hReal : ∃ w ∈ args, ¬w.IsInteger)
      (hFits : ¬Overflows total args) : Verdict total args (.ok (.real x))

namespace Verdict

variable {total : List Int → Int} {args : List Value} {r : Except Cause Number}

/-- One more integer in front, if the total does not overflow before it. -/
theorem cons (hStart : Fits (total [])) (n : Int64)
    (h : Verdict (fun ns => total (n.toInt :: ns)) args r) :
    Verdict total (.number (.integer n) :: args) r := by
  have hNumber : (Value.number (.integer n)).IsNumber := ⟨_, rfl⟩
  cases h with
  | overflow h => exact .overflow ((overflows_cons_iff hStart n).2 h)
  | mismatch hStop hFits =>
      exact .mismatch (hStop.cons hNumber) (mt (overflows_cons_iff hStart n).1 hFits)
  | @integer ns _ hArgs hFits hn =>
      exact .integer (n :: ns) (by rw [hArgs]; rfl)
        (mt (overflows_cons_iff hStart n).1 hFits) hn
  | real x hArgs hReal hFits =>
      obtain ⟨w, hw, hNot⟩ := hReal
      exact .real x (List.forall_mem_cons.2 ⟨hNumber, hArgs⟩) ⟨w, List.mem_cons_of_mem _ hw, hNot⟩
        (mt (overflows_cons_iff hStart n).1 hFits)

/-- A computation ends with an overflow exactly if the arguments begin with integers whose total
does not fit. -/
theorem overflow_iff (h : Verdict total args r) :
    r = .error .integerOverflow ↔ Overflows total args := by
  cases h with
  | overflow h => exact iff_of_true rfl h
  | @mismatch before v hStop hFits =>
      obtain ⟨after, rfl⟩ := hStop.split
      rw [overflows_append_iff (mt Value.IsInteger.isNumber hStop.stop)]
      exact iff_of_false (by simp) hFits
  | integer ns hArgs hFits hn => exact iff_of_false (by simp) hFits
  | real x hArgs hReal hFits => exact iff_of_false (by simp) hFits

/-- A computation complains of a value exactly if that is the first argument that is no number, and
no overflow comes before it. -/
theorem mismatch_iff (h : Verdict total args r) {text : String} {kind : Kind} :
    r = .error (.typeMismatch text kind) ↔ kind = .number ∧ ∃ before v, StopsAt args before v ∧
      text = v.render ∧ ¬Overflows total before := by
  constructor
  · rintro rfl
    cases h with
    | mismatch hStop hFits => exact ⟨rfl, _, _, hStop, rfl, hFits⟩
  · rintro ⟨rfl, before, v, hStop, rfl, hFits⟩
    obtain ⟨after, hArgs⟩ := hStop.split
    have hMem : v ∈ args := by simp [hArgs]
    have hFitsAll : ¬Overflows total args := by
      rw [hArgs, overflows_append_iff (mt Value.IsInteger.isNumber hStop.stop)]
      exact hFits
    cases h with
    | overflow h => exact absurd h hFitsAll
    | mismatch hStop' _ => rw [hStop.unique hStop']
    | integer _ hEq _ _ =>
        exact absurd (isInteger_of_mem_integers (hEq ▸ hMem)).isNumber hStop.stop
    | real x hNumbers _ _ => exact absurd (hNumbers v hMem) hStop.stop

/-- A result is an integer if and only if all arguments are. -/
theorem isInteger_iff {n : Number} (h : Verdict total args (.ok n)) :
    (Value.number n).IsInteger ↔ ∀ w ∈ args, w.IsInteger := by
  cases h with
  | @integer ns k hArgs hFits hn =>
      refine iff_of_true ⟨k, rfl⟩ fun w hw => ?_
      exact isInteger_of_mem_integers (hArgs ▸ hw)
  | real x hArgs hReal hFits =>
      obtain ⟨w, hw, hNot⟩ := hReal
      exact iff_of_false (Value.not_isInteger_real x) fun hAll => hNot (hAll w hw)

/-- Integers that fit all the way have an exact result. -/
theorem exists_of_integers {ns : List Int64} (h : Verdict total (integers ns) r)
    (hFits : ∀ p, p <+: ns → Fits (total (p.map Int64.toInt))) :
    ∃ n : Int64, n.toInt = total (ns.map Int64.toInt) ∧ r = .ok (.integer n) := by
  cases h with
  | overflow h =>
      obtain ⟨p, hp, hNot⟩ := overflows_integers_iff.1 h
      exact absurd (hFits p hp) hNot
  | @mismatch before v hStop hFits =>
      obtain ⟨after, hArgs⟩ := hStop.split
      have hv : v.IsInteger := @isInteger_of_mem_integers ns v (by simp [hArgs])
      exact absurd hv.isNumber hStop.stop
  | @integer ms n hArgs hFits hn =>
      obtain rfl := integers_injective hArgs
      exact ⟨n, hn, rfl⟩
  | real x hArgs hReal hFits =>
      obtain ⟨w, hw, hNot⟩ := hReal
      exact absurd (isInteger_of_mem_integers hw) hNot

end Verdict

/-! ## Folds -/

variable {op : Number → Number → Except Cause Number} {f : Int → Int → Int}

/-- Behind a real there is no overflow: the fold ends with a real, or at what is no number. -/
theorem fold_real (hOp : Computes op f) (args : List Value) :
    ∀ x : Float, (∀ w ∈ args, w.IsNumber) ∧ (∃ y, fold op (.real x) args = .ok (.real y)) ∨
      ∃ before v, StopsAt args before v ∧
        fold op (.real x) args = .error (.typeMismatch v.render .number) := by
  induction args with
  | nil => exact fun x => .inl ⟨by simp, x, rfl⟩
  | cons v args ih =>
      intro x
      by_cases hv : v.IsNumber
      · obtain ⟨n, rfl⟩ := hv
        obtain ⟨y, hy⟩ := hOp.left x n
        have hStep : fold op (.real x) (.number n :: args) = fold op (.real y) args := by
          show (op (.real x) n >>= fun next => fold op next args) = _
          rw [hy]
          rfl
        rw [hStep]
        rcases ih y with ⟨hNumbers, hReal⟩ | ⟨before, w, hStop, hFold⟩
        · exact .inl ⟨List.forall_mem_cons.2 ⟨⟨n, rfl⟩, hNumbers⟩, hReal⟩
        · exact .inr ⟨_, w, hStop.cons ⟨n, rfl⟩, hFold⟩
      · refine .inr ⟨[], v, ⟨⟨args, rfl⟩, by simp, hv⟩, ?_⟩
        rw [fold, Value.asNumber_of_not_isNumber hv]
        rfl

/-- A real among the arguments, behind integers that have all been taken in. -/
theorem verdict_real {total : List Int → Int} (hOp : Computes op f) (hStart : Fits (total []))
    (x y : Float) (args : List Value) :
    Verdict total (.number (.real x) :: args) (fold op (.real y) args) := by
  have hFits : ∀ rest, ¬Overflows total (.number (.real x) :: rest) := fun rest =>
    not_overflows_cons hStart (Value.not_isInteger_real x)
  have hNumber : (Value.number (.real x)).IsNumber := ⟨_, rfl⟩
  rcases fold_real hOp args y with ⟨hNumbers, z, hFold⟩ | ⟨before, v, hStop, hFold⟩
  · rw [hFold]
    exact .real z (List.forall_mem_cons.2 ⟨hNumber, hNumbers⟩)
      ⟨_, List.mem_cons_self, Value.not_isInteger_real x⟩ (hFits args)
  · rw [hFold]
    exact .mismatch (hStop.cons hNumber) (hFits before)

/-- An argument that is no number ends the computation. -/
theorem verdict_stop {total : List Int → Int} (hStart : Fits (total [])) {v : Value}
    (hv : ¬v.IsNumber) (args : List Value) :
    Verdict total (v :: args) (.error (.typeMismatch v.render .number)) :=
  .mismatch ⟨⟨args, rfl⟩, by simp, hv⟩ (not_overflows_nil hStart)

/-- How a fold over the arguments ends. The total that is reached is carried along as the start of
the fold over the arguments that are left. -/
theorem verdict_fold (hOp : Computes op f) (args : List Value) :
    ∀ s : Int64, Verdict (fun ns => ns.foldl f s.toInt) args (fold op (.integer s) args) := by
  induction args with
  | nil =>
      intro s
      exact .integer [] rfl (not_overflows_nil (Number.fits_toInt s)) rfl
  | cons v args ih =>
      intro s
      have hStart : Fits (([] : List Int).foldl f s.toInt) := Number.fits_toInt s
      by_cases hv : v.IsNumber
      · obtain ⟨n, rfl⟩ := hv
        have hFold : fold op (.integer s) (.number n :: args) =
            op (.integer s) n >>= fun next => fold op next args := rfl
        rw [hFold]
        cases n with
        | integer n =>
            rw [hOp.integers]
            by_cases hFits : Fits (f s.toInt n.toInt)
            · obtain ⟨k, hk, hChecked⟩ := Number.exists_checked hFits
              rw [hChecked]
              have hRest := ih k
              rw [hk] at hRest
              exact .cons hStart n hRest
            · rw [Number.checked_of_not_fits hFits]
              exact .overflow ⟨[n], ⟨args, rfl⟩, hFits⟩
        | real x =>
            obtain ⟨y, hy⟩ := hOp.right (.integer s) x
            rw [hy]
            exact verdict_real hOp hStart x y args
      · rw [fold, Value.asNumber_of_not_isNumber hv]
        exact verdict_stop hStart hv args

/-! ## The three operations -/

/-- The total that an operation has reached after some integers. The first integer of a difference
is what the others are taken from. -/
def runningTotal : Builtin → List Int → Int
  | .sub, [] => 0
  | .sub, n :: ns => n - ns.sum
  | .mul, ns => ns.prod
  | _, ns => ns.sum

theorem foldl_sub (ns : List Int) : ∀ a : Int, ns.foldl (· - ·) a = a - ns.sum := by
  induction ns with
  | nil => simp
  | cons n ns ih =>
      intro a
      rw [List.foldl_cons, ih, List.sum_cons]
      omega

theorem verdict_add (args : List Value) :
    Verdict (runningTotal .add) args (fold Number.add (.integer 0) args) := by
  have hTotal : runningTotal .add = fun ns => ns.foldl (· + ·) (0 : Int64).toInt :=
    funext fun ns => List.sum_eq_foldl
  rw [hTotal]
  exact verdict_fold (Number.computes_combine _ _) args 0

theorem verdict_mul (args : List Value) :
    Verdict (runningTotal .mul) args (fold Number.mul (.integer 1) args) := by
  have hTotal : runningTotal .mul = fun ns => ns.foldl (· * ·) (1 : Int64).toInt :=
    funext fun ns => List.prod_eq_foldl
  rw [hTotal]
  exact verdict_fold (Number.computes_combine _ _) args 1

/-- A difference of two arguments or more. -/
theorem verdict_sub (v w : Value) (args : List Value) :
    Verdict (runningTotal .sub) (v :: w :: args)
      (foldFrom Number.sub (.integer 0) (v :: w :: args)) := by
  have hStart : Fits (runningTotal .sub []) := Number.fits_toInt 0
  by_cases hv : v.IsNumber
  · obtain ⟨n, rfl⟩ := hv
    show Verdict _ _ (fold Number.sub n (w :: args))
    cases n with
    | integer n =>
        refine .cons hStart n ?_
        have hTotal : (fun ns => runningTotal .sub (n.toInt :: ns)) =
            fun ns => ns.foldl (· - ·) n.toInt := funext fun ns => (foldl_sub ns n.toInt).symm
        rw [hTotal]
        exact verdict_fold (Number.computes_combine _ _) (w :: args) n
    | real x => exact verdict_real (Number.computes_combine _ _) hStart x x (w :: args)
  · rw [foldFrom, Value.asNumber_of_not_isNumber hv]
    · exact verdict_stop hStart hv (w :: args)
    · simp

/-- A lone argument is taken from zero. -/
theorem verdict_negate (v : Value) :
    Verdict (fun ns => ns.foldl (· - ·) (0 : Int64).toInt) [v]
      (foldFrom Number.sub (.integer 0) [v]) := by
  have hFold : foldFrom Number.sub (.integer 0) [v] = fold Number.sub (.integer 0) [v] := by
    show (v.asNumber >>= fun n => Number.sub (.integer 0) n) =
      (v.asNumber >>= fun n => Number.sub (.integer 0) n >>= fun next => .ok next)
    cases v.asNumber with
    | error cause => rfl
    | ok n => cases hSub : Number.sub (.integer 0) n <;> simp [bind, Except.bind, hSub]
  rw [hFold]
  exact verdict_fold (Number.computes_combine _ _) [v] 0

/-! ## Results of the procedures -/

/-- The outcome of a computation with integers is the exact result, if the condition holds, and a
refusal if it does not. -/
def Settles (outcome : Except Cause (Value × Nat)) (id : Nat) (fits : Prop) (result : Int) : Prop :=
  (fits → ∃ n : Int64, n.toInt = result ∧ outcome = .ok (.number (.integer n), id)) ∧
    (¬fits → outcome = .error .integerOverflow)

section Results

variable {total : List Int → Int} {args : List Value} {r : Except Cause Number} {id : Nat}

theorem withoutPairs_eq_error_iff {cause : Cause} :
    withoutPairs id (r.map .number) = .error cause ↔ r = .error cause := by
  cases r <;> simp [withoutPairs, Except.map]

theorem withoutPairs_eq_ok_iff {v : Value} {id' : Nat} :
    withoutPairs id (r.map .number) = .ok (v, id') ↔ ∃ n, r = .ok n ∧ v = .number n ∧ id' = id := by
  cases r <;> simp [withoutPairs, Except.map, eq_comm]

theorem Verdict.settles (ns : List Int64) (h : Verdict total (integers ns) r) (id : Nat) :
    Settles (withoutPairs id (r.map .number)) id
      (∀ p, p <+: ns → Fits (total (p.map Int64.toInt))) (total (ns.map Int64.toInt)) := by
  constructor
  · intro hFits
    obtain ⟨n, hn, rfl⟩ := h.exists_of_integers hFits
    exact ⟨n, hn, rfl⟩
  · intro hNot
    refine withoutPairs_eq_error_iff.2 (h.overflow_iff.2 (overflows_integers_iff.2 ?_))
    by_contra hNone
    exact hNot fun p hp => by_contra fun hFits => hNone ⟨p, hp, hFits⟩

/-- What can be told of an outcome from the arguments, whatever they are. -/
structure Accounts (b : Builtin) (args : List Value) (outcome : Except Cause (Value × Nat)) :
    Prop where
  ok : ∀ v id, outcome = .ok (v, id) → v.IsNumber ∧ (v.IsInteger ↔ ∀ w ∈ args, w.IsInteger)
  mismatch : ∀ text kind, outcome = .error (.typeMismatch text kind) ↔ kind = .number ∧
    ∃ before v, StopsAt args before v ∧ text = v.render ∧ ¬Overflows b.runningTotal before
  overflow : outcome = .error .integerOverflow ↔
    Overflows b.runningTotal args ∨ b = .sub ∧ args = integers [Int64.minValue]

theorem Verdict.isNumber_of_ok (h : Verdict total args r) {v : Value} {id' : Nat}
    (hOk : withoutPairs id (r.map .number) = .ok (v, id')) :
    v.IsNumber ∧ (v.IsInteger ↔ ∀ w ∈ args, w.IsInteger) := by
  obtain ⟨n, rfl, rfl, _⟩ := withoutPairs_eq_ok_iff.1 hOk
  exact ⟨⟨n, rfl⟩, h.isInteger_iff⟩

theorem Verdict.accounts {b : Builtin} (h : Verdict b.runningTotal args r)
    (hLone : b = .sub → args ≠ integers [Int64.minValue]) :
    b.Accounts args (withoutPairs id (r.map .number)) where
  ok v id' hOk := h.isNumber_of_ok hOk
  mismatch text kind := withoutPairs_eq_error_iff.trans h.mismatch_iff
  overflow := by
    rw [withoutPairs_eq_error_iff, h.overflow_iff]
    exact ⟨.inl, fun hEither => hEither.resolve_right fun hSub => hLone hSub.1 hSub.2⟩

end Results

/-- Only the least integer has no negative that fits. -/
theorem fits_neg_iff (a : Int64) : Fits (-a.toInt) ↔ a ≠ Int64.minValue := by
  have hLow : -9223372036854775808 ≤ a.toInt := a.minValue_le_toInt
  have hHigh : a.toInt ≤ 9223372036854775807 := a.toInt_le
  have hMin : a = Int64.minValue ↔ a.toInt = -9223372036854775808 := Int64.toInt_inj.symm
  rw [Ne, hMin]
  show -9223372036854775808 ≤ -a.toInt ∧ -a.toInt ≤ 9223372036854775807 ↔ _
  omega

/-- Integers of which there is only one: it is negated, and nothing happens before. -/
theorem settles_negate (a : Int64) (id : Nat) :
    Settles (sub.apply (integers [a]) id) id (a ≠ Int64.minValue) (-a.toInt) := by
  have hSettles := (verdict_negate (.number (.integer a))).settles [a] id
  have hTotal : [a.toInt].foldl (· - ·) (0 : Int64).toInt = -a.toInt := Int.zero_sub _
  have hFits : (∀ p, p <+: [a] → Fits ((p.map Int64.toInt).foldl (· - ·) (0 : Int64).toInt)) ↔
      a ≠ Int64.minValue := by
    rw [← fits_neg_iff, ← hTotal]
    constructor
    · exact fun h => h [a] List.prefix_rfl
    · intro h p hp
      cases p with
      | nil => exact Number.fits_toInt 0
      | cons b p =>
          obtain ⟨rfl, hNil⟩ := List.cons_prefix_cons.1 hp
          rw [List.prefix_nil.1 hNil]
          exact h
  rw [hFits] at hSettles
  rw [← hTotal]
  exact hSettles

/-- The totals of a difference on the way are what is left of the first integer. -/
theorem settles_sub (a : Int64) {ns : List Int64} (hns : ns ≠ []) (id : Nat) :
    Settles (sub.apply (integers (a :: ns)) id) id
      (∀ p, p <+: ns → Fits (a.toInt - (p.map Int64.toInt).sum))
      (a.toInt - (ns.map Int64.toInt).sum) := by
  obtain ⟨b, ms, rfl⟩ := List.exists_cons_of_ne_nil hns
  have hSettles := (verdict_sub (.number (.integer a)) (.number (.integer b)) (integers ms)).settles
    (a :: b :: ms) id
  have hFits : (∀ p, p <+: a :: b :: ms → Fits (runningTotal .sub (p.map Int64.toInt))) ↔
      ∀ p, p <+: b :: ms → Fits (a.toInt - (p.map Int64.toInt).sum) := by
    constructor
    · exact fun h p hp => h (a :: p) (List.cons_prefix_cons.2 ⟨rfl, hp⟩)
    · intro h p hp
      cases p with
      | nil => exact Number.fits_toInt 0
      | cons c p =>
          obtain ⟨rfl, hRest⟩ := List.cons_prefix_cons.1 hp
          exact h p hRest
  rw [hFits] at hSettles
  exact hSettles

/-- Without arguments there is nothing to tell: their number is at fault. -/
theorem accounts_sub_nil (id : Nat) : Builtin.sub.Accounts [] (sub.apply [] id) := by
  refine ⟨fun v id' h => (by cases h), fun text kind => iff_of_false (fun h => (by cases h)) ?_,
    iff_of_false (fun h => (by cases h)) ?_⟩
  · rintro ⟨_, before, v, hStop, _⟩
    obtain ⟨after, hArgs⟩ := hStop.split
    simp at hArgs
  · rintro (hOverflows | ⟨_, hArgs⟩)
    · exact not_overflows_nil (Number.fits_toInt 0) hOverflows
    · cases hArgs

/-- A lone argument overflows only if it is the least integer. -/
theorem overflow_negate_iff (v : Value) (id : Nat) :
    sub.apply [v] id = .error .integerOverflow ↔ [v] = integers [Int64.minValue] := by
  by_cases hv : v.IsInteger
  · obtain ⟨a, rfl⟩ := hv
    have hSettles := settles_negate a id
    have hLone : [Value.number (.integer a)] = integers [Int64.minValue] ↔ a = Int64.minValue := by
      simp [integers]
    rw [hLone]
    constructor
    · intro hError
      by_contra hNe
      obtain ⟨n, _, hOk⟩ := hSettles.1 hNe
      cases hOk.symm.trans hError
    · exact fun hMin => hSettles.2 fun hNe => hNe hMin
  · refine (withoutPairs_eq_error_iff.trans (verdict_negate v).overflow_iff).trans ?_
    refine iff_of_false (not_overflows_cons (Number.fits_toInt 0) hv) fun hArgs => ?_
    exact hv ⟨Int64.minValue, List.head_eq_of_cons_eq hArgs⟩

/-- The running total of a lone argument is the argument itself, and fits. -/
theorem not_overflows_lone (v : Value) : ¬Overflows (runningTotal .sub) [v] := by
  have hStart : Fits (runningTotal .sub []) := Number.fits_toInt 0
  by_cases hv : v.IsInteger
  · obtain ⟨a, rfl⟩ := hv
    rw [overflows_cons_iff hStart]
    refine not_overflows_nil ?_
    show Fits (a.toInt - 0)
    rw [Int.sub_zero]
    exact Number.fits_toInt a
  · exact not_overflows_cons hStart hv

theorem accounts_negate (v : Value) (id : Nat) :
    Builtin.sub.Accounts [v] (sub.apply [v] id) := by
  have hVerdict := verdict_negate v
  refine ⟨fun u id' hOk => hVerdict.isNumber_of_ok hOk, fun text kind => ?_, ?_⟩
  · refine (withoutPairs_eq_error_iff.trans hVerdict.mismatch_iff).trans (and_congr_right ?_)
    intro _
    refine exists_congr fun before => exists_congr fun u => and_congr_right fun hStop => ?_
    obtain ⟨after, hArgs⟩ := hStop.split
    obtain rfl : before = [] := by
      cases before with
      | nil => rfl
      | cons x xs => simp at hArgs
    exact and_congr_right fun _ => iff_of_true (not_overflows_nil (Number.fits_toInt 0))
      (not_overflows_nil (Number.fits_toInt 0))
  · refine (overflow_negate_iff v id).trans ⟨fun hArgs => .inr ⟨rfl, hArgs⟩, fun hEither => ?_⟩
    exact (hEither.resolve_left (not_overflows_lone v)).2

theorem accounts_sub (args : List Value) (id : Nat) :
    Builtin.sub.Accounts args (sub.apply args id) := by
  rcases args with _ | ⟨v, _ | ⟨w, args⟩⟩
  · exact accounts_sub_nil id
  · exact accounts_negate v id
  · refine (verdict_sub v w args).accounts fun _ hArgs => ?_
    cases hArgs

/-- Sums, products and differences are exact or refused. Of integers,

* a sum and a product is the exact one if all sums and products of the first of them fit, and an
  overflow otherwise;
* a difference of several is the exact one if all differences on the way fit, and an overflow
  otherwise;
* of one alone the negative is computed, which fails for the least integer only.

Of any arguments,

* a result is an integer if and only if all of them are;
* the first that is no number is named if there is one and no overflow comes before it;
* an overflow comes of first arguments that are all integers and whose total does not fit, or of the
  least integer alone. -/
theorem arithmetic_is_exact_or_refused (id : Nat) :
    (∀ ns : List Int64, Settles (add.apply (integers ns) id) id
      (∀ p, p <+: ns → Fits (p.map Int64.toInt).sum) (ns.map Int64.toInt).sum) ∧
    (∀ ns : List Int64, Settles (mul.apply (integers ns) id) id
      (∀ p, p <+: ns → Fits (p.map Int64.toInt).prod) (ns.map Int64.toInt).prod) ∧
    (∀ (a : Int64) (ns : List Int64), ns ≠ [] → Settles (sub.apply (integers (a :: ns)) id) id
      (∀ p, p <+: ns → Fits (a.toInt - (p.map Int64.toInt).sum))
      (a.toInt - (ns.map Int64.toInt).sum)) ∧
    (∀ a : Int64, Settles (sub.apply (integers [a]) id) id (a ≠ Int64.minValue) (-a.toInt)) ∧
    ∀ b : Builtin, b = .add ∨ b = .mul ∨ b = .sub → ∀ args,
      (∀ v id', b.apply args id = .ok (v, id') →
        v.IsNumber ∧ (v.IsInteger ↔ ∀ w ∈ args, w.IsInteger)) ∧
      (∀ text kind, b.apply args id = .error (.typeMismatch text kind) ↔ kind = .number ∧
        ∃ before v, StopsAt args before v ∧ text = v.render ∧
          ¬Overflows b.runningTotal before) ∧
      (b.apply args id = .error .integerOverflow ↔
        Overflows b.runningTotal args ∨ b = .sub ∧ args = integers [Int64.minValue]) := by
  refine ⟨fun ns => (verdict_add (integers ns)).settles ns id,
    fun ns => (verdict_mul (integers ns)).settles ns id, fun a ns hns => settles_sub a hns id,
    fun a => settles_negate a id, fun b hb args => ?_⟩
  have hAccounts : b.Accounts args (b.apply args id) := by
    rcases hb with rfl | rfl | rfl
    · exact (verdict_add args).accounts fun h => by cases h
    · exact (verdict_mul args).accounts fun h => by cases h
    · exact accounts_sub args id
  exact ⟨hAccounts.ok, hAccounts.mismatch, hAccounts.overflow⟩

/-- The least integer alone cannot be negated, but it can be the first of a difference: one that
overflows at the second argument never sees the third, and one whose second argument is no number
does not overflow. -/
theorem differences_from_least_integer :
    let least : Value := .number (.integer Int64.minValue)
    let one : Value := .number (.integer 1)
    sub.apply [least] 7 = .error .integerOverflow ∧
      sub.apply [least, one, .boolean true] 7 = .error .integerOverflow ∧
      sub.apply [least, .boolean true, one] 7 = .error (.typeMismatch "#t" .number) := by
  intro least one
  obtain ⟨_, _, _, hNegate, hAny⟩ := arithmetic_is_exact_or_refused 7
  obtain ⟨_, _, hOverflow⟩ := hAny .sub (.inr (.inr rfl)) [least, one, .boolean true]
  obtain ⟨_, hMismatch, _⟩ := hAny .sub (.inr (.inr rfl)) [least, .boolean true, one]
  refine ⟨(hNegate Int64.minValue).2 (by decide), hOverflow.2 (.inl ⟨[Int64.minValue, 1], ?_, ?_⟩),
    (hMismatch "#t" .number).2 ⟨rfl, [least], .boolean true, ⟨⟨[one], rfl⟩, ?_, ?_⟩, rfl, ?_⟩⟩
  · exact ⟨[.boolean true], rfl⟩
  · decide
  · exact List.forall_mem_singleton.2 ⟨_, rfl⟩
  · rintro ⟨n, hn⟩
    cases hn
  · rw [overflows_cons_iff (Number.fits_toInt 0)]
    exact not_overflows_nil (Number.fits_toInt Int64.minValue)

end Builtin

end MiniScheme
