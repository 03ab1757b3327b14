import Mathlib.Algebra.BigOperators.Ring.List
import Mathlib.Tactic.Ring
import MiniScheme.Proofs.ExactArithmetic
import MiniScheme.Proofs.IntegerRounding

/-!
# Quotients are exact when they can be

The arguments of `/` are taken in from left to right: the first is divided by the second, the result
by the third, and so on. A quotient that is an integer stays one; the first that is none turns the
rest of the computation into one with reals. Two things can go wrong on the way. A divisor can be
zero, and there is one exact quotient of 64-bit integers that does not fit, `2 ^ 63`.

The result does not depend on the order of the divisors, only on their product: the quotient by the
product is an integer if and only if no division on the way leaves a remainder
(`Builtin.isQuotient_cons_iff`). Which error comes does depend on the order. The first divisors
decide it, those up to a zero and those up to the overflow.

## Main results

* `Builtin.division_fold`: how successive divisions of integers end.
* `Builtin.quotient_is_exact_when_it_can_be`: what follows for `/`.
-/

namespace MiniScheme

/-! ## One division -/

namespace Number

/-- As a real, only the integer zero is zero. -/
theorem realOfInteger_beq_zero_iff (n : Int64) :
    (realOfInteger n == 0.0) = true ↔ n = 0 := by
  have hZero : (0.0 : Float) = realOfInteger 0 := by decide +kernel
  have hReals := Binary64.beq_iff_rank (Binary64.isNaN_realOfInteger n)
    (Binary64.isNaN_realOfInteger 0)
  rw [hZero, hReals, Binary64.rank_realOfInteger, Binary64.rank_realOfInteger]
  constructor
  · intro hRank
    by_contra hNe
    have hInt : n.toInt ≠ 0 := fun h => hNe (Int64.toInt_inj.1 h)
    have hWord := Binary64.natAbs_le_word n
    rcases lt_or_gt_of_ne hInt with hNeg | hPos
    · exact absurd hRank (Binary64.integerRank_lt hNeg hWord (by decide) (.inr (by decide))).ne
    · exact absurd hRank (Binary64.integerRank_lt hPos (by decide) hWord (.inl (by decide))).ne'
  · rintro rfl
    rfl

theorem div_zero (a : Number) : a.div (.integer 0) = .error .divisionByZero := by
  cases a with
  | integer a => rfl
  | real x =>
      show (if realOfInteger 0 == 0.0 then (.error .divisionByZero : Except Cause Number)
        else .ok (.real (x / realOfInteger 0))) = _
      rw [if_pos ((realOfInteger_beq_zero_iff 0).2 rfl)]

theorem div_of_dvd {a b : Int64} (hb : b ≠ 0) (h : b.toInt ∣ a.toInt) :
    div (.integer a) (.integer b) = checked (a.toInt / b.toInt) := by
  have hNonzero : ¬b.toInt = 0 := fun hZero => hb (Int64.toInt_inj.1 hZero)
  rw [div, if_neg hNonzero, if_pos (Int.tmod_eq_zero_of_dvd h), Int.tdiv_eq_ediv_of_dvd h]

theorem div_of_not_dvd {a b : Int64} (hb : b ≠ 0) (h : ¬b.toInt ∣ a.toInt) :
    div (.integer a) (.integer b) = .ok (.real (realOfInteger a / realOfInteger b)) := by
  have hNonzero : ¬b.toInt = 0 := fun hZero => hb (Int64.toInt_inj.1 hZero)
  rw [div, if_neg hNonzero, if_neg (mt Int.dvd_of_tmod_eq_zero h)]

theorem div_real (x : Float) {b : Int64} (hb : b ≠ 0) :
    div (.real x) (.integer b) = .ok (.real (x / realOfInteger b)) :=
  if_neg (mt (realOfInteger_beq_zero_iff b).1 hb)

end Number

namespace Builtin

open Number (Fits realOfInteger)

/-! ## Quotients of unbounded integers -/

/-- The product of integers, however large. -/
def product (ns : List Int64) : Int := (ns.map Int64.toInt).prod

@[simp]
theorem product_nil : product [] = 1 := rfl

@[simp]
theorem product_cons (n : Int64) (ns : List Int64) : product (n :: ns) = n.toInt * product ns := by
  simp [product]

theorem product_ne_zero {ns : List Int64} (h : 0 ∉ ns) : product ns ≠ 0 := by
  intro hZero
  obtain ⟨n, hn, hInt⟩ := List.mem_map.1 (List.prod_eq_zero_iff.1 hZero)
  obtain rfl : n = 0 := Int64.toInt_inj.1 hInt
  exact h hn

/-- None of the divisors is zero, and their product divides `a` with quotient `q`. -/
structure IsQuotient (a : Int) (bs : List Int64) (q : Int) : Prop where
  nonzero : 0 ∉ bs
  mul_eq : q * product bs = a

instance (a : Int) (bs : List Int64) (q : Int) : Decidable (IsQuotient a bs q) :=
  decidable_of_iff (0 ∉ bs ∧ q * product bs = a) ⟨fun h => ⟨h.1, h.2⟩, fun h => ⟨h.1, h.2⟩⟩

theorem isQuotient_nil {a q : Int} : IsQuotient a [] q ↔ q = a :=
  ⟨fun h => by simpa using h.mul_eq, fun h => ⟨by simp, by simpa using h⟩⟩

/-- Dividing by several integers is dividing by the first and then by the others. -/
theorem isQuotient_cons_iff {a q : Int} {b : Int64} {bs : List Int64} :
    IsQuotient a (b :: bs) q ↔ b ≠ 0 ∧ b.toInt ∣ a ∧ IsQuotient (a / b.toInt) bs q := by
  constructor
  · rintro ⟨hNonzero, rfl⟩
    obtain ⟨hb, hbs⟩ := not_or.1 (mt List.mem_cons.2 hNonzero)
    have hInt : b.toInt ≠ 0 := fun h => hb (Int64.toInt_inj.1 h).symm
    have hSwap : q * product (b :: bs) = b.toInt * (q * product bs) := by
      rw [product_cons, mul_left_comm]
    rw [hSwap, Int.mul_ediv_cancel_left _ hInt]
    exact ⟨fun h => hb h.symm, dvd_mul_right _ _, hbs, rfl⟩
  · rintro ⟨hb, ⟨c, rfl⟩, hbs, hq⟩
    have hInt : b.toInt ≠ 0 := fun h => hb (Int64.toInt_inj.1 h)
    rw [Int.mul_ediv_cancel_left _ hInt] at hq
    refine ⟨List.not_mem_cons_of_ne_of_not_mem hb.symm hbs, ?_⟩
    rw [product_cons, mul_left_comm, hq]

/-- Some of the divisors, from the first one on, divide `a` with quotient `2 ^ 63`, the least
integer that is too large. -/
def Overruns (a : Int) (bs : List Int64) : Prop :=
  ∃ p, p <+: bs ∧ IsQuotient a p (2 ^ 63)

instance (a : Int) (bs : List Int64) : Decidable (Overruns a bs) :=
  decidable_of_iff (∃ p ∈ bs.inits, IsQuotient a p (2 ^ 63))
    (exists_congr fun p => and_congr_left' (List.mem_inits p bs))

theorem not_overruns_nil (a : Int64) : ¬Overruns a.toInt [] := by
  rintro ⟨p, hp, hq⟩
  rw [List.prefix_nil.1 hp, isQuotient_nil] at hq
  have hHigh : a.toInt ≤ 9223372036854775807 := a.toInt_le
  omega

theorem overruns_cons_iff (a b : Int64) (bs : List Int64) :
    Overruns a.toInt (b :: bs) ↔
      b ≠ 0 ∧ b.toInt ∣ a.toInt ∧ Overruns (a.toInt / b.toInt) bs := by
  constructor
  · rintro ⟨p, hp, hq⟩
    cases p with
    | nil => exact absurd ⟨[], List.prefix_rfl, hq⟩ (not_overruns_nil a)
    | cons c p =>
        obtain ⟨rfl, hRest⟩ := List.cons_prefix_cons.1 hp
        obtain ⟨hb, hDvd, hq⟩ := isQuotient_cons_iff.1 hq
        exact ⟨hb, hDvd, p, hRest, hq⟩
  · rintro ⟨hb, hDvd, p, hp, hq⟩
    exact ⟨b :: p, List.cons_prefix_cons.2 ⟨rfl, hp⟩, isQuotient_cons_iff.2 ⟨hb, hDvd, hq⟩⟩

/-- An overflow among the first divisors is one among all. -/
theorem Overruns.of_prefix {a : Int} {bs cs : List Int64} (h : Overruns a bs)
    (hPrefix : bs <+: cs) : Overruns a cs := by
  obtain ⟨p, hp, hq⟩ := h
  exact ⟨p, hp.trans hPrefix, hq⟩

/-- An overflow comes before every zero. -/
theorem overruns_append_zero_iff {a : Int} {before after : List Int64} :
    Overruns a (before ++ 0 :: after) ↔ Overruns a before := by
  refine ⟨fun ⟨p, hp, hq⟩ => ?_, fun h => h.of_prefix (List.prefix_append _ _)⟩
  have hUpTo : before ++ [0] <+: before ++ 0 :: after := ⟨after, by simp⟩
  rcases List.prefix_or_prefix_of_prefix hp hUpTo with hShort | hLong
  · rcases List.prefix_concat_iff.1 hShort with rfl | hShorter
    · exact absurd List.mem_concat_self hq.nonzero
    · exact ⟨p, hShorter, hq⟩
  · exact absurd (hLong.subset List.mem_concat_self) hq.nonzero

/-- None of the divisors is zero, their product divides `a`, and no quotient on the way is too
large. -/
def DividesExactly (a : Int) (bs : List Int64) : Prop :=
  0 ∉ bs ∧ product bs ∣ a ∧ ¬Overruns a bs

instance (a : Int) (bs : List Int64) : Decidable (DividesExactly a bs) :=
  inferInstanceAs (Decidable (_ ∧ _ ∧ _))

/-- One of the divisors is zero, and no quotient before it is too large. -/
def MeetsZero (a : Int) (bs : List Int64) : Prop :=
  ∃ before after, bs = before ++ 0 :: after ∧ ¬Overruns a before

/-- The only quotient of integers that does not fit is `2 ^ 63`. -/
theorem fits_ediv (a b : Int64) (hq : a.toInt / b.toInt ≠ 2 ^ 63) :
    Fits (a.toInt / b.toInt) := by
  have hLow : -9223372036854775808 ≤ a.toInt := a.minValue_le_toInt
  have hHigh : a.toInt ≤ 9223372036854775807 := a.toInt_le
  have hAbs : (a.toInt / b.toInt).natAbs ≤ a.toInt.natAbs := Int.natAbs_ediv_le_natAbs _ _
  show -9223372036854775808 ≤ a.toInt / b.toInt ∧ a.toInt / b.toInt ≤ 9223372036854775807
  omega

/-! ## The four ends of successive divisions -/

/-- A real divided by integers, one after the other. -/
def realQuotient (x : Float) (bs : List Int64) : Float :=
  bs.foldl (fun y b => y / realOfInteger b) x

/-- The divisions are exact up to a divisor that leaves a remainder. From there on the quotients are
those of reals. -/
def LeavesIntegers (a : Int) (bs : List Int64) (x : Float) : Prop :=
  ∃ (before after : List Int64) (b q : Int64), bs = before ++ b :: after ∧
    IsQuotient a before q.toInt ∧ ¬b.toInt ∣ q.toInt ∧
    x = realQuotient (realOfInteger q / realOfInteger b) after

theorem LeavesIntegers.cons {a : Int} {b : Int64} {bs : List Int64} {x : Float}
    (h : LeavesIntegers (a / b.toInt) bs x) (hb : b ≠ 0) (hDvd : b.toInt ∣ a) :
    LeavesIntegers a (b :: bs) x := by
  obtain ⟨before, after, c, q, rfl, hq, hNot, hx⟩ := h
  exact ⟨b :: before, after, c, q, rfl, isQuotient_cons_iff.2 ⟨hb, hDvd, hq⟩, hNot, hx⟩

/-- A remainder on the way is one of the whole division. -/
theorem LeavesIntegers.not_dvd {a : Int} {bs : List Int64} {x : Float}
    (h : LeavesIntegers a bs x) : ¬product bs ∣ a := by
  obtain ⟨before, after, b, q, rfl, hq, hNot, _⟩ := h
  rintro ⟨c, hc⟩
  have hProduct : product (before ++ b :: after) =
      product before * (b.toInt * product after) := by
    simp [product]
  have hBoth : product before * q.toInt = product before * (b.toInt * (product after * c)) := by
    rw [mul_comm, hq.mul_eq, hc, hProduct]
    ring
  exact hNot ⟨_, mul_left_cancel₀ (product_ne_zero hq.nonzero) hBoth⟩

/-- How successive divisions of an integer by integers end. -/
inductive Division (a : Int) (bs : List Int64) : Except Cause Number → Prop where
  | exact {q : Int64} (hq : IsQuotient a bs q.toInt) (hFits : ¬Overruns a bs) :
      Division a bs (.ok (.integer q))
  | overflow (h : Overruns a bs) : Division a bs (.error .integerOverflow)
  | zero {before after : List Int64} (hSplit : bs = before ++ 0 :: after)
      (hFits : ¬Overruns a before) : Division a bs (.error .divisionByZero)
  | real {x : Float} (hNonzero : 0 ∉ bs) (hFits : ¬Overruns a bs) (hx : LeavesIntegers a bs x) :
      Division a bs (.ok (.real x))

/-- One more divisor in front, if the division by it is exact. -/
theorem Division.cons {a b : Int64} {bs : List Int64} {r : Except Cause Number} (hb : b ≠ 0)
    (hDvd : b.toInt ∣ a.toInt) (h : Division (a.toInt / b.toInt) bs r) :
    Division a.toInt (b :: bs) r := by
  have hFitsCons : ∀ {cs : List Int64}, ¬Overruns (a.toInt / b.toInt) cs →
      ¬Overruns a.toInt (b :: cs) := fun hFits hOverruns =>
    hFits ((overruns_cons_iff a b _).1 hOverruns).2.2
  cases h with
  | exact hq hFits => exact .exact (isQuotient_cons_iff.2 ⟨hb, hDvd, hq⟩) (hFitsCons hFits)
  | overflow h => exact .overflow ((overruns_cons_iff a b bs).2 ⟨hb, hDvd, h⟩)
  | zero hSplit hFits =>
      subst hSplit
      exact .zero List.cons_append.symm (hFitsCons hFits)
  | real hNonzero hFits hx =>
      exact .real (List.not_mem_cons_of_ne_of_not_mem hb.symm hNonzero) (hFitsCons hFits)
        (hx.cons hb hDvd)

theorem fold_div_real_of_not_mem {bs : List Int64} (h : 0 ∉ bs) (x : Float) :
    fold Number.div (.real x) (integers bs) = .ok (.real (realQuotient x bs)) := by
  induction bs generalizing x with
  | nil => rfl
  | cons b bs ih =>
      obtain ⟨hb, hbs⟩ := not_or.1 (mt List.mem_cons.2 h)
      show (Number.div (.real x) (.integer b) >>= fun next =>
        fold Number.div next (integers bs)) = _
      rw [Number.div_real x (Ne.symm hb)]
      exact ih hbs (x / realOfInteger b)

theorem fold_div_real_of_mem {bs : List Int64} (h : 0 ∈ bs) (x : Float) :
    fold Number.div (.real x) (integers bs) = .error .divisionByZero := by
  induction bs generalizing x with
  | nil => cases h
  | cons b bs ih =>
      show (Number.div (.real x) (.integer b) >>= fun next =>
        fold Number.div next (integers bs)) = _
      by_cases hb : b = 0
      · rw [hb, Number.div_zero]
        rfl
      · rw [Number.div_real x hb]
        exact ih ((List.mem_cons.1 h).resolve_left (Ne.symm hb)) (x / realOfInteger b)

/-- How the fold over the divisors ends. The quotient that is reached is carried along as the
dividend of the divisors that are left. -/
theorem division_fold (bs : List Int64) :
    ∀ a : Int64, Division a.toInt bs (fold Number.div (.integer a) (integers bs)) := by
  induction bs with
  | nil => exact fun a => .exact (isQuotient_nil.2 rfl) (not_overruns_nil a)
  | cons b bs ih =>
      intro a
      have hFold : fold Number.div (.integer a) (integers (b :: bs)) =
          Number.div (.integer a) (.integer b) >>= fun next =>
            fold Number.div next (integers bs) := rfl
      rw [hFold]
      by_cases hb : b = 0
      · rw [hb, Number.div_zero]
        exact .zero (List.nil_append _).symm (not_overruns_nil a)
      by_cases hDvd : b.toInt ∣ a.toInt
      · rw [Number.div_of_dvd hb hDvd]
        by_cases hq : a.toInt / b.toInt = 2 ^ 63
        · rw [Number.checked_of_not_fits (by rw [hq]; decide)]
          refine .overflow ((overruns_cons_iff a b bs).2 ⟨hb, hDvd, [], List.nil_prefix, ?_⟩)
          exact isQuotient_nil.2 hq.symm
        · obtain ⟨k, hk, hChecked⟩ := Number.exists_checked (fits_ediv a b hq)
          rw [hChecked]
          exact .cons hb hDvd (hk ▸ ih k)
      · rw [Number.div_of_not_dvd hb hDvd]
        have hFits : ∀ cs, ¬Overruns a.toInt (b :: cs) := fun cs hOverruns =>
          hDvd ((overruns_cons_iff a b cs).1 hOverruns).2.1
        show Division _ _ (fold Number.div (.real _) (integers bs))
        by_cases hZero : 0 ∈ bs
        · rw [fold_div_real_of_mem hZero]
          obtain ⟨before, after, rfl⟩ := List.append_of_mem hZero
          exact .zero (List.cons_append).symm (hFits before)
        · rw [fold_div_real_of_not_mem hZero]
          exact .real (List.not_mem_cons_of_ne_of_not_mem (Ne.symm hb) hZero) (hFits bs)
            ⟨[], bs, b, a, rfl, isQuotient_nil.2 rfl, hDvd, rfl⟩

/-! ## Which end it is -/

namespace Division

variable {a : Int} {bs : List Int64} {r : Except Cause Number}

theorem integer_iff (h : Division a bs r) :
    (∃ q : Int64, r = .ok (.integer q)) ↔ DividesExactly a bs := by
  cases h with
  | @exact q hq hFits =>
      exact iff_of_true ⟨q, rfl⟩ ⟨hq.nonzero, Dvd.intro_left _ hq.mul_eq, hFits⟩
  | overflow h => exact iff_of_false (by simp) fun hAll => hAll.2.2 h
  | zero hSplit hFits => exact iff_of_false (by simp) fun hAll => hAll.1 (by simp [hSplit])
  | real hNonzero hFits hx => exact iff_of_false (by simp) fun hAll => hx.not_dvd hAll.2.1

theorem overflow_iff (h : Division a bs r) : r = .error .integerOverflow ↔ Overruns a bs := by
  cases h with
  | exact hq hFits => exact iff_of_false (by simp) hFits
  | overflow h => exact iff_of_true rfl h
  | zero hSplit hFits =>
      rw [hSplit, overruns_append_zero_iff]
      exact iff_of_false (by simp) hFits
  | real hNonzero hFits hx => exact iff_of_false (by simp) hFits

theorem zero_iff (h : Division a bs r) : r = .error .divisionByZero ↔ MeetsZero a bs := by
  cases h with
  | exact hq hFits =>
      refine iff_of_false (by simp) ?_
      rintro ⟨before, after, rfl, _⟩
      exact hq.nonzero (by simp)
  | overflow h =>
      refine iff_of_false (by simp) ?_
      rintro ⟨before, after, rfl, hFits⟩
      exact hFits (overruns_append_zero_iff.1 h)
  | zero hSplit hFits => exact iff_of_true rfl ⟨_, _, hSplit, hFits⟩
  | real hNonzero hFits hx =>
      refine iff_of_false (by simp) ?_
      rintro ⟨before, after, rfl, _⟩
      exact hNonzero (by simp)

/-- A real is what remains when it is none of the other ends. -/
theorem real_iff (h : Division a bs r) : (∃ x : Float, r = .ok (.real x)) ↔
    ¬DividesExactly a bs ∧ ¬Overruns a bs ∧ ¬MeetsZero a bs := by
  rw [← h.integer_iff, ← h.overflow_iff, ← h.zero_iff]
  cases h <;> simp

end Division

/-! ## Results of the procedure -/

theorem withoutPairs_eq_number_iff {id : Nat} {r : Except Cause Number} {n : Number} :
    withoutPairs id (r.map .number) = .ok (.number n, id) ↔ r = .ok n := by
  cases r <;> simp [withoutPairs, Except.map]

/-- With two arguments or more, the first is where the fold over the others starts. -/
theorem foldFrom_integers (op : Number → Number → Except Cause Number) (unit : Number)
    (a b : Int64) (bs : List Int64) : foldFrom op unit (integers (a :: b :: bs)) =
      fold op (.integer a) (integers (b :: bs)) := rfl

/-- A lone argument divides one. -/
theorem apply_div_lone (v : Value) (id : Nat) :
    div.apply [v] id = div.apply [.number (.integer 1), v] id := by
  have hFold : foldFrom Number.div (.integer 1) [v] =
      foldFrom Number.div (.integer 1) [.number (.integer 1), v] := by
    show (v.asNumber >>= fun n => Number.div (.integer 1) n) =
      (v.asNumber >>= fun n => Number.div (.integer 1) n >>= fun next => .ok next)
    cases v.asNumber with
    | error cause => rfl
    | ok n => cases hDiv : Number.div (.integer 1) n <;> simp [bind, Except.bind, hDiv]
  rw [apply, apply, hFold]

/-- Quotients of integers are exact when they can be. Dividing an integer by others, one after the
other,

* gives an integer if and only if none of the others is zero, their product divides the first, and
  no quotient on the way is `2 ^ 63`; times the product it is the first integer;
* overflows if and only if some of the others, from the first of them on and without a zero, divide
  the first integer with quotient `2 ^ 63`;
* fails for a zero if and only if there is one and no overflow comes before it;
* gives a real in all other cases, the quotient of reals from the first remainder on.

A lone argument divides one. -/
theorem quotient_is_exact_when_it_can_be (id : Nat) :
    (∀ (a : Int64) (bs : List Int64), bs ≠ [] →
      let outcome := div.apply (integers (a :: bs)) id
      ((∃ q : Int64, outcome = .ok (.number (.integer q), id)) ↔ DividesExactly a.toInt bs) ∧
      (∀ q : Int64, outcome = .ok (.number (.integer q), id) → q.toInt * product bs = a.toInt) ∧
      (outcome = .error .integerOverflow ↔ Overruns a.toInt bs) ∧
      (outcome = .error .divisionByZero ↔ MeetsZero a.toInt bs) ∧
      ((∃ x : Float, outcome = .ok (.number (.real x), id)) ↔
        ¬DividesExactly a.toInt bs ∧ ¬Overruns a.toInt bs ∧ ¬MeetsZero a.toInt bs) ∧
      ∀ x : Float, outcome = .ok (.number (.real x), id) → LeavesIntegers a.toInt bs x) ∧
    ∀ v : Value, div.apply [v] id = div.apply [.number (.integer 1), v] id := by
  refine ⟨fun a bs hbs => ?_, fun v => apply_div_lone v id⟩
  obtain ⟨b, bs, rfl⟩ := List.exists_cons_of_ne_nil hbs
  have h := division_fold (b :: bs) a
  have hApply : div.apply (integers (a :: b :: bs)) id =
      withoutPairs id ((fold Number.div (.integer a) (integers (b :: bs))).map .number) := by
    rw [apply, foldFrom_integers]
  simp only [hApply, withoutPairs_eq_number_iff, withoutPairs_eq_error_iff]
  refine ⟨h.integer_iff, fun q hq => ?_, h.overflow_iff, h.zero_iff, h.real_iff, fun x hx => ?_⟩
  · rw [hq] at h
    cases h with
    | exact hq _ => exact hq.mul_eq
  · rw [hx] at h
    cases h with
    | real _ _ hx => exact hx

/-- The least integer divided by minus one overflows, also behind a divisor that changes nothing and
before a zero. Behind a zero it is not divided any more, and by minus two it has an exact
quotient. -/
theorem quotients_of_least_integer :
    let least := Int64.minValue
    div.apply (integers [least, 1, -1, 0]) 7 = .error .integerOverflow ∧
      div.apply (integers [least, 1, 0, -1]) 7 = .error .divisionByZero ∧
      ∃ q : Int64, div.apply (integers [least, 2, -1]) 7 = .ok (.number (.integer q), 7) ∧
        q.toInt = 2 ^ 62 := by
  intro least
  obtain ⟨hDivision, _⟩ := quotient_is_exact_when_it_can_be 7
  obtain ⟨_, _, hOverflow, _⟩ := hDivision least [1, -1, 0] (by simp)
  obtain ⟨_, _, _, hZero, _⟩ := hDivision least [1, 0, -1] (by simp)
  obtain ⟨hExact, hProduct, _⟩ := hDivision least [2, -1] (by simp)
  obtain ⟨q, hq⟩ := hExact.2 (by decide +kernel)
  have hInt : q.toInt * product [2, -1] = least.toInt := hProduct q hq
  refine ⟨hOverflow.2 (by decide +kernel), hZero.2 ⟨[1], [-1], rfl, by decide +kernel⟩, q, hq, ?_⟩
  have hTwo : product [2, -1] = -2 := by decide
  have hLeast : least.toInt = -2 ^ 63 := by decide
  rw [hTwo, hLeast] at hInt
  omega

end Builtin

end MiniScheme
