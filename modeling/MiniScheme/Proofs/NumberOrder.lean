import MiniScheme.Builtin.Apply
import MiniScheme.Proofs.IntegerRounding

/-!
# The order of numbers

Two integers are compared exactly, all other pairs as reals, after rounding. So one triple of
numbers can be compared along two different lines: integers on the line of integers, the rest on
the line of reals, where integers beyond `2 ^ 53` may fall together. What keeps the two together
is that rounding never reverses an order. Numbers are therefore ordered by their places on the
line of reals first, and only integers with the same place are told apart, by a second comparison
(`order_eq_then`).

That second comparison is not made if one of the two is a real. A real that is equal to two
different integers *blurs* them, and then equality is not transitive. This is the only way in
which the laws of an order fail.

## Main results

* `order_eq_then`: how numbers are ordered.
* `comparison_is_by_value_unless_blurred`: the laws of equality and order for three numbers, with
  the exact exceptions.
* `equality_is_not_transitive`: three numbers for which they fail.
-/

namespace MiniScheme

namespace Number

open Binary64 (integerRank)

/-- Whether a number is the one that is no number. -/
def isNaN : Number → Bool
  | .integer _ => false
  | .real x => x.isNaN

/-- The place of a number on the line of reals. -/
def rank (a : Number) : Int := Binary64.rank a.toReal

/-- What is left to compare in two numbers with one place on the line of reals: integers are still
told apart. -/
def tie : Number → Number → Ordering
  | .integer i, .integer j => compare i.toInt j.toInt
  | _, _ => .eq

theorem isNaN_toReal {a : Number} (h : a.isNaN = false) : a.toReal.isNaN = false := by
  cases a with
  | integer i => exact Binary64.isNaN_realOfInteger i
  | real x => exact h

theorem rank_integer (i : Int64) : rank (.integer i) = integerRank i.toInt :=
  Binary64.rank_realOfInteger i

theorem orderReals_eq {x y : Float} (hx : x.isNaN = false) (hy : y.isNaN = false) :
    orderReals x y = some (compare (Binary64.rank x) (Binary64.rank y)) := by
  have hLess := Binary64.lt_iff_rank hx hy
  have hSame := Binary64.beq_iff_rank hx hy
  have hMore := Binary64.lt_iff_rank hy hx
  unfold orderReals
  rcases lt_trichotomy (Binary64.rank x) (Binary64.rank y) with h | h | h
  · rw [if_pos (hLess.2 h), compare_lt_iff_lt.2 h]
  · rw [if_neg (mt hLess.1 (by omega)), if_pos (hSame.2 h), compare_eq_iff_eq.2 h]
  · rw [if_neg (mt hLess.1 (by omega)), if_neg (mt hSame.1 (by omega)), if_pos (hMore.2 h),
      compare_gt_iff_gt.2 h]

/-- Integers are ordered by their places first: where these differ, the order is theirs. -/
theorem compare_integers (i j : Int64) :
    compare i.toInt j.toInt =
      (compare (rank (.integer i)) (rank (.integer j))).then (compare i.toInt j.toInt) := by
  rw [rank_integer, rank_integer]
  rcases lt_trichotomy (integerRank i.toInt) (integerRank j.toInt) with h | h | h
  · have hLt : i.toInt < j.toInt := by
      by_contra hNot
      exact absurd (Binary64.integerRank_mono (Int.not_lt.1 hNot)) (Int.not_le.2 h)
    rw [compare_lt_iff_lt.2 h, compare_lt_iff_lt.2 hLt]
    rfl
  · rw [compare_eq_iff_eq.2 h]
    rfl
  · have hGt : j.toInt < i.toInt := by
      by_contra hNot
      exact absurd (Binary64.integerRank_mono (Int.not_lt.1 hNot)) (Int.not_le.2 h)
    rw [compare_gt_iff_gt.2 h, compare_gt_iff_gt.2 hGt]
    rfl

section Order

variable {a b c : Number}

/-- Numbers are ordered by their places on the line of reals, and integers with one place by
value. -/
theorem order_eq_then (ha : a.isNaN = false) (hb : b.isNaN = false) :
    a.order b = some ((compare a.rank b.rank).then (tie a b)) := by
  have hReals := orderReals_eq (isNaN_toReal ha) (isNaN_toReal hb)
  have hThen : ∀ o : Ordering, o.then .eq = o := fun o => by cases o <;> rfl
  cases a with
  | real x => exact hReals.trans (congrArg some (hThen _).symm)
  | integer i =>
      cases b with
      | real y => exact hReals.trans (congrArg some (hThen _).symm)
      | integer j => exact congrArg some (compare_integers i j)

theorem same_iff (ha : a.isNaN = false) (hb : b.isNaN = false) :
    a.same b = true ↔ a.rank = b.rank ∧ tie a b = .eq := by
  have hReals := Binary64.beq_iff_rank (isNaN_toReal ha) (isNaN_toReal hb)
  cases a with
  | real x => exact hReals.trans (and_iff_left rfl).symm
  | integer i =>
      cases b with
      | real y => exact hReals.trans (and_iff_left rfl).symm
      | integer j =>
          have hValue : tie (.integer i) (.integer j) = .eq ↔ i = j :=
            compare_eq_iff_eq.trans Int64.toInt_inj
          rw [hValue]
          show (i == j) = true ↔ _
          rw [beq_iff_eq]
          exact ⟨fun h => ⟨by rw [h], h⟩, fun h => h.2⟩

theorem tie_swap (a b : Number) : tie b a = (tie a b).swap := by
  cases a with
  | real x => cases b <;> rfl
  | integer i =>
      cases b with
      | real y => rfl
      | integer j => exact (Int.compare_swap i.toInt j.toInt).symm

theorem then_eq_lt_iff {r s : Int} {o : Ordering} :
    (compare r s).then o = .lt ↔ r < s ∨ (r = s ∧ o = .lt) := by
  rcases lt_trichotomy r s with h | h | h
  · rw [compare_lt_iff_lt.2 h]
    exact iff_of_true rfl (.inl h)
  · rw [compare_eq_iff_eq.2 h]
    exact ⟨fun hLess => .inr ⟨h, hLess⟩, fun hLess => (hLess.resolve_left (by omega)).2⟩
  · rw [compare_gt_iff_gt.2 h]
    exact iff_of_false (by simp) (by omega)

theorem less_iff (ha : a.isNaN = false) (hb : b.isNaN = false) :
    holds .less a b = true ↔ a.rank < b.rank ∨ (a.rank = b.rank ∧ tie a b = .lt) := by
  rw [holds, order_eq_then ha hb, ← then_eq_lt_iff]
  cases (compare a.rank b.rank).then (tie a b) <;> decide

theorem swap_then {r s : Int} {o : Ordering} :
    ((compare r s).then o).swap = (compare s r).then o.swap := by
  rcases lt_trichotomy r s with h | h | h
  · rw [compare_lt_iff_lt.2 h, compare_gt_iff_gt.2 h]
    rfl
  · rw [compare_eq_iff_eq.2 h, compare_eq_iff_eq.2 h.symm]
    rfl
  · rw [compare_gt_iff_gt.2 h, compare_lt_iff_lt.2 h]
    rfl

/-- Turning two numbers round turns their order round. -/
theorem order_swap (ha : a.isNaN = false) (hb : b.isNaN = false) :
    b.order a = (a.order b).map Ordering.swap := by
  rw [order_eq_then ha hb, order_eq_then hb ha, Option.map_some, swap_then, ← tie_swap]

theorem greater_iff (ha : a.isNaN = false) (hb : b.isNaN = false) :
    holds .greater a b = holds .less b a := by
  rw [holds, holds, order_swap ha hb, order_eq_then ha hb, Option.map_some]
  cases (compare a.rank b.rank).then (tie a b) <;> rfl

theorem lessEqual_iff (ha : a.isNaN = false) (hb : b.isNaN = false) :
    holds .lessEqual a b = true ↔ ¬holds .less b a = true := by
  rw [← greater_iff ha hb, holds, holds, order_eq_then ha hb]
  cases (compare a.rank b.rank).then (tie a b) <;> decide

end Order

/-! ## Reals that are equal to two integers -/

/-- A real that is equal to two different integers. -/
def Blurs (x a c : Number) : Prop :=
  (∃ r, x = .real r) ∧ (∃ i j, a = .integer i ∧ c = .integer j ∧ i ≠ j) ∧
    x.same a = true ∧ x.same c = true

section Laws

variable {a b c : Number}

theorem tie_real_left (x : Float) (b : Number) : tie (.real x) b = .eq := rfl

theorem tie_real_right (a : Number) (x : Float) : tie a (.real x) = .eq := by
  cases a <;> rfl

theorem tie_integers {i j : Int64} : tie (.integer i) (.integer j) = compare i.toInt j.toInt := rfl

/-- A real blurs two numbers with its place that are still told apart. -/
theorem blurs_iff (ha : a.isNaN = false) (hb : b.isNaN = false) (hc : c.isNaN = false) :
    Blurs b a c ↔ (∃ r, b = .real r) ∧ a.rank = b.rank ∧ b.rank = c.rank ∧ tie a c ≠ .eq := by
  constructor
  · rintro ⟨⟨r, rfl⟩, ⟨i, j, rfl, rfl, hNe⟩, hi, hj⟩
    rw [same_iff hb ha] at hi
    rw [same_iff hb hc] at hj
    refine ⟨⟨r, rfl⟩, hi.1.symm, hj.1, fun hTie => hNe ?_⟩
    exact Int64.toInt_inj.1 (compare_eq_iff_eq.1 hTie)
  · rintro ⟨⟨r, rfl⟩, hRankA, hRankC, hTie⟩
    refine ⟨⟨r, rfl⟩, ?_, (same_iff hb ha).2 ⟨hRankA.symm, rfl⟩, (same_iff hb hc).2 ⟨hRankC, rfl⟩⟩
    cases a with
    | real x => exact absurd (tie_real_left x c) hTie
    | integer i =>
        cases c with
        | real y => exact absurd (tie_real_right _ y) hTie
        | integer j =>
            refine ⟨i, j, rfl, rfl, ?_⟩
            rintro rfl
            exact hTie (compare_eq_iff_eq.2 rfl)

/-- The integers that a real blurs are far from zero. -/
theorem Blurs.large {i j : Int64} (h : Blurs b (.integer i) (.integer j)) (hb : b.isNaN = false) :
    2 ^ 53 ≤ i.toInt.natAbs ∧ 2 ^ 53 ≤ j.toInt.natAbs := by
  obtain ⟨_, hi, hj, hTie⟩ := (blurs_iff rfl hb rfl).1 h
  have hRank : integerRank i.toInt = integerRank j.toInt := by
    rw [← rank_integer, ← rank_integer, hi, hj]
  have hNe : i.toInt ≠ j.toInt := fun hEq => hTie (compare_eq_iff_eq.2 hEq)
  have hWordI := Binary64.natAbs_le_word i
  have hWordJ := Binary64.natAbs_le_word j
  by_contra hSmall
  rcases Int.lt_or_gt_of_ne hNe with hLt | hGt
  · have hRankLt := Binary64.integerRank_lt hLt hWordI hWordJ (by omega)
    omega
  · have hRankLt := Binary64.integerRank_lt hGt hWordJ hWordI (by omega)
    omega

theorem same_comm (ha : a.isNaN = false) (hb : b.isNaN = false) : a.same b = b.same a := by
  rw [Bool.eq_iff_iff, same_iff ha hb, same_iff hb ha, tie_swap a b, Ordering.swap_eq_eq]
  exact and_congr_left fun _ => eq_comm

theorem trichotomy (ha : a.isNaN = false) (hb : b.isNaN = false) :
    (holds .less a b = true ∧ a.same b = false ∧ holds .greater a b = false) ∨
      (holds .less a b = false ∧ a.same b = true ∧ holds .greater a b = false) ∨
        (holds .less a b = false ∧ a.same b = false ∧ holds .greater a b = true) := by
  have hSame : a.same b = ((compare a.rank b.rank).then (tie a b) == .eq) := by
    rw [Bool.eq_iff_iff, same_iff ha hb, beq_iff_eq, Ordering.then_eq_eq, compare_eq_iff_eq]
  rw [hSame, holds, holds, order_eq_then ha hb]
  cases (compare a.rank b.rank).then (tie a b) <;> decide

/-- If the middle one is an integer, what is left to compare is compared along one line. -/
theorem tie_trans (i : Int64) (hac : tie a c ≠ .eq) :
    ∃ j k, a = .integer j ∧ c = .integer k ∧ tie a (.integer i) = compare j.toInt i.toInt ∧
      tie (.integer i) c = compare i.toInt k.toInt ∧ tie a c = compare j.toInt k.toInt := by
  cases a with
  | real x => exact absurd (tie_real_left x c) hac
  | integer j =>
      cases c with
      | real y => exact absurd (tie_real_right _ y) hac
      | integer k => exact ⟨j, k, rfl, rfl, rfl, rfl, rfl⟩

/-- Equality is transitive unless a real in the middle blurs two integers. -/
theorem same_trans_iff (ha : a.isNaN = false) (hb : b.isNaN = false) (hc : c.isNaN = false)
    (hab : a.same b = true) (hbc : b.same c = true) : a.same c = true ↔ ¬Blurs b a c := by
  rw [same_iff ha hb] at hab
  rw [same_iff hb hc] at hbc
  rw [same_iff ha hc, blurs_iff ha hb hc]
  constructor
  · rintro ⟨_, hTie⟩ ⟨_, _, _, hNot⟩
    exact hNot hTie
  · intro hNot
    refine ⟨hab.1.trans hbc.1, by_contra fun hTie => ?_⟩
    cases b with
    | real x => exact hNot ⟨⟨x, rfl⟩, hab.1, hbc.1, hTie⟩
    | integer i =>
        obtain ⟨j, k, rfl, rfl, hj, hk, hjk⟩ := tie_trans i hTie
        rw [hj, compare_eq_iff_eq] at hab
        rw [hk, compare_eq_iff_eq] at hbc
        exact hTie (hjk.trans (compare_eq_iff_eq.2 (hab.2.trans hbc.2)))

/-- What is below a number is below its equals, unless they are a real that blurs the two. -/
theorem less_of_less_of_same_iff (ha : a.isNaN = false) (hb : b.isNaN = false)
    (hc : c.isNaN = false) (hab : holds .less a b = true) (hbc : b.same c = true) :
    holds .less a c = true ↔ ¬Blurs c a b := by
  rw [less_iff ha hb] at hab
  rw [same_iff hb hc] at hbc
  rw [less_iff ha hc, blurs_iff ha hc hb]
  rcases hab with hLt | ⟨hEq, hTie⟩
  · exact iff_of_true (.inl (by omega)) fun h => by omega
  · cases c with
    | real x =>
        refine iff_of_false ?_ fun hNot => hNot ⟨⟨x, rfl⟩, hEq.trans hbc.1, hbc.1.symm, ?_⟩
        · rw [tie_real_right]
          rintro (hLt | ⟨_, hLess⟩)
          · omega
          · cases hLess
        · rw [hTie]
          decide
    | integer k =>
        have hInteger : ¬∃ r, Number.integer k = .real r := by simp
        refine iff_of_true (.inr ⟨hEq.trans hbc.1, ?_⟩) fun h => hInteger h.1
        cases b with
        | real x =>
            rw [tie_real_right] at hTie
            cases hTie
        | integer j =>
            have hkj : j.toInt = k.toInt := compare_eq_iff_eq.1 hbc.2
            cases a with
            | real x => cases hTie
            | integer i =>
                rw [tie_integers] at hTie ⊢
                rwa [← hkj]

/-- A chain of comparisons leaves the order in doubt only where the middle one blurs the two
ends. -/
theorem lessEqual_trans_iff (ha : a.isNaN = false) (hb : b.isNaN = false) (hc : c.isNaN = false)
    (hab : holds .lessEqual a b = true) (hbc : holds .lessEqual b c = true) :
    holds .lessEqual a c = true ↔ ¬(Blurs b a c ∧ holds .less c a = true) := by
  rw [lessEqual_iff ha hb, less_iff hb ha] at hab
  rw [lessEqual_iff hb hc, less_iff hc hb] at hbc
  rw [lessEqual_iff ha hc, not_iff_not, less_iff hc ha, blurs_iff ha hb hc]
  refine ⟨fun hLess => ⟨?_, hLess⟩, And.right⟩
  -- All three have one place on the line of reals, and the ends are told apart there.
  have hca : c.rank = a.rank ∧ tie c a = .lt := hLess.resolve_left (by omega)
  have hRanks : a.rank = b.rank ∧ b.rank = c.rank := by omega
  have hac : tie a c ≠ .eq := by
    rw [tie_swap c a, hca.2]
    decide
  refine ⟨?_, hRanks.1, hRanks.2, hac⟩
  cases b with
  | real x => exact ⟨x, rfl⟩
  | integer i =>
      exfalso
      obtain ⟨k, j, rfl, rfl, hk, hj, hkj⟩ := tie_trans i (by rw [hca.2]; decide)
      rw [hca.2] at hkj
      have hLt := compare_lt_iff_lt.1 hkj.symm
      have hji : ¬i.toInt < j.toInt := fun h => hab (.inr ⟨hRanks.1.symm, compare_lt_iff_lt.2 h⟩)
      have hik : ¬k.toInt < i.toInt := fun h => hbc (.inr ⟨hRanks.2.symm, compare_lt_iff_lt.2 h⟩)
      omega

end Laws

end Number

namespace Builtin

/-- The built-in procedure answers that it is so. -/
def Affirms (b : Builtin) (args : List Number) (id : Nat) : Prop :=
  b.apply (args.map .number) id = .ok (.boolean true, id)

section Affirms

variable (a b c : Number) (id : Nat)

theorem affirms_equal_two : equal.Affirms [a, b] id ↔ a.same b = true := by
  simp [Affirms, apply, withoutPairs, Except.map, allSame, Value.same]

theorem affirms_equal_three :
    equal.Affirms [a, b, c] id ↔ a.same b = true ∧ b.same c = true := by
  simp [Affirms, apply, withoutPairs, Except.map, allSame, Value.same]

theorem affirms_compare_two (r : Number.Comparison) :
    (compare r).Affirms [a, b] id ↔ Number.holds r a b = true := by
  cases h : Number.holds r a b <;>
    simp [Affirms, apply, withoutPairs, Except.map, compareAll, chained, Value.asNumber, bind,
      Except.bind, h]

theorem affirms_compare_three (r : Number.Comparison) :
    (compare r).Affirms [a, b, c] id ↔ Number.holds r a b = true ∧ Number.holds r b c = true := by
  cases h : Number.holds r a b <;> cases h' : Number.holds r b c <;>
    simp [Affirms, apply, withoutPairs, Except.map, compareAll, chained, Value.asNumber, bind,
      Except.bind, h, h']

end Affirms

end Builtin

namespace Number

open Builtin (Affirms)

/-- **Numbers compare by value, up to rounding.** For three numbers, integer or real in any
mixture: equality is symmetric; exactly one of less, equal and greater holds; equality and the
order go together as they should, and so do chains of `equal?` and of `<=`, unless two of the
three are different integers and the third is a real that is equal to both. Such integers are not
below `2 ^ 53`. -/
theorem comparison_is_by_value_unless_blurred {a b c : Number} (ha : a.isNaN = false)
    (hb : b.isNaN = false) (hc : c.isNaN = false) (id : Nat) :
    a.same b = b.same a ∧
    ((holds .less a b = true ∧ a.same b = false ∧ holds .greater a b = false) ∨
      (holds .less a b = false ∧ a.same b = true ∧ holds .greater a b = false) ∨
        (holds .less a b = false ∧ a.same b = false ∧ holds .greater a b = true)) ∧
    (a.same b = true → b.same c = true → (a.same c = true ↔ ¬Blurs b a c)) ∧
    (holds .less a b = true → b.same c = true → (holds .less a c = true ↔ ¬Blurs c a b)) ∧
    (Builtin.equal.Affirms [a, b, c] id → (Builtin.equal.Affirms [a, c] id ↔ ¬Blurs b a c)) ∧
    ((Builtin.compare .lessEqual).Affirms [a, b, c] id →
      ((Builtin.compare .lessEqual).Affirms [a, c] id ↔
        ¬(Blurs b a c ∧ holds .less c a = true))) ∧
    (∀ i j, Blurs b (.integer i) (.integer j) →
      2 ^ 53 ≤ i.toInt.natAbs ∧ 2 ^ 53 ≤ j.toInt.natAbs) := by
  refine ⟨same_comm ha hb, trichotomy ha hb, same_trans_iff ha hb hc,
    less_of_less_of_same_iff ha hb hc, ?_, ?_, fun i j h => h.large hb⟩
  · rw [Builtin.affirms_equal_three, Builtin.affirms_equal_two]
    exact fun h => same_trans_iff ha hb hc h.1 h.2
  · rw [Builtin.affirms_compare_three, Builtin.affirms_compare_two]
    exact fun h => lessEqual_trans_iff ha hb hc h.1 h.2

/-- The least positive integer that is not itself a real is blurred with the one below it, and
both are as far from zero as the law says. -/
theorem blurred_next_to_power_of_two :
    let above : Number := .integer 9007199254740993
    let real : Number := .real (Float.ofBits 0x4340000000000000)
    let below : Number := .integer 9007199254740992
    Blurs real above below ∧ 2 ^ 53 ≤ (9007199254740993 : Int64).toInt.natAbs ∧
      2 ^ 53 ≤ (9007199254740992 : Int64).toInt.natAbs := by
  intro above real below
  obtain ⟨_, _, hTrans, _, _, _, hLarge⟩ :=
    @comparison_is_by_value_unless_blurred above real below rfl (by decide +kernel) rfl 0
  have hBlurs : Blurs real above below := by
    by_contra hNot
    exact absurd ((hTrans (by decide +kernel) (by decide +kernel)).2 hNot) (by decide)
  exact ⟨hBlurs, hLarge _ _ hBlurs⟩

/-- Equality is not transitive, and a chain of `<=` may hold from a greater to a smaller integer:
`9007199254740993` and `9007199254740992` are both equal to the real `2 ^ 53`. -/
theorem equality_is_not_transitive :
    let above : Number := .integer 9007199254740993
    let real : Number := .real (Float.ofBits 0x4340000000000000)
    let below : Number := .integer 9007199254740992
    (Builtin.equal.Affirms [above, real, below] 0 ∧ ¬Builtin.equal.Affirms [above, below] 0) ∧
    ((Builtin.compare .lessEqual).Affirms [above, real, below] 0 ∧
      ¬(Builtin.compare .lessEqual).Affirms [above, below] 0) ∧
    (holds .less below above = true ∧ above.same real = true ∧ holds .less below real = false) := by
  refine ⟨?_, ?_, by decide +kernel⟩
  · rw [Builtin.affirms_equal_three, Builtin.affirms_equal_two]
    decide +kernel
  · rw [Builtin.affirms_compare_three, Builtin.affirms_compare_two]
    decide +kernel

end Number

end MiniScheme
