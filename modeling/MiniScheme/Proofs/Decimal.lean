import MiniScheme.Decimal.Shortest
import MiniScheme.Proofs.Binary64

/-!
# Decimals and the values they round to

A decimal is rounded by its value: digits and power of ten may be written in many ways, and how
many digits there are decides no more than whether the value is far outside the range of binary64
(`nearestPattern_congr`). The two bounds that are used for this leave room on both sides of all
positive finite values (`value_bounds`), so a decimal that is such a value is rounded to it.

The shortest decimal of a value is searched for, and whatever the search tries it also checks.
Where it would find nothing all digits of the value are taken; so the decimal found rounds to the
value without it being known that seventeen digits are enough.

## Main results

* `nearestPattern_congr`: decimals of one value are rounded alike.
* `nearestPattern_shortest`: the shortest decimal of a value rounds to it.
-/

namespace MiniScheme.Decimal

/-! ## Values of decimals -/

theorem lt_ten_zpow_iff {v : ℚ} (hv : 0 < v) (e : Int) : v < 10 ^ e ↔ Int.log 10 v < e := by
  exact_mod_cast Int.lt_zpow_iff_log_lt (b := 10) (by decide) hv

theorem ten_zpow_le_iff {v : ℚ} (hv : 0 < v) (e : Int) : 10 ^ e ≤ v ↔ e ≤ Int.log 10 v := by
  exact_mod_cast Int.zpow_le_iff_le_log (b := 10) (by decide) hv

/-- A number of so many digits lies between two powers of ten. -/
theorem length_bounds {n : Nat} (hn : n ≠ 0) :
    (10 : ℚ) ^ ((length n : Int) - 1) ≤ n ∧ (n : ℚ) < 10 ^ (length n : Int) := by
  have hLength : length n = (Nat.toDigits 10 n).length := if_neg hn
  have hPos : 0 < (Nat.toDigits 10 n).length := Nat.length_toDigits_pos
  obtain ⟨k, hk⟩ := Nat.exists_eq_succ_of_ne_zero hPos.ne'
  rw [hLength, hk]
  constructor
  · have hNotShorter : 10 ^ k ≤ n := by
      cases k with
      | zero => exact Nat.one_le_iff_ne_zero.2 hn
      | succ k =>
          rw [← Nat.not_lt, ← Nat.length_toDigits_le_iff (by decide) (by omega), hk]
          omega
    have hExponent : ((k.succ : Nat) : Int) - 1 = k := by omega
    rw [hExponent]
    exact_mod_cast hNotShorter
  · have hNotLonger : n < 10 ^ k.succ :=
      (Nat.length_toDigits_le_iff (by decide) (by omega)).1 (Nat.le_of_eq hk)
    exact_mod_cast hNotLonger

/-- The point stands behind the first digit by as many places as the decimal logarithm says. -/
theorem length_add_eq {digits : Nat} (hDigits : digits ≠ 0) (exponent : Int) :
    (length digits : Int) + exponent = Int.log 10 ((digits : ℚ) * 10 ^ exponent) + 1 := by
  obtain ⟨hLow, hHigh⟩ := length_bounds hDigits
  have hTen : (10 : ℚ) ≠ 0 := by norm_num
  have hPos : 0 < (digits : ℚ) * 10 ^ exponent := by positivity
  have hAbove : (length digits : Int) - 1 + exponent ≤
      Int.log 10 ((digits : ℚ) * 10 ^ exponent) := by
    rw [← ten_zpow_le_iff hPos, zpow_add₀ hTen]
    gcongr
  have hBelow : Int.log 10 ((digits : ℚ) * 10 ^ exponent) < (length digits : Int) + exponent := by
    rw [← lt_ten_zpow_iff hPos, zpow_add₀ hTen]
    gcongr
  omega

theorem toFraction_pos {digits : Nat} (hDigits : digits ≠ 0) (exponent : Int) :
    0 < (toFraction digits exponent).1 ∧ 0 < (toFraction digits exponent).2 := by
  have hPow : ∀ n, 0 < Nat.pow 10 n := fun n => Nat.pow_pos (by decide)
  unfold toFraction
  split
  · exact ⟨Nat.mul_pos (Nat.pos_of_ne_zero hDigits) (hPow _), Nat.one_pos⟩
  · exact ⟨Nat.pos_of_ne_zero hDigits, hPow _⟩

theorem toFraction_div (digits : Nat) (exponent : Int) :
    ((toFraction digits exponent).1 : ℚ) / (toFraction digits exponent).2 =
      digits * 10 ^ exponent := by
  unfold toFraction
  split
  · next h =>
      obtain ⟨n, rfl⟩ := Int.eq_ofNat_of_zero_le h
      simp
  · next h =>
      obtain ⟨n, rfl⟩ : ∃ n : Nat, exponent = -(n : Int) := ⟨exponent.natAbs, by omega⟩
      simp [div_eq_mul_inv]

/-- The nearest pattern depends on the value of the decimal alone. -/
theorem nearestPattern_congr {digits digits' : Nat} {exponent exponent' : Int}
    (hDigits : digits ≠ 0) (hDigits' : digits' ≠ 0)
    (h : (digits : ℚ) * 10 ^ exponent = digits' * 10 ^ exponent') :
    nearestPattern digits exponent = nearestPattern digits' exponent' := by
  obtain ⟨hNum, hDen⟩ := toFraction_pos hDigits exponent
  obtain ⟨hNum', hDen'⟩ := toFraction_pos hDigits' exponent'
  have hNearest := Binary64.nearest_congr hNum hDen hNum' hDen'
    (by rw [toFraction_div, toFraction_div, h])
  unfold nearestPattern
  simp only [hDigits, hDigits', false_or, length_add_eq hDigits, length_add_eq hDigits', h,
    hNearest]

/-- The powers of two around the positive finite values, among the powers of ten. -/
theorem ten_zpow_le_two_zpow : (10 : ℚ) ^ (-331 : Int) ≤ 2 ^ (-1074 : Int) := by
  have hBlock : (2 : ℚ) ^ (63 : Nat) ≤ 10 ^ (19 : Nat) := by norm_num
  rw [zpow_neg, zpow_neg]
  apply inv_anti₀ (by positivity)
  calc (2 : ℚ) ^ (1074 : Int) = (2 ^ (63 : Nat)) ^ (17 : Nat) * 2 ^ (3 : Nat) := by
        rw [← pow_mul, ← pow_add]; rfl
    _ ≤ (10 ^ (19 : Nat)) ^ (17 : Nat) * 10 ^ (8 : Nat) := by gcongr; norm_num
    _ = 10 ^ (331 : Int) := by rw [← pow_mul, ← pow_add]; rfl

theorem two_zpow_lt_ten_zpow : (2 : ℚ) ^ (53 : Int) * 2 ^ (971 : Int) < 10 ^ (310 : Int) := by
  have hBlock : (2 : ℚ) ^ (63 : Nat) ≤ 10 ^ (19 : Nat) := by norm_num
  calc (2 : ℚ) ^ (53 : Int) * 2 ^ (971 : Int) = (2 ^ (63 : Nat)) ^ (16 : Nat) * 2 ^ (16 : Nat) := by
        rw [← pow_mul, ← pow_add, ← zpow_add₀ (by norm_num)]; rfl
    _ ≤ (10 ^ (19 : Nat)) ^ (16 : Nat) * 2 ^ (16 : Nat) := by gcongr
    _ < (10 ^ (19 : Nat)) ^ (16 : Nat) * 10 ^ (6 : Nat) := by gcongr; norm_num
    _ = 10 ^ (310 : Int) := by rw [← pow_mul, ← pow_add]; rfl

/-- Positive finite values lie well within the range that `nearestPattern` looks at. -/
theorem value_bounds {pattern : Nat} (hPattern : pattern ≠ 0)
    (hFinite : pattern < Binary64.infinity) :
    (10 : ℚ) ^ (-331 : Int) ≤ Binary64.value pattern ∧
      Binary64.value pattern < 10 ^ (310 : Int) := by
  obtain ⟨hLeast, hBelow, hNormal⟩ := @Binary64.parts_bounds pattern
  have hSum := Binary64.parts_pattern pattern
  have hOctave : Binary64.octave = 4503599627370496 := rfl
  simp only [Binary64.infinity, Binary64.leastExponent, hOctave] at *
  have hOne : 1 ≤ (Binary64.parts pattern).1 := by omega
  have hGreatest : (Binary64.parts pattern).2 ≤ 971 := by omega
  have hOneQ : (1 : ℚ) ≤ (Binary64.parts pattern).1 := by exact_mod_cast hOne
  have hBelowQ : ((Binary64.parts pattern).1 : ℚ) < 2 ^ (53 : Int) := by exact_mod_cast hBelow
  have hTwo : (1 : ℚ) ≤ 2 := by norm_num
  unfold Binary64.value
  constructor
  · calc (10 : ℚ) ^ (-331 : Int) ≤ 1 * 2 ^ (-1074 : Int) := by
          rw [one_mul]
          exact ten_zpow_le_two_zpow
      _ ≤ (Binary64.parts pattern).1 * 2 ^ (Binary64.parts pattern).2 := by gcongr
  · calc ((Binary64.parts pattern).1 : ℚ) * 2 ^ (Binary64.parts pattern).2
        ≤ (Binary64.parts pattern).1 * 2 ^ (971 : Int) := by gcongr
      _ < 2 ^ (53 : Int) * 2 ^ (971 : Int) := by gcongr
      _ < 10 ^ (310 : Int) := two_zpow_lt_ten_zpow

/-- A decimal that is the value of a pattern has that pattern. -/
theorem nearestPattern_of_value {digits pattern : Nat} {exponent : Int} (hDigits : digits ≠ 0)
    (hPattern : pattern ≠ 0) (hFinite : pattern < Binary64.infinity)
    (h : (digits : ℚ) * 10 ^ exponent = Binary64.value pattern) :
    nearestPattern digits exponent = pattern := by
  obtain ⟨hNum, hDen⟩ := toFraction_pos hDigits exponent
  obtain ⟨hLow, hHigh⟩ := value_bounds hPattern hFinite
  have hPos : 0 < (digits : ℚ) * 10 ^ exponent := by positivity
  rw [← h, ten_zpow_le_iff hPos] at hLow
  rw [← h, lt_ten_zpow_iff hPos] at hHigh
  have hPoint := length_add_eq hDigits exponent
  unfold nearestPattern
  dsimp only
  rw [if_neg (by simp only [hDigits, false_or]; omega), if_neg (by omega)]
  exact Binary64.nearest_of_value hNum hDen hFinite (by rw [toFraction_div, h])

/-! ## The shortest decimal -/

theorem nearestPattern_zero (exponent : Int) : nearestPattern 0 exponent = 0 := by
  simp [nearestPattern]

theorem nearestPattern_withDigits (count : Nat) {digits : Nat} (hDigits : digits ≠ 0)
    (exponent : Int) :
    nearestPattern (withDigits count digits exponent).1 (withDigits count digits exponent).2 =
      nearestPattern digits exponent := by
  unfold withDigits
  split
  · next h =>
      refine nearestPattern_congr Nat.one_ne_zero hDigits ?_
      rw [h, zpow_add₀ (by norm_num)]
      push_cast [Nat.pow_eq]
      rw [one_mul, mul_comm, zpow_natCast]
  · rfl

/-- A neighbour is taken only if it rounds to the value. -/
theorem nearestPattern_neighbour {pattern num den count : Nat} {point : Int} {decimal : Nat × Int}
    (h : neighbour? pattern num den point count = some decimal) :
    nearestPattern decimal.1 decimal.2 = pattern := by
  unfold neighbour? at h
  dsimp only at h
  split at h
  · next hHigh =>
      rw [← Option.some.inj h, nearestPattern_withDigits _ (Nat.succ_ne_zero _)]
      exact eq_of_beq (Bool.and_eq_true_iff.1 hHigh).1
  · split at h
    · next hLow =>
        rw [← Option.some.inj h]
        exact eq_of_beq hLow
    · exact absurd h (by simp)

theorem exact_value (pattern : Nat) :
    ((exact pattern).1 : ℚ) * 10 ^ (exact pattern).2 = Binary64.value pattern := by
  unfold exact Binary64.value
  dsimp only
  generalize Binary64.parts pattern = parts
  obtain ⟨significand, exponent⟩ := parts
  split
  · next h =>
      obtain ⟨n, rfl⟩ := Int.eq_ofNat_of_zero_le h
      simp
  · next h =>
      obtain ⟨n, rfl⟩ : ∃ n : Nat, exponent = -(n : Int) := ⟨exponent.natAbs, by omega⟩
      have hTen : (10 : ℚ) = 5 * 2 := by norm_num
      simp [hTen, mul_pow]
      field_simp

/-- The shortest decimal of a positive finite value rounds to it. -/
theorem nearestPattern_shortest {pattern : Nat} (hPattern : pattern ≠ 0)
    (hFinite : pattern < Binary64.infinity) :
    nearestPattern (shortest pattern).1 (shortest pattern).2 = pattern := by
  unfold shortest
  dsimp only
  generalize hFound : List.findSome? _ _ = found
  cases found with
  | some decimal =>
      obtain ⟨count, _, hCount⟩ := List.exists_of_findSome?_eq_some hFound
      exact nearestPattern_neighbour hCount
  | none =>
      have hPos : 0 < Binary64.value pattern :=
        lt_of_lt_of_le (by positivity) (value_bounds hPattern hFinite).1
      have hDigits : (exact pattern).1 ≠ 0 := by
        intro hZero
        rw [← exact_value, hZero] at hPos
        simp at hPos
      exact nearestPattern_of_value hDigits hPattern hFinite (exact_value pattern)

end MiniScheme.Decimal
