import MiniScheme.Number
import MiniScheme.Proofs.RealOrder

/-!
# The real nearest to an integer

An operation of mixed kinds turns its integer into a real. A 64-bit integer may have more digits
than a significand has room for, so this is a rounding. Two facts make it harmless for most
purposes: it keeps the order, in that a greater integer never becomes a smaller real, and below
`2 ^ 53` it changes nothing.

Arithmetic of reals rounds by shifting a significand to the right, one place at a time, and keeps
of what falls off the last digit and whether anything stood below it. This comes to dividing by a
power of two and rounding the quotient (`roundedMantissa_shift`), so that rounding a real is
`nearest` of its value (`roundWithAccuracy_eq`).

## Main results

* `nearest_mono`: rounding keeps the order of fractions.
* `nearest_lt_nearest`: an integer below `2 ^ 53` is told apart from every greater one.
* `roundWithAccuracy_eq`: the rounding of real arithmetic is `nearest`.
* `realOfInteger_eq`: an integer becomes the real with the nearest pattern.
* `integerRank_mono`, `integerRank_lt`: how integers are ordered once they are reals.
-/

namespace MiniScheme.Binary64

/-! ## Rounding keeps the order -/

theorem div_le_roundDiv (num den : Nat) : num / den ≤ roundDiv num den := by
  unfold roundDiv
  dsimp only
  split
  · exact le_refl _
  · split <;> omega

theorem roundDiv_le_succ (num den : Nat) : roundDiv num den ≤ num / den + 1 := by
  unfold roundDiv
  dsimp only
  split
  · omega
  · split <;> omega

theorem roundDiv_mono_left {num num' : Nat} (den : Nat) (h : num ≤ num') :
    roundDiv num den ≤ roundDiv num' den := by
  rcases Nat.lt_or_eq_of_le (Nat.div_le_div_right h : num / den ≤ num' / den) with hLt | hEq
  · calc roundDiv num den ≤ num / den + 1 := roundDiv_le_succ num den
      _ ≤ num' / den := hLt
      _ ≤ roundDiv num' den := div_le_roundDiv num' den
  · -- With one quotient for both, the remainders are ordered.
    have hRemainder : num % den ≤ num' % den := by
      have hNum := Nat.div_add_mod num den
      have hNum' := Nat.div_add_mod num' den
      rw [← hEq] at hNum'
      omega
    unfold roundDiv
    dsimp only
    rw [← hEq]
    split_ifs <;> omega

theorem roundDiv_mono {num den num' den' : Nat} (hDen : 0 < den) (hDen' : 0 < den')
    (h : (num : ℚ) / den ≤ num' / den') : roundDiv num den ≤ roundDiv num' den' := by
  have hCross : num * den' ≤ num' * den := by
    have hDenQ : (0 : ℚ) < den := by exact_mod_cast hDen
    have hDenQ' : (0 : ℚ) < den' := by exact_mod_cast hDen'
    have hCross := (div_le_div_iff₀ hDenQ hDenQ').1 h
    exact_mod_cast hCross
  rw [← roundDiv_mul_right num den hDen', ← roundDiv_mul_right num' den' hDen,
    Nat.mul_comm den' den]
  exact roundDiv_mono_left (den * den') hCross

section Nearest

variable {num den : Nat}

/-- In units of the last place a fraction is below `2 ^ 53`. -/
theorem scaled_lt (hNum : 0 < num) (hDen : 0 < den) :
    (num : ℚ) / den / 2 ^ placeExponent num den < 2 ^ (53 : Int) := by
  have hPos : 0 < (num : ℚ) / den := by positivity
  rw [div_lt_iff₀ (zpow_pos (by norm_num) _), ← zpow_add₀ (by norm_num), lt_two_zpow_iff hPos,
    placeExponent_eq hNum hDen]
  omega

/-- In units of the last place a fraction is not below `2 ^ 52`, unless the exponent is the least
one. -/
theorem le_scaled (hNum : 0 < num) (hDen : 0 < den)
    (h : leastExponent < placeExponent num den) :
    2 ^ (52 : Int) ≤ (num : ℚ) / den / 2 ^ placeExponent num den := by
  have hPos : 0 < (num : ℚ) / den := by positivity
  rw [placeExponent_eq hNum hDen] at h
  rw [le_div_iff₀ (zpow_pos (by norm_num) _), ← zpow_add₀ (by norm_num), two_zpow_le_iff hPos,
    placeExponent_eq hNum hDen]
  omega

/-- The significand that `nearest` rounds to. -/
def significand (num den : Nat) : Nat :=
  roundDiv (scale num den (placeExponent num den)).1 (scale num den (placeExponent num den)).2

theorem significand_le (hNum : 0 < num) (hDen : 0 < den) :
    significand num den ≤ 2 * octave := by
  have hScaled := (scale_pos hNum hDen (placeExponent num den)).2
  have hBelow := scaled_lt hNum hDen
  rw [← scale_div] at hBelow
  have hQuotient := (div_lt_iff_cast (k := 2 * octave) hScaled).2 (by
    refine hBelow.trans_eq ?_
    norm_num [octave])
  exact (roundDiv_le_succ _ _).trans hQuotient

theorem octave_le_significand (hNum : 0 < num) (hDen : 0 < den)
    (h : leastExponent < placeExponent num den) : octave ≤ significand num den := by
  have hScaled := (scale_pos hNum hDen (placeExponent num den)).2
  have hAbove := le_scaled hNum hDen h
  rw [← scale_div] at hAbove
  refine le_trans ?_ (div_le_roundDiv _ _)
  rw [← Nat.not_lt, div_lt_iff_cast hScaled, not_lt]
  refine le_trans (le_of_eq ?_) hAbove
  norm_num [octave]

theorem leastExponent_le_placeExponent (hNum : 0 < num) (hDen : 0 < den) :
    leastExponent ≤ placeExponent num den := by
  rw [placeExponent_eq hNum hDen]
  exact le_max_left _ _

theorem nearest_eq_min (num den : Nat) :
    nearest num den =
      min infinity ((placeExponent num den - leastExponent).toNat * octave + significand num den) :=
  rfl

theorem placeExponent_mono {num' den' : Nat} (hNum : 0 < num) (hDen : 0 < den) (hNum' : 0 < num')
    (hDen' : 0 < den') (h : (num : ℚ) / den ≤ num' / den') :
    placeExponent num den ≤ placeExponent num' den' := by
  rw [placeExponent_eq hNum hDen, placeExponent_eq hNum' hDen']
  have hLog : Int.log 2 ((num : ℚ) / den) ≤ Int.log 2 ((num' : ℚ) / den') :=
    Int.log_mono_right (by positivity) h
  omega

/-- Rounding keeps the order. Fractions with one exponent are rounded in units of one place; if
the exponents differ, the end of the lower octave lies between the two. -/
theorem nearest_mono {num' den' : Nat} (hNum : 0 < num) (hDen : 0 < den) (hNum' : 0 < num')
    (hDen' : 0 < den') (h : (num : ℚ) / den ≤ num' / den') :
    nearest num den ≤ nearest num' den' := by
  have hLeast := leastExponent_le_placeExponent hNum hDen
  have hExponents := placeExponent_mono hNum hDen hNum' hDen' h
  rw [nearest_eq_min, nearest_eq_min]
  refine min_le_min_left _ ?_
  rcases Int.lt_or_eq_of_le hExponents with hLt | hEq
  · have hUpper := significand_le hNum hDen
    have hLower := octave_le_significand hNum' hDen' (by omega)
    have hOctaves := octave_add_le hLeast hLt
    omega
  · have hSignificands : significand num den ≤ significand num' den' := by
      unfold significand
      rw [← hEq]
      refine roundDiv_mono (scale_pos hNum hDen _).2 (scale_pos hNum' hDen' _).2 ?_
      rw [scale_div, scale_div]
      gcongr
    rw [← hEq]
    omega

/-- If the last place is not above the units, an integer is rounded to itself. -/
theorem significand_of_exponent {n : Nat} (h : placeExponent n 1 ≤ 0) :
    significand n 1 = n * 2 ^ (-placeExponent n 1).toNat := by
  unfold significand scale
  split
  · next hZero =>
      have hEq : placeExponent n 1 = 0 := by omega
      simp [hEq, roundDiv_one]
  · exact roundDiv_one _

/-- Where nothing is rounded, nothing is carried into the next octave. -/
theorem significand_lt_of_exponent {n : Nat} (hPos : 0 < n) (h : placeExponent n 1 ≤ 0) :
    significand n 1 < 2 * octave := by
  have hScaled := scaled_lt hPos Nat.one_pos
  obtain ⟨k, hk⟩ : ∃ k : Nat, placeExponent n 1 = -(k : Int) :=
    ⟨(-placeExponent n 1).toNat, by omega⟩
  rw [hk, Nat.cast_one, div_one, zpow_neg, zpow_natCast, div_inv_eq_mul] at hScaled
  rw [significand_of_exponent h, hk, neg_neg, Int.toNat_natCast]
  exact_mod_cast hScaled

/-- An integer below `2 ^ 53` is told apart from every greater one. -/
theorem nearest_lt_nearest {m n : Nat} (hPos : 0 < m) (hSmall : m < 2 * octave) (hLt : m < n)
    (hFinite : nearest n 1 < infinity) : nearest m 1 < nearest n 1 := by
  have hPos' : 0 < n := by omega
  have hExponent : placeExponent m 1 ≤ 0 := by
    have hLog : Int.log 2 ((m : ℚ) / (1 : Nat)) < 53 := by
      rw [← lt_two_zpow_iff (by positivity), Nat.cast_one, div_one]
      exact_mod_cast hSmall
    rw [placeExponent_eq hPos Nat.one_pos, leastExponent]
    omega
  have hLeast := leastExponent_le_placeExponent hPos Nat.one_pos
  have hExponents : placeExponent m 1 ≤ placeExponent n 1 := by
    refine placeExponent_mono hPos Nat.one_pos hPos' Nat.one_pos ?_
    gcongr
  have hSum : (placeExponent m 1 - leastExponent).toNat * octave + significand m 1 <
      (placeExponent n 1 - leastExponent).toNat * octave + significand n 1 := by
    rcases Int.lt_or_eq_of_le hExponents with hBelow | hEq
    · have hUpper := significand_lt_of_exponent hPos hExponent
      have hLower := octave_le_significand hPos' Nat.one_pos (by omega)
      have hOctaves := octave_add_le hLeast hBelow
      omega
    · rw [significand_of_exponent hExponent, significand_of_exponent (hEq ▸ hExponent), ← hEq]
      exact Nat.add_lt_add_left (Nat.mul_lt_mul_of_pos_right hLt (Nat.two_pow_pos _)) _
  have hUncut : (placeExponent n 1 - leastExponent).toNat * octave + significand n 1 < infinity :=
    (min_lt_iff.1 hFinite).resolve_left (lt_irrefl _)
  calc nearest m 1
      ≤ (placeExponent m 1 - leastExponent).toNat * octave + significand m 1 := min_le_right _ _
    _ < (placeExponent n 1 - leastExponent).toNat * octave + significand n 1 := hSum
    _ = nearest n 1 := (min_eq_right hUncut.le).symm

end Nearest

/-! ## The rounding of real arithmetic -/

section Rounding

open Float.Model Float.Model.UnpackedFloat

/-- After at least one shift the two digits kept of what fell off are the last of it, and whether
there is anything below. -/
theorem shiftRight_succ (m j : Nat) :
    ExtendedMantissa.mk m false false >>> (j + 1) =
      ⟨m / 2 ^ (j + 1), m / 2 ^ j % 2 != 0, m % 2 ^ j != 0⟩ := by
  induction j with
  | zero =>
      show ExtendedMantissa.shiftRightOne ⟨m, false, false⟩ = _
      simp [ExtendedMantissa.shiftRightOne, Nat.mod_one]
  | succ j ih =>
      have hShift : ExtendedMantissa.mk m false false >>> (j + 1 + 1) =
          (ExtendedMantissa.mk m false false >>> (j + 1)).shiftRightOne := rfl
      have hMod : m % 2 ^ (j + 1) = m % 2 ^ j + 2 ^ j * (m / 2 ^ j % 2) := Nat.mod_pow_succ
      have hPow : 0 < 2 ^ j := Nat.two_pow_pos j
      rw [hShift, ih]
      simp only [ExtendedMantissa.shiftRightOne, ExtendedMantissa.mk.injEq,
        Nat.div_div_eq_div_mul, Nat.pow_succ, true_and]
      rw [Nat.pow_succ] at hMod
      rw [hMod]
      rcases Nat.mod_two_eq_zero_or_one (m / 2 ^ j) with hBit | hBit
      · simp [hBit]
      · simp [hBit]

/-- Shifting and then rounding by what fell off is dividing and rounding the quotient. -/
theorem roundedMantissa_shift (m j : Nat) :
    (ExtendedMantissa.mk m false false >>> j).roundedMantissa = roundDiv m (2 ^ j) := by
  cases j with
  | zero => exact (roundDiv_one m).symm
  | succ j =>
      have hMod : m % 2 ^ (j + 1) = m % 2 ^ j + 2 ^ j * (m / 2 ^ j % 2) := Nat.mod_pow_succ
      have hBelow : m % 2 ^ j < 2 ^ j := Nat.mod_lt _ (Nat.two_pow_pos j)
      have hPow : 2 ^ (j + 1) = 2 * 2 ^ j := Nat.pow_succ'
      have hRounded : ∀ round sticky,
          (ExtendedMantissa.mk (m / 2 ^ (j + 1)) round sticky).roundedMantissa =
          if round then
            if sticky then m / 2 ^ (j + 1) + 1 else m / 2 ^ (j + 1) + m / 2 ^ (j + 1) % 2
          else m / 2 ^ (j + 1) := by
        intro round sticky
        cases round <;> cases sticky <;> rfl
      rw [shiftRight_succ, hRounded]
      unfold roundDiv
      rcases Nat.mod_two_eq_zero_or_one (m / 2 ^ j) with hBit | hBit
      · rw [hBit, Nat.mul_zero, Nat.add_zero] at hMod
        have hLess : 2 * (m % 2 ^ (j + 1)) < 2 ^ (j + 1) := by omega
        rw [hBit, if_pos hLess]
        rfl
      · rw [hBit, Nat.mul_one] at hMod
        have hNotLess : ¬2 * (m % 2 ^ (j + 1)) < 2 ^ (j + 1) := by omega
        rw [hBit, if_neg hNotLess, if_pos (by decide)]
        by_cases hSticky : m % 2 ^ j = 0
        · have hTie : ¬2 ^ (j + 1) < 2 * (m % 2 ^ (j + 1)) := by omega
          rw [hSticky, if_neg hTie]
          rfl
        · have hMore : 2 ^ (j + 1) < 2 * (m % 2 ^ (j + 1)) := by omega
          rw [if_pos (bne_iff_ne.2 hSticky), if_pos hMore]

theorem log_mul_zpow {m : Nat} (hPos : 0 < m) (e : Int) :
    Int.log 2 ((m : ℚ) * 2 ^ e) = m.log2 + e := by
  have hValue : 0 < (m : ℚ) * 2 ^ e := by positivity
  have hTwo : (2 : ℚ) ≠ 0 := by norm_num
  have hLow : (m.log2 : Int) + e ≤ Int.log 2 ((m : ℚ) * 2 ^ e) := by
    rw [← two_zpow_le_iff hValue, zpow_add₀ hTwo]
    gcongr
    exact_mod_cast Nat.log2_self_le hPos.ne'
  have hHigh : Int.log 2 ((m : ℚ) * 2 ^ e) < (m.log2 : Int) + 1 + e := by
    rw [← lt_two_zpow_iff hValue, zpow_add₀ hTwo]
    gcongr
    exact_mod_cast @Nat.lt_log2_self m
  omega

theorem targetExponent_eq (t : Int) :
    Format.binary64.targetExponent t = max (t - 53) leastExponent := rfl

/-- The exponent that real arithmetic aims at is that of the last place. -/
theorem targetExponent_of_value {m num den : Nat} {e : Int} (hPos : 0 < m) (hNum : 0 < num)
    (hDen : 0 < den) (hValue : (num : ℚ) / den = m * 2 ^ e) :
    Format.binary64.targetExponent (totalExponent m e) = placeExponent num den := by
  rw [targetExponent_eq, placeExponent_eq hNum hDen, hValue, log_mul_zpow hPos, totalExponent]
  omega

theorem shiftToTargetExponent_eq {m j : Nat} {e : Int}
    (h : Format.binary64.targetExponent (totalExponent m e) = e + j) :
    shiftToTargetExponent .binary64 m e .exact =
      (ExtendedMantissa.mk m false false >>> j, e + j) := by
  have hAmount : (Format.binary64.targetExponent (totalExponent m e) - e).toNat = j := by omega
  show (ExtendedMantissa.mk m false false >>>
    (Format.binary64.targetExponent (totalExponent m e) - e).toNat, _) = _
  rw [hAmount]

theorem parts_add {m : Nat} {e : Int} (hLeast : leastExponent ≤ e) (hBelow : m < 2 * octave)
    (hNormal : leastExponent < e → octave ≤ m) :
    parts ((e - leastExponent).toNat * octave + m) = (m, e) := by
  have hOctave : 0 < octave := by decide
  obtain ⟨f, rfl⟩ : ∃ f : Nat, e = leastExponent + f := ⟨(e - leastExponent).toNat, by omega⟩
  have hField : (leastExponent + f - leastExponent).toNat = f := by omega
  rw [hField]
  by_cases hSmall : m < octave
  · have hZero : f = 0 := by omega
    subst hZero
    simp [parts, Nat.div_eq_of_lt hSmall, Nat.mod_eq_of_lt hSmall]
  · obtain ⟨r, rfl⟩ : ∃ r, m = octave + r := ⟨m - octave, by omega⟩
    have hSum : f * octave + (octave + r) = octave * (f + 1) + r := by ring
    have hDiv : (octave * (f + 1) + r) / octave = f + 1 := by
      rw [Nat.mul_add_div hOctave, Nat.div_eq_of_lt (by omega), Nat.add_zero]
    have hMod : (octave * (f + 1) + r) % octave = r := by
      rw [Nat.mul_add_mod, Nat.mod_eq_of_lt (by omega)]
    rw [hSum]
    simp [parts, hDiv, hMod]

theorem roundWithAccuracy_of_shifts {spec : Format} {s : Sign} {m : Nat} {e e₁ e₂ : Int}
    {accuracy : Accuracy} {em₁ em₂ : ExtendedMantissa}
    (h₁ : shiftToTargetExponent spec m e accuracy = (em₁, e₁))
    (h₂ : shiftToTargetExponent spec em₁.roundedMantissa e₁ .exact = (em₂, e₂)) :
    roundWithAccuracy spec s m e accuracy =
      if h : em₂.mantissa = 0 then .zero s
      else .finite s em₂.mantissa e₂ (Nat.pos_of_ne_zero h) := by
  unfold roundWithAccuracy
  rw [h₁]
  dsimp only
  rw [h₂]

/-- A rounded significand is brought to the parts of its pattern: it is left as it is, or one
shift takes back the carry. -/
theorem shift_rounded {q : Nat} {e : Int} (hLeast : leastExponent ≤ e) (hUpper : q ≤ 2 * octave)
    (hLower : leastExponent < e → octave ≤ q) :
    ∃ em e', shiftToTargetExponent .binary64 q e .exact = (em, e') ∧
      parts ((e - leastExponent).toNat * octave + q) = (em.mantissa, e') := by
  have hTwo : 2 * octave = 2 ^ 53 := rfl
  rcases Nat.lt_or_eq_of_le hUpper with hBelow | rfl
  · have hTarget : Format.binary64.targetExponent (totalExponent q e) = e + (0 : Nat) := by
      have hShort : q.log2 < 53 := by
        by_cases hZero : q = 0
        · rw [hZero]
          decide
        · exact (Nat.log2_lt hZero).2 hBelow
      have hLong : leastExponent < e → 52 ≤ q.log2 := by
        intro hLt
        have hOctave : 2 ^ 52 ≤ q := hLower hLt
        exact (Nat.le_log2 (by omega)).2 hOctave
      rw [targetExponent_eq, totalExponent]
      omega
    refine ⟨_, _, shiftToTargetExponent_eq hTarget, ?_⟩
    rw [parts_add hLeast hBelow hLower, Nat.cast_zero, add_zero]
    rfl
  · have hCarry : (e - leastExponent).toNat * octave + 2 * octave =
        (e + 1 - leastExponent).toNat * octave + octave := by
      have hSucc : (e + 1 - leastExponent).toNat = (e - leastExponent).toNat + 1 := by omega
      rw [hSucc]
      ring
    have hTarget : Format.binary64.targetExponent (totalExponent (2 * octave) e) =
        e + (1 : Nat) := by
      have hLog : (2 * octave).log2 = 53 := by decide
      rw [targetExponent_eq, totalExponent, hLog]
      omega
    refine ⟨_, _, shiftToTargetExponent_eq hTarget, ?_⟩
    rw [hCarry, parts_add (by omega) (by decide) (fun _ => le_refl _)]
    rfl

/-- The rounding of real arithmetic is `nearest`: it shifts to the place that `nearest` rounds
to, and a carry out of the significand is taken back by one more shift. -/
theorem roundWithAccuracy_eq (negative : Bool) {m num den : Nat} {e : Int} (hPos : 0 < m)
    (hNum : 0 < num) (hDen : 0 < den) (hValue : (num : ℚ) / den = m * 2 ^ e)
    (hExponent : e ≤ placeExponent num den) (hFinite : nearest num den < infinity) :
    roundWithAccuracy .binary64 (sign negative) m e .exact = view negative (nearest num den) := by
  have hTwo : (2 : ℚ) ≠ 0 := by norm_num
  have hTarget := targetExponent_of_value hPos hNum hDen hValue
  have hLeast := leastExponent_le_placeExponent hNum hDen
  have hUpper := significand_le hNum hDen
  have hLower := octave_le_significand hNum hDen
  obtain ⟨j, hj⟩ : ∃ j : Nat, placeExponent num den = e + j :=
    ⟨(placeExponent num den - e).toNat, by omega⟩
  have hSignificand : roundDiv m (2 ^ j) = significand num den := by
    refine roundDiv_congr (Nat.two_pow_pos j) (scale_pos hNum hDen _).2 ?_
    rw [scale_div, hValue, hj, zpow_add₀ hTwo, zpow_natCast]
    field_simp
    push_cast
    ring
  have hFirst : shiftToTargetExponent .binary64 m e .exact =
      (ExtendedMantissa.mk m false false >>> j, placeExponent num den) := by
    rw [shiftToTargetExponent_eq (hTarget.trans hj), hj]
  have hPattern : nearest num den =
      (placeExponent num den - leastExponent).toNat * octave + significand num den :=
    min_eq_right ((min_lt_iff.1 hFinite).resolve_left (lt_irrefl _)).le
  obtain ⟨em, e', hSecond, hParts⟩ := shift_rounded hLeast hUpper hLower
  rw [← hPattern] at hParts
  rw [← hSignificand, ← roundedMantissa_shift] at hSecond
  rw [roundWithAccuracy_of_shifts hFirst hSecond, view_of_parts negative hFinite hParts]

/-- Rounding with a shift to the left where there is room. -/
theorem round_eq (negative : Bool) {m num den : Nat} {e : Int} (hPos : 0 < m)
    (hNum : 0 < num) (hDen : 0 < den) (hValue : (num : ℚ) / den = m * 2 ^ e)
    (hFinite : nearest num den < infinity) :
    UnpackedFloat.round .binary64 (sign negative) m e = view negative (nearest num den) := by
  have hTarget := targetExponent_of_value hPos hNum hDen hValue
  show roundWithAccuracy .binary64 (sign negative)
    (m <<< (e - Format.binary64.targetExponent (totalExponent m e)).toNat)
    (e - (e - Format.binary64.targetExponent (totalExponent m e)).toNat) .exact = _
  rw [hTarget, Nat.shiftLeft_eq]
  generalize hShift : (e - placeExponent num den).toNat = j
  refine roundWithAccuracy_eq negative (Nat.mul_pos hPos (Nat.two_pow_pos j)) hNum hDen ?_
    (by omega) hFinite
  rw [hValue, zpow_sub₀ (by norm_num), zpow_natCast]
  push_cast
  field_simp

theorem unpack_packed (negative : Bool) {p : Nat} (h : p ≤ infinity) :
    (packed negative p).toModel.unpack = view negative p := by
  obtain ⟨hNegative, hPattern⟩ := view_packed negative h
  have hUnpack := unpack_eq (packed negative p)
  rwa [hNegative, hPattern] at hUnpack

theorem sign_mul_positive (negative : Bool) : sign negative * .positive = sign negative := by
  cases negative <;> rfl

/-- One is neutral: the significand gains 52 digits and loses them again. -/
theorem packed_mul_one (negative : Bool) {p : Nat} (hPos : 0 < p) (hFinite : p < infinity) :
    packed negative p * Float.ofBits 0x3FF0000000000000 = packed negative p := by
  obtain ⟨hPart, hView⟩ := view_finite negative hPos hFinite
  have hOne : (Float.ofBits 0x3FF0000000000000).toModel.unpack =
      .finite .positive (2 ^ 52) (-52) (by decide) := rfl
  have hFraction : 0 < (fraction p).1 ∧ 0 < (fraction p).2 :=
    scale_pos hPart Nat.one_pos (-(parts p).2)
  have hValue : ((fraction p).1 : ℚ) / (fraction p).2 = value p := by
    rw [fraction, scale_div, value, Nat.cast_one, div_one, zpow_neg, div_inv_eq_mul]
  have hNearest := nearest_of_value hFraction.1 hFraction.2 hFinite hValue
  have hShifted : ((fraction p).1 : ℚ) / (fraction p).2 =
      ((parts p).1 * 2 ^ 52 : Nat) * 2 ^ ((parts p).2 + -52) := by
    rw [hValue, value, zpow_add₀ (by norm_num)]
    push_cast
    norm_num
    ring
  have hExponent : (parts p).2 + -52 ≤ placeExponent (fraction p).1 (fraction p).2 := by
    rw [placeExponent_eq hFraction.1 hFraction.2, hValue, value, log_mul_zpow hPart]
    omega
  have hRound := roundWithAccuracy_eq negative (Nat.mul_pos hPart (by decide)) hFraction.1
    hFraction.2 hShifted hExponent (hNearest.symm ▸ hFinite)
  rw [hNearest] at hRound
  show Float.ofModel (Float.Model.pack (UnpackedFloat.mul .binary64
    (packed negative p).toModel.unpack (Float.ofBits 0x3FF0000000000000).toModel.unpack)) = _
  rw [unpack_packed negative hFinite.le, hView, hOne]
  show Float.ofModel (Float.Model.pack (roundWithAccuracy .binary64 (sign negative * .positive)
    ((parts p).1 * 2 ^ 52) ((parts p).2 + -52) .exact)) = _
  rw [sign_mul_positive, hRound]
  rfl

end Rounding

/-! ## Integers as reals -/

section Integers

open Float.Model Float.Model.UnpackedFloat

/-- The pattern of a natural number as a real. -/
def ofNatural (n : Nat) : Nat := if n = 0 then 0 else nearest n 1

theorem nearest_lt_infinity {n : Nat} (hPos : 0 < n) (h : n ≤ 2 ^ 64) :
    nearest n 1 < infinity := by
  have hMono : nearest n 1 ≤ nearest (2 ^ 64) 1 := by
    refine nearest_mono hPos Nat.one_pos (by decide) Nat.one_pos ?_
    gcongr
  exact hMono.trans_lt (by decide)

theorem nearest_pos {n : Nat} (hPos : 0 < n) : 0 < nearest n 1 := by
  have hMono : nearest 1 1 ≤ nearest n 1 := by
    refine nearest_mono Nat.one_pos Nat.one_pos hPos Nat.one_pos ?_
    gcongr
    exact hPos
  exact lt_of_lt_of_le (by decide) hMono

/-- A small number goes through a word and is multiplied by one. -/
theorem ofNat_of_lt {n : Nat} (hPos : 0 < n) (h : n < 2 ^ 53) :
    Float.ofNat n = packed false (nearest n 1) := by
  have hFinite := nearest_lt_infinity hPos (by omega)
  have hWord : n.toUInt64.toFloat = packed false (nearest n 1) := by
    have hToNat : n.toUInt64.toNat = n := Nat.mod_eq_of_lt (by omega)
    have hCompare : compare (n : Int) 0 = .gt := compare_gt_iff_gt.2 (by omega)
    have hRound : UnpackedFloat.ofUInt64 .binary64 n.toUInt64 = view false (nearest n 1) := by
      rw [← round_eq false hPos hPos Nat.one_pos (e := 0) (by simp) hFinite, UnpackedFloat.ofUInt64,
        hToNat, UnpackedFloat.ofNat, UnpackedFloat.ofInt, UnpackedFloat.normalize, hCompare]
      rfl
    show Float.ofModel (Float.Model.pack (UnpackedFloat.ofUInt64 .binary64 n.toUInt64)) = _
    rw [hRound]
    rfl
  have hFast : Float.ofNat n = n.toUInt64.toFloat * Float.ofBits 0x3FF0000000000000 := by
    show Float.ofScientific n false 0 = _
    unfold Float.ofScientific
    rw [dif_pos ⟨h, by decide⟩]
    rfl
  rw [hFast, hWord, packed_mul_one false (nearest_pos hPos) hFinite]

/-- A large number is rounded at once. -/
theorem ofNat_of_le {n : Nat} (h : 2 ^ 53 ≤ n) (hWord : n ≤ 2 ^ 64) :
    Float.ofNat n = packed false (nearest n 1) := by
  have hPos : 0 < n := by omega
  have hSlow : Float.ofNat n =
      Float.ofModel (Float.Model.pack (UnpackedFloat.ofScientific .binary64 n 0)) := by
    show Float.ofScientific n false 0 = _
    unfold Float.ofScientific
    rw [dif_neg (fun hBoth => absurd hBoth.1 (by omega))]
    rfl
  have hScientific : UnpackedFloat.ofScientific .binary64 n 0 =
      roundWithAccuracy .binary64 .positive (n <<< 53 * 1) (-53 + 0) .exact := by
    have hNotTiny : ¬(0 : Int) < -((2 ^ 11 : Int) + n.log2) := by omega
    unfold UnpackedFloat.ofScientific
    rw [dif_neg hPos.ne', if_neg (by decide), if_neg hNotTiny, if_pos (by decide)]
    rfl
  have hExponent : (-53 + 0 : Int) ≤ placeExponent n 1 := by
    have hLog : Int.log 2 ((n : ℚ) / (1 : Nat)) = n.log2 := by
      simpa using log_mul_zpow hPos 0
    rw [placeExponent_eq hPos Nat.one_pos, hLog]
    omega
  have hShifted : n <<< 53 * 1 = n * 2 ^ 53 := by rw [Nat.mul_one, Nat.shiftLeft_eq]
  have hRound : roundWithAccuracy .binary64 .positive (n * 2 ^ 53) (-53 + 0) .exact =
      view false (nearest n 1) := by
    refine roundWithAccuracy_eq false (Nat.mul_pos hPos (by decide)) hPos Nat.one_pos ?_ hExponent
      (nearest_lt_infinity hPos hWord)
    push_cast
    norm_num
    ring
  rw [hSlow, hScientific, hShifted, hRound]
  rfl

theorem ofNat_eq {n : Nat} (h : n ≤ 2 ^ 64) : Float.ofNat n = packed false (ofNatural n) := by
  rcases Nat.eq_zero_or_pos n with rfl | hPos
  · rfl
  rw [ofNatural, if_neg hPos.ne']
  rcases Nat.lt_or_ge n (2 ^ 53) with hSmall | hLarge
  · exact ofNat_of_lt hPos hSmall
  · exact ofNat_of_le hLarge h

theorem ofNatural_lt_infinity {n : Nat} (h : n ≤ 2 ^ 64) : ofNatural n < infinity := by
  unfold ofNatural
  split
  · decide
  · next hNe => exact nearest_lt_infinity (Nat.pos_of_ne_zero hNe) h

theorem neg_view {p : Nat} (h : p < infinity) : (view false p).neg = view true p := by
  rcases Nat.eq_zero_or_pos p with rfl | hPos
  · rw [view_zero, view_zero]
    rfl
  · obtain ⟨_, hPositive⟩ := view_finite false hPos h
    obtain ⟨_, hNegative⟩ := view_finite true hPos h
    rw [hPositive, hNegative]
    rfl

theorem neg_packed {p : Nat} (h : p < infinity) : Float.neg (packed false p) = packed true p := by
  show Float.ofModel (Float.Model.pack (UnpackedFloat.neg (packed false p).toModel.unpack)) = _
  rw [unpack_packed false h.le, neg_view h]
  rfl

theorem ofNatural_pos {n : Nat} (h : 0 < n) : 0 < ofNatural n := by
  rw [ofNatural, if_neg h.ne']
  exact nearest_pos h

theorem ofNatural_mono {m n : Nat} (h : m ≤ n) : ofNatural m ≤ ofNatural n := by
  rcases Nat.eq_zero_or_pos m with rfl | hPos
  · exact Nat.zero_le _
  rw [ofNatural, ofNatural, if_neg hPos.ne', if_neg (by omega)]
  refine nearest_mono hPos Nat.one_pos (by omega) Nat.one_pos ?_
  gcongr

theorem ofNatural_lt {m n : Nat} (hSmall : m < 2 ^ 53) (hLt : m < n) (hWord : n ≤ 2 ^ 64) :
    ofNatural m < ofNatural n := by
  have hPos' : 0 < n := by omega
  rcases Nat.eq_zero_or_pos m with rfl | hPos
  · exact ofNatural_pos hPos'
  rw [ofNatural, ofNatural, if_neg hPos.ne', if_neg hPos'.ne']
  exact nearest_lt_nearest hPos hSmall hLt (nearest_lt_infinity hPos' hWord)

theorem natAbs_le_word (n : Int64) : n.toInt.natAbs ≤ 2 ^ 64 := by
  have hLow : -9223372036854775808 ≤ n.toInt := n.minValue_le_toInt
  have hHigh : n.toInt ≤ 9223372036854775807 := n.toInt_le
  omega

/-- An integer as a real has the sign of the integer and the pattern nearest to its magnitude. -/
theorem realOfInteger_eq (n : Int64) :
    Number.realOfInteger n = packed (decide (n.toInt < 0)) (ofNatural n.toInt.natAbs) := by
  have hWord := natAbs_le_word n
  unfold Number.realOfInteger
  cases hInt : n.toInt with
  | ofNat m =>
      rw [hInt] at hWord
      exact ofNat_eq hWord
  | negSucc m =>
      rw [hInt] at hWord
      have hSucc : m + 1 ≤ 2 ^ 64 := hWord
      rw [decide_eq_true (Int.negSucc_lt_zero m)]
      show Float.neg (Float.ofNat (m + 1)) = packed true (ofNatural (m + 1))
      rw [ofNat_eq hSucc, neg_packed (ofNatural_lt_infinity hSucc)]

/-- The rank of an integer as a real. -/
def integerRank (n : Int) : Int := position (decide (n < 0)) (ofNatural n.natAbs)

theorem integerRank_of_nonneg {n : Int} (h : 0 ≤ n) : integerRank n = ofNatural n.natAbs := by
  rw [integerRank, decide_eq_false (by omega)]
  rfl

theorem integerRank_of_neg {n : Int} (h : n < 0) : integerRank n = -ofNatural n.natAbs := by
  rw [integerRank, decide_eq_true h]
  rfl

theorem rank_realOfInteger (n : Int64) : rank (Number.realOfInteger n) = integerRank n.toInt := by
  obtain ⟨hNegative, hPattern⟩ := view_packed (decide (n.toInt < 0))
    (ofNatural_lt_infinity (natAbs_le_word n)).le
  rw [rank, realOfInteger_eq, hNegative, hPattern, integerRank]

theorem isNaN_realOfInteger (n : Int64) : (Number.realOfInteger n).isNaN = false := by
  obtain ⟨_, hPattern⟩ := view_packed (decide (n.toInt < 0))
    (ofNatural_lt_infinity (natAbs_le_word n)).le
  rw [← Bool.not_eq_true, isNaN_iff, realOfInteger_eq, hPattern]
  exact (ofNatural_lt_infinity (natAbs_le_word n)).not_gt

/-- A greater integer is not a smaller real. -/
theorem integerRank_mono {m n : Int} (h : m ≤ n) : integerRank m ≤ integerRank n := by
  rcases lt_or_ge m 0 with hm | hm <;> rcases lt_or_ge n 0 with hn | hn
  · have hMono : ofNatural n.natAbs ≤ ofNatural m.natAbs := ofNatural_mono (by omega)
    rw [integerRank_of_neg hm, integerRank_of_neg hn]
    omega
  · rw [integerRank_of_neg hm, integerRank_of_nonneg hn]
    omega
  · omega
  · have hMono : ofNatural m.natAbs ≤ ofNatural n.natAbs := ofNatural_mono (by omega)
    rw [integerRank_of_nonneg hm, integerRank_of_nonneg hn]
    omega

/-- Integers that become one real are far from zero. -/
theorem integerRank_lt {m n : Int} (h : m < n) (hm : m.natAbs ≤ 2 ^ 64) (hn : n.natAbs ≤ 2 ^ 64)
    (hSmall : m.natAbs < 2 ^ 53 ∨ n.natAbs < 2 ^ 53) : integerRank m < integerRank n := by
  rcases lt_or_ge m 0 with hmSign | hmSign <;> rcases lt_or_ge n 0 with hnSign | hnSign
  · have hLt : ofNatural n.natAbs < ofNatural m.natAbs := ofNatural_lt (by omega) (by omega) hm
    rw [integerRank_of_neg hmSign, integerRank_of_neg hnSign]
    omega
  · have hPos : 0 < ofNatural m.natAbs := ofNatural_pos (by omega)
    rw [integerRank_of_neg hmSign, integerRank_of_nonneg hnSign]
    omega
  · omega
  · have hLt : ofNatural m.natAbs < ofNatural n.natAbs := ofNatural_lt (by omega) (by omega) hn
    rw [integerRank_of_nonneg hmSign, integerRank_of_nonneg hnSign]
    omega

end Integers

end MiniScheme.Binary64
