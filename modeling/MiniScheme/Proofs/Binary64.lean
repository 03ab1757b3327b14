import Mathlib.Algebra.Order.Field.Power
import Mathlib.Data.Int.Log
import Mathlib.Data.Rat.Floor
import Mathlib.Tactic.Ring
import MiniScheme.Binary64

/-!
# Patterns and the values they stand for

A binary64 value is a bit pattern, and all that is computed with patterns is exact. So there is
little to be believed of reals: this module relates patterns to rational numbers and to the reals
of the language.

`nearest num den` works on two natural numbers, and its first guess at an exponent depends on how
the fraction is written. Its result does not: the exponent of the last place is the binary
logarithm of the fraction (`placeExponent_eq`), and rounding to that place looks at the quotient
only. A fraction that is the value of a pattern is rounded to that pattern.

On the side of reals, a pattern of 64 bits is taken apart into sign, exponent and significand and
put together again without a change, if it is not one of the many patterns that are no number
(`ofBits_toBits`); of these a real has only one.

## Main results

* `nearest_congr`: the nearest value depends on the value of the fraction alone.
* `nearest_of_value`: a value is nearest to itself.
* `ofPattern_pattern`: a real is its sign and its pattern.
* `eq_of_infinity_lt_pattern`: there is one real that is not a number.
-/

namespace MiniScheme.Binary64

/-! ## Scaling and rounding -/

theorem scale_pos {num den : Nat} (hNum : 0 < num) (hDen : 0 < den) (exponent : Int) :
    0 < (scale num den exponent).1 ∧ 0 < (scale num den exponent).2 := by
  unfold scale
  split
  · exact ⟨hNum, Nat.mul_pos hDen (Nat.pow_pos (by decide))⟩
  · exact ⟨Nat.mul_pos hNum (Nat.pow_pos (by decide)), hDen⟩

theorem scale_div (num den : Nat) (exponent : Int) :
    ((scale num den exponent).1 : ℚ) / (scale num den exponent).2 =
      (num : ℚ) / den / 2 ^ exponent := by
  unfold scale
  split
  · next h =>
      obtain ⟨n, rfl⟩ := Int.eq_ofNat_of_zero_le h
      simp [div_div]
  · next h =>
      obtain ⟨n, rfl⟩ : ∃ n : Nat, exponent = -(n : Int) := ⟨exponent.natAbs, by omega⟩
      simp [div_eq_mul_inv]
      ring

theorem roundDiv_mul_right (num den : Nat) {k : Nat} (hk : 0 < k) :
    roundDiv (num * k) (den * k) = roundDiv num den := by
  have hDoubled : 2 * (num * k % (den * k)) = 2 * (num % den) * k := by
    rw [Nat.mul_mod_mul_right, Nat.mul_assoc]
  unfold roundDiv
  simp only [hDoubled, Nat.mul_div_mul_right _ _ hk, Nat.mul_lt_mul_right hk]

theorem roundDiv_congr {num den num' den' : Nat} (hDen : 0 < den) (hDen' : 0 < den')
    (h : (num : ℚ) / den = num' / den') : roundDiv num den = roundDiv num' den' := by
  have hCross : num * den' = num' * den := by
    have hDenQ : (den : ℚ) ≠ 0 := by exact_mod_cast hDen.ne'
    have hDenQ' : (den' : ℚ) ≠ 0 := by exact_mod_cast hDen'.ne'
    have hCross := (div_eq_div_iff hDenQ hDenQ').1 h
    exact_mod_cast hCross
  rw [← roundDiv_mul_right num den hDen', ← roundDiv_mul_right num' den' hDen, hCross,
    Nat.mul_comm den den']

theorem roundDiv_one (n : Nat) : roundDiv n 1 = n := by
  simp [roundDiv, Nat.mod_one]

theorem lt_two_zpow_iff {v : ℚ} (hv : 0 < v) (e : Int) : v < 2 ^ e ↔ Int.log 2 v < e := by
  exact_mod_cast Int.lt_zpow_iff_log_lt (b := 2) (by decide) hv

theorem two_zpow_le_iff {v : ℚ} (hv : 0 < v) (e : Int) : 2 ^ e ≤ v ↔ e ≤ Int.log 2 v := by
  exact_mod_cast Int.zpow_le_iff_le_log (b := 2) (by decide) hv

theorem div_lt_iff_cast {n d k : Nat} (hd : 0 < d) : n / d < k ↔ (n : ℚ) / d < k := by
  have hdQ : (0 : ℚ) < d := by exact_mod_cast hd
  rw [Nat.div_lt_iff_lt_mul hd, div_lt_iff₀ hdQ]
  exact_mod_cast Iff.rfl

/-- The fraction lies between the powers of two that the lengths of its parts suggest. -/
theorem fraction_between {num den : Nat} (hNum : 0 < num) (hDen : 0 < den) :
    (2 : ℚ) ^ ((num.log2 : Int) - den.log2 - 1) ≤ (num : ℚ) / den ∧
      (num : ℚ) / den < 2 ^ ((num.log2 : Int) - den.log2 + 1) := by
  have hNumLow : ((2 : ℚ) ^ (num.log2 : Int)) ≤ num := by
    exact_mod_cast Nat.log2_self_le hNum.ne'
  have hNumHigh : (num : ℚ) < 2 ^ ((num.log2 : Int) + 1) := by
    exact_mod_cast @Nat.lt_log2_self num
  have hDenLow : ((2 : ℚ) ^ (den.log2 : Int)) ≤ den := by
    exact_mod_cast Nat.log2_self_le hDen.ne'
  have hDenHigh : (den : ℚ) < 2 ^ ((den.log2 : Int) + 1) := by
    exact_mod_cast @Nat.lt_log2_self den
  have hDenPos : (0 : ℚ) < den := by exact_mod_cast hDen
  have hTwo : (2 : ℚ) ≠ 0 := by norm_num
  constructor
  · rw [le_div_iff₀ hDenPos]
    calc (2 : ℚ) ^ ((num.log2 : Int) - den.log2 - 1) * den
        ≤ 2 ^ ((num.log2 : Int) - den.log2 - 1) * 2 ^ ((den.log2 : Int) + 1) := by gcongr
      _ = 2 ^ (num.log2 : Int) := by rw [← zpow_add₀ hTwo]; congr 1; omega
      _ ≤ num := hNumLow
  · rw [div_lt_iff₀ hDenPos]
    calc (num : ℚ) < 2 ^ ((num.log2 : Int) + 1) := hNumHigh
      _ = 2 ^ ((num.log2 : Int) - den.log2 + 1) * 2 ^ (den.log2 : Int) := by
          rw [← zpow_add₀ hTwo]; congr 1; omega
      _ ≤ 2 ^ ((num.log2 : Int) - den.log2 + 1) * den := by gcongr

theorem placeExponent_eq {num den : Nat} (hNum : 0 < num) (hDen : 0 < den) :
    placeExponent num den = max leastExponent (Int.log 2 ((num : ℚ) / den) - 52) := by
  have hPos : 0 < (num : ℚ) / den := by positivity
  obtain ⟨hLow, hHigh⟩ := fraction_between hNum hDen
  rw [two_zpow_le_iff hPos] at hLow
  rw [lt_two_zpow_iff hPos] at hHigh
  have hTwo : (2 : ℚ) ≠ 0 := by norm_num
  have hFits : ∀ guess : Int, (scale num den guess).1 / (scale num den guess).2 < 2 * octave ↔
      (num : ℚ) / den < 2 ^ (guess + 53) := by
    intro guess
    have hOctave : ((2 * octave : Nat) : ℚ) = 2 ^ (53 : Int) := by norm_num [octave]
    rw [div_lt_iff_cast (scale_pos hNum hDen guess).2, scale_div, hOctave,
      div_lt_iff₀ (zpow_pos (by norm_num) guess), ← zpow_add₀ hTwo, add_comm]
  have hGuess : (num.log2 : Int) - den.log2 - 53 + 53 = num.log2 - den.log2 := by omega
  unfold placeExponent
  dsimp only
  congr 1
  split
  · next h =>
      rw [hFits, hGuess, lt_two_zpow_iff hPos] at h
      omega
  · next h =>
      rw [hFits, hGuess, lt_two_zpow_iff hPos] at h
      omega

/-- The nearest value depends on the value of the fraction alone. -/
theorem nearest_congr {num den num' den' : Nat} (hNum : 0 < num) (hDen : 0 < den)
    (hNum' : 0 < num') (hDen' : 0 < den') (h : (num : ℚ) / den = num' / den') :
    nearest num den = nearest num' den' := by
  unfold nearest
  rw [placeExponent_eq hNum hDen, placeExponent_eq hNum' hDen', h]
  dsimp only
  congr 2
  refine roundDiv_congr (scale_pos hNum hDen _).2 (scale_pos hNum' hDen' _).2 ?_
  rw [scale_div, scale_div, h]

/-- The value of a finite pattern. -/
def value (pattern : Nat) : ℚ := (parts pattern).1 * 2 ^ (parts pattern).2

/-- The significand of a pattern is below `2 ^ 53`, and not below `2 ^ 52` unless the exponent is
the least one. -/
theorem parts_bounds {pattern : Nat} :
    leastExponent ≤ (parts pattern).2 ∧ (parts pattern).1 < 2 * octave ∧
      (leastExponent < (parts pattern).2 → octave ≤ (parts pattern).1) := by
  have hMod : pattern % octave < octave := Nat.mod_lt _ (by decide)
  unfold parts
  dsimp only
  split
  · exact ⟨le_refl _, by omega, fun h => absurd h (lt_irrefl _)⟩
  · refine ⟨by omega, ?_, ?_⟩
    · show octave + _ < _
      omega
    · intro _
      show octave ≤ octave + _
      omega

/-- Adding the significand to the exponent field makes up the pattern. -/
theorem parts_pattern (pattern : Nat) :
    ((parts pattern).2 - leastExponent).toNat * octave + (parts pattern).1 = pattern := by
  have hDiv := Nat.div_add_mod pattern octave
  unfold parts
  dsimp only
  split
  · next h =>
      rw [h] at hDiv
      simpa using hDiv
  · next h =>
      obtain ⟨k, hk⟩ := Nat.exists_eq_succ_of_ne_zero h
      rw [hk] at hDiv ⊢
      have hField : (leastExponent + ((k + 1 - 1 : Nat) : Int) - leastExponent).toNat = k := by
        omega
      rw [Nat.succ_eq_add_one] at *
      rw [hField]
      rw [Nat.mul_add, Nat.mul_one, Nat.mul_comm] at hDiv
      omega

/-- A value is nearest to itself. -/
theorem nearest_of_value {num den pattern : Nat} (hNum : 0 < num) (hDen : 0 < den)
    (hFinite : pattern < infinity) (h : (num : ℚ) / den = value pattern) :
    nearest num den = pattern := by
  have hTwo : (2 : ℚ) ≠ 0 := by norm_num
  obtain ⟨hLeast, hBelow, hNormal⟩ := @parts_bounds pattern
  have hPos : 0 < (num : ℚ) / den := by positivity
  -- The exponent of the last place is that of the pattern.
  have hPlace : placeExponent num den = (parts pattern).2 := by
    have hHigh : Int.log 2 ((num : ℚ) / den) < 53 + (parts pattern).2 := by
      have hBelowQ : ((parts pattern).1 : ℚ) < 2 ^ (53 : Int) := by
        exact_mod_cast hBelow
      rw [← lt_two_zpow_iff hPos, h, value, zpow_add₀ hTwo]
      gcongr
    have hLow : leastExponent < (parts pattern).2 →
        52 + (parts pattern).2 ≤ Int.log 2 ((num : ℚ) / den) := by
      intro hLt
      have hNormalQ : (2 : ℚ) ^ (52 : Int) ≤ (parts pattern).1 := by
        exact_mod_cast hNormal hLt
      rw [← two_zpow_le_iff hPos, h, value, zpow_add₀ hTwo]
      gcongr
    rw [placeExponent_eq hNum hDen]
    omega
  have hRound : roundDiv (scale num den (parts pattern).2).1 (scale num den (parts pattern).2).2 =
      (parts pattern).1 := by
    rw [← roundDiv_one (parts pattern).1]
    refine roundDiv_congr (scale_pos hNum hDen _).2 Nat.one_pos ?_
    rw [scale_div, h, value, mul_div_cancel_right₀ _ (zpow_ne_zero _ hTwo)]
    simp
  unfold nearest
  dsimp only
  rw [hPlace, hRound, parts_pattern]
  exact Nat.min_eq_right (Nat.le_of_lt hFinite)

/-! ## Reals and their bits -/

section Bits

open Float.Model Float.Model.UnpackedFloat

theorem toBitVec_ofBitVec (sign : BitVec 1) : (Sign.ofBitVec sign).toBitVec = sign := by
  revert sign
  decide

/-- Sign, exponent and significand make up the bits they are taken from. -/
theorem packComponents_unpack (bits : BitVec Format.binary64.numBits) :
    packComponents .binary64 (Sign.ofBitVec (unpackSign bits)) (unpackExponent bits)
      (unpackMantissa bits) = bits := by
  unfold packComponents
  rw [toBitVec_ofBitVec]
  apply BitVec.eq_of_getLsbD_eq
  intro i hi
  show (bits.extractLsb 63 63 ++ bits.extractLsb 62 52 ++ bits.extractLsb 51 0).getLsbD i = _
  simp only [BitVec.getLsbD_append, BitVec.getLsbD_extractLsb]
  grind

theorem pack_subnormal (sign : Sign) {m : Nat} {e : Int} (hPos : 0 < m) (hSmall : m < 2 ^ 52)
    (he : e = -1074) :
    UnpackedFloat.pack .binary64 (.finite sign m e hPos) =
      packComponents .binary64 sign 0#11 (BitVec.ofNat 52 m) := by
  subst he
  have hLog : m.log2 < 52 := (Nat.log2_lt (Nat.ne_of_gt hPos)).2 hSmall
  have hShort : ¬m.log2 + 1 = 53 := by omega
  exact if_neg hShort

theorem pack_normal (sign : Sign) {m field : Nat} {e : Int} (hPos : 0 < m) (hLow : 2 ^ 52 ≤ m)
    (hHigh : m < 2 ^ 53) (hField : field < 2047) (he : e = field - 1075) :
    UnpackedFloat.pack .binary64 (.finite sign m e hPos) =
      packComponents .binary64 sign (BitVec.ofNat 11 field) (BitVec.ofNat 52 m) := by
  have hLog : m.log2 + 1 = 53 := by
    have hBelow := (Nat.log2_lt (Nat.ne_of_gt hPos)).2 hHigh
    have hAbove := (Nat.le_log2 (Nat.ne_of_gt hPos)).2 hLow
    omega
  have hBiased : (e + (1023 : Nat) + (52 : Nat)).toNat = field := by omega
  have hFinite : ¬2 ^ 11 ≤ (e + (1023 : Nat) + (52 : Nat)).toNat + 1 := by omega
  refine (if_neg hFinite).trans ((if_pos hLog).trans ?_)
  show packComponents .binary64 sign (BitVec.ofNat 11 (e + (1023 : Nat) + (52 : Nat)).toNat) _ = _
  rw [hBiased]

/-- A normal significand has a bit in front that the pattern leaves out. -/
theorem toNat_hidden_append (m : BitVec 52) : (1#1 ++ m).toNat = 2 ^ 52 + m.toNat := by
  rw [BitVec.toNat_append, ← Nat.shiftLeft_add_eq_or_of_lt m.isLt]
  rfl

theorem ofNat_hidden_add (m : BitVec 52) : BitVec.ofNat 52 (2 ^ 52 + m.toNat) = m := by
  apply BitVec.eq_of_toNat_eq
  rw [BitVec.toNat_ofNat, Nat.add_mod_left, Nat.mod_eq_of_lt m.isLt]

/-- Taking valid bits apart and putting them together changes nothing. The cases are those of
taking apart: infinite or not a number, zero or subnormal, normal. -/
theorem pack_unpack {bits : BitVec Format.binary64.numBits} (h : Format.binary64.Valid bits) :
    UnpackedFloat.pack .binary64 (UnpackedFloat.unpack .binary64 bits) = bits := by
  have hParts := packComponents_unpack bits
  have hSmall : (unpackMantissa bits).toNat < 2 ^ 52 := (unpackMantissa bits).isLt
  unfold UnpackedFloat.unpack
  dsimp only
  by_cases hOnes : unpackExponent bits = -1#_
  · rw [if_pos hOnes]
    by_cases hZero : unpackMantissa bits = 0#_
    · rw [if_pos hZero]
      rw [hOnes, hZero] at hParts
      exact hParts
    · rw [if_neg hZero]
      exact (h.eq_packedNaN hOnes hZero).symm
  rw [if_neg hOnes]
  by_cases hLeast : unpackExponent bits = 0#_
  · rw [if_pos hLeast]
    rw [hLeast] at hParts
    by_cases hZero : unpackMantissa bits = 0#_
    · rw [dif_pos hZero]
      rw [hZero] at hParts
      exact hParts
    · rw [dif_neg hZero, pack_subnormal _ _ hSmall (by rw [hLeast]; rfl), BitVec.ofNat_toNat]
      exact hParts
  · have hField : (unpackExponent bits).toNat < 2047 := by
      have hLt : (unpackExponent bits).toNat < 2 ^ 11 := (unpackExponent bits).isLt
      have hNe : (unpackExponent bits).toNat ≠ 2047 := fun hEq =>
        hOnes (BitVec.eq_of_toNat_eq hEq)
      omega
    have hWhole : (1#1 ++ unpackMantissa bits).toNat = 2 ^ 52 + (unpackMantissa bits).toNat :=
      toNat_hidden_append (unpackMantissa bits)
    rw [if_neg hLeast, pack_normal _ _ (by omega) (by omega) hField (by rfl), hWhole,
      ofNat_hidden_add, BitVec.ofNat_toNat]
    exact hParts

theorem ofBits_toBits (x : Float) : Float.ofBits x.toBits = x := by
  obtain ⟨⟨bits, hValid⟩⟩ := x
  have hBits := pack_unpack hValid
  show Float.ofModel
    ⟨⟨UnpackedFloat.pack .binary64 (UnpackedFloat.unpack .binary64 bits.toBitVec)⟩, _⟩ = _
  congr 2
  exact congrArg UInt64.ofBitVec hBits

/-- A real is its sign and its pattern. -/
theorem ofPattern_pattern (x : Float) : ofPattern (isNegative x) (pattern x) = x := by
  have hLt : x.toBits.toNat < 2 * signBit := x.toBits.toNat_lt
  have hBits : (if isNegative x = true then signBit + pattern x else pattern x) =
      x.toBits.toNat := by
    unfold isNegative pattern
    split
    · next h =>
        rw [decide_eq_true_iff] at h
        rw [Nat.mod_eq_sub_mod h, Nat.mod_eq_of_lt (by omega)]
        omega
    · next h =>
        rw [decide_eq_true_iff, Nat.not_le] at h
        exact Nat.mod_eq_of_lt h
  rw [ofPattern, hBits, UInt64.ofNat_toNat, ofBits_toBits]

/-- All patterns above that of infinity are one and the same real. -/
theorem eq_of_infinity_lt_pattern {x : Float} (h : infinity < pattern x) :
    x = ofPattern false (infinity + octave / 2) := by
  have hPattern : infinity < x.toBits.toNat % signBit := h
  have hExponent : (unpackExponent x.toBits.toBitVec : BitVec Format.binary64.exponentBits) =
      -1#11 := by
    apply BitVec.eq_of_toNat_eq
    simp only [unpackExponent, BitVec.toNat_cast, BitVec.extractLsb_toNat,
      Nat.shiftRight_eq_div_pow]
    show x.toBits.toNat / 2 ^ 52 % 2 ^ 11 = 2047
    simp only [infinity, octave, signBit] at hPattern
    norm_num at hPattern ⊢
    omega
  have hMantissa : (unpackMantissa x.toBits.toBitVec :
      BitVec Format.binary64.mantissaBitsWithoutImplicit) ≠ 0#52 := by
    intro hZero
    have hMod : x.toBits.toNat % 2 ^ 52 = 0 := congrArg BitVec.toNat hZero
    simp only [infinity, octave, signBit] at hPattern
    norm_num at hPattern hMod
    omega
  have hBits : x.toBits.toBitVec = packedNaN Format.binary64 :=
    x.toModel.valid.eq_packedNaN hExponent hMantissa
  have hCanonical : x.toBits = UInt64.ofNat (infinity + octave / 2) := by
    apply UInt64.toBitVec_inj.1
    rw [hBits]
    decide
  rw [← ofBits_toBits x, hCanonical]
  rfl

end Bits

end MiniScheme.Binary64
