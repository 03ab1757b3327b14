import Mathlib.Order.Compare
import MiniScheme.Proofs.Binary64

/-!
# The order of reals

Patterns of one sign are ordered as the values they stand for. So a real that is a number has a
place on a line of integers, its `rank`: the pattern itself if the sign is positive, the pattern
counted downwards from zero otherwise. Both zeros have rank zero.

What a comparison of reals looks at is sign, exponent and significand, one after the other. The
first step is therefore to say what these are in terms of the pattern (`unpack_eq`); the second is
that comparing first exponents and then significands compares patterns (`compare_parts`).

## Main results

* `lt_iff_rank`, `beq_iff_rank`: the order and the equality of reals are those of their ranks.
* `isNaN_iff`: a real is no number exactly if its pattern is above that of infinity.
* `view_packed`: each sign and each pattern up to that of infinity belong to a real.
-/

namespace MiniScheme.Binary64

open Float.Model Float.Model.UnpackedFloat

/-! ## A real taken apart -/

/-- The sign of a real. -/
def sign (negative : Bool) : Sign := if negative then .negative else .positive

/-- A real of the given sign and pattern, taken apart. -/
def view (negative : Bool) (pattern : Nat) : UnpackedFloat :=
  if infinity < pattern then .notANumber
  else if pattern = infinity then .infinity (sign negative)
  else if h : (parts pattern).1 = 0 then .zero (sign negative)
  else .finite (sign negative) (parts pattern).1 (parts pattern).2 (Nat.pos_of_ne_zero h)

theorem view_of_parts (negative : Bool) {p m : Nat} {e : Int} (hFinite : p < infinity)
    (hParts : parts p = (m, e)) :
    view negative p =
      if h : m = 0 then .zero (sign negative)
      else .finite (sign negative) m e (Nat.pos_of_ne_zero h) := by
  obtain rfl : (parts p).1 = m := congrArg Prod.fst hParts
  obtain rfl : (parts p).2 = e := congrArg Prod.snd hParts
  rw [view, if_neg hFinite.not_gt, if_neg hFinite.ne]

theorem parts_eq_zero_iff {pattern : Nat} : (parts pattern).1 = 0 ↔ pattern = 0 := by
  have hPattern := parts_pattern pattern
  obtain ⟨hLeast, -, hNormal⟩ := @parts_bounds pattern
  have hOctave : 0 < octave := by decide
  constructor
  · intro h
    have hExponent : (parts pattern).2 = leastExponent := by
      by_contra hNe
      have hAbove := hNormal (lt_of_le_of_ne hLeast (Ne.symm hNe))
      omega
    rw [h, hExponent, sub_self] at hPattern
    simpa using hPattern.symm
  · rintro rfl
    rfl

section Fields

variable (bits : BitVec Format.binary64.numBits)

theorem toNat_unpackExponent :
    (unpackExponent bits).toNat = bits.toNat % signBit / octave := by
  simp only [unpackExponent, BitVec.toNat_cast, BitVec.extractLsb_toNat,
    Nat.shiftRight_eq_div_pow]
  show bits.toNat / 2 ^ 52 % 2 ^ 11 = bits.toNat % 2 ^ 63 / 2 ^ 52
  omega

theorem toNat_unpackMantissa :
    (unpackMantissa bits).toNat = bits.toNat % signBit % octave := by
  simp only [unpackMantissa, BitVec.toNat_cast, BitVec.extractLsb_toNat,
    Nat.shiftRight_eq_div_pow]
  show bits.toNat / 2 ^ 0 % 2 ^ 52 = bits.toNat % 2 ^ 63 % 2 ^ 52
  omega

theorem ofBitVec_unpackSign :
    Sign.ofBitVec (unpackSign bits) = sign (decide (signBit ≤ bits.toNat)) := by
  have hLt : bits.toNat < 2 ^ 64 := bits.isLt
  have hSign : (unpackSign bits).toNat = bits.toNat / 2 ^ 63 % 2 := by
    unfold unpackSign
    simp only [BitVec.toNat_cast, BitVec.extractLsb_toNat, Nat.shiftRight_eq_div_pow]
  by_cases h : signBit ≤ bits.toNat
  · have hOne : unpackSign bits = 1#1 := by
      apply BitVec.eq_of_toNat_eq
      rw [hSign]
      simp only [signBit, Nat.pow_eq] at h
      show _ = 1
      omega
    rw [hOne, sign, if_pos (decide_eq_true h)]
    rfl
  · have hZero : unpackSign bits = 0#1 := by
      apply BitVec.eq_of_toNat_eq
      rw [hSign]
      simp only [signBit, Nat.pow_eq] at h
      show _ = 0
      omega
    rw [hZero, sign, if_neg (by simpa using h)]
    rfl

end Fields

theorem finite_congr {s : Sign} {m m' : Nat} {e e' : Int} {h : 0 < m} {h' : 0 < m'}
    (hm : m = m') (he : e = e') : UnpackedFloat.finite s m e h = .finite s m' e' h' := by
  subst hm he
  rfl

section Kinds

variable {bits : BitVec Format.binary64.numBits} {negative : Bool} {p : Nat}
  (hSign : Sign.ofBitVec (unpackSign bits) = sign negative)
  (hExponent : (unpackExponent bits).toNat = p / octave)
  (hMantissa : (unpackMantissa bits).toNat = p % octave)

include hMantissa in
theorem unpackMantissa_eq_zero_iff : unpackMantissa bits = 0#_ ↔ p % octave = 0 := by
  rw [← hMantissa, ← BitVec.toNat_inj]
  rfl

include hExponent in
theorem lt_infinity_of_exponent (hOnes : unpackExponent bits ≠ -1#_) : p < infinity := by
  have hNe : p / octave ≠ 2047 := fun hEq =>
    hOnes (BitVec.eq_of_toNat_eq (hExponent.trans hEq))
  have hBound : (unpackExponent bits).toNat < 2 ^ 11 := (unpackExponent bits).isLt
  have hField : p / octave < 2047 := by omega
  exact (Nat.div_lt_iff_lt_mul (by decide)).1 hField

include hSign hExponent hMantissa

/-- The greatest exponent field is that of infinity and of what is no number. -/
theorem unpack_of_ones (hOnes : unpackExponent bits = -1#_) :
    UnpackedFloat.unpack .binary64 bits = view negative p := by
  have hField : p / octave = 2047 := by
    rw [← hExponent, hOnes]
    rfl
  have hSplit := Nat.div_add_mod p octave
  have hOctave : octave = 2 ^ 52 := rfl
  have hInfinity : infinity = 2047 * 2 ^ 52 := rfl
  have hZeroMantissa := unpackMantissa_eq_zero_iff hMantissa
  rw [hField] at hSplit
  unfold UnpackedFloat.unpack view
  dsimp only
  rw [hSign, if_pos hOnes]
  by_cases hZero : unpackMantissa bits = 0#_
  · have hEq : p = infinity := by
      rw [hZeroMantissa.1 hZero] at hSplit
      omega
    rw [if_pos hZero, if_neg (by omega), if_pos hEq]
  · have hAbove : infinity < p := by
      rw [hZeroMantissa] at hZero
      omega
    rw [if_neg hZero, if_pos hAbove]

/-- The least exponent field is that of zero and of the reals next to it. -/
theorem unpack_of_zeros (hOnes : unpackExponent bits ≠ -1#_) (hZeros : unpackExponent bits = 0#_) :
    UnpackedFloat.unpack .binary64 bits = view negative p := by
  have hFinite := lt_infinity_of_exponent hExponent hOnes
  have hField : p / octave = 0 := by
    rw [← hExponent, hZeros]
    rfl
  have hParts : parts p = (p % octave, leastExponent) := if_pos hField
  have hZeroMantissa := unpackMantissa_eq_zero_iff hMantissa
  rw [view_of_parts negative hFinite hParts]
  unfold UnpackedFloat.unpack
  dsimp only
  rw [hSign, if_neg hOnes, if_pos hZeros]
  by_cases hZero : unpackMantissa bits = 0#_
  · rw [dif_pos hZero, dif_pos (hZeroMantissa.1 hZero)]
  · rw [dif_neg hZero, dif_neg (mt hZeroMantissa.2 hZero)]
    refine finite_congr hMantissa ?_
    rw [hZeros]
    rfl

/-- With any other exponent field the significand has a leading digit that is not written. -/
theorem unpack_of_exponent (hOnes : unpackExponent bits ≠ -1#_)
    (hZeros : unpackExponent bits ≠ 0#_) :
    UnpackedFloat.unpack .binary64 bits = view negative p := by
  have hFinite := lt_infinity_of_exponent hExponent hOnes
  have hField : p / octave ≠ 0 := fun hEq =>
    hZeros (BitVec.eq_of_toNat_eq (hExponent.trans hEq))
  have hParts : parts p = (octave + p % octave, leastExponent + (p / octave - 1 : Nat)) :=
    if_neg hField
  have hOctave : octave = 2 ^ 52 := rfl
  have hNonzero : ¬octave + p % octave = 0 := by omega
  rw [view_of_parts negative hFinite hParts, dif_neg hNonzero]
  unfold UnpackedFloat.unpack
  dsimp only
  rw [hSign, if_neg hOnes, if_neg hZeros]
  refine finite_congr ?_ ?_
  · rw [← hMantissa]
    exact toNat_hidden_append (unpackMantissa bits)
  · rw [hExponent]
    show ((p / octave : Nat) : Int) - (1023 + 52 : Nat) = -1074 + (p / octave - 1 : Nat)
    omega

end Kinds

theorem unpack_eq_view (bits : BitVec Format.binary64.numBits) :
    UnpackedFloat.unpack .binary64 bits =
      view (decide (signBit ≤ bits.toNat)) (bits.toNat % signBit) := by
  have hSign := ofBitVec_unpackSign bits
  have hExponent := toNat_unpackExponent bits
  have hMantissa := toNat_unpackMantissa bits
  by_cases hOnes : unpackExponent bits = -1#_
  · exact unpack_of_ones hSign hExponent hMantissa hOnes
  by_cases hZeros : unpackExponent bits = 0#_
  · exact unpack_of_zeros hSign hExponent hMantissa hOnes hZeros
  · exact unpack_of_exponent hSign hExponent hMantissa hOnes hZeros

/-- A real is taken apart into the parts of its pattern. -/
theorem unpack_eq (x : Float) :
    UnpackedFloat.unpack .binary64 x.toBits.toBitVec = view (isNegative x) (pattern x) :=
  unpack_eq_view x.toBits.toBitVec

/-- The real of the given sign and pattern. -/
def packed (negative : Bool) (pattern : Nat) : Float :=
  Float.ofModel (Float.Model.pack (view negative pattern))

/-- Each sign and each pattern up to that of infinity belong to a real. -/
theorem view_packed (negative : Bool) {p : Nat} (h : p ≤ infinity) :
    isNegative (packed negative p) = negative ∧ pattern (packed negative p) = p := by
  have hInfinity : infinity < signBit := by decide
  have hOctave : octave = 2 ^ 52 := rfl
  have hSignBit : signBit = 2 ^ 63 := rfl
  have hInfinityEq : infinity = 2047 * 2 ^ 52 := rfl
  let bits : BitVec Format.binary64.numBits :=
    BitVec.ofNat 64 (if negative then signBit + p else p)
  have hBits : bits.toNat = if negative then signBit + p else p := by
    refine Nat.mod_eq_of_lt ?_
    show _ < 2 ^ 64
    split <;> omega
  have hMod : bits.toNat % signBit = p := by
    rw [hBits]
    split
    · rw [Nat.add_mod_left, Nat.mod_eq_of_lt (by omega)]
    · exact Nat.mod_eq_of_lt (by omega)
  have hNegative : decide (signBit ≤ bits.toNat) = negative := by
    rw [hBits]
    cases negative
    · simpa using by omega
    · simp
  have hValid : Format.binary64.Valid bits := by
    refine ⟨fun hOnes hMantissa => absurd ?_ hMantissa⟩
    have hField := toNat_unpackExponent bits
    rw [hOnes, hMod] at hField
    replace hField : 2047 = p / octave := hField
    apply BitVec.eq_of_toNat_eq
    rw [toNat_unpackMantissa, hMod]
    show p % octave = 0
    have hSplit := Nat.div_add_mod p octave
    rw [← hField] at hSplit
    omega
  have hPacked : UnpackedFloat.pack .binary64 (view negative p) = bits := by
    rw [← pack_unpack hValid, unpack_eq_view bits, hMod, hNegative]
  have hToBits : (packed negative p).toBits.toNat = bits.toNat :=
    congrArg BitVec.toNat hPacked
  exact ⟨by rw [isNegative, hToBits, hNegative], by rw [pattern, hToBits, hMod]⟩

/-! ## The order of patterns -/

/-- Patterns of a greater exponent begin an octave later. -/
theorem octave_add_le {e e' : Int} (hLeast : leastExponent ≤ e) (h : e < e') :
    (e - leastExponent).toNat * octave + octave ≤ (e' - leastExponent).toNat * octave := by
  have hSteps : (e - leastExponent).toNat + 1 ≤ (e' - leastExponent).toNat := by omega
  have hOctaves := Nat.mul_le_mul_right octave hSteps
  rwa [Nat.add_mul, Nat.one_mul] at hOctaves

/-- A smaller pattern has a smaller exponent, or the same one and a smaller significand. -/
theorem parts_lt_parts {p q : Nat} (h : p < q) :
    (parts p).2 < (parts q).2 ∨ ((parts p).2 = (parts q).2 ∧ (parts p).1 < (parts q).1) := by
  have hp := parts_pattern p
  have hq := parts_pattern q
  obtain ⟨hpLeast, -, hpNormal⟩ := @parts_bounds p
  obtain ⟨hqLeast, hqBelow, -⟩ := @parts_bounds q
  rcases lt_trichotomy (parts p).2 (parts q).2 with hLt | hEq | hGt
  · exact .inl hLt
  · refine .inr ⟨hEq, ?_⟩
    rw [← hEq] at hq
    omega
  · exfalso
    have hNormal := hpNormal (by omega)
    have hOctaves := octave_add_le hqLeast hGt
    omega

/-- To compare exponents and then significands is to compare patterns. -/
theorem compare_parts (p q : Nat) :
    (compare (parts p).2 (parts q).2).then (compare (parts p).1 (parts q).1) = compare p q := by
  rcases lt_trichotomy p q with h | rfl | h
  · rw [compare_lt_iff_lt.2 h]
    rcases parts_lt_parts h with hExponent | ⟨hExponent, hSignificand⟩
    · rw [compare_lt_iff_lt.2 hExponent]
      rfl
    · rw [compare_eq_iff_eq.2 hExponent, compare_lt_iff_lt.2 hSignificand]
      rfl
  · simp
  · rw [compare_gt_iff_gt.2 h]
    rcases parts_lt_parts h with hExponent | ⟨hExponent, hSignificand⟩
    · rw [compare_gt_iff_gt.2 hExponent]
      rfl
    · rw [compare_eq_iff_eq.2 hExponent.symm, compare_gt_iff_gt.2 hSignificand]
      rfl

/-- The place of a sign and a pattern on the line of reals. -/
def position (negative : Bool) (pattern : Nat) : Int :=
  if negative then -pattern else pattern

theorem position_false (pattern : Nat) : position false pattern = pattern := rfl

theorem position_true (pattern : Nat) : position true pattern = -pattern := rfl

theorem view_infinity (negative : Bool) :
    view negative infinity = .infinity (sign negative) := by
  rw [view, if_neg (lt_irrefl _), if_pos rfl]

theorem view_zero (negative : Bool) : view negative 0 = .zero (sign negative) := by
  rw [view, if_neg (by decide), if_neg (by decide), dif_pos (parts_eq_zero_iff.2 rfl)]

theorem view_finite (negative : Bool) {p : Nat} (hPos : 0 < p) (hFinite : p < infinity) :
    ∃ h, view negative p = .finite (sign negative) (parts p).1 (parts p).2 h := by
  have hNonzero : ¬(parts p).1 = 0 := fun h => hPos.ne' (parts_eq_zero_iff.1 h)
  refine ⟨Nat.pos_of_ne_zero hNonzero, ?_⟩
  rw [view, if_neg (by omega), if_neg (by omega), dif_neg hNonzero]

theorem compare_natCast (p q : Nat) : compare (p : Int) (q : Int) = compare p q := by
  rcases lt_trichotomy p q with h | rfl | h
  · rw [compare_lt_iff_lt.2 h, compare_lt_iff_lt.2 (by omega)]
  · simp
  · rw [compare_gt_iff_gt.2 h, compare_gt_iff_gt.2 (by omega)]

theorem compare_neg_natCast (p q : Nat) :
    compare (-p : Int) (-q : Int) = (compare p q).swap := by
  rcases lt_trichotomy p q with h | rfl | h
  · rw [compare_lt_iff_lt.2 h, compare_gt_iff_gt.2 (by omega)]
    rfl
  · simp
  · rw [compare_gt_iff_gt.2 h, compare_lt_iff_lt.2 (by omega)]
    rfl

/-- Reals that are numbers compare as their positions do. The cases are those of a real taken
apart: zero, finite, infinite; only two finite reals are compared by more than their kinds. -/
theorem compare_view (s t : Bool) {p q : Nat} (hp : p ≤ infinity) (hq : q ≤ infinity) :
    some (compare (position s p) (position t q)) = (view s p).compare (view t q) := by
  have hInfinity : 0 < infinity := by decide
  have hKind : ∀ {r : Nat} (u : Bool), r ≤ infinity →
      (r = 0 ∧ view u r = .zero (sign u)) ∨
        (0 < r ∧ r < infinity ∧ ∃ h, view u r = .finite (sign u) (parts r).1 (parts r).2 h) ∨
        (r = infinity ∧ view u r = .infinity (sign u)) := by
    intro r u hr
    rcases Nat.eq_zero_or_pos r with rfl | hPos
    · exact .inl ⟨rfl, view_zero u⟩
    rcases Nat.lt_or_eq_of_le hr with hFinite | rfl
    · exact .inr (.inl ⟨hPos, hFinite, view_finite u hPos hFinite⟩)
    · exact .inr (.inr ⟨rfl, view_infinity u⟩)
  rcases hKind s hp with ⟨hpZero, hpView⟩ | ⟨hpPos, hpFinite, _, hpView⟩ | ⟨hpInfinity, hpView⟩ <;>
    rcases hKind t hq with
      ⟨hqZero, hqView⟩ | ⟨hqPos, hqFinite, _, hqView⟩ | ⟨hqInfinity, hqView⟩ <;>
    rw [hpView, hqView]
  case inl.inl =>
    subst hpZero hqZero
    cases s <;> cases t <;> rfl
  case inr.inl.inr.inl =>
    cases s <;> cases t
    case false.false =>
      show _ = some ((compare (parts p).2 (parts q).2).then (compare (parts p).1 (parts q).1))
      rw [compare_parts, position_false, position_false, compare_natCast]
    case true.true =>
      show _ = some ((compare (parts p).2 (parts q).2).then (compare (parts p).1 (parts q).1)).swap
      rw [compare_parts, position_true, position_true, compare_neg_natCast]
    case false.true =>
      refine congrArg some (compare_gt_iff_gt.2 ?_)
      rw [position_false, position_true]
      omega
    case true.false =>
      refine congrArg some (compare_lt_iff_lt.2 ?_)
      rw [position_false, position_true]
      omega
  case inr.inr.inr.inr =>
    subst hpInfinity hqInfinity
    cases s <;> cases t <;> rfl
  -- Reals of two kinds are told apart by their kinds and signs.
  all_goals
    cases s <;> cases t <;>
      first
      | refine congrArg some (compare_lt_iff_lt.2 ?_)
        simp only [position_false, position_true]
        omega
      | refine congrArg some (compare_gt_iff_gt.2 ?_)
        simp only [position_false, position_true]
        omega

/-! ## The order of reals -/

/-- The place of a real on the line of reals. -/
def rank (x : Float) : Int := position (isNegative x) (pattern x)

/-- A real is no number exactly if its pattern is above that of infinity. -/
theorem isNaN_iff {x : Float} : x.isNaN = true ↔ infinity < pattern x := by
  have hView : x.isNaN = (view (isNegative x) (pattern x)).isNaN :=
    congrArg UnpackedFloat.isNaN (unpack_eq x)
  rw [hView]
  unfold view
  constructor
  · intro h
    by_contra hNot
    rw [if_neg hNot] at h
    by_cases hInfinity : pattern x = infinity
    · rw [if_pos hInfinity] at h
      cases h
    · rw [if_neg hInfinity] at h
      by_cases hZero : (parts (pattern x)).1 = 0
      · rw [dif_pos hZero] at h
        cases h
      · rw [dif_neg hZero] at h
        cases h
  · intro h
    rw [if_pos h]
    rfl

theorem pattern_le_infinity {x : Float} (h : x.isNaN = false) : pattern x ≤ infinity := by
  by_contra hNot
  rw [isNaN_iff.2 (Nat.lt_of_not_le hNot)] at h
  cases h

theorem compare_rank {x y : Float} (hx : x.isNaN = false) (hy : y.isNaN = false) :
    some (compare (rank x) (rank y)) = x.toModel.unpack.compare y.toModel.unpack := by
  refine (compare_view _ _ (pattern_le_infinity hx) (pattern_le_infinity hy)).trans ?_
  rw [← unpack_eq, ← unpack_eq]
  rfl

/-- The order of reals is that of their ranks. -/
theorem lt_iff_rank {x y : Float} (hx : x.isNaN = false) (hy : y.isNaN = false) :
    x < y ↔ rank x < rank y := by
  have hLess : x < y ↔ x.toModel.unpack.compare y.toModel.unpack = some .lt := by
    refine decide_eq_true_iff.trans ?_
    exact beq_iff_eq
  rw [hLess, ← compare_rank hx hy, Option.some_inj, compare_lt_iff_lt]

/-- The equality of reals is that of their ranks. -/
theorem beq_iff_rank {x y : Float} (hx : x.isNaN = false) (hy : y.isNaN = false) :
    (x == y) = true ↔ rank x = rank y := by
  have hSame : (x == y) = (x.toModel.unpack.compare y.toModel.unpack == some .eq) := rfl
  rw [hSame, beq_iff_eq, ← compare_rank hx hy, Option.some_inj, compare_eq_iff_eq]

end MiniScheme.Binary64
