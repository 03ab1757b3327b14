import MiniScheme.Number
import MiniScheme.Proofs.Decimal
import MiniScheme.Proofs.TokenLayout

/-!
# Numbers and their texts

The text of a number is read as that number. For integers this is a matter of digits and a sign.
The text of a real is laid out in one of several ways, with the point inside the digits, in front
of them or behind them, or with a power of ten; each is read as a decimal of the same value
(`read?_layout`), and that the value rounds to the real is a matter of decimals alone. No real is
written like an integer, so the two kinds of numbers stay apart.

A text that denotes a number, written by this library or not, can stand as an atom: it has no
delimiter in it (`Number.isProper_of_ofChars?`).

## Main results

* `realOfChars?_realText`: the text of a real is read as that real.
* `Number.ofChars?_render`: the text of a number is read as that number.
* `Number.isProper_of_ofChars?`: numbers are atoms.
-/

namespace MiniScheme.Decimal

/-! ## Reading digits -/

theorem natOfDigits_append (cs ds : List Char) :
    natOfDigits (cs ++ ds) = natOfDigits cs * Nat.pow 10 ds.length + natOfDigits ds := by
  show Nat.ofDigitChars 10 (cs ++ ds) 0 = Nat.ofDigitChars 10 cs 0 * _ + Nat.ofDigitChars 10 ds 0
  rw [Nat.ofDigitChars_append, Nat.ofDigitChars_eq_ofDigitChars_zero, Nat.mul_comm]
  rfl

theorem natOfDigits_toDigits (n : Nat) : natOfDigits (Nat.toDigits 10 n) = n :=
  Nat.ofDigitChars_ten_toDigits

theorem natOfDigits_replicate (k : Nat) : natOfDigits (List.replicate k '0') = 0 := by
  show Nat.ofDigitChars 10 (List.replicate k '0') 0 = 0
  simp

/-- A run of digits. -/
def Digits (cs : List Char) : Prop := ∀ c ∈ cs, c.isDigit

theorem digits_toDigits (n : Nat) : Digits (Nat.toDigits 10 n) := by
  intro c hc
  exact Nat.isDigit_of_mem_toDigits (b := 10) (by decide) (by decide) hc

theorem digits_replicate (k : Nat) : Digits (List.replicate k '0') := by
  intro c hc
  rw [List.eq_of_mem_replicate hc]
  rfl

theorem Digits.append {cs ds : List Char} (hcs : Digits cs) (hds : Digits ds) :
    Digits (cs ++ ds) := by
  intro c hc
  exact (List.mem_append.1 hc).elim (hcs c) (hds c)

theorem splitSign_of_isDigit {c : Char} {cs : List Char} (h : c.isDigit) :
    splitSign (c :: cs) = (false, c :: cs) := by
  unfold splitSign
  split
  · next heq =>
      cases heq
      exact absurd h (by decide)
  · next heq =>
      cases heq
      exact absurd h (by decide)
  · rfl

theorem readInt?_digits {cs : List Char} (hDigits : Digits cs) (hNonempty : cs ≠ []) :
    readInt? cs = some (natOfDigits cs : Int) ∧
      readInt? ('-' :: cs) = some (-(natOfDigits cs : Int)) := by
  have hAll : cs.all Char.isDigit = true := List.all_eq_true.2 hDigits
  obtain ⟨c, ds, rfl⟩ := List.exists_cons_of_ne_nil hNonempty
  have hSplit := @splitSign_of_isDigit c ds (hDigits c List.mem_cons_self)
  constructor
  · simp only [readInt?, hSplit]
    rw [if_pos ⟨hNonempty, hAll⟩]
    rfl
  · simp only [readInt?, splitSign]
    rw [if_pos ⟨hNonempty, hAll⟩]
    rfl

/-- The text of an integer is read as that integer. -/
theorem readInt?_repr (n : Int) : readInt? n.repr.toList = some n := by
  have hRead := fun m => readInt?_digits (digits_toDigits m) Nat.toDigits_ne_nil
  cases n with
  | ofNat m =>
      have hText : (Int.ofNat m).repr.toList = Nat.toDigits 10 m := Nat.toList_repr
      rw [hText, (hRead m).1, natOfDigits_toDigits]
      rfl
  | negSucc m =>
      have hText : (Int.negSucc m).repr.toList = '-' :: Nat.toDigits 10 (m + 1) := by
        show ("-" ++ Nat.repr (m + 1)).toList = _
        rw [String.toList_append, Nat.toList_repr]
        rfl
      rw [hText, (hRead (m + 1)).2, natOfDigits_toDigits]
      rfl

/-- What stands behind the digits of a decimal: nothing, or something that goes on with neither a
digit nor a point. -/
def EndsDigits (tail : List Char) : Prop := ∀ c ∈ tail.head?, ¬c.isDigit ∧ c ≠ '.'

theorem span_digits {cs tail : List Char} (hDigits : Digits cs)
    (hTail : ∀ c ∈ tail.head?, ¬c.isDigit) :
    (cs ++ tail).takeWhile Char.isDigit = cs ∧ (cs ++ tail).dropWhile Char.isDigit = tail := by
  rw [List.takeWhile_append_of_pos hDigits, List.dropWhile_append_of_pos hDigits]
  cases tail with
  | nil => simp
  | cons c tail =>
      have hc : c.isDigit = false := by simpa using hTail c rfl
      simp [hc]

theorem splitSign_append {whole : List Char} (hDigits : Digits whole) (hWhole : whole ≠ [])
    (tail : List Char) : splitSign (whole ++ tail) = (false, whole ++ tail) := by
  obtain ⟨c, cs, rfl⟩ := List.exists_cons_of_ne_nil hWhole
  exact splitSign_of_isDigit (hDigits c List.mem_cons_self)

/-- Digits in front of a point and digits behind it are one number. -/
theorem read?_point {whole behind tail : List Char} (hWhole : Digits whole) (hNonempty : whole ≠ [])
    (hBehind : Digits behind) (hTail : EndsDigits tail) :
    read? (whole ++ '.' :: (behind ++ tail)) = (readExponent? tail).map fun exponent =>
      ⟨false, natOfDigits (whole ++ behind), exponent - behind.length⟩ := by
  have hFront := @span_digits whole ('.' :: (behind ++ tail)) hWhole (by simp)
  have hBack := span_digits hBehind (fun c hc => (hTail c hc).1)
  unfold read?
  simp [splitSign_append hWhole hNonempty, hFront, splitFraction, hBack, hNonempty]

theorem read?_noPoint {whole tail : List Char} (hWhole : Digits whole) (hNonempty : whole ≠ [])
    (hTail : EndsDigits tail) :
    read? (whole ++ tail) = (readExponent? tail).map fun exponent =>
      ⟨false, natOfDigits whole, exponent⟩ := by
  have hFront := span_digits hWhole (fun c hc => (hTail c hc).1)
  have hSplit : splitFraction tail = ([], tail) := by
    unfold splitFraction
    split
    · next cs => exact absurd rfl (hTail '.' rfl).2
    · rfl
  unfold read?
  simp [splitSign_append hWhole hNonempty, hFront, hSplit, hNonempty]

theorem readExponent?_repr (n : Int) : readExponent? ('e' :: n.repr.toList) = some n := by
  rw [readExponent?, if_pos (Or.inl rfl), readInt?_repr]

theorem endsDigits_nil : EndsDigits [] := by
  intro c hc
  cases hc

/-- Zeros in front of the digits count for nothing, and each zero behind them for a power of ten. -/
theorem natOfDigits_zeros (cs : List Char) (k : Nat) :
    natOfDigits (List.replicate k '0' ++ cs) = natOfDigits cs ∧
      natOfDigits (cs ++ List.replicate k '0') = natOfDigits cs * Nat.pow 10 k := by
  constructor
  · rw [natOfDigits_append, natOfDigits_replicate, Nat.zero_mul, Nat.zero_add]
  · rw [natOfDigits_append, natOfDigits_replicate, List.length_replicate, Nat.add_zero]

section

variable {text : List Char} (hDigits : Digits text) (hNonempty : text ≠ [])
include hDigits

theorem read?_positional_of_nonpos {point : Int} (hPoint : point ≤ 0) :
    read? (positional text point) = some ⟨false, natOfDigits text, point - text.length⟩ := by
  have hZeros := digits_replicate (-point).toNat
  have hRead := read?_point (digits_replicate 1) (List.cons_ne_nil _ _)
    (hZeros.append hDigits) endsDigits_nil
  have hLength : (0 : Int) - ((-point).toNat + text.length : Nat) = point - text.length := by omega
  rw [List.append_nil, ← List.append_assoc, List.replicate_append_replicate, List.length_append,
    List.length_replicate, (natOfDigits_zeros text _).1, readExponent?, Option.map_some,
    hLength] at hRead
  rw [positional, if_pos hPoint]
  exact hRead

theorem read?_positional_of_lt {point : Nat} (hPoint : 0 < point) (hShort : point < text.length) :
    read? (positional text point) = some ⟨false, natOfDigits text, point - text.length⟩ := by
  have hWhole : Digits (text.take point) := fun c hc => hDigits c (List.mem_of_mem_take hc)
  have hBehind : Digits (text.drop point) := fun c hc => hDigits c (List.mem_of_mem_drop hc)
  have hStart : text.take point ≠ [] := List.ne_nil_of_length_pos (by grind)
  have hRead := read?_point hWhole hStart hBehind endsDigits_nil
  have hLength : (0 : Int) - (text.length - point : Nat) = point - text.length := by omega
  rw [List.append_nil, List.take_append_drop, List.length_drop, readExponent?, Option.map_some,
    hLength] at hRead
  rw [positional, if_neg (by omega)]
  simpa [Nat.sub_eq_zero_of_le (Nat.le_of_lt hShort), Nat.not_le.2 hShort] using hRead

include hNonempty

theorem read?_positional_of_le {point : Nat} (hLong : text.length ≤ point) :
    read? (positional text point) =
      some ⟨false, natOfDigits text * Nat.pow 10 (point - text.length + 1), -1⟩ := by
  have hWhole := hDigits.append (digits_replicate (point - text.length))
  have hPoint : 0 < point := Nat.lt_of_lt_of_le (List.length_pos_of_ne_nil hNonempty) hLong
  have hRead := read?_point hWhole (List.append_ne_nil_of_left_ne_nil hNonempty _)
    (digits_replicate 1) endsDigits_nil
  have hValue : natOfDigits (text ++ List.replicate (point - text.length) '0' ++
      List.replicate 1 '0') = natOfDigits text * Nat.pow 10 (point - text.length + 1) := by
    rw [List.append_assoc, List.replicate_append_replicate, (natOfDigits_zeros text _).2]
  rw [List.append_nil, hValue, readExponent?, Option.map_some] at hRead
  rw [positional, if_neg (by omega)]
  simpa [hLong, List.take_of_length_le] using hRead

theorem read?_scientific (exponent : Int) : read? (scientific text (text.length + exponent)) =
    some ⟨false, natOfDigits text, exponent⟩ := by
  have hEnds : ∀ n : Int, EndsDigits ('e' :: n.repr.toList) := by
    intro n c hc
    cases hc
    decide
  obtain ⟨c, cs, rfl⟩ := List.exists_cons_of_ne_nil hNonempty
  have hFirst : Digits [c] := fun d hd => hDigits d (by simp_all)
  have hRest : Digits cs := fun d hd => hDigits d (List.mem_cons_of_mem c hd)
  have hPower : ((c :: cs).length : Int) + exponent - 1 = cs.length + exponent := by
    rw [List.length_cons]
    omega
  unfold scientific
  rw [hPower]
  by_cases hcs : cs = []
  · have hRead := read?_noPoint hFirst (List.cons_ne_nil _ _) (hEnds (cs.length + exponent))
    simpa [readExponent?_repr, hcs] using hRead
  · have hRead := read?_point hFirst (List.cons_ne_nil _ _) hRest (hEnds (cs.length + exponent))
    have hBack : (cs.length : Int) + exponent - cs.length = exponent := by omega
    rw [readExponent?_repr, Option.map_some, hBack] at hRead
    simpa [hcs] using hRead

end

/-- The text of a decimal reads as a decimal of the same value. -/
theorem read?_layout (digits : Nat) (exponent : Int) : ∃ decimal : Decimal,
    read? (layout digits exponent) = some decimal ∧
      (decimal.digits : ℚ) * 10 ^ decimal.exponent = digits * 10 ^ exponent := by
  have hDigits := digits_toDigits digits
  have hNonempty : Nat.toDigits 10 digits ≠ [] := Nat.toDigits_ne_nil
  have hValue := natOfDigits_toDigits digits
  unfold layout
  dsimp only
  generalize Nat.toDigits 10 digits = text at hDigits hNonempty hValue ⊢
  subst hValue
  split
  · generalize hPoint : (text.length : Int) + exponent = point
    have hExponent : exponent = point - text.length := by omega
    subst hExponent
    by_cases hSmall : point ≤ 0
    · exact ⟨_, read?_positional_of_nonpos hDigits hSmall, rfl⟩
    · obtain ⟨point, rfl⟩ := Int.eq_ofNat_of_zero_le (Int.le_of_lt (Int.not_le.1 hSmall))
      by_cases hLong : text.length ≤ point
      · refine ⟨_, read?_positional_of_le hDigits hNonempty hLong, ?_⟩
        have hPlaces : ((point - text.length + 1 : Nat) : Int) + -1 = point - text.length := by
          omega
        show ((natOfDigits text * Nat.pow 10 (point - text.length + 1) : Nat) : ℚ) *
          10 ^ (-1 : Int) = natOfDigits text * 10 ^ ((point : Int) - text.length)
        rw [← hPlaces, zpow_add₀ (by norm_num), zpow_natCast]
        push_cast [Nat.pow_eq]
        ring
      · exact ⟨_, read?_positional_of_lt hDigits (by omega) (Nat.not_le.1 hLong), rfl⟩
  · exact ⟨_, read?_scientific hDigits hNonempty exponent, rfl⟩

/-! ## Reals -/

theorem exists_layout_eq_cons (digits : Nat) (exponent : Int) :
    ∃ c cs, layout digits exponent = c :: cs ∧ c.isDigit := by
  have hDigits := digits_toDigits digits
  obtain ⟨c, cs, hText⟩ := List.exists_cons_of_ne_nil (Nat.toDigits_ne_nil (n := digits) (b := 10))
  have hc : c.isDigit := hDigits c (hText ▸ List.mem_cons_self)
  unfold layout
  dsimp only
  rw [hText]
  split
  · unfold positional
    split
    · exact ⟨'0', _, rfl, rfl⟩
    · next hPoint =>
        obtain ⟨point, hEq⟩ : ∃ n : Nat, (((c :: cs).length : Int) + exponent).toNat = n + 1 :=
          ⟨_, (Nat.succ_pred_eq_of_pos (by omega)).symm⟩
        rw [hEq]
        exact ⟨c, _, rfl, hc⟩
  · exact ⟨c, _, rfl, hc⟩

/-- The text of a decimal has a point or a power of ten. -/
theorem mem_layout (digits : Nat) (exponent : Int) :
    '.' ∈ layout digits exponent ∨ 'e' ∈ layout digits exponent := by
  unfold layout positional scientific
  dsimp only
  split
  · left
    split <;> simp
  · right
    simp

/-- A text with a minus in front where needed. -/
def signed (negative : Bool) (cs : List Char) : List Char :=
  if negative then '-' :: cs else cs

theorem splitSign_signed (negative : Bool) {c : Char} {cs : List Char} (hc : c.isDigit) :
    splitSign (signed negative (c :: cs)) = (negative, c :: cs) := by
  cases negative with
  | false => exact splitSign_of_isDigit hc
  | true => rfl

theorem toLower_of_lt_or_lt {c : Char} (hc : c.toNat < 65 ∨ 90 < c.toNat) : c.toLower = c := by
  unfold Char.toLower
  rw [dif_neg]
  rintro ⟨hLow, hHigh⟩
  have hLow : 65 ≤ c.toNat := UInt32.le_iff_toNat_le.1 hLow
  have hHigh : c.toNat ≤ 90 := UInt32.le_iff_toNat_le.1 hHigh
  omega

theorem toLower_of_isDigit {c : Char} (hc : c.isDigit) : c.toLower = c := by
  have hRange : 48 ≤ c.toNat ∧ c.toNat ≤ 57 := Char.isDigit_iff_toNat.1 hc
  exact toLower_of_lt_or_lt (by omega)

/-- A word begins with one of two letters. -/
theorem readWord?_of_first {c : Char} (h : c.toLower ≠ 'i' ∧ c.toLower ≠ 'n') (cs : List Char)
    (negative : Bool) : readWord? ((c :: cs).map Char.toLower) negative = none := by
  unfold readWord?
  rw [List.map_cons, if_neg, if_neg]
  · exact fun hWord => h.2 (List.cons.inj hWord).1
  · rintro (hWord | hWord) <;> exact h.1 (List.cons.inj hWord).1

theorem ne_letter_of_isDigit {c : Char} (hc : c.isDigit) :
    c.toLower ≠ 'i' ∧ c.toLower ≠ 'n' := by
  rw [toLower_of_isDigit hc]
  constructor <;> rintro rfl <;> exact absurd hc (by decide)

/-- Behind an optional minus, a text that begins with a digit is read as a decimal. -/
theorem realOfChars?_signed {c : Char} {cs : List Char} (hc : c.isDigit) {decimal : Decimal}
    (h : read? (c :: cs) = some decimal) (negative : Bool) :
    realOfChars? (signed negative (c :: cs)) =
      some (Binary64.ofPattern negative (nearestPattern decimal.digits decimal.exponent)) := by
  have hRead : read? (signed negative (c :: cs)) = some { decimal with negative := negative } := by
    unfold read? at h ⊢
    rw [splitSign_signed negative hc]
    rw [splitSign_of_isDigit hc] at h
    dsimp only at h ⊢
    split at h
    · exact absurd h (by simp)
    · next hSome =>
        obtain ⟨exponent, hExponent, rfl⟩ := Option.map_eq_some_iff.1 h
        rw [if_neg hSome, hExponent]
        rfl
  unfold realOfChars?
  simp only [splitSign_signed negative hc, readWord?_of_first (ne_letter_of_isDigit hc), hRead]
  rfl

theorem realOfChars?_magnitudeText {pattern : Nat} (hPattern : pattern ≤ Binary64.infinity)
    (negative : Bool) :
    realOfChars? (signed negative (magnitudeText pattern)) =
      some (Binary64.ofPattern negative pattern) := by
  unfold magnitudeText
  by_cases hZero : pattern = 0
  · rw [if_pos hZero, hZero]
    cases negative <;> rfl
  rw [if_neg hZero]
  by_cases hInfinite : pattern = Binary64.infinity
  · rw [if_pos hInfinite, hInfinite]
    cases negative <;> rfl
  rw [if_neg hInfinite]
  have hFinite : pattern < Binary64.infinity := Nat.lt_of_le_of_ne hPattern hInfinite
  have hShortest := nearestPattern_shortest hZero hFinite
  dsimp only
  generalize shortest pattern = decimal at hShortest
  have hDigits : decimal.1 ≠ 0 := by
    intro hEq
    rw [hEq, nearestPattern_zero] at hShortest
    exact hZero hShortest.symm
  obtain ⟨c, cs, hText, hc⟩ := exists_layout_eq_cons decimal.1 decimal.2
  obtain ⟨written, hRead, hValue⟩ := read?_layout decimal.1 decimal.2
  have hWritten : written.digits ≠ 0 := by
    intro hEq
    rw [hEq] at hValue
    simp [hDigits, zpow_ne_zero] at hValue
  rw [hText] at hRead ⊢
  rw [realOfChars?_signed hc hRead, nearestPattern_congr hWritten hDigits hValue, hShortest]

/-- The text of a real is read as that real. -/
theorem realOfChars?_realText (x : Float) : realOfChars? (realText x) = some x := by
  unfold realText
  dsimp only
  split
  · next hNaN =>
      rw [Binary64.eq_of_infinity_lt_pattern hNaN]
      rfl
  · next hNumber =>
      have hRead := realOfChars?_magnitudeText (Nat.not_lt.1 hNumber) (Binary64.isNegative x)
      rw [Binary64.ofPattern_pattern] at hRead
      exact hRead

/-- Besides signs, an integer has nothing but digits. -/
theorem readInt?_eq_none {cs : List Char} {c : Char} (hc : c ∈ cs) (hDigit : ¬c.isDigit)
    (hSign : c ≠ '-' ∧ c ≠ '+') : readInt? cs = none := by
  have hMem : c ∈ (splitSign cs).2 := by
    unfold splitSign
    split
    · exact List.mem_of_ne_of_mem hSign.1 hc
    · exact List.mem_of_ne_of_mem hSign.2 hc
    · exact hc
  unfold readInt?
  exact if_neg fun h => hDigit (List.all_eq_true.1 h.2 c hMem)

/-- A real does not look like an integer. -/
theorem exists_mem_realText (x : Float) :
    ∃ c ∈ realText x, ¬c.isDigit ∧ c ≠ '-' ∧ c ≠ '+' := by
  have hMagnitude : ∀ pattern, ∃ c ∈ magnitudeText pattern, ¬c.isDigit ∧ c ≠ '-' ∧ c ≠ '+' := by
    intro pattern
    unfold magnitudeText
    split
    · exact ⟨'.', by decide⟩
    · split
      · exact ⟨'i', by decide⟩
      · rcases mem_layout (shortest pattern).1 (shortest pattern).2 with hPoint | hPower
        · exact ⟨'.', hPoint, by decide⟩
        · exact ⟨'e', hPower, by decide⟩
  unfold realText
  dsimp only
  split
  · exact ⟨'N', by decide⟩
  · obtain ⟨c, hc, hNotInteger⟩ := hMagnitude (Binary64.pattern x)
    split
    · exact ⟨c, List.mem_cons_of_mem _ hc, hNotInteger⟩
    · exact ⟨c, hc, hNotInteger⟩

/-! ## No number has a delimiter in it -/

open Token (isDelimiter)

/-- Delimiters lie in front of the digits, between digits and letters, or behind all letters of
ASCII. -/
theorem toNat_of_isDelimiter {c : Char} (hc : isDelimiter c = true) :
    c.toNat < 48 ∨ c.toNat = 59 ∨ 122 < c.toNat := by
  simp only [isDelimiter, Bool.or_eq_true, beq_iff_eq] at hc
  rcases hc with ((rfl | rfl) | rfl) | hBlank
  · decide
  · decide
  · decide
  · simp [Text.isBlank, Text.blankRanges] at hBlank
    omega

theorem not_isDelimiter_of_isDigit {c : Char} (hc : c.isDigit) : isDelimiter c = false := by
  have hRange : 48 ≤ c.toNat ∧ c.toNat ≤ 57 := Char.isDigit_iff_toNat.1 hc
  by_contra hDelimiter
  have hCodes := toNat_of_isDelimiter (Bool.eq_true_of_not_eq_false hDelimiter)
  omega

theorem toLower_of_isDelimiter {c : Char} (hc : isDelimiter c = true) : c.toLower = c := by
  have hCodes := toNat_of_isDelimiter hc
  refine toLower_of_lt_or_lt ?_
  omega

/-- No character of a text is a delimiter. -/
def Plain (cs : List Char) : Prop := ∀ c ∈ cs, isDelimiter c = false

theorem Plain.cons {c : Char} {cs : List Char} (hc : isDelimiter c = false) (hcs : Plain cs) :
    Plain (c :: cs) := by
  intro d hd
  rcases List.mem_cons.1 hd with rfl | hd
  · exact hc
  · exact hcs d hd

theorem plain_of_splitSign {cs : List Char} (h : Plain (splitSign cs).2) : Plain cs := by
  unfold splitSign at h
  split at h
  · exact h.cons rfl
  · exact h.cons rfl
  · exact h

theorem plain_of_readInt? {cs : List Char} {n : Int} (h : readInt? cs = some n) : Plain cs := by
  unfold readInt? at h
  dsimp only at h
  split at h
  · next hDigits =>
      exact plain_of_splitSign fun c hc =>
        not_isDelimiter_of_isDigit (List.all_eq_true.1 hDigits.2 c hc)
  · exact absurd h (by simp)

theorem plain_of_readExponent? {cs : List Char} {n : Int} (h : readExponent? cs = some n) :
    Plain cs := by
  cases cs with
  | nil => exact fun c hc => absurd hc List.not_mem_nil
  | cons c cs =>
      rw [readExponent?] at h
      split at h
      · next hc =>
          refine (plain_of_readInt? h).cons ?_
          rcases hc with rfl | rfl <;> rfl
      · exact absurd h (by simp)

theorem Plain.append {cs ds : List Char} (hcs : Plain cs) (hds : Plain ds) : Plain (cs ++ ds) :=
  fun c hc => (List.mem_append.1 hc).elim (hcs c) (hds c)

theorem plain_of_dropWhile {cs : List Char} (h : Plain (cs.dropWhile Char.isDigit)) : Plain cs := by
  have hDigits : Plain (cs.takeWhile Char.isDigit) := fun c hc =>
    not_isDelimiter_of_isDigit (List.all_eq_true.1 List.all_takeWhile c hc)
  rw [← List.takeWhile_append_dropWhile (p := Char.isDigit) (l := cs)]
  exact hDigits.append h

theorem plain_of_read? {cs : List Char} {decimal : Decimal} (h : read? cs = some decimal) :
    Plain cs := by
  unfold read? at h
  dsimp only at h
  split at h
  · exact absurd h (by simp)
  · obtain ⟨n, hn, _⟩ := Option.map_eq_some_iff.1 h
    have hTail := plain_of_readExponent? hn
    refine plain_of_splitSign (plain_of_dropWhile ?_)
    unfold splitFraction at hTail
    split at hTail
    · next heq =>
        rw [heq]
        exact (plain_of_dropWhile hTail).cons rfl
    · exact hTail

theorem plain_of_readWord? {cs : List Char} {negative : Bool} {x : Float}
    (h : readWord? (cs.map Char.toLower) negative = some x) : Plain cs := by
  have hWord : ∀ {word : String}, (Lexeme.atom word).IsProper →
      cs.map Char.toLower = word.toList → Plain cs := by
    intro word hProper hEq c hc
    by_contra hDelimiter
    have hLower := toLower_of_isDelimiter (Bool.eq_true_of_not_eq_false hDelimiter)
    have hMem : c ∈ word.toList := by
      rw [← hEq, ← hLower]
      exact List.mem_map_of_mem hc
    exact hDelimiter (hProper.2 c hMem)
  unfold readWord? at h
  split at h
  · next hInfinite => exact hInfinite.elim (hWord (by decide)) (hWord (by decide))
  · split at h
    · next hNaN => exact hWord (by decide) hNaN
    · exact absurd h (by simp)

theorem plain_of_realOfChars? {cs : List Char} {x : Float} (h : realOfChars? cs = some x) :
    Plain cs := by
  unfold realOfChars? at h
  dsimp only at h
  split at h
  · next hWord => exact plain_of_splitSign (plain_of_readWord? hWord)
  · obtain ⟨decimal, hRead, _⟩ := Option.map_eq_some_iff.1 h
    exact plain_of_read? hRead

end MiniScheme.Decimal

namespace MiniScheme.Number

open Decimal

/-- A text that denotes a number can stand as an atom. -/
theorem isProper_of_ofChars? {text : String} {n : Number} (h : ofChars? text.toList = some n) :
    (Lexeme.atom text).IsProper := by
  constructor
  · rintro rfl
    have hNone : ofChars? [] = none := rfl
    exact absurd (hNone.symm.trans h) (by simp)
  · unfold ofChars? at h
    split at h
    · next hInteger =>
        obtain ⟨m, hm, _⟩ := Option.bind_eq_some_iff.1 hInteger
        exact plain_of_readInt? hm
    · obtain ⟨x, hx, _⟩ := Option.map_eq_some_iff.1 h
      exact plain_of_realOfChars? hx

theorem integerOfChars?_repr (n : Int64) : integerOfChars? n.toInt.repr.toList = some n := by
  rw [integerOfChars?, readInt?_repr]
  show (if _ then _ else _) = _
  rw [if_pos ⟨Int64.minValue_le_toInt n, Int64.toInt_le n⟩, Int64.ofInt_toInt]

theorem integerOfChars?_realText (x : Float) : integerOfChars? (realText x) = none := by
  obtain ⟨c, hc, hDigit, hSign⟩ := exists_mem_realText x
  rw [integerOfChars?, readInt?_eq_none hc hDigit hSign]
  rfl

/-- The text of a number is read as that number. -/
theorem ofChars?_render (n : Number) : ofChars? n.render.toList = some n := by
  cases n with
  | integer n => rw [render, ofChars?, integerOfChars?_repr]
  | real x =>
      rw [render, String.toList_ofList, ofChars?, integerOfChars?_realText, realOfChars?_realText]
      rfl

end MiniScheme.Number
