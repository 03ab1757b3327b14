import Mathlib.Data.List.Forall2
import Mathlib.Data.List.TakeWhile
import MiniScheme.Expr
import MiniScheme.Proofs.NumberText

/-!
# The grammar of numbers

An atom is an integer, a real or a symbol, and which of them it is depends on its text alone. Here
the grammar of numbers is written down, part by part, each part together with what it denotes: a
sign, the digits of an integer, the digits behind a point, a power of ten, and the words for the
values that are not finite. The readers take a text apart greedily, from left to right. That this
finds the parts that the grammar asks for, and no others, is shown for each reader in turn.

What comes next in a text always tells where a part ends. A part that is missing therefore has to be
told from the one that follows it: no digits begin with a sign, no power of ten begins with a digit
or a point, and no decimal begins with a letter.

## Main results

* `Decimal.readInt?_eq_some_iff`, `Decimal.read?_eq_some_iff`: the texts of integers and decimals.
* `Decimal.realOfChars?_eq_some_iff`: the texts of reals.
* `Expr.atoms_follow_the_grammar`: what an atom is.
-/

namespace MiniScheme.Decimal

/-! ## The grammar -/

/-- An optional sign, and whether it is a minus. -/
inductive SignText : List Char → Bool → Prop where
  | absent : SignText [] false
  | plus : SignText ['+'] false
  | minus : SignText ['-'] true

/-- An optional sign and at least one digit, and the integer that they denote. -/
inductive IntegerText : List Char → Int → Prop where
  | mk {sign digits : List Char} {negative : Bool} (hSign : SignText sign negative)
      (hDigits : Digits digits) (hNonempty : digits ≠ []) :
      IntegerText (sign ++ digits)
        (if negative then -(Nat.ofDigitChars 10 digits 0 : Int) else Nat.ofDigitChars 10 digits 0)

/-- An optional point with digits behind it, if any, and these digits. -/
inductive FractionText : List Char → List Char → Prop where
  | absent : FractionText [] []
  | point {digits : List Char} (hDigits : Digits digits) : FractionText ('.' :: digits) digits

/-- An optional power of ten, and its exponent. -/
inductive ExponentText : List Char → Int → Prop where
  | absent : ExponentText [] 0
  | mark {c : Char} {cs : List Char} {n : Int} (hMark : c = 'e' ∨ c = 'E')
      (hExponent : IntegerText cs n) : ExponentText (c :: cs) n

/-- A sign, digits in front of a point and behind it, at least one in all, and a power of ten; the
decimal that they denote. -/
inductive DecimalText : List Char → Decimal → Prop where
  | mk {sign whole fraction behind exponent : List Char} {negative : Bool} {n : Int}
      (hSign : SignText sign negative) (hWhole : Digits whole)
      (hFraction : FractionText fraction behind) (hDigit : whole ≠ [] ∨ behind ≠ [])
      (hExponent : ExponentText exponent n) :
      DecimalText (sign ++ (whole ++ (fraction ++ exponent)))
        ⟨negative, Nat.ofDigitChars 10 (whole ++ behind) 0, n - behind.length⟩

/-- A word of small letters, any of which can be a capital. -/
def InAnyCase (word : String) (cs : List Char) : Prop :=
  List.Forall₂ (fun c letter => c = letter ∨ c = letter.toUpper) cs word.toList

/-- The value that is no number. -/
def notANumber : Float := Binary64.ofPattern false (Binary64.infinity + Binary64.octave / 2)

/-- The text of a real, and the real that it denotes. -/
inductive RealText : List Char → Float → Prop where
  | infinity {sign cs : List Char} {negative : Bool} (hSign : SignText sign negative)
      (hWord : InAnyCase "inf" cs ∨ InAnyCase "infinity" cs) :
      RealText (sign ++ cs) (Binary64.ofPattern negative Binary64.infinity)
  | notANumber {sign cs : List Char} {negative : Bool} (hSign : SignText sign negative)
      (hWord : InAnyCase "nan" cs) : RealText (sign ++ cs) notANumber
  | decimal {cs : List Char} {d : Decimal} (hDecimal : DecimalText cs d) : RealText cs d.toFloat

/-! ## Integers -/

theorem exists_signText (cs : List Char) :
    ∃ sign, SignText sign (splitSign cs).1 ∧ cs = sign ++ (splitSign cs).2 := by
  unfold splitSign
  split
  · exact ⟨['-'], .minus, rfl⟩
  · exact ⟨['+'], .plus, rfl⟩
  · exact ⟨[], .absent, rfl⟩

theorem SignText.splitSign_append {sign cs : List Char} {negative : Bool}
    (h : SignText sign negative) (hcs : ∀ c ∈ cs.head?, c ≠ '+' ∧ c ≠ '-') :
    splitSign (sign ++ cs) = (negative, cs) := by
  cases h with
  | plus => rfl
  | minus => rfl
  | absent =>
      unfold splitSign
      split
      · next heq =>
          rw [List.nil_append] at heq
          exact absurd rfl (hcs '-' (heq ▸ rfl)).2
      · next heq =>
          rw [List.nil_append] at heq
          exact absurd rfl (hcs '+' (heq ▸ rfl)).1
      · rfl

theorem ne_sign_of_isDigit {c : Char} (h : c.isDigit) : c ≠ '+' ∧ c ≠ '-' := by
  constructor <;> rintro rfl <;> exact absurd h (by decide)

theorem Digits.head_ne_sign {cs : List Char} (h : Digits cs) :
    ∀ c ∈ cs.head?, c ≠ '+' ∧ c ≠ '-' :=
  fun c hc => ne_sign_of_isDigit (h c (List.mem_of_mem_head? hc))

/-- An integer is read from exactly the texts that denote it. -/
theorem readInt?_eq_some_iff {cs : List Char} {n : Int} :
    readInt? cs = some n ↔ IntegerText cs n := by
  constructor
  · intro h
    obtain ⟨sign, hSign, hText⟩ := exists_signText cs
    unfold readInt? at h
    dsimp only at h
    split at h
    · next hDigits =>
        obtain rfl := Option.some.inj h
        have hRead := IntegerText.mk hSign (List.all_eq_true.1 hDigits.2) hDigits.1
        rwa [← hText] at hRead
    · cases h
  · rintro ⟨hSign, hDigits, hNonempty⟩
    unfold readInt?
    rw [hSign.splitSign_append hDigits.head_ne_sign]
    exact if_pos ⟨hNonempty, List.all_eq_true.2 hDigits⟩

theorem IntegerText.unique {cs : List Char} {m n : Int} (hm : IntegerText cs m)
    (hn : IntegerText cs n) : m = n :=
  Option.some.inj ((readInt?_eq_some_iff.2 hm).symm.trans (readInt?_eq_some_iff.2 hn))

theorem readExponent?_eq_some_iff {cs : List Char} {n : Int} :
    readExponent? cs = some n ↔ ExponentText cs n := by
  cases cs with
  | nil =>
      constructor
      · intro h
        obtain rfl := Option.some.inj h
        exact .absent
      · intro h
        cases h
        rfl
  | cons c cs =>
      rw [readExponent?]
      constructor
      · intro h
        split at h
        · next hMark => exact .mark hMark (readInt?_eq_some_iff.1 h)
        · cases h
      · intro h
        cases h with
        | mark hMark hExponent => rw [if_pos hMark, readInt?_eq_some_iff.2 hExponent]

/-! ## Decimals -/

theorem ExponentText.endsDigits {cs : List Char} {n : Int} (h : ExponentText cs n) :
    EndsDigits cs := by
  cases h with
  | absent => exact endsDigits_nil
  | mark hMark _ =>
      intro d hd
      obtain rfl := Option.some.inj hd
      rcases hMark with rfl | rfl <;> decide

theorem digits_takeWhile (cs : List Char) : Digits (cs.takeWhile Char.isDigit) :=
  fun _ hc => List.mem_takeWhile_imp hc

theorem exists_fractionText (cs : List Char) :
    ∃ fraction, FractionText fraction (splitFraction cs).1 ∧
      cs = fraction ++ (splitFraction cs).2 := by
  unfold splitFraction
  split
  · next cs =>
      refine ⟨'.' :: cs.takeWhile Char.isDigit, .point (digits_takeWhile cs), ?_⟩
      rw [List.cons_append, List.takeWhile_append_dropWhile]
  · exact ⟨[], .absent, rfl⟩

theorem FractionText.splitFraction_append {fraction behind tail : List Char}
    (h : FractionText fraction behind) (hTail : EndsDigits tail) :
    splitFraction (fraction ++ tail) = (behind, tail) := by
  cases h with
  | point hDigits =>
      have hSpan := span_digits hDigits fun c hc => (hTail c hc).1
      exact Prod.ext hSpan.1 hSpan.2
  | absent =>
      unfold splitFraction
      split
      · next heq =>
          rw [List.nil_append] at heq
          exact absurd rfl (hTail '.' (heq ▸ rfl)).2
      · rfl

/-- What follows the digits in front of the point does not go on with a digit. -/
theorem FractionText.head_not_digit {fraction behind tail : List Char}
    (h : FractionText fraction behind) (hTail : EndsDigits tail) :
    ∀ c ∈ (fraction ++ tail).head?, ¬c.isDigit := by
  cases h with
  | point hDigits =>
      intro c hc
      obtain rfl := Option.some.inj hc
      decide
  | absent => exact fun c hc => (hTail c hc).1

/-- The characters that a decimal can begin with behind its sign. -/
def BeginsDecimal (c : Char) : Prop := c.isDigit ∨ c = '.'

theorem BeginsDecimal.ne_sign {c : Char} (h : BeginsDecimal c) : c ≠ '+' ∧ c ≠ '-' := by
  rcases h with h | rfl
  · exact ne_sign_of_isDigit h
  · decide

theorem BeginsDecimal.ne_letter {c : Char} (h : BeginsDecimal c) :
    c.toLower ≠ 'i' ∧ c.toLower ≠ 'n' := by
  rcases h with h | rfl
  · exact ne_letter_of_isDigit h
  · decide

theorem exists_cons_of_digit {whole fraction behind : List Char} (hWhole : Digits whole)
    (hFraction : FractionText fraction behind) (hDigit : whole ≠ [] ∨ behind ≠ [])
    (tail : List Char) :
    ∃ c cs, whole ++ (fraction ++ tail) = c :: cs ∧ BeginsDecimal c := by
  cases whole with
  | cons c whole => exact ⟨c, _, rfl, .inl (hWhole c List.mem_cons_self)⟩
  | nil =>
      cases hFraction with
      | point hDigits => exact ⟨'.', _, rfl, .inr rfl⟩
      | absent => exact absurd hDigit (by simp)

theorem SignText.splitSign_decimal {sign whole fraction behind : List Char} {negative : Bool}
    (hSign : SignText sign negative) (hWhole : Digits whole)
    (hFraction : FractionText fraction behind) (hDigit : whole ≠ [] ∨ behind ≠ [])
    (tail : List Char) :
    splitSign (sign ++ (whole ++ (fraction ++ tail))) =
      (negative, whole ++ (fraction ++ tail)) := by
  obtain ⟨c, cs, hText, hFirst⟩ := exists_cons_of_digit hWhole hFraction hDigit tail
  rw [hText]
  refine hSign.splitSign_append fun d hd => ?_
  obtain rfl := Option.some.inj hd
  exact hFirst.ne_sign

/-- A decimal is read from exactly the texts that denote it. -/
theorem read?_eq_some_iff {cs : List Char} {d : Decimal} :
    read? cs = some d ↔ DecimalText cs d := by
  constructor
  · intro h
    obtain ⟨sign, hSign, hText⟩ := exists_signText cs
    obtain ⟨fraction, hFraction, hRest⟩ :=
      exists_fractionText ((splitSign cs).2.dropWhile Char.isDigit)
    unfold read? at h
    dsimp only at h
    split at h
    · cases h
    · next hDigit =>
        obtain ⟨n, hExponent, rfl⟩ := Option.map_eq_some_iff.1 h
        have hRead := DecimalText.mk hSign (digits_takeWhile _) hFraction
          (by rwa [not_and_or] at hDigit) (readExponent?_eq_some_iff.1 hExponent)
        rwa [← hRest, List.takeWhile_append_dropWhile, ← hText] at hRead
  · intro h
    cases h with
    | @mk sign whole fraction behind exponent negative n hSign hWhole hFraction hDigit hExponent =>
        have hEnds := hExponent.endsDigits
        have hSplit := hSign.splitSign_decimal hWhole hFraction hDigit exponent
        obtain ⟨hTake, hDrop⟩ := span_digits hWhole (hFraction.head_not_digit hEnds)
        unfold read?
        simp only [hSplit, hTake, hDrop, hFraction.splitFraction_append hEnds]
        rw [if_neg (by rwa [not_and_or]), readExponent?_eq_some_iff.2 hExponent]
        rfl

/-- The text of an integer is the text of a decimal. -/
theorem IntegerText.exists_decimalText {cs : List Char} {n : Int} (h : IntegerText cs n) :
    ∃ d, DecimalText cs d ∧ d.exponent = 0 ∧
      n = if d.negative then -(d.digits : Int) else d.digits := by
  cases h with
  | @mk sign digits negative hSign hDigits hNonempty =>
      refine ⟨⟨negative, Nat.ofDigitChars 10 digits 0, 0⟩, ?_, rfl, rfl⟩
      simpa using DecimalText.mk hSign hDigits .absent (.inl hNonempty) .absent

/-! ## Words -/

theorem toNat_toLower (c : Char) :
    c.toLower.toNat = if 65 ≤ c.toNat ∧ c.toNat ≤ 90 then c.toNat + 32 else c.toNat := by
  by_cases h : c.val ≥ 'A'.val ∧ c.val ≤ 'Z'.val
  · have hCode : 65 ≤ c.toNat ∧ c.toNat ≤ 90 := h
    have hSum : (c.val + 32).toNat = (c.toNat + 32) % 4294967296 := UInt32.toNat_add c.val 32
    have hLower : c.toLower = _ := dif_pos h
    rw [hLower, if_pos hCode]
    exact hSum.trans (Nat.mod_eq_of_lt (by omega))
  · have hCode : ¬(65 ≤ c.toNat ∧ c.toNat ≤ 90) := h
    have hLower : c.toLower = c := dif_neg h
    rw [hLower, if_neg hCode]

theorem toNat_toUpper (c : Char) :
    c.toUpper.toNat = if 97 ≤ c.toNat ∧ c.toNat ≤ 122 then c.toNat - 32 else c.toNat := by
  by_cases h : 'a'.val ≤ c.val ∧ c.val ≤ 'z'.val
  · have hCode : 97 ≤ c.toNat ∧ c.toNat ≤ 122 := h
    -- the distance is added modulo the width, as the complement of 32
    have hSum : (c.val + 4294967264).toNat = (c.toNat + 4294967264) % 4294967296 :=
      UInt32.toNat_add c.val 4294967264
    have hUpper : c.toUpper = _ := dif_pos h
    rw [hUpper, if_pos hCode]
    exact hSum.trans (by omega)
  · have hCode : ¬(97 ≤ c.toNat ∧ c.toNat ≤ 122) := h
    have hUpper : c.toUpper = c := dif_neg h
    rw [hUpper, if_neg hCode]

/-- A small letter is what it and its capital become as small letters. -/
theorem toLower_eq_iff {c letter : Char} (h : letter.toLower = letter) :
    c.toLower = letter ↔ c = letter ∨ c = letter.toUpper := by
  have hSmall : ¬(65 ≤ letter.toNat ∧ letter.toNat ≤ 90) := by
    intro hCapital
    have hCode := congrArg Char.toNat h
    rw [toNat_toLower, if_pos hCapital] at hCode
    omega
  simp only [← Char.toNat_inj, toNat_toLower, toNat_toUpper]
  split <;> split <;> omega

theorem inAnyCase_iff {word : String} (h : word.toList.map Char.toLower = word.toList)
    {cs : List Char} : InAnyCase word cs ↔ cs.map Char.toLower = word.toList := by
  unfold InAnyCase
  generalize word.toList = letters at h
  induction cs generalizing letters with
  | nil => cases letters <;> simp
  | cons c cs ih =>
      cases letters with
      | nil => simp
      | cons letter letters =>
          obtain ⟨hLetter, hLetters⟩ := List.cons.inj h
          rw [List.forall₂_cons, ih letters hLetters, List.map_cons, List.cons.injEq,
            toLower_eq_iff hLetter]

theorem readWord?_eq_some_iff {cs : List Char} {negative : Bool} {x : Float} :
    readWord? (cs.map Char.toLower) negative = some x ↔
      (InAnyCase "inf" cs ∨ InAnyCase "infinity" cs) ∧
          x = Binary64.ofPattern negative Binary64.infinity ∨
        InAnyCase "nan" cs ∧ x = notANumber := by
  have hInf : InAnyCase "inf" cs ↔ cs.map Char.toLower = "inf".toList := inAnyCase_iff (by decide)
  have hInfinity : InAnyCase "infinity" cs ↔ cs.map Char.toLower = "infinity".toList :=
    inAnyCase_iff (by decide)
  have hNaN : InAnyCase "nan" cs ↔ cs.map Char.toLower = "nan".toList := inAnyCase_iff (by decide)
  rw [hInf, hInfinity, hNaN]
  generalize cs.map Char.toLower = word
  unfold readWord?
  constructor
  · intro h
    by_cases hInfinite : word = "inf".toList ∨ word = "infinity".toList
    · rw [if_pos hInfinite] at h
      exact .inl ⟨hInfinite, (Option.some.inj h).symm⟩
    · rw [if_neg hInfinite] at h
      by_cases hWord : word = "nan".toList
      · rw [if_pos hWord] at h
        exact .inr ⟨hWord, (Option.some.inj h).symm⟩
      · rw [if_neg hWord] at h
        cases h
  · rintro (⟨hInfinite, rfl⟩ | ⟨rfl, rfl⟩)
    · exact if_pos hInfinite
    · rw [if_neg (by decide), if_pos rfl, notANumber]

theorem head_ne_sign_of_readWord? {cs : List Char} {negative : Bool} {x : Float}
    (h : readWord? (cs.map Char.toLower) negative = some x) :
    ∀ c ∈ cs.head?, c ≠ '+' ∧ c ≠ '-' := by
  cases cs with
  | nil => exact fun c hc => absurd hc (by simp)
  | cons d cs =>
      intro c hc
      obtain rfl := Option.some.inj hc
      constructor <;> rintro rfl <;> rw [readWord?_of_first (by decide)] at h <;> cases h

/-! ## Reals -/

/-- No decimal is a word. -/
theorem DecimalText.readWord?_eq_none {cs : List Char} {d : Decimal} (h : DecimalText cs d) :
    readWord? ((splitSign cs).2.map Char.toLower) (splitSign cs).1 = none := by
  cases h with
  | @mk sign whole fraction behind exponent negative n hSign hWhole hFraction hDigit hExponent =>
      obtain ⟨c, cs, hText, hFirst⟩ := exists_cons_of_digit hWhole hFraction hDigit exponent
      rw [hSign.splitSign_decimal hWhole hFraction hDigit, hText]
      exact readWord?_of_first hFirst.ne_letter cs negative

theorem realOfChars?_of_word {sign cs : List Char} {negative : Bool} {x : Float}
    (hSign : SignText sign negative) (h : readWord? (cs.map Char.toLower) negative = some x) :
    realOfChars? (sign ++ cs) = some x := by
  have hSplit := hSign.splitSign_append (head_ne_sign_of_readWord? h)
  simp only [realOfChars?, hSplit, h]

/-- A real is read from exactly the texts that denote it, words included. -/
theorem realOfChars?_eq_some_iff {cs : List Char} {x : Float} :
    realOfChars? cs = some x ↔ RealText cs x := by
  constructor
  · intro h
    obtain ⟨sign, hSign, hText⟩ := exists_signText cs
    cases hRead : readWord? ((splitSign cs).2.map Char.toLower) (splitSign cs).1 with
    | some y =>
        obtain rfl : y = x := by simpa only [realOfChars?, hRead, Option.some.injEq] using h
        rw [hText]
        rcases readWord?_eq_some_iff.1 hRead with ⟨hWord, rfl⟩ | ⟨hWord, rfl⟩
        · exact .infinity hSign hWord
        · exact .notANumber hSign hWord
    | none =>
        simp only [realOfChars?, hRead] at h
        obtain ⟨d, hRead, rfl⟩ := Option.map_eq_some_iff.1 h
        exact .decimal (read?_eq_some_iff.1 hRead)
  · intro h
    cases h with
    | infinity hSign hWord =>
        exact realOfChars?_of_word hSign (readWord?_eq_some_iff.2 (.inl ⟨hWord, rfl⟩))
    | notANumber hSign hWord =>
        exact realOfChars?_of_word hSign (readWord?_eq_some_iff.2 (.inr ⟨hWord, rfl⟩))
    | decimal hDecimal =>
        simp only [realOfChars?, hDecimal.readWord?_eq_none, read?_eq_some_iff.2 hDecimal]
        rfl

end MiniScheme.Decimal

namespace MiniScheme.Number

open Decimal

/-- The integers that fit 64 bits. -/
theorem exists_toInt_eq_iff (n : Int) :
    (∃ i : Int64, i.toInt = n) ↔ -2 ^ 63 ≤ n ∧ n < 2 ^ 63 := by
  constructor
  · rintro ⟨i, rfl⟩
    exact ⟨i.le_toInt, i.toInt_lt⟩
  · rintro ⟨hLow, hHigh⟩
    exact ⟨Int64.ofInt n, Int64.toInt_ofInt_of_le hLow hHigh⟩

theorem exists_integerText_iff {cs : List Char} :
    (∃ n, IntegerText cs n ∧ -2 ^ 63 ≤ n ∧ n < 2 ^ 63) ↔
      ∃ i : Int64, IntegerText cs i.toInt := by
  simp only [← exists_toInt_eq_iff]
  constructor
  · rintro ⟨_, hText, i, rfl⟩
    exact ⟨i, hText⟩
  · rintro ⟨i, hText⟩
    exact ⟨i.toInt, hText, i, rfl⟩

theorem integerOfChars?_eq_some_iff {cs : List Char} {i : Int64} :
    integerOfChars? cs = some i ↔ IntegerText cs i.toInt := by
  rw [← readInt?_eq_some_iff]
  constructor
  · intro h
    obtain ⟨n, hRead, hRange⟩ := Option.bind_eq_some_iff.1 h
    split at hRange
    · next hFits =>
        obtain rfl := Option.some.inj hRange
        have hHigh : n < 2 ^ 63 := Int.lt_of_le_of_lt hFits.2 (by decide)
        rw [hRead, Int64.toInt_ofInt_of_le hFits.1 hHigh]
    · cases hRange
  · intro h
    rw [integerOfChars?, h]
    show (if _ then _ else _) = _
    rw [if_pos ⟨Int64.minValue_le_toInt i, Int64.toInt_le i⟩, Int64.ofInt_toInt]

end MiniScheme.Number

namespace MiniScheme.Expr

open Decimal Number

variable (l : Option Location) {text : String}

theorem ofAtom_eq_integer_iff {i : Int64} :
    ofAtom l text = .number l (.integer i) ↔ IntegerText text.toList i.toInt := by
  rw [← integerOfChars?_eq_some_iff, ofAtom, ofChars?]
  cases integerOfChars? text.toList with
  | some j => simp
  | none => cases realOfChars? text.toList <;> simp

theorem ofAtom_eq_real_iff {x : Float} :
    ofAtom l text = .number l (.real x) ↔
      (¬∃ i : Int64, IntegerText text.toList i.toInt) ∧ RealText text.toList x := by
  rw [← realOfChars?_eq_some_iff, ofAtom, ofChars?]
  simp only [← integerOfChars?_eq_some_iff]
  cases integerOfChars? text.toList with
  | some j => simp
  | none => cases realOfChars? text.toList <;> simp

theorem ofAtom_eq_symbol_iff :
    ofAtom l text = .symbol l text ↔
      (¬∃ i : Int64, IntegerText text.toList i.toInt) ∧ ¬∃ x, RealText text.toList x := by
  simp only [← realOfChars?_eq_some_iff, ← integerOfChars?_eq_some_iff, ofAtom, ofChars?]
  cases integerOfChars? text.toList with
  | some j => simp
  | none => cases realOfChars? text.toList <;> simp

/-- Atoms follow the grammar of numbers.

* An atom is the integer `n` if and only if its text is an optional sign and at least one digit that
  denote `n`, and `n` fits 64 bits.
* It is a real if and only if it is no such text but that of a real, and then it is the real that
  the text denotes.
* Otherwise, and only then, it is the symbol with that text.

In particular the decimal text of an integer is that integer, and digits that denote an integer
beyond 64 bits are the real that this integer is rounded to. -/
theorem atoms_follow_the_grammar (l : Option Location) (text : String) :
    let isInteger := fun n : Int => IntegerText text.toList n ∧ -2 ^ 63 ≤ n ∧ n < 2 ^ 63
    (∀ n : Int, (∃ i : Int64, i.toInt = n ∧ ofAtom l text = .number l (.integer i)) ↔
      isInteger n) ∧
    (∀ x : Float, ofAtom l text = .number l (.real x) ↔
      (¬∃ n, isInteger n) ∧ RealText text.toList x) ∧
    (ofAtom l text = .symbol l text ↔ (¬∃ n, isInteger n) ∧ ¬∃ x, RealText text.toList x) ∧
    (∀ i : Int64, text = i.toInt.repr → ofAtom l text = .number l (.integer i)) ∧
    ∀ n : Int, IntegerText text.toList n → ¬(-2 ^ 63 ≤ n ∧ n < 2 ^ 63) →
      ∃ d : Decimal, d.exponent = 0 ∧ n = (if d.negative then -(d.digits : Int) else d.digits) ∧
        ofAtom l text = .number l (.real d.toFloat) := by
  intro isInteger
  have hInteger : (∃ n, isInteger n) ↔ ∃ i : Int64, IntegerText text.toList i.toInt :=
    exists_integerText_iff
  rw [hInteger]
  refine ⟨fun n => ?_, fun x => ofAtom_eq_real_iff l, ofAtom_eq_symbol_iff l, ?_, ?_⟩
  · simp only [ofAtom_eq_integer_iff, isInteger, ← exists_toInt_eq_iff]
    constructor
    · rintro ⟨i, rfl, hText⟩
      exact ⟨hText, i, rfl⟩
    · rintro ⟨hText, i, rfl⟩
      exact ⟨i, rfl, hText⟩
  · rintro i rfl
    exact (ofAtom_eq_integer_iff l).2 (readInt?_eq_some_iff.1 (readInt?_repr i.toInt))
  · intro n hText hRange
    obtain ⟨d, hDecimal, hExponent, hValue⟩ := hText.exists_decimalText
    refine ⟨d, hExponent, hValue, (ofAtom_eq_real_iff l).2 ⟨?_, .decimal hDecimal⟩⟩
    rintro ⟨i, hOther⟩
    exact hRange ((exists_toInt_eq_iff n).1 ⟨i, hOther.unique hText⟩)

/-- The least integer, the integer after the greatest, a power of ten without an exponent, and a
point without digits. -/
theorem atoms_on_the_border :
    ofAtom none "-9223372036854775808" = .number none (.integer Int64.minValue) ∧
      (∃ d : Decimal, d.exponent = 0 ∧
        (9223372036854775808 : Int) = (if d.negative then -(d.digits : Int) else d.digits) ∧
        ofAtom none "+9223372036854775808" = .number none (.real d.toFloat)) ∧
      ofAtom none "1e" = .symbol none "1e" ∧ ofAtom none "-." = .symbol none "-." := by
  have hSymbol : ∀ text : String, readInt? text.toList = none → realOfChars? text.toList = none →
      ofAtom none text = .symbol none text := by
    intro text hInteger hReal
    refine (atoms_follow_the_grammar none text).2.2.1.2 ⟨?_, ?_⟩
    · rintro ⟨n, hText, _⟩
      rw [readInt?_eq_some_iff.2 hText] at hInteger
      cases hInteger
    · rintro ⟨x, hText⟩
      rw [realOfChars?_eq_some_iff.2 hText] at hReal
      cases hReal
  refine ⟨?_, ?_, hSymbol "1e" (by decide) (by decide), hSymbol "-." (by decide) (by decide)⟩
  · exact (atoms_follow_the_grammar none _).2.2.2.1 Int64.minValue (by decide)
  · have hText : IntegerText "+9223372036854775808".toList 9223372036854775808 :=
      readInt?_eq_some_iff.1 (by decide)
    exact (atoms_follow_the_grammar none _).2.2.2.2 _ hText (by decide)

end MiniScheme.Expr
