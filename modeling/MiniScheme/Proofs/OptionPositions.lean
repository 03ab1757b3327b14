import MiniScheme.Console.Options
import MiniScheme.Proofs.NumberText
import MiniScheme.Proofs.Occurrence

/-!
# The position of an option does not matter

Reading a command line takes two options out of the list of arguments, one after the other, each
with the argument behind it. The other way round, the list arises from the names of the files by
putting the options in again, the one that is taken out last before the other (`Inserted`). At which
position they stand does not matter. The option that is put in last may even come to stand between
the other one and its value.

Taking out undoes putting in only if the option that is found is the one that was put in. Nothing
else in the list can be mistaken for it: the names of files do not start with a minus, and neither
do sizes, and the two options are different.

## Main results

* `readSize_eq_ok_iff`: the texts of sizes.
* `inserted_of_takeSize`, `takeSize_of_inserted`: taking out undoes putting in.
* `Options.options_can_stand_anywhere`: the command lines that are accepted.
-/

namespace MiniScheme.Console

open Decimal (Digits)

/-! ## Sizes -/

/-- An optional plus and at least one digit, and the size that they denote. -/
inductive SizeText : List Char → Nat → Prop where
  | mk {sign digits : List Char} (hSign : sign = [] ∨ sign = ['+']) (hDigits : Digits digits)
      (hNonempty : digits ≠ []) (hSize : Nat.ofDigitChars 10 digits 0 ≤ maxSize) :
      SizeText (sign ++ digits) (Nat.ofDigitChars 10 digits 0)

/-- More digits make a number larger. -/
theorem le_ofDigitChars (cs : List Char) : ∀ n, n ≤ Nat.ofDigitChars 10 cs n := by
  induction cs with
  | nil => exact fun n => Nat.le_refl n
  | cons c cs ih =>
      intro n
      rw [Nat.ofDigitChars_cons]
      exact Nat.le_trans (by omega) (ih _)

/-- Reading digits one by one. A size that is too large is noticed at once, but it would be too
large at the end as well. -/
theorem sizeFrom_eq_ok_iff (cs : List Char) : ∀ {n size : Nat}, n ≤ maxSize →
    (sizeFrom n cs = .ok size ↔
      Digits cs ∧ size = Nat.ofDigitChars 10 cs n ∧ Nat.ofDigitChars 10 cs n ≤ maxSize) := by
  induction cs with
  | nil =>
      intro n size hn
      rw [sizeFrom, Nat.ofDigitChars_nil, Except.ok.injEq]
      constructor
      · rintro rfl
        exact ⟨fun c hc => absurd hc List.not_mem_nil, rfl, hn⟩
      · exact fun h => h.2.1.symm
  | cons c cs ih =>
      intro n size hn
      have hDigits : Digits (c :: cs) ↔ c.isDigit = true ∧ Digits cs := List.forall_mem_cons
      rw [sizeFrom, Nat.ofDigitChars_cons, hDigits]
      generalize 10 * n + (c.toNat - '0'.toNat) = next
      cases hFirst : c.isDigit with
      | false => simp
      | true =>
          rw [if_neg (by simp)]
          by_cases hLarge : maxSize < next
          · have hEnd := Nat.lt_of_lt_of_le hLarge (le_ofDigitChars cs next)
            rw [if_pos hLarge]
            simp [hEnd]
          · rw [if_neg hLarge, ih (Nat.not_lt.1 hLarge)]
            simp

/-- A size is read from exactly the texts that denote it. -/
theorem readSize_eq_ok_iff {text : String} {size : Nat} :
    readSize text = .ok size ↔ SizeText text.toList size := by
  unfold readSize
  generalize text.toList = cs
  constructor
  · intro h
    split at h
    · cases h
    · cases h
    · next cs hNonempty =>
        obtain ⟨hDigits, rfl, hSize⟩ := (sizeFrom_eq_ok_iff cs (Nat.zero_le _)).1 h
        exact .mk (.inr rfl) hDigits hNonempty hSize
    · next hNonempty _ _ =>
        obtain ⟨hDigits, rfl, hSize⟩ := (sizeFrom_eq_ok_iff cs (Nat.zero_le _)).1 h
        exact .mk (.inl rfl) hDigits hNonempty hSize
  · intro h
    cases h with
    | @mk sign digits hSign hDigits hNonempty hSize =>
        have hRead := (sizeFrom_eq_ok_iff digits (Nat.zero_le _)).2 ⟨hDigits, rfl, hSize⟩
        obtain ⟨c, cs, rfl⟩ := List.exists_cons_of_ne_nil hNonempty
        rcases hSign with rfl | rfl
        · have hPlus : c ≠ '+' := by
            rintro rfl
            exact absurd (hDigits '+' List.mem_cons_self) (by decide)
          rw [List.nil_append]
          split
          · next heq => cases heq
          · next heq => exact absurd (List.cons.inj heq).1 hPlus
          · next heq => exact absurd (List.cons.inj heq).1 hPlus
          · exact hRead
        · exact hRead

/-- A size does not look like an option. -/
theorem SizeText.head_ne_minus {cs : List Char} {size : Nat} (h : SizeText cs size) :
    cs.head? ≠ some '-' := by
  cases h with
  | @mk sign digits hSign hDigits hNonempty _ =>
      obtain ⟨c, cs, rfl⟩ := List.exists_cons_of_ne_nil hNonempty
      rcases hSign with rfl | rfl
      · intro hMinus
        obtain rfl : c = '-' := Option.some.inj hMinus
        exact absurd (hDigits '-' List.mem_cons_self) (by decide)
      · simp

/-! ## Taking an option out -/

section TakeValue

variable {key : String}

theorem takeValue_cons_of_ne {argument : String} (h : argument ≠ key) (arguments : List String) :
    takeValue key (argument :: arguments) =
      (takeValue key arguments).map fun taken => (taken.1, argument :: taken.2) := by
  rw [takeValue.eq_def]
  exact if_neg h

/-- What stands in front of the first occurrence is left alone. -/
theorem takeValue_append {before : List String} (h : key ∉ before) (arguments : List String) :
    takeValue key (before ++ arguments) =
      (takeValue key arguments).map fun taken => (taken.1, before ++ taken.2) := by
  induction before with
  | nil =>
      rw [List.nil_append]
      cases takeValue key arguments <;> rfl
  | cons argument before ih =>
      obtain ⟨hFirst, hOthers⟩ := not_or.1 (mt List.mem_cons.2 h)
      rw [List.cons_append, takeValue_cons_of_ne (Ne.symm hFirst), ih hOthers]
      cases takeValue key arguments <;> rfl

theorem takeValue_of_not_mem {arguments : List String} (h : key ∉ arguments) :
    takeValue key arguments = .ok (none, arguments) := by
  have hAppend := takeValue_append h []
  rw [List.append_nil] at hAppend
  rw [hAppend]
  exact congrArg (fun files => Except.ok (none, files)) (List.append_nil arguments)

theorem takeValue_of_mem {before : List String} (h : key ∉ before) (value : String)
    (after : List String) :
    takeValue key (before ++ key :: value :: after) = .ok (some value, before ++ after) := by
  rw [takeValue_append h, takeValue, if_pos rfl]
  rfl

theorem takeValue_of_last {before : List String} (h : key ∉ before) :
    takeValue key (before ++ [key]) = .error (.missingValue key) := by
  rw [takeValue_append h, takeValue, if_pos rfl]
  rfl

end TakeValue

/-- The second list arises from the first by putting the key in, with a size behind it, at any
position, or it is the first list and the size is the default. -/
inductive Inserted (key : String) (default : Nat) : List String → Nat → List String → Prop where
  | absent (arguments : List String) : Inserted key default arguments default arguments
  | present (before after : List String) {text : String} {size : Nat}
      (hText : SizeText text.toList size) :
      Inserted key default (before ++ after) size (before ++ key :: text :: after)

section TakeSize

variable {key : String} {default size : Nat} {others arguments : List String}

/-- Where a size can be taken out, putting it in again gives the arguments back. -/
theorem inserted_of_takeSize (h : takeSize key default arguments = .ok (size, others)) :
    Inserted key default others size arguments := by
  by_cases hMem : key ∈ arguments
  · obtain ⟨before, rest, rfl, hBefore⟩ := List.eq_append_cons_of_mem hMem
    cases rest with
    | nil =>
        simp only [takeSize, takeValue_of_last hBefore] at h
        cases h
    | cons text after =>
        simp only [takeSize, takeValue_of_mem hBefore] at h
        cases hRead : readSize text with
        | error fault =>
            rw [hRead] at h
            cases h
        | ok n =>
            rw [hRead] at h
            cases h
            exact .present before after (readSize_eq_ok_iff.1 hRead)
  · simp only [takeSize, takeValue_of_not_mem hMem] at h
    cases h
    exact .absent _

/-- A size that was put in is taken out, unless its key occurs among the other arguments as well. -/
theorem takeSize_of_inserted (h : Inserted key default others size arguments)
    (hKey : key ∉ others) : takeSize key default arguments = .ok (size, others) := by
  cases h with
  | absent => simp only [takeSize, takeValue_of_not_mem hKey]
  | present before after hText =>
      have hBefore := fun hMem => hKey (List.mem_append_left _ hMem)
      simp only [takeSize, takeValue_of_mem hBefore, readSize_eq_ok_iff.2 hText]

/-- What is put in are the key and an argument that does not look like an option. -/
theorem Inserted.mem (h : Inserted key default others size arguments) {argument : String}
    (hMem : argument ∈ arguments) :
    argument ∈ others ∨ argument = key ∨ argument.toList.head? ≠ some '-' := by
  cases h with
  | absent => exact .inl hMem
  | present before after hText =>
      simp only [List.mem_append, List.mem_cons] at hMem ⊢
      rcases hMem with hMem | rfl | rfl | hMem
      · exact .inl (.inl hMem)
      · exact .inr (.inl rfl)
      · exact .inr (.inr hText.head_ne_minus)
      · exact .inl (.inr hMem)

end TakeSize

/-! ## Command lines -/

namespace Options

theorem not_mem_of_head_ne_minus {files : List String}
    (h : ∀ file ∈ files, file.toList.head? ≠ some '-') {key : String}
    (hKey : key.toList.head? = some '-') : key ∉ files :=
  fun hMem => h key hMem hKey

theorem find?_isOption_eq_none_iff {files : List String} :
    files.find? isOption = none ↔ ∀ file ∈ files, file.toList.head? ≠ some '-' := by
  simp [isOption]

/-- The arguments arise from the names of files, none of which starts with a minus, by putting in
first the stack size and then the limit. -/
def Spells (options : Options) (arguments : List String) : Prop :=
  (∀ file ∈ options.files, file.toList.head? ≠ some '-') ∧
    ∃ middle, Inserted stackSizeKey defaultStackSize options.files options.stackSize middle ∧
      Inserted limitKey defaultLimit middle options.limit arguments

theorem spells_of_ofArguments {arguments : List String} {options : Options}
    (h : ofArguments arguments = .ok options) : options.Spells arguments := by
  simp only [ofArguments, bind_eq_ok] at h
  obtain ⟨⟨limit, middle⟩, hLimit, ⟨stackSize, files⟩, hStack, hRest⟩ := h
  cases hFind : files.find? isOption with
  | some argument =>
      simp only [hFind] at hRest
      cases hRest
  | none =>
      simp only [hFind] at hRest
      cases hRest
      exact ⟨find?_isOption_eq_none_iff.1 hFind, middle, inserted_of_takeSize hStack,
        inserted_of_takeSize hLimit⟩

theorem ofArguments_of_spells {arguments : List String} {options : Options}
    (h : options.Spells arguments) : ofArguments arguments = .ok options := by
  obtain ⟨hFiles, middle, hStack, hLimit⟩ := h
  have hStackKey : stackSizeKey ∉ options.files := not_mem_of_head_ne_minus hFiles (by decide)
  have hLimitKey : limitKey ∉ middle := by
    intro hMem
    rcases hStack.mem hMem with hMem | hKey | hMinus
    · exact not_mem_of_head_ne_minus hFiles (by decide) hMem
    · exact absurd hKey (by decide)
    · exact hMinus (by decide)
  simp only [ofArguments, bind_eq_ok]
  refine ⟨_, takeSize_of_inserted hLimit hLimitKey, _, takeSize_of_inserted hStack hStackKey, ?_⟩
  simp only [find?_isOption_eq_none_iff.2 hFiles]

/-- The options of a command line can stand anywhere. Arguments are read as some files, a limit and
a stack size if and only if no name of a file starts with a minus and the arguments arise from the
names of the files by putting in first, at most once and at any position, the key of the stack size
with the text of the stack size behind it, and then, at most once and at any position, the key of
the limit with the text of the limit behind it; an option that is not put in has its default value.
All other arguments are refused. -/
theorem options_can_stand_anywhere (arguments : List String) :
    (∀ (files : List String) (limit stackSize : Nat),
      ofArguments arguments = .ok ⟨files, limit, stackSize⟩ ↔
        (∀ file ∈ files, file.toList.head? ≠ some '-') ∧
          ∃ middle, Inserted stackSizeKey defaultStackSize files stackSize middle ∧
            Inserted limitKey defaultLimit middle limit arguments) ∧
    ((∀ options : Options, ¬options.Spells arguments) →
      ∃ fault, ofArguments arguments = .error fault) := by
  constructor
  · intro files limit stackSize
    exact ⟨spells_of_ofArguments, @ofArguments_of_spells arguments ⟨files, limit, stackSize⟩⟩
  intro hNone
  cases hRead : ofArguments arguments with
  | ok options => exact absurd (spells_of_ofArguments hRead) (hNone options)
  | error fault => exact ⟨fault, rfl⟩

/-- The limit can stand between the stack size and its key, and the key of the stack size cannot be
the limit. -/
theorem options_between_and_behind :
    ofArguments ["a.scm", "--stack-size", "--max-depth", "+300", "1024", "b.scm"] =
        .ok ⟨["a.scm", "b.scm"], 300, 1024⟩ ∧
      ∃ fault, ofArguments ["--max-depth", "--stack-size", "1024"] = .error fault := by
  have hText : ∀ (text : String) (size : Nat), readSize text = .ok size →
      SizeText text.toList size := fun _ _ => readSize_eq_ok_iff.1
  constructor
  · refine ((options_can_stand_anywhere _).1 _ _ _).2 ⟨by decide +kernel,
      ["a.scm", "--stack-size", "1024", "b.scm"], ?_, ?_⟩
    · exact .present ["a.scm"] ["b.scm"] (hText "1024" 1024 (by decide +kernel))
    · exact .present ["a.scm", "--stack-size"] ["1024", "b.scm"]
        (hText "+300" 300 (by decide +kernel))
  · refine (options_can_stand_anywhere _).2 fun options hSpells => ?_
    have hRefused : (ofArguments ["--max-depth", "--stack-size", "1024"]).toOption = none := by
      decide +kernel
    rw [ofArguments_of_spells hSpells] at hRefused
    cases hRefused

end Options

end MiniScheme.Console
