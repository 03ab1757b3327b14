import MiniScheme.Builtin.Apply

/-!
# How built-in procedures fail

A built-in procedure fails because of the values it is given: what they are, or how many there are.
It never complains of a form, a name or the depth of recursion. `Cause.OfValue` names the causes
that are left.

The number of values and the values themselves do not mix. A body begins with unpacking its
arguments. A number that does not fit is refused then and there, before any argument is looked at;
with a number that fits, what can still fail lies in the arguments (`Cause.OfContent`). This is
`Unpacks`. It holds of each way of unpacking, and passes on to whatever is done with the arguments
afterwards.

To follow a refusal through a body, the bodies are written with its cause as a parameter
(`Builtin.applyWith`). A body that ends in the same way for every `Refusal` has not refused.

## Main results

* `Builtin.unpacks_applyWith`: when a body refuses, and how it fails otherwise.
* `Builtin.ofValue_of_apply`: every failure lies in the arguments.
-/

namespace MiniScheme

/-- A cause that lies in what the values are that an operation was given. -/
def Cause.OfContent : Cause → Prop
  | .typeMismatch _ _ => True
  | .divisionByZero => True
  | .integerOverflow => True
  | .indexOutOfRange _ => True
  | .improperList _ => True
  | _ => False

/-- A cause that lies in the values that an operation was given: in what they are, or in how many
there are. -/
def Cause.OfValue (cause : Cause) : Prop :=
  cause.OfContent ∨ ∃ formals count, cause = .argumentMismatch formals count

/-- A computation that can fail only because of what the values are that it was given. -/
def FailsByContent {α : Type} : Except Cause α → Prop
  | .ok _ => True
  | .error cause => cause.OfContent

section Combination

variable {α β : Type} {x : Except Cause α}

theorem FailsByContent.bind {f : α → Except Cause β} (hx : FailsByContent x)
    (hf : ∀ a, FailsByContent (f a)) : FailsByContent (x >>= f) := by
  cases x with
  | ok a => exact hf a
  | error cause => exact hx

theorem FailsByContent.map {f : α → β} (hx : FailsByContent x) : FailsByContent (x.map f) := by
  cases x with
  | ok a => trivial
  | error cause => exact hx

theorem failsByContent_ite {c : Prop} [Decidable c] {y : Except Cause α} (hx : FailsByContent x)
    (hy : FailsByContent y) : FailsByContent (if c then x else y) := by
  split
  · exact hx
  · exact hy

end Combination

/-! ## Numbers of arguments -/

/-- What is raised against a number of arguments that does not fit the parameters. -/
abbrev Refusal := Formals → Nat → Cause

/-- A computation that begins with unpacking `count` arguments into parameters. If they do not fit,
it is the refusal. If they fit, it is the same whatever the refusal would be, and can fail only
because of what the arguments are. -/
structure Unpacks {α : Type} (formals : Formals) (count : Nat) (x : Refusal → Except Cause α) :
    Prop where
  refused : formals.accepts count = false → ∀ refusal, x refusal = .error (refusal formals count)
  admitted : formals.accepts count = true → ∃ r, FailsByContent r ∧ ∀ refusal, x refusal = r

namespace Unpacks

variable {α β : Type} {formals : Formals} {count : Nat} {x : Refusal → Except Cause α}

theorem bind {f : α → Except Cause β} (hx : Unpacks formals count x)
    (hf : ∀ a, FailsByContent (f a)) : Unpacks formals count fun refusal => x refusal >>= f where
  refused hAccepts refusal := by
    rw [hx.refused hAccepts]
    rfl
  admitted hAccepts := by
    obtain ⟨r, hr, hEq⟩ := hx.admitted hAccepts
    exact ⟨r >>= f, hr.bind hf, fun refusal => by rw [hEq]⟩

theorem map {f : α → β} (hx : Unpacks formals count x) :
    Unpacks formals count fun refusal => (x refusal).map f where
  refused hAccepts refusal := by
    rw [hx.refused hAccepts]
    rfl
  admitted hAccepts := by
    obtain ⟨r, hr, hEq⟩ := hx.admitted hAccepts
    exact ⟨r.map f, hr.map, fun refusal => by rw [hEq]⟩

/-- Where any number of arguments fits, nothing has to be unpacked. -/
theorem of_failsByContent {rest : String} {r : Except Cause α} (hr : FailsByContent r) :
    Unpacks ⟨[], some rest⟩ count fun _ => r where
  refused hAccepts := by simp [Formals.accepts] at hAccepts
  admitted _ := ⟨r, hr, fun _ => rfl⟩

end Unpacks

/-! ## Numbers and lists -/

namespace Number

theorem failsByContent_checked (n : Int) : FailsByContent (checked n) :=
  failsByContent_ite trivial trivial

theorem failsByContent_combine (exact : Int → Int → Int) (real : Float → Float → Float)
    (a b : Number) : FailsByContent (combine exact real a b) := by
  unfold combine
  split
  · exact failsByContent_checked _
  · trivial

theorem failsByContent_div (a b : Number) : FailsByContent (div a b) := by
  unfold div
  split
  · exact failsByContent_ite trivial (failsByContent_ite (failsByContent_checked _) trivial)
  · exact failsByContent_ite trivial trivial

end Number

namespace Value

theorem failsByContent_asNumber (v : Value) : FailsByContent v.asNumber := by
  cases v <;> trivial

theorem failsByContent_asInteger (v : Value) : FailsByContent v.asInteger := by
  unfold asInteger
  split <;> trivial

theorem failsByContent_asPair (v : Value) : FailsByContent v.asPair := by
  cases v <;> trivial

theorem failsByContent_listElements (v : Value) : FailsByContent v.listElements := by
  rw [listElements_eq]
  exact failsByContent_ite trivial trivial

theorem failsByContent_listLength (v : Value) : FailsByContent v.listLength := by
  rw [listLength_eq]
  exact failsByContent_ite trivial trivial

theorem failsByContent_listRef (v : Value) (index : Int) : FailsByContent (v.listRef index) := by
  unfold listRef
  split
  · refine failsByContent_ite trivial (failsByContent_ite trivial ?_)
    split <;> trivial
  · trivial
  · trivial

end Value

/-! ## Procedures -/

namespace Builtin

theorem failsByContent_fold {op : Number → Number → Except Cause Number}
    (hop : ∀ a b, FailsByContent (op a b)) (vs : List Value) :
    ∀ start, FailsByContent (fold op start vs) := by
  induction vs with
  | nil => intro start; trivial
  | cons v vs ih =>
      intro start
      exact (Value.failsByContent_asNumber v).bind fun n => (hop start n).bind ih

theorem failsByContent_chained (comparison : Number.Comparison) (vs : List Value) :
    ∀ previous, FailsByContent (chained comparison previous vs) := by
  induction vs with
  | nil => intro previous; trivial
  | cons v vs ih =>
      intro previous
      exact (Value.failsByContent_asNumber v).bind fun n => failsByContent_ite (ih n) trivial

theorem failsByContent_compareAll (comparison : Number.Comparison) (vs : List Value) :
    FailsByContent (compareAll comparison vs) := by
  cases vs with
  | nil => trivial
  | cons v vs =>
      exact (Value.failsByContent_asNumber v).bind (failsByContent_chained comparison vs)

theorem failsByContent_concat (args : List Value) : FailsByContent (concat args) := by
  induction args with
  | nil => trivial
  | cons arg args ih =>
      exact (Value.failsByContent_listElements arg).bind fun _ => ih.bind fun _ => trivial

/-! ## Unpacking -/

/-- The arguments, if there are exactly `n` of them. -/
def exactlyWith (refusal : Refusal) (n : Nat) (args : List Value) : Except Cause (Vector Value n) :=
  if h : args.length = n then .ok ⟨args.toArray, h⟩
  else .error (refusal (numbered n) args.length)

/-- A difference or quotient, of at least one argument. -/
def foldFromWith (refusal : Refusal) (op : Number → Number → Except Cause Number) (unit : Number) :
    List Value → Except Cause Number
  | [] => .error (refusal ⟨["x1"], some "x"⟩ 0)
  | [v] => do op unit (← v.asNumber)
  | v :: vs => do fold op (← v.asNumber) vs

theorem exactlyWith_argumentMismatch (n : Nat) (args : List Value) :
    exactlyWith .argumentMismatch n args = exactly n args := rfl

theorem foldFromWith_argumentMismatch (op : Number → Number → Except Cause Number) (unit : Number)
    (args : List Value) : foldFromWith .argumentMismatch op unit args = foldFrom op unit args := by
  rcases args with _ | ⟨v, _ | ⟨w, vs⟩⟩ <;> rfl

theorem accepts_numbered {n count : Nat} : (numbered n).accepts count = true ↔ count = n := by
  simp [Formals.accepts, numbered]

theorem unpacks_exactlyWith (n : Nat) (args : List Value) :
    Unpacks (numbered n) args.length fun refusal => exactlyWith refusal n args where
  refused hAccepts refusal := by
    have hLength : args.length ≠ n := fun h => by simp [accepts_numbered.2 h] at hAccepts
    exact dif_neg hLength
  admitted hAccepts := by
    have hLength : args.length = n := accepts_numbered.1 hAccepts
    exact ⟨.ok ⟨args.toArray, hLength⟩, trivial, fun _ => dif_pos hLength⟩

theorem unpacks_foldFromWith {op : Number → Number → Except Cause Number}
    (hop : ∀ a b, FailsByContent (op a b)) (unit : Number) (args : List Value) :
    Unpacks ⟨["x1"], some "x"⟩ args.length fun refusal => foldFromWith refusal op unit args := by
  cases args with
  | nil => exact ⟨fun _ _ => rfl, fun hAccepts => by cases hAccepts⟩
  | cons v vs =>
      refine ⟨fun hAccepts => by simp [Formals.accepts] at hAccepts, fun _ => ?_⟩
      have hv := Value.failsByContent_asNumber v
      -- a lone argument is combined with the unit, a first one with the others
      cases vs with
      | nil => exact ⟨_, hv.bind (hop unit), fun _ => rfl⟩
      | cons w vs => exact ⟨_, hv.bind (failsByContent_fold hop (w :: vs)), fun _ => rfl⟩

/-! ## Bodies -/

/-- The parameters that the body of a procedure unpacks its arguments into. -/
def expects : Builtin → Formals
  | .sub | .div => ⟨["x1"], some "x"⟩
  | .not | .car | .cdr | .isList | .length => numbered 1
  | .listRef => numbered 2
  | _ => ⟨[], some "x"⟩

/-- Applies a built-in procedure whose body refuses a number of arguments in the given way. The
bodies that take any number have nothing to refuse. -/
def applyWith (refusal : Refusal) (b : Builtin) (args : List Value) (id : Nat) :
    Except Cause (Value × Nat) :=
  match b with
  | .sub => withoutPairs id ((foldFromWith refusal Number.sub (.integer 0) args).map .number)
  | .div => withoutPairs id ((foldFromWith refusal Number.div (.integer 1) args).map .number)
  | .not => withoutPairs id ((exactlyWith refusal 1 args).map fun vs =>
      .boolean (vs.get ⟨0, Nat.one_pos⟩).isFalse)
  | .car => withoutPairs id do
      let vs ← exactlyWith refusal 1 args
      .ok (← (vs.get ⟨0, Nat.one_pos⟩).asPair).1
  | .cdr => withoutPairs id do
      let vs ← exactlyWith refusal 1 args
      .ok (← (vs.get ⟨0, Nat.one_pos⟩).asPair).2
  | .isList => withoutPairs id ((exactlyWith refusal 1 args).map fun vs =>
      .boolean (vs.get ⟨0, Nat.one_pos⟩).isProperList)
  | .length => withoutPairs id do
      let vs ← exactlyWith refusal 1 args
      let count ← (vs.get ⟨0, Nat.one_pos⟩).listLength
      .ok (.number (.integer (Int64.ofNat count)))
  | .listRef => withoutPairs id do
      let vs ← exactlyWith refusal 2 args
      let index ← (vs.get ⟨1, Nat.one_lt_two⟩).asInteger
      (vs.get ⟨0, Nat.two_pos⟩).listRef index.toInt
  | other => other.apply args id

/-- A body refuses by complaining of the number of its arguments. -/
theorem applyWith_argumentMismatch (b : Builtin) (args : List Value) (id : Nat) :
    b.applyWith .argumentMismatch args id = b.apply args id := by
  cases b with
  | sub | div => simp only [applyWith, apply, foldFromWith_argumentMismatch]
  | not | car | cdr | isList | length | listRef =>
      simp only [applyWith, apply, exactlyWith_argumentMismatch]
  | _ => rfl

/-- A body unpacks its arguments before it does anything else. -/
theorem unpacks_applyWith (b : Builtin) (args : List Value) (id : Nat) :
    Unpacks b.expects args.length fun refusal => b.applyWith refusal args id := by
  -- for sums, differences and products; a quotient has a failure of its own
  have hop := Number.failsByContent_combine
  cases b with
  | add => exact .of_failsByContent (failsByContent_fold (hop _ _) args _).map.map
  | sub => exact (unpacks_foldFromWith (hop _ _) _ args).map.map
  | mul => exact .of_failsByContent (failsByContent_fold (hop _ _) args _).map.map
  | div => exact (unpacks_foldFromWith Number.failsByContent_div _ args).map.map
  | compare comparison =>
      exact .of_failsByContent (failsByContent_compareAll comparison args).map.map
  | equal =>
      have hSame : FailsByContent (.ok (Value.boolean (allSame args), id)) := trivial
      exact .of_failsByContent hSame
  | not => exact (unpacks_exactlyWith 1 args).map.map
  | isList => exact (unpacks_exactlyWith 1 args).map.map
  | car =>
      refine Unpacks.map ?_
      exact (unpacks_exactlyWith 1 args).bind fun _ =>
        (Value.failsByContent_asPair _).bind fun _ => trivial
  | cdr =>
      refine Unpacks.map ?_
      exact (unpacks_exactlyWith 1 args).bind fun _ =>
        (Value.failsByContent_asPair _).bind fun _ => trivial
  | length =>
      refine Unpacks.map ?_
      exact (unpacks_exactlyWith 1 args).bind fun _ =>
        (Value.failsByContent_listLength _).bind fun _ => trivial
  | listRef =>
      refine Unpacks.map ?_
      exact (unpacks_exactlyWith 2 args).bind fun _ =>
        (Value.failsByContent_asInteger _).bind fun index =>
          Value.failsByContent_listRef _ index.toInt
  | append => exact .of_failsByContent (failsByContent_concat args).map

/-- Every failure of a built-in procedure lies in its arguments. -/
theorem ofValue_of_apply {b : Builtin} {args : List Value} {id : Nat} {cause : Cause}
    (h : b.apply args id = .error cause) : cause.OfValue := by
  have hUnpacks := unpacks_applyWith b args id
  rw [← applyWith_argumentMismatch] at h
  cases hAccepts : b.expects.accepts args.length with
  | false =>
      rw [hUnpacks.refused hAccepts] at h
      cases h
      exact .inr ⟨_, _, rfl⟩
  | true =>
      obtain ⟨r, hr, hEq⟩ := hUnpacks.admitted hAccepts
      rw [hEq] at h
      rw [h] at hr
      exact .inl hr

end Builtin

end MiniScheme
