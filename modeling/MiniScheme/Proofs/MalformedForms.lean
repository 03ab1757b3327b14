import MiniScheme.Proofs.FormShapes
import MiniScheme.Proofs.Store

/-!
# Special forms of the wrong shape

Operands that cannot be read are not evaluated: the form is refused, with its own text, and nothing
has happened. This is so for every keyword. But a `let` can be read whatever its bindings look like,
and each of them is looked at only when its turn comes. So what the bindings before it do is done by
then, and if one of them fails, its error is the outcome, and the wrong shape is never noticed.

`Eval.BindsEach` says what the bindings of a `let` do that come to be evaluated.

## Main results

* `Eval.exists_bindings_outcome`: the bindings before the first of the wrong shape decide.
* `Eval.malformed_form_is_refused`: the outcome of every form of the wrong shape.
* `Eval.let_acts_before_refusal`: a `let` of the wrong shape fails with another error, and another
  one leaves a definition behind.
-/

namespace MiniScheme

namespace Form

/-- The first binding of the wrong shape in a `let` comes behind `good`. -/
def FirstBad (good operands : List Expr) : Prop :=
  ∃ l bad others inside, operands = .list l (good ++ bad :: others) :: inside ∧ inside ≠ [] ∧
    (∀ b ∈ good, IsBinding b) ∧ ¬IsBinding bad

/-- A list in which not all have a property has a first one that has not. -/
theorem exists_first_bad {bs : List Expr} (h : ¬∀ b ∈ bs, IsBinding b) :
    ∃ good bad others, bs = good ++ bad :: others ∧ (∀ b ∈ good, IsBinding b) ∧ ¬IsBinding bad := by
  induction bs with
  | nil => exact absurd (List.forall_mem_nil _) h
  | cons b bs ih =>
      by_cases hb : IsBinding b
      · have hRest : ¬∀ b ∈ bs, IsBinding b := fun hAll => h (List.forall_mem_cons.2 ⟨hb, hAll⟩)
        obtain ⟨good, bad, others, rfl, hGood, hBad⟩ := ih hRest
        exact ⟨b :: good, bad, others, rfl, List.forall_mem_cons.2 ⟨hb, hGood⟩, hBad⟩
      · exact ⟨[], b, bs, rfl, List.forall_mem_nil _, hb⟩

/-- Only a `let` has bindings. -/
theorem eq_letIn_of_read? {keyword : Keyword} {operands : List Expr} {parts : Form}
    (h : read? keyword operands = some parts) (hBindings : parts.bindings ≠ []) :
    keyword = .letIn ∧ ∃ l inside, operands = .list l parts.bindings :: inside ∧ inside ≠ [] := by
  cases reads_of_read? h with
  | @bind l bs es e => exact ⟨rfl, l, e :: es, rfl, by simp⟩
  | _ => exact absurd rfl hBindings

/-- Operands of the wrong shape cannot be read, or are those of a `let` with a bad binding. -/
theorem read?_eq_none_or_exists_firstBad {keyword : Keyword} {operands : List Expr}
    (h : ¬WellShaped keyword operands) :
    read? keyword operands = none ∨ keyword = .letIn ∧ ∃ good, FirstBad good operands := by
  cases hRead : read? keyword operands with
  | none => exact .inl rfl
  | some parts =>
      have hBindings : ¬∀ b ∈ parts.bindings, IsBinding b := fun hAll =>
        h (wellShaped_of_read? hRead hAll)
      obtain ⟨good, bad, others, hSplit, hGood, hBad⟩ := exists_first_bad hBindings
      have hSome : parts.bindings ≠ [] := by simp [hSplit]
      obtain ⟨hLet, l, inside, rfl, hInside⟩ := eq_letIn_of_read? hRead hSome
      exact .inr ⟨hLet, good, l, bad, others, inside, by rw [hSplit], hInside, hGood, hBad⟩

end Form

namespace Eval

/-- The bindings are evaluated in `env`, one behind the other, and all have a value; with it their
name is defined in `inner`. -/
inductive BindsEach (limit : Option Nat) (env inner : FrameId) :
    List Expr → Machine → Machine → Prop where
  | nil {m : Machine} : BindsEach limit env inner [] m m
  | cons {b : Expr} {bs : List Expr} {name : String} {value : Expr} {v : Value}
      {m m' m'' : Machine} (hBinding : Form.binding? b = some (name, value))
      (hValue : Returns limit env value m (.ok v m'))
      (hOthers : BindsEach limit env inner bs { m' with heap := m'.heap.define inner name v } m'') :
      BindsEach limit env inner (b :: bs) m m''

/-- One of the bindings fails, and those before it have a value. -/
def FailsAmong (limit : Option Nat) (env inner : FrameId) (bs : List Expr) (m : Machine) (e : Error)
    (m' : Machine) : Prop :=
  ∃ before b others name value m'', bs = before ++ b :: others ∧
    BindsEach limit env inner before m m'' ∧ Form.binding? b = some (name, value) ∧
    Returns limit env value m'' (.error (.error e) m')

theorem FailsAmong.cons {limit : Option Nat} {env inner : FrameId} {b : Expr} {bs : List Expr}
    {name : String} {value : Expr} {v : Value} {m m' m'' : Machine} {e : Error}
    (hBinding : Form.binding? b = some (name, value))
    (hValue : Returns limit env value m (.ok v m'))
    (h : FailsAmong limit env inner bs { m' with heap := m'.heap.define inner name v } e m'') :
    FailsAmong limit env inner (b :: bs) m e m'' := by
  obtain ⟨before, c, others, name', value', m₁, rfl, hBefore, hFails⟩ := h
  exact ⟨b :: before, c, others, name', value', m₁, rfl, .cons hBinding hValue hBefore, hFails⟩

section

variable {limit : Nat} {env inner : FrameId} {whole : Expr}

/-- How the bindings of a `let` end where one behind `good` has the wrong shape: that one is
reached, or one of `good` fails. -/
def BindingsEnd (limit : Option Nat) (env inner : FrameId) (whole : Expr) (good : List Expr)
    (m : Machine) (e : Error) (m' : Machine) : Prop :=
  BindsEach limit env inner good m m' ∧ e = .bare (.malformedForm whole.render) ∨
    FailsAmong limit env inner good m e m'

/-- The bindings before the first of the wrong shape decide, and what is behind it is left alone. -/
theorem exists_bindings_outcome {good : List Expr} (hGood : ∀ b ∈ good, Form.IsBinding b)
    {bad : Expr} (hBad : ¬Form.IsBinding bad) (others : List Expr) (m : Machine) :
    ∃ e m', BindingsEnd (some limit) env inner whole good m e m' ∧
      ∃ fuel, ∀ more ≥ fuel,
        bindings (run (some limit) more) env inner whole (good ++ bad :: others) m =
          .error (.error e) m' := by
  induction good generalizing m with
  | nil =>
      have hNone : Form.binding? bad = none := by
        rw [Option.eq_none_iff_forall_ne_some]
        intro entry hEntry
        exact hBad (Form.isBinding_iff.2 ⟨entry, hEntry⟩)
      refine ⟨_, m, .inl ⟨.nil, rfl⟩, 0, fun more _ => ?_⟩
      rw [List.nil_append, bindings, hNone]
      rfl
  | cons b good ih =>
      obtain ⟨hb, hGood⟩ := List.forall_mem_cons.1 hGood
      obtain ⟨⟨name, value⟩, hBinding⟩ := Form.isBinding_iff.1 hb
      obtain ⟨r, hReturns⟩ := exists_returns limit env value m
      obtain ⟨hDefinite, fuel, hFuel⟩ := id hReturns
      cases r with
      | ok v m₁ =>
          obtain ⟨e, m', hEnd, fuel', hFuel'⟩ := ih hGood
            { m₁ with heap := m₁.heap.define inner name v }
          refine ⟨e, m', ?_, max fuel fuel', fun more hMore => ?_⟩
          · rcases hEnd with ⟨hBinds, he⟩ | hFails
            · exact .inl ⟨.cons hBinding hReturns hBinds, he⟩
            · exact .inr (.cons hBinding hReturns hFails)
          · have hValue := hFuel more (Nat.le_trans (Nat.le_max_left _ _) hMore)
            rw [← hFuel' more (Nat.le_trans (Nat.le_max_right _ _) hMore), List.cons_append,
              bindings, hBinding]
            show EStateM.bind (run (some limit) more env value) _ m = _
            rw [EStateM.bind, hValue]
            rfl
      | error stop m' =>
          cases stop with
          | exhausted => exact absurd hDefinite id
          | error e =>
              refine ⟨e, m', .inr ⟨[], b, good, name, value, m, rfl, .nil, hBinding, hReturns⟩,
                fuel, fun more hMore => ?_⟩
              rw [List.cons_append, bindings, hBinding]
              show EStateM.bind (run (some limit) more env value) _ m = _
              rw [EStateM.bind, hFuel more hMore]

end

theorem locate_of_error {α : Type} {step : Eval α} {m m' : Machine} {e : Error}
    (h : step m = .error (.error e) m') (l : Option Location) :
    locate l step m = .error (.error (e.orAt l)) m' := by
  rw [locate, h]

/-- The machine with a new empty frame below `env`. -/
def opened (env : FrameId) (m : Machine) : Machine := { m with heap := (m.heap.newChild env).2 }

/-- A `let` whose bindings fail does not come to its body. -/
theorem form_bind_of_error {self : Evaluator} {env : FrameId} {whole : Expr} {bs inside : List Expr}
    {stop : Stop} {m m' : Machine}
    (h : bindings self env m.heap.frames.size whole bs (opened env m) = .error stop m') :
    form self env whole (.bind bs inside) m = .error stop m' := by
  show EStateM.bind (bindings self env m.heap.frames.size whole bs)
    (fun _ => body self m.heap.frames.size inside) (opened env m) = _
  rw [EStateM.bind, h]

/-- A `let` with a binding of the wrong shape ends the way its bindings do. -/
theorem exists_returns_of_firstBad (limit : Nat) (env : FrameId) {head : Expr}
    (hHead : head.keyword? = some .letIn) {good operands : List Expr}
    (hFirst : Form.FirstBad good operands) (l : Option Location) (m : Machine) :
    ∃ e m', BindingsEnd (some limit) env m.heap.frames.size (.list l (head :: operands)) good
        (opened env m) e m' ∧
      Returns (some limit) env (.list l (head :: operands)) m (.error (.error (e.orAt l)) m') := by
  obtain ⟨l', bad, others, inside, rfl, hInside, hGood, hBad⟩ := hFirst
  obtain ⟨first, inside, rfl⟩ := List.exists_cons_of_ne_nil hInside
  have hRead : Form.read? .letIn (.list l' (good ++ bad :: others) :: first :: inside) =
      some (.bind (good ++ bad :: others) (first :: inside)) := rfl
  obtain ⟨e, m', hEnd, fuel, hFuel⟩ := exists_bindings_outcome hGood hBad others (opened env m)
  refine ⟨e, m', hEnd, trivial, fuel + 1, fun more hMore => ?_⟩
  obtain ⟨more, rfl⟩ := Nat.exists_eq_add_of_le' (Nat.le_trans (Nat.le_add_left 1 fuel) hMore)
  rw [run_form hHead hRead]
  exact locate_of_error (form_bind_of_error (hFuel more (Nat.le_of_succ_le_succ hMore))) l

/-- What evaluation returns is the outcome of `evaluate`. -/
theorem evaluate_eq_of_returns {limit : Nat} {env : FrameId} {e : Expr} {m m' : Machine}
    {error : Error} (hBodies : m.heap.BodiesWithin m.heap.tallest)
    (h : Returns (some limit) env e (note e m) (.error (.error error) m')) :
    evaluate limit env e m = (.error error, m') := by
  rcases evaluate_returns limit env e hBodies with
    ⟨v, m'', hEq, hReturns⟩ | ⟨e', m'', hEq, hReturns⟩
  · cases hReturns.unique h
  · cases hReturns.unique h
    exact hEq

/-- A special form of the wrong shape is refused, with the text of the form and at its place, and
nothing has happened but that its height was noted, unless it is a `let` with a binding of the wrong
shape. Such a `let` makes its frame and evaluates the bindings before that one. If one of them
fails, that error is the outcome, and otherwise the form is refused then; what they have done stays
done. -/
theorem malformed_form_is_refused (limit : Nat) (env : FrameId) {m : Machine}
    (hBodies : m.heap.BodiesWithin m.heap.tallest) (l : Option Location) {head : Expr}
    {keyword : Keyword} (hHead : head.keyword? = some keyword) {operands : List Expr}
    (hShape : ¬Form.WellShaped keyword operands) :
    let form := Expr.list l (head :: operands)
    ((keyword = .letIn → ∀ good, ¬Form.FirstBad good operands) →
      evaluate limit env form m = (.error ⟨.malformedForm form.render, l⟩, note form m)) ∧
    (keyword = .letIn → ∀ good, Form.FirstBad good operands →
      (∃ m', BindsEach (some limit) env m.heap.frames.size good (opened env (note form m)) m' ∧
        evaluate limit env form m = (.error ⟨.malformedForm form.render, l⟩, m')) ∨
      ∃ e m', FailsAmong (some limit) env m.heap.frames.size good (opened env (note form m)) e m' ∧
        evaluate limit env form m = (.error (e.orAt l), m')) := by
  intro form
  constructor
  · intro hLet
    refine evaluate_eq_of_returns hBodies ⟨trivial, 1, fun more hMore => ?_⟩
    obtain ⟨fuel, rfl⟩ := Nat.exists_eq_add_of_le' hMore
    rcases Form.read?_eq_none_or_exists_firstBad hShape with hRead | ⟨hKeyword, good, hFirst⟩
    · exact run_malformed hHead hRead _ fuel env l _
    · exact absurd hFirst (hLet hKeyword good)
  · rintro rfl good hFirst
    obtain ⟨e, m', hEnd, hReturns⟩ :=
      exists_returns_of_firstBad limit env hHead hFirst l (note form m)
    have hEvaluate := evaluate_eq_of_returns hBodies hReturns
    rcases hEnd with ⟨hBinds, rfl⟩ | hFails
    · exact .inl ⟨m', hBinds, hEvaluate⟩
    · exact .inr ⟨e, m', hFails, hEvaluate⟩

/-- The operands of `(let ((a value) (c)) a)`. -/
def lateOperands (value : Expr) : List Expr :=
  [.list none [.list none [.symbol none "a", value], .list none [.symbol none "c"]],
    .symbol none "a"]

theorem firstBad_lateOperands (value : Expr) :
    Form.FirstBad [.list none [.symbol none "a", value]] (lateOperands value) := by
  refine ⟨none, .list none [.symbol none "c"], [], [.symbol none "a"], rfl, by simp, ?_, ?_⟩
  · intro b hb
    rw [List.mem_singleton.1 hb]
    exact .list (.symbol (by decide))
  · rintro ⟨⟩

theorem not_wellShaped_lateOperands (value : Expr) :
    ¬Form.WellShaped .letIn (lateOperands value) := by
  intro h
  cases h with
  | bind hBindings _ => cases hBindings (.list none [.symbol none "c"]) (by simp)

/-- `(let ((a value) (c)) a)`. -/
def lateForm (value : Expr) : Expr := .list none (.symbol none "let" :: lateOperands value)

/-- `(define z nil)`. -/
def defineZ : Expr := .list none [.symbol none "define", .symbol none "z", .symbol none "nil"]

/-- A machine with nothing but the built-in procedures and a global frame. -/
def blank : Machine := ⟨Heap.empty.newGlobal.2, 0⟩

/-- `(set! nil (define z nil))` is refused before anything is defined, and in `(let ((a b) (c)) a)`
the first binding fails. -/
theorem refusal_of_set_and_late_failure :
    blank.heap.BodiesWithin blank.heap.tallest ∧
    ¬Form.WellShaped .set [.symbol none "nil", defineZ] ∧
    evaluate 3 1 (.list none [.symbol none "set!", .symbol none "nil", defineZ]) blank =
      (.error ⟨.malformedForm "(set! nil (define z nil))", none⟩,
        note (.list none [.symbol none "set!", .symbol none "nil", defineZ]) blank) ∧
    ¬Form.WellShaped .letIn (lateOperands (.symbol none "b")) ∧
    ∃ e m', FailsAmong (some 3) 1 2 [.list none [.symbol none "a", .symbol none "b"]]
        (opened 1 (note (lateForm (.symbol none "b")) blank)) e m' ∧
      evaluate 3 1 (lateForm (.symbol none "b")) blank = (.error (e.orAt none), m') := by
  have hBodies : blank.heap.BodiesWithin blank.heap.tallest :=
    Heap.sound_empty.newGlobal.bodiesWithin
  have hSet : ¬Form.WellShaped .set [.symbol none "nil", defineZ] := by
    intro h
    cases h with
    | set hName =>
        cases hName with
        | symbol hNil => exact absurd hNil (by decide)
  have hRefused := (malformed_form_is_refused 3 1 hBodies none
    (Expr.keyword?_symbol none .set) hSet).1 (by simp)
  have hLate := not_wellShaped_lateOperands (.symbol none "b")
  refine ⟨hBodies, hSet, hRefused, hLate, ?_⟩
  rcases (malformed_form_is_refused 3 1 hBodies none (Expr.keyword?_symbol none .letIn) hLate).2 rfl
    _ (firstBad_lateOperands _) with ⟨m', _, hEnd⟩ | hFails
  · have hCause : (evaluate 3 1 (lateForm (.symbol none "b")) blank).1 =
        .error ⟨.unboundSymbol "b", none⟩ := rfl
    rw [show evaluate 3 1 (lateForm (.symbol none "b")) blank = _ from hEnd] at hCause
    cases hCause
  · exact hFails

/-- `(let ((a b) (c)) a)` has the wrong shape and fails since `b` is not bound. So has
`(let ((a (define z nil)) (c)) a)`, which is refused, but `z` is defined then. -/
theorem let_acts_before_refusal :
    (∀ value, ¬Form.WellShaped .letIn (lateOperands value)) ∧
    (evaluate 3 1 (lateForm (.symbol none "b")) blank).1 = .error ⟨.unboundSymbol "b", none⟩ ∧
    (evaluate 3 1 (lateForm defineZ) blank).1 =
      .error ⟨.malformedForm "(let ((a (define z nil)) (c)) a)", none⟩ ∧
    blank.heap.get? 1 "z" = none ∧
    (evaluate 3 1 (lateForm defineZ) blank).2.heap.get? 1 "z" = some .nil :=
  ⟨not_wellShaped_lateOperands, rfl, rfl, rfl, rfl⟩

end Eval

end MiniScheme
