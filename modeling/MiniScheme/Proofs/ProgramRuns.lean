import MiniScheme.Proofs.Families
import MiniScheme.Proofs.Segments

/-!
# What a program runs

A program is checked as a whole, by counting parentheses, and then read and evaluated form by form.
The count does not see nesting, so a closing parenthesis that closes nothing can get past the check.
Reading comes upon it only after the forms before it have been evaluated, and their effects stay.

No other complaint of the reader is left. A list that is never closed takes one opening parenthesis
too many, so a closing one has to make up for it in front of it, outside every group; and there the
program ends. Thus the tokens of a text that passes the check are whole forms up to their end, or up
to the first closing parenthesis outside every group (`Expr.WholeForms`).

## Main results

* `Expr.exists_wholeForms`: tokens with enough closing parentheses begin with whole forms.
* `Expr.WholeForms.unique`: in one way only.
* `Interpreter.State.evaluates_or_fails`: forms in order give their values, or one of them fails.
* `Interpreter.State.program_runs_leading_forms`: what becomes of a program.
-/

namespace MiniScheme

/-! ## Whole forms -/

namespace Expr

/-- The tokens spell the expressions, and go on with `behind`: with nothing, or with a closing
parenthesis. Since only whole forms stand in front of it, it is the first one outside every
group. -/
structure WholeForms (es : List Expr) (behind tokens : List Token) : Prop where
  spelled : ∃ front, tokens = front ++ behind ∧ Bracketing es front
  loose : ∀ token ∈ behind.head?, token.lexeme = .right

theorem count_append (lexeme : Lexeme) (ts us : List Token) :
    Token.count lexeme (ts ++ us) = Token.count lexeme ts + Token.count lexeme us :=
  List.countP_append

/-- Where no opening parenthesis is too many, every segment in front of a loose closing parenthesis
spells an expression. -/
theorem Reading.exists_wholeForms {last : Option Location} {segments : List (List Token)}
    {items : List (Except Error Expr)} (h : Reading last segments items) :
    Token.count .left segments.flatten ≤ Token.count .right segments.flatten →
      ∃ es behind, WholeForms es behind segments.flatten := by
  induction h with
  | done => exact fun _ => ⟨[], [], ⟨[], rfl, .nil⟩, by simp⟩
  | @form e segment segments _ spelled _ ih =>
      intro hCount
      have hSpelled := spelled.count_eq
      rw [List.flatten_cons, count_append, count_append] at hCount
      obtain ⟨es, behind, ⟨front, hFront, hes⟩, hLoose⟩ := ih (by omega)
      refine ⟨e :: es, behind, ⟨segment ++ front, ?_, spelled.append hes⟩, hLoose⟩
      rw [List.flatten_cons, hFront, List.append_assoc]
  | loose l _ _ => exact fun _ => ⟨[], _, ⟨[], rfl, .nil⟩, by simp⟩
  | @unclosed l after never =>
      intro hCount
      have hMore : Token.count .left after + 1 ≤ Token.count .right after := by
        simpa [Token.count] using hCount
      exact absurd (exists_bracketing_of_count _ hMore) never

/-- Tokens with at least as many closing as opening parentheses are whole forms, and behind these
nothing or what begins with a loose parenthesis. -/
theorem exists_wholeForms {tokens : List Token}
    (h : Token.count .left tokens ≤ Token.count .right tokens) :
    ∃ es behind, WholeForms es behind tokens := by
  obtain ⟨segments, rfl, hReading⟩ := exists_reading tokens none
  exact hReading.exists_wholeForms h

/-- The error of a closing parenthesis that closes nothing, if tokens begin with one. -/
def looseErrors (behind : List Token) : List Error :=
  behind.head?.toList.map fun token => ⟨.unmatchedParenthesis, token.location⟩

/-- The reader finds the whole forms, then the loose parenthesis, and then something more. -/
theorem WholeForms.forms_eq {es : List Expr} {behind tokens : List Token}
    (h : WholeForms es behind tokens) :
    ∃ more, forms tokens = es.map .ok ++ ((looseErrors behind).map .error ++ more) ∧
      (behind = [] → more = []) := by
  obtain ⟨⟨front, rfl, hFront⟩, hLoose⟩ := h
  have hForms : forms (front ++ behind) = _ := forms_of_bracketing hFront none behind
  cases behind with
  | nil => exact ⟨[], hForms, fun _ => rfl⟩
  | cons token rest =>
      obtain ⟨lexeme, l⟩ := token
      obtain rfl : lexeme = .right := hLoose ⟨lexeme, l⟩ rfl
      exact ⟨formsFrom [] l rest, hForms, nofun⟩

/-- Expressions in front of an error, or of the end, are told apart from what follows. -/
theorem map_ok_append_inj {es es' : List Expr} {items items' : List (Except Error Expr)}
    (hItems : ∀ e, items.head? ≠ some (.ok e)) (hItems' : ∀ e, items'.head? ≠ some (.ok e))
    (h : es.map Except.ok ++ items = es'.map Except.ok ++ items') : es = es' := by
  induction es generalizing es' with
  | nil =>
      cases es' with
      | nil => rfl
      | cons e' es' =>
          refine absurd ?_ (hItems e')
          rw [List.map_nil, List.nil_append] at h
          rw [h]
          rfl
  | cons e es ih =>
      cases es' with
      | nil =>
          refine absurd ?_ (hItems' e)
          rw [List.map_nil, List.nil_append] at h
          rw [← h]
          rfl
      | cons e' es' =>
          obtain ⟨hHead, hTail⟩ := List.cons.inj h
          rw [Except.ok.inj hHead, ih hTail]

theorem head?_looseErrors_append {behind : List Token} {more : List (Except Error Expr)}
    (hMore : behind = [] → more = []) (e : Expr) :
    ((looseErrors behind).map Except.error ++ more).head? ≠ some (.ok e) := by
  cases behind with
  | nil =>
      rw [hMore rfl]
      exact nofun
  | cons token rest => exact nofun

/-- A spelling that a longer one begins with, in front of a closing parenthesis or the end. -/
theorem Bracketing.behind_unique {es : List Expr} {front front' behind behind' : List Token}
    (h : Bracketing es front) (h' : Bracketing es front')
    (hEq : front ++ behind = front' ++ behind') : front = front' ∧ behind = behind' := by
  induction h generalizing front' behind behind' with
  | nil =>
      cases h'
      exact ⟨rfl, hEq⟩
  | @atom l text es ts _ ih =>
      generalize hAtom : ofAtom l text = e at h'
      cases h' with
      | atom l' text' rest =>
          obtain ⟨hToken, hRest⟩ := List.cons.inj hEq
          obtain ⟨hFront, hBehind⟩ := ih rest hRest
          exact ⟨by rw [hToken, hFront], hBehind⟩
      | list l' l'' elements rest => cases (List.cons.inj hEq).1
  | @list l l' items es inside ts _ _ ihElements ihRest =>
      generalize hList : Expr.list l items = e at h'
      cases h' with
      | atom l₁ text rest => cases (List.cons.inj hEq).1
      | @list l₁ l₁' items' _ inside' ts' elements rest =>
          obtain ⟨rfl, rfl⟩ := Expr.list.inj hList
          have hInner : (inside ++ ⟨.right, l'⟩ :: ts) ++ behind =
              (inside' ++ ⟨.right, l₁'⟩ :: ts') ++ behind' := (List.cons.inj hEq).2
          rw [List.append_assoc, List.append_assoc] at hInner
          obtain ⟨rfl, hClosing⟩ := ihElements elements hInner
          obtain ⟨hToken, hRest⟩ := List.cons.inj hClosing
          obtain ⟨hFront, hBehind⟩ := ihRest rest hRest
          exact ⟨by rw [hToken, hFront], hBehind⟩

/-- There is one way in which tokens begin with whole forms. -/
theorem WholeForms.unique {es es' : List Expr} {behind behind' tokens : List Token}
    (h : WholeForms es behind tokens) (h' : WholeForms es' behind' tokens) :
    es = es' ∧ behind = behind' := by
  obtain ⟨more, hForms, hMore⟩ := h.forms_eq
  obtain ⟨more', hForms', hMore'⟩ := h'.forms_eq
  have hes : es = es' := map_ok_append_inj (head?_looseErrors_append hMore)
    (head?_looseErrors_append hMore') (hForms.symm.trans hForms')
  subst hes
  obtain ⟨⟨front, hFront, hSpelled⟩, _⟩ := h
  obtain ⟨⟨front', hFront', hSpelled'⟩, _⟩ := h'
  exact ⟨rfl, (hSpelled.behind_unique hSpelled' (hFront.symm.trans hFront')).2⟩

/-- Tokens that pass the check begin with a form. -/
theorem exists_wholeForms_of_validate {tokens : List Token} (h : validate tokens = .ok ()) :
    ∃ e es behind, WholeForms (e :: es) behind tokens ∧ parse tokens = .ok e := by
  have hAcceptable := (validate_eq_ok_iff tokens).1 h
  obtain ⟨es, behind, hForms⟩ := exists_wholeForms (Nat.le_of_eq hAcceptable.balanced)
  obtain ⟨e, ts, rest, rfl, hFirst⟩ := hAcceptable.exists_form
  have hParse := parse_of_form hFirst h
  obtain ⟨more, hRead, hMore⟩ := hForms.forms_eq
  have hHead : forms (ts ++ rest) = _ := forms_of_bracketing hFirst none rest
  rw [hRead] at hHead
  cases es with
  | nil =>
      refine absurd ?_ (head?_looseErrors_append hMore e)
      rw [List.map_nil, List.nil_append] at hHead
      rw [hHead]
      rfl
  | cons e' es =>
      obtain rfl : e' = e := Except.ok.inj (List.cons.inj hHead).1
      exact ⟨e', es, behind, hForms, hParse⟩

end Expr

/-! ## Forms in order -/

namespace Interpreter.State

/-- Expressions are evaluated in frame `env`, each in the state that the one before it left, and
all of them have values. -/
inductive Evaluates (env : FrameId) : State → List Expr → List Value → State → Prop where
  | nil (s : State) : Evaluates env s [] [] s
  | cons {s s₁ s₂ : State} {e : Expr} {es : List Expr} {v : Value} {vs : List Value}
      (first : s.evalExpr env e = (.ok v, s₁)) (rest : Evaluates env s₁ es vs s₂) :
      Evaluates env s (e :: es) (v :: vs) s₂

/-- One of the expressions is the first that fails: those before it have values, and its own
evaluation ends in the error. -/
def Fails (env : FrameId) (s : State) (es : List Expr) (error : Error) (s' : State) : Prop :=
  ∃ before failing after vs s₁, es = before ++ failing :: after ∧
    s.Evaluates env before vs s₁ ∧ s₁.evalExpr env failing = (.error error, s')

/-- Evaluation in order has values for all expressions, or there is a first one that fails. -/
theorem evaluates_or_fails (env : FrameId) (es : List Expr) :
    ∀ s : State, (∃ vs s', s.Evaluates env es vs s') ∨ ∃ error s', s.Fails env es error s' := by
  induction es with
  | nil => exact fun s => .inl ⟨[], s, .nil s⟩
  | cons e es ih =>
      intro s
      cases hFirst : s.evalExpr env e with
      | mk result s₁ =>
          cases result with
          | error error => exact .inr ⟨error, s₁, [], e, es, [], s, rfl, .nil s, hFirst⟩
          | ok v =>
              rcases ih s₁ with ⟨vs, s', hRest⟩ | ⟨error, s', hRest⟩
              · exact .inl ⟨v :: vs, s', .cons hFirst hRest⟩
              · obtain ⟨before, failing, after, vs, s₂, rfl, hBefore, hFailing⟩ := hRest
                exact .inr ⟨error, s', e :: before, failing, after, v :: vs, s₂, rfl,
                  .cons hFirst hBefore, hFailing⟩

theorem Evaluates.length_eq {env : FrameId} {s s' : State} {es : List Expr} {vs : List Value}
    (h : s.Evaluates env es vs s') : es.length = vs.length := by
  induction h with
  | nil s => rfl
  | cons _ _ ih => rw [List.length_cons, List.length_cons, ih]

theorem Evaluates.global_eq {env : FrameId} {s s' : State} {es : List Expr} {vs : List Value}
    (h : s.Evaluates env es vs s') : s'.interpreter.global = s.interpreter.global := by
  induction h with
  | nil s => rfl
  | @cons s s₁ _ e _ _ _ first _ ih =>
      have hFirst : (s.evalExpr env e).2.interpreter.global = s.interpreter.global := rfl
      rw [first] at hFirst
      exact ih.trans hFirst

/-- Expressions that have values lead on to what follows them. -/
theorem Evaluates.evalForms_eq {env : FrameId} {s s' : State} {es : List Expr} {vs : List Value}
    (h : s.Evaluates env es vs s') :
    env = s.interpreter.global → ∀ (last : Option Value) (items : List (Except Error Expr)),
      s.evalForms last (es.map .ok ++ items) = s'.evalForms (vs.getLast?.or last) items := by
  induction h with
  | nil s => exact fun _ last items => rfl
  | @cons s s₁ s₂ e es v vs first rest ih =>
      intro hEnv last items
      have hRead : s.evalRead s.interpreter.global (.ok e) = (.ok v, s₁) := hEnv ▸ first
      have hGlobal := (Evaluates.cons first (.nil s₁)).global_eq
      rw [List.map_cons, List.cons_append, evalForms, hRead]
      dsimp only
      rw [ih (hEnv.trans hGlobal.symm), List.getLast?_cons, Option.some_or]
      cases vs.getLast? <;> rfl

theorem Fails.evalForms_eq {s s' : State} {es : List Expr} {error : Error}
    (h : s.Fails s.interpreter.global es error s') (last : Option Value)
    (items : List (Except Error Expr)) :
    s.evalForms last (es.map .ok ++ items) = (.error error, s') := by
  obtain ⟨before, failing, after, vs, s₁, rfl, hBefore, hFailing⟩ := h
  have hRead : s₁.evalRead s₁.interpreter.global (.ok failing) = (.error error, s') := by
    rw [hBefore.global_eq]
    exact hFailing
  rw [List.map_append, List.append_assoc, hBefore.evalForms_eq rfl, List.map_cons,
    List.cons_append, evalForms, hRead]

theorem Fails.cause_ne {env : FrameId} {s s' : State} {es : List Expr} {error : Error}
    (h : s.Fails env es error s') : error.cause ≠ .unexpectedEnd := by
  obtain ⟨_, failing, _, _, s₁, _, _, hFailing⟩ := h
  have hFamily := (Eval.families_evaluate s₁.interpreter.limit env failing s₁.machine).2 error
    (congrArg Prod.fst hFailing)
  intro hCause
  rw [hCause] at hFamily
  exact hFamily.1 rfl

/-- Whole forms are evaluated in order. If all of them have values, the last value is the result,
unless a closing parenthesis that closes nothing comes behind them. -/
theorem evalForms_of_wholeForms (s : State) {e : Expr} {es : List Expr}
    {behind tokens : List Token} (h : Expr.WholeForms (e :: es) behind tokens) :
    (∃ vs v s', s.Evaluates s.interpreter.global (e :: es) (vs ++ [v]) s' ∧
      (behind = [] → s.evalForms none (Expr.forms tokens) = (.ok (some v), s')) ∧
      ∀ token rest, behind = token :: rest →
        s.evalForms none (Expr.forms tokens) =
          (.error ⟨.unmatchedParenthesis, token.location⟩, s')) ∨
    ∃ error s', s.Fails s.interpreter.global (e :: es) error s' ∧
      s.evalForms none (Expr.forms tokens) = (.error error, s') := by
  obtain ⟨more, hForms, hMore⟩ := h.forms_eq
  rw [hForms]
  rcases evaluates_or_fails s.interpreter.global (e :: es) s with
    ⟨values, s', hValues⟩ | ⟨error, s', hFails⟩
  · have hNe : values ≠ [] := by
      have hLength := hValues.length_eq
      rintro rfl
      cases hLength
    obtain ⟨vs, v, rfl⟩ := List.eq_nil_or_concat' values |>.resolve_left hNe
    refine .inl ⟨vs, v, s', hValues, ?_, ?_⟩
    · rintro rfl
      rw [hValues.evalForms_eq rfl, hMore rfl, List.getLast?_concat]
      rfl
    · rintro token rest rfl
      rw [hValues.evalForms_eq rfl]
      rfl
  · exact .inr ⟨error, s', hFails, hFails.evalForms_eq none _⟩

/-! ## Programs -/

theorem program_of_scan_eq_nil (s : State) {source : String} (h : Token.scan source = []) :
    s.program source = (.ok none, s) := by
  unfold program
  dsimp only
  rw [h]
  rfl

theorem program_of_validate_error (s : State) {source : String} {error : Error}
    (hTokens : Token.scan source ≠ []) (h : Expr.validate (Token.scan source) = .error error) :
    s.program source = (.error error, s) := by
  have hEmpty : ¬ (Token.scan source).isEmpty = true := by
    rw [List.isEmpty_iff]
    exact hTokens
  simp only [program, if_neg hEmpty, h]

theorem program_of_validate_ok (s : State) {source : String}
    (h : Expr.validate (Token.scan source) = .ok ()) :
    s.program source = s.evalForms none (Expr.forms (Token.scan source)) := by
  have hEmpty : ¬ (Token.scan source).isEmpty = true := by
    rw [List.isEmpty_iff]
    exact ((Expr.validate_eq_ok_iff _).1 h).nonempty
  simp only [program, if_neg hEmpty, h]

/-- On tokens, the check has other complaints than an end that came too soon. -/
theorem cause_of_validate {tokens : List Token} (hTokens : tokens ≠ []) {error : Error}
    (h : Expr.validate tokens = .error error) : error.cause ≠ .unexpectedEnd := by
  cases tokens with
  | nil => exact absurd rfl hTokens
  | cons first rest =>
      unfold Expr.validate at h
      dsimp only at h
      split at h
      · cases h
        exact nofun
      · split at h
        · cases h
          exact nofun
        · split at h
          · cases h
            exact nofun
          · cases h

/-- What becomes of a text as a program, in every state.

* A text without tokens has no value and changes nothing.
* A text that does not pass the check has the error of the check, and changes nothing.
* Any other text has whole forms in front of its end or of the first closing parenthesis outside
  every group, and at least one of them. They are evaluated in order in the global frame, each in
  the state that the one before it left. The first error is the result, and the forms behind it are
  not evaluated. If there is none, the result is the value of the last form where the text ends
  behind it, and otherwise the error of that parenthesis; the effects of the forms remain.
* The error is never that of an end that came too soon.

The first expression of the text, where only that is asked for, is the first of these forms. -/
theorem program_runs_leading_forms (s : State) (source : String) :
    (Token.scan source = [] → s.program source = (.ok none, s)) ∧
    (∀ error, Token.scan source ≠ [] → Expr.validate (Token.scan source) = .error error →
      s.program source = (.error error, s) ∧ s.eval source = (.error error, s)) ∧
    (Expr.validate (Token.scan source) = .ok () → ∃ e es behind,
      Expr.WholeForms (e :: es) behind (Token.scan source) ∧
      (∀ es' behind', Expr.WholeForms es' behind' (Token.scan source) →
        es' = e :: es ∧ behind' = behind) ∧
      s.eval source = s.evalExpr s.interpreter.global e ∧
      ((∃ vs v s', s.Evaluates s.interpreter.global (e :: es) (vs ++ [v]) s' ∧
          (behind = [] → s.program source = (.ok (some v), s')) ∧
          ∀ token rest, behind = token :: rest →
            s.program source = (.error ⟨.unmatchedParenthesis, token.location⟩, s')) ∨
        ∃ error s', s.Fails s.interpreter.global (e :: es) error s' ∧
          s.program source = (.error error, s'))) ∧
    ∀ error, (s.program source).1 = .error error → error.cause ≠ .unexpectedEnd := by
  refine ⟨s.program_of_scan_eq_nil, fun error hTokens hCheck => ⟨?_, ?_⟩, fun hCheck => ?_, ?_⟩
  · exact s.program_of_validate_error hTokens hCheck
  · simp only [eval, evalIn, Expr.ofSource, Expr.parse, hCheck, evalRead]
  · obtain ⟨e, es, behind, hForms, hParse⟩ := Expr.exists_wholeForms_of_validate hCheck
    rw [s.program_of_validate_ok hCheck]
    refine ⟨e, es, behind, hForms, fun es' behind' h => h.unique hForms, ?_,
      s.evalForms_of_wholeForms hForms⟩
    simp only [eval, evalIn, Expr.ofSource, hParse, evalRead]
  · intro error hError
    by_cases hTokens : Token.scan source = []
    · rw [s.program_of_scan_eq_nil hTokens] at hError
      cases hError
    cases hCheck : Expr.validate (Token.scan source) with
    | error error' =>
        rw [s.program_of_validate_error hTokens hCheck] at hError
        cases hError
        exact cause_of_validate hTokens hCheck
    | ok _ =>
        obtain ⟨e, es, behind, hForms, _⟩ := Expr.exists_wholeForms_of_validate hCheck
        rw [s.program_of_validate_ok hCheck] at hError
        rcases s.evalForms_of_wholeForms hForms with
          ⟨vs, v, s', _, hEnd, hLoose⟩ | ⟨error', s', hFails, hEnd⟩
        · cases behind with
          | nil =>
              rw [hEnd rfl] at hError
              cases hError
          | cons token rest =>
              rw [hLoose token rest rfl] at hError
              cases hError
              simp
        · rw [hEnd] at hError
          cases hError
          exact hFails.cause_ne

/-- A definition, a parenthesis that closes nothing, and a list that is never closed. The numbers
of parentheses agree, so the definition has taken effect when the loose parenthesis is found. -/
theorem program_keeps_definition_before_loose_parenthesis :
    let s := State.initial 50
    let source := "(define x 5)) (+ x 1"
    Expr.validate (Token.scan source) = .ok () ∧
      ∃ s', s.program source = (.error ⟨.unmatchedParenthesis, some ⟨1, 13⟩⟩, s') ∧
        (s'.heap.get? s'.interpreter.global "x").isSome = true := by
  intro s source
  have hCheck : Expr.validate (Token.scan source) = .ok () := by decide +kernel
  obtain ⟨e, es, behind, -, hUnique, -, hRun⟩ :=
    (program_runs_leading_forms s source).2.2.1 hCheck
  let definition : Expr := .list (some ⟨1, 1⟩) [.ofAtom (some ⟨1, 2⟩) "define",
    .ofAtom (some ⟨1, 9⟩) "x", .ofAtom (some ⟨1, 11⟩) "5"]
  have hTokens : Token.scan source =
      [⟨.left, some ⟨1, 1⟩⟩, ⟨.atom "define", some ⟨1, 2⟩⟩, ⟨.atom "x", some ⟨1, 9⟩⟩,
        ⟨.atom "5", some ⟨1, 11⟩⟩, ⟨.right, some ⟨1, 12⟩⟩, ⟨.right, some ⟨1, 13⟩⟩,
        ⟨.left, some ⟨1, 15⟩⟩, ⟨.atom "+", some ⟨1, 16⟩⟩, ⟨.atom "x", some ⟨1, 18⟩⟩,
        ⟨.atom "1", some ⟨1, 20⟩⟩] := by decide +kernel
  obtain ⟨hForms, rfl⟩ := hUnique [definition] ((Token.scan source).drop 5)
    ⟨⟨(Token.scan source).take 5, (List.take_append_drop 5 _).symm, by
      rw [hTokens]
      exact .list _ _ (.atom _ _ (.atom _ _ (.atom _ _ .nil))) .nil⟩, by rw [hTokens]; simp⟩
  obtain ⟨rfl, rfl⟩ := List.cons.inj hForms
  have hValue : (s.evalExpr s.interpreter.global definition).1.isOk = true := by decide +kernel
  refine ⟨hCheck, ?_⟩
  rcases hRun with ⟨vs, v, s', hRun, -, hLoose⟩ | ⟨error, s', hFails, -⟩
  · refine ⟨s', hLoose _ _ (by rw [hTokens]; rfl), ?_⟩
    generalize vs ++ [v] = values at hRun
    cases hRun with
    | cons first rest =>
        cases rest
        have hState : s' = (s.evalExpr s.interpreter.global definition).2 := by rw [first]
        rw [hState]
        decide +kernel
  · obtain ⟨before, failing, after, _, s₁, hSplit, hBefore, hFailing⟩ := hFails
    cases before with
    | nil =>
        cases hBefore
        obtain ⟨rfl, -⟩ := List.cons.inj hSplit
        rw [hFailing] at hValue
        cases hValue
    | cons _ before => cases before <;> cases (List.cons.inj hSplit).2

end Interpreter.State

end MiniScheme
