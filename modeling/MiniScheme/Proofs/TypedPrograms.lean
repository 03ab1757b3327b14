import Mathlib.Data.List.ReduceOption
import MiniScheme.Proofs.Inputs
import MiniScheme.Proofs.Layout
import MiniScheme.Proofs.TokenLayout

/-!
# Typing a program in is running it as a whole

A program can be typed in line by line or run as one text. The console cuts the lines into inputs,
skips the blank ones between them, and checks, reads and evaluates every input by itself; the text
is scanned, checked and read in one go. If all goes well the two come to the same.

Four things make it so. A line end always ends a token and a comment, so the tokens of the text are
those of the inputs, one after the other, at other places. An input that was evaluated without an
error is a sequence of whole forms, so the forms of the text are those of the inputs, one after the
other. Evaluating them in order is what the console does, too. And places do not matter
(`MiniScheme.Proofs.Layout`).

## Main results

* `Token.allRelaid_scan_append`: a text may be cut at a line end.
* `Interpreter.State.evalForms_append`: forms may be evaluated in two goes.
* `Console.forms_of_session`: what the lines of a session amount to.
* `Console.typing_lines_equals_running_text`: a session without errors and the text of its lines.
-/

namespace MiniScheme

/-! ## Scanning at other places -/

namespace Token

/-- Modes that are the same up to the place where an atom started. -/
inductive Scan.Relaid : Scan → Scan → Prop where
  | between : Relaid .between .between
  | comment : Relaid .comment .comment
  | atom (start start' : Location) (read : List Char) :
      Relaid (.atom start read) (.atom start' read)

theorem AllRelaid.refl (tokens : List Token) : AllRelaid tokens tokens :=
  List.forall₂_same.2 fun _ _ => rfl

theorem AllRelaid.trans {ts us vs : List Token} (h : AllRelaid ts us) (h' : AllRelaid us vs) :
    AllRelaid ts vs :=
  allRelaid_iff.2 ((allRelaid_iff.1 h).trans (allRelaid_iff.1 h'))

theorem Scan.Relaid.finish {mode mode' : Scan} (h : mode.Relaid mode') :
    AllRelaid mode.finish mode'.finish := by
  cases h with
  | between => exact .nil
  | comment => exact .nil
  | atom start start' read => exact .cons rfl .nil

theorem Scan.relaid_lead (l l' : Location) (c : Char) :
    AllRelaid (lead l c).1 (lead l' c).1 ∧ (lead l c).2.Relaid (lead l' c).2 := by
  unfold lead
  split
  · exact ⟨.cons rfl .nil, .between⟩
  split
  · exact ⟨.cons rfl .nil, .between⟩
  split
  · exact ⟨.nil, .comment⟩
  split
  · exact ⟨.nil, .between⟩
  · exact ⟨.nil, .atom l l' [c]⟩

theorem Scan.Relaid.step {mode mode' : Scan} (h : mode.Relaid mode') (l l' : Location)
    (c : Char) :
    AllRelaid (mode.step l c).1 (mode'.step l' c).1 ∧
      (mode.step l c).2.Relaid (mode'.step l' c).2 := by
  have hLead := relaid_lead l l' c
  have hFinish := h.finish
  cases h with
  | between => exact hLead
  | comment =>
      refine ⟨.nil, ?_⟩
      show Scan.Relaid (if c = '\n' then .between else .comment) (if c = '\n' then _ else _)
      split
      · exact .between
      · exact .comment
  | atom start start' read =>
      unfold Scan.step
      dsimp only
      split
      · exact ⟨List.rel_append hFinish hLead.1, hLead.2⟩
      · exact ⟨.nil, .atom start start' (c :: read)⟩

theorem relaid_scanFrom (cs : List Char) :
    ∀ {mode mode' : Scan}, mode.Relaid mode' → ∀ l l',
      AllRelaid (scanFrom mode l cs) (scanFrom mode' l' cs) := by
  induction cs with
  | nil =>
      intro mode mode' h l l'
      exact h.finish
  | cons c cs ih =>
      intro mode mode' h l l'
      obtain ⟨hTokens, hNext⟩ := h.step l l' c
      exact List.rel_append hTokens (ih hNext (l.after c) (l'.after c))

/-! ## Line ends -/

/-- A line end ends a comment and an atom. -/
theorem Scan.step_newline (mode : Scan) (l : Location) :
    mode.step l '\n' = (mode.finish, .between) := by
  cases mode with
  | between => rfl
  | comment => rfl
  | atom start read => rfl

/-- Behind a line end scanning starts afresh. -/
theorem scanFrom_newline (cs : List Char) :
    ∀ (mode : Scan) (l : Location), ∃ l', ∀ rest,
      scanFrom mode l (cs ++ '\n' :: rest) =
        scanFrom mode l (cs ++ ['\n']) ++ scanFrom .between l' rest := by
  induction cs with
  | nil =>
      intro mode l
      refine ⟨l.after '\n', fun rest => ?_⟩
      show scanFrom mode l ('\n' :: rest) = scanFrom mode l ['\n'] ++ _
      rw [scanFrom, scanFrom, mode.step_newline]
      show mode.finish ++ _ = (mode.finish ++ []) ++ _
      rw [List.append_nil]
  | cons c cs ih =>
      intro mode l
      obtain ⟨l', hRest⟩ := ih (mode.step l c).2 (l.after c)
      refine ⟨l', fun rest => ?_⟩
      rw [List.cons_append, List.cons_append, scanFrom, scanFrom, hRest, List.append_assoc]

/-- A text that is cut at a line end has the tokens of the two parts, at other places. -/
theorem allRelaid_scan_append (source rest : String) :
    AllRelaid (scan (source ++ "\n" ++ rest)) (scan (source ++ "\n") ++ scan rest) := by
  obtain ⟨l', hRest⟩ := scanFrom_newline source.toList .between .start
  have hChars : (source ++ "\n" ++ rest).toList = source.toList ++ '\n' :: rest.toList := by
    simp
  have hLine : (source ++ "\n").toList = source.toList ++ ['\n'] := by simp
  unfold scan
  rw [hChars, hLine, hRest]
  exact List.rel_append (AllRelaid.refl _) (relaid_scanFrom rest.toList .between l' .start)

theorem Gap.of_isBlank {cs : List Char} (h : ∀ c ∈ cs, Text.isBlank c = true) : Gap cs := by
  induction cs with
  | nil => exact .nil
  | cons c cs ih =>
      exact .blank (h c List.mem_cons_self) (ih fun d hd => h d (List.mem_cons_of_mem c hd))

theorem scan_blank_line {line : String} (h : Console.isBlankLine line = true) :
    scan (line ++ "\n") = [] := by
  refine scanFrom_lastGap (.closed (Gap.of_isBlank fun c hc => ?_)) .start
  have hChars : (line ++ "\n").toList = line.toList ++ ['\n'] := by simp
  rw [hChars] at hc
  rcases List.mem_append.1 hc with hc | hc
  · exact List.all_eq_true.1 h c hc
  · rw [List.mem_singleton.1 hc]
    decide

end Token

/-! ## Forms in order -/

namespace Interpreter.State

/-- Forms may be evaluated in two goes: if the first ends without an error, the second goes on from
its state and its last value. -/
theorem evalForms_append (forms forms' : List (Except Error Expr)) :
    ∀ (s : State) (last : Option Value),
      s.evalForms last (forms ++ forms') =
        match s.evalForms last forms with
        | (.ok v, s') => s'.evalForms v forms'
        | (.error e, s') => (.error e, s') := by
  induction forms with
  | nil =>
      intro s last
      rfl
  | cons form forms ih =>
      intro s last
      rw [List.cons_append, evalForms, evalForms]
      cases s.evalRead s.interpreter.global form with
      | mk result s' =>
          cases result with
          | error e => rfl
          | ok v => exact ih s' (some v)

theorem isSome_of_evalForms {forms : List (Except Error Expr)} :
    ∀ {s s' : State} {w : Value} {v : Option Value},
      s.evalForms (some w) forms = (.ok v, s') → v.isSome = true := by
  induction forms with
  | nil =>
      intro s s' w v h
      cases h
      rfl
  | cons form forms ih =>
      intro s s' w v h
      unfold evalForms at h
      split at h
      · cases h
      · exact ih h

/-- The value so far is the value of forms only if there are none. -/
theorem evalForms_or {s s' : State} {forms : List (Except Error Expr)} {v : Option Value}
    (h : s.evalForms none forms = (.ok v, s')) (last : Option Value) :
    s.evalForms last forms = (.ok (v.or last), s') := by
  cases forms with
  | nil =>
      cases h
      rfl
  | cons form forms =>
      have hSome : v.isSome = true := by
        unfold evalForms at h
        split at h
        · cases h
        · exact isSome_of_evalForms h
      obtain ⟨w, rfl⟩ := Option.isSome_iff_exists.1 hSome
      exact h

/-- Forms that were evaluated without an error were read without one. -/
theorem exists_of_evalForms {forms : List (Except Error Expr)} :
    ∀ {s s' : State} {last v : Option Value}, s.evalForms last forms = (.ok v, s') →
      ∃ es : List Expr, forms = es.map .ok := by
  induction forms with
  | nil =>
      intro s s' last v _
      exact ⟨[], rfl⟩
  | cons form forms ih =>
      intro s s' last v h
      cases form with
      | error e => cases h
      | ok e =>
          unfold evalForms at h
          split at h
          · cases h
          · obtain ⟨es, rfl⟩ := ih h
            exact ⟨e :: es, rfl⟩

theorem evalForms_of_program {s s' : State} {source : String} {v : Option Value}
    (h : s.program source = (.ok v, s')) :
    s.evalForms none (Expr.forms (Token.scan source)) = (.ok v, s') := by
  unfold program at h
  dsimp only at h
  split at h
  · next hEmpty =>
      rw [List.isEmpty_iff.1 hEmpty]
      exact h
  · split at h
    · cases h
    · exact h

/-- A text that was evaluated without an error is made of whole forms. -/
theorem exists_forms_of_program {s s' : State} {source : String} {v : Option Value}
    (h : s.program source = (.ok v, s')) :
    ∃ es, Expr.Bracketing es (Token.scan source) ∧
      ∀ last, s.evalForms last (es.map .ok) = (.ok (v.or last), s') := by
  have hForms := evalForms_of_program h
  obtain ⟨es, hRead⟩ := exists_of_evalForms hForms
  refine ⟨es, Expr.forms_eq_map_ok_iff.1 hRead, fun last => ?_⟩
  rw [hRead] at hForms
  exact evalForms_or hForms last

theorem program_eq_evalForms (s : State) {source : String}
    (h : Token.scan source = [] ∨ Expr.validate (Token.scan source) = .ok ()) :
    s.program source = s.evalForms none (Expr.forms (Token.scan source)) := by
  unfold program
  dsimp only
  split
  · next hEmpty =>
      rw [List.isEmpty_iff.1 hEmpty]
      rfl
  · next hEmpty =>
      rw [h.resolve_left fun hNil => hEmpty (List.isEmpty_iff.2 hNil)]

/-- The line that is printed for the result of a program, if there is one. -/
def shown : Except Error (Option Value) → Option String
  | .ok (some v) => some ("  out> " ++ v.render)
  | .ok none => none
  | .error e => some ("  " ++ e.render)

theorem respond_eq (s : State) (source : String) :
    s.respond source = (shown (s.program source).1, (s.program source).2) := by
  unfold respond
  split
  all_goals
    next hProgram =>
      rw [hProgram]
      rfl

end Interpreter.State

/-! ## Sessions -/

namespace Console

open Interpreter (State)

/-- The text that lines make up, each with its line end. -/
def textOf : List String → String
  | [] => ""
  | line :: lines => line ++ "\n" ++ textOf lines

/-- What the inputs that are evaluated while some lines are read give, in order. -/
def Prompt.results (p : Prompt) : List String → List (Except Error (Option Value))
  | [] => []
  | line :: lines =>
      match cut p.pending line with
      | .skip => p.results lines
      | .quit => []
      | .more pending => Prompt.results ⟨p.state, pending⟩ lines
      | .input source =>
          (p.state.program source).1 :: Prompt.results ⟨(p.state.program source).2, ""⟩ lines

theorem Prompt.after_cons (p : Prompt) (line : String) (lines : List String) :
    p.after (line :: lines) =
      match cut p.pending line with
      | .skip => p.after lines
      | .quit => none
      | .more pending => Prompt.after ⟨p.state, pending⟩ lines
      | .input source => Prompt.after ⟨(p.state.program source).2, ""⟩ lines := by
  rw [after, line_eq_cut]
  cases cut p.pending line with
  | input source =>
      dsimp only
      rw [State.respond_eq]
  | _ => rfl

/-- The console prints the results of the inputs, in order, and nothing else. -/
theorem Prompt.answers_text (lines : List String) :
    ∀ p : Prompt, (p.answers (lines.map .text)).1 = (p.results lines).filterMap State.shown := by
  induction lines with
  | nil =>
      intro p
      rfl
  | cons line lines ih =>
      intro p
      rw [List.map_cons, answers, results, line_eq_cut]
      cases cut p.pending line with
      | skip => exact ih p
      | quit => rfl
      | more pending => exact ih ⟨p.state, pending⟩
      | input source =>
          dsimp only
          rw [State.respond_eq, List.filterMap_cons, ih]
          cases State.shown (p.state.program source).1 with
          | none => rfl
          | some line => rfl

/-- The last value that there is, of some values in order and one before them. -/
theorem getLast?_reduceOption_cons_or (v : Option Value) (vs : List (Option Value))
    (last : Option Value) :
    (v :: vs).reduceOption.getLast?.or last = vs.reduceOption.getLast?.or (v.or last) := by
  cases v with
  | none => rw [List.reduceOption_cons_of_none, Option.none_or]
  | some w => rw [List.reduceOption_cons_of_some, List.getLast?_cons, Option.some_or,
      Option.some_or, Option.or_some]

/-- The lines of a session without errors, behind what is pending, have the lexemes of whole forms,
and evaluating these forms in order gives what the session gives. -/
theorem forms_of_session (lines : List String) :
    ∀ {s s' : State} {pending : String} {values : List (Option Value)},
      (Prompt.mk s pending).after lines = some ⟨s', ""⟩ →
      (Prompt.mk s pending).results lines = values.map .ok →
      ∃ es ts, Expr.Bracketing es ts ∧
        Token.AllRelaid (Token.scan (pending ++ textOf lines)) ts ∧
        ∀ last, s.evalForms last (es.map .ok) =
          (.ok (values.reduceOption.getLast?.or last), s') := by
  induction lines with
  | nil =>
      intro s s' pending values hAfter hResults
      cases hAfter
      rw [List.map_eq_nil_iff.1 hResults.symm]
      exact ⟨[], [], .nil, .nil, fun last => rfl⟩
  | cons line lines ih =>
      intro s s' pending values hAfter hResults
      rw [Prompt.after_cons] at hAfter
      rw [Prompt.results] at hResults
      have hText : pending ++ textOf (line :: lines) = pending ++ line ++ "\n" ++ textOf lines := by
        rw [textOf, ← String.append_assoc, ← String.append_assoc]
      cases hCut : cut pending line with
      | quit =>
          simp only [hCut] at hAfter
          cases hAfter
      | skip =>
          simp only [hCut] at hAfter hResults
          obtain ⟨es, ts, hSpelled, hTokens, hEval⟩ := ih hAfter hResults
          obtain ⟨rfl, hBlank⟩ := cut_eq_skip hCut
          refine ⟨es, ts, hSpelled, ?_, hEval⟩
          -- A blank line has no tokens.
          have hLine := Token.allRelaid_scan_append ("" ++ line) (textOf lines)
          rw [String.empty_append, Token.scan_blank_line hBlank, List.nil_append] at hLine
          rw [String.empty_append] at hTokens
          rw [hText, String.empty_append]
          exact hLine.trans hTokens
      | more pending' =>
          simp only [hCut] at hAfter hResults
          obtain ⟨es, ts, hSpelled, hTokens, hEval⟩ := ih hAfter hResults
          refine ⟨es, ts, hSpelled, ?_, hEval⟩
          rw [hText, ← (cut_eq_more hCut).1]
          exact hTokens
      | input source =>
          simp only [hCut] at hAfter hResults
          obtain ⟨v, values, rfl, hFirst, hOthers⟩ := List.map_eq_cons_iff.1 hResults.symm
          obtain ⟨es, ts, hSpelled, hTokens, hEval⟩ := ih hAfter hOthers.symm
          have hProgram : s.program source = (.ok v, (s.program source).2) := by rw [hFirst]
          obtain ⟨es₁, hSpelled₁, hEval₁⟩ := State.exists_forms_of_program hProgram
          refine ⟨es₁ ++ es, Token.scan source ++ ts, hSpelled₁.append hSpelled, ?_, fun last => ?_⟩
          · have hJoin := Token.allRelaid_scan_append (pending ++ line) (textOf lines)
            rw [← (cut_eq_input hCut).1] at hJoin
            rw [String.empty_append] at hTokens
            rw [hText, ← (cut_eq_input hCut).1]
            exact hJoin.trans (List.rel_append (Token.AllRelaid.refl _) hTokens)
          · rw [List.map_append, State.evalForms_append, hEval₁]
            dsimp only
            rw [hEval, getLast?_reduceOption_cons_or]

theorem exists_eq_map_ok {ε α : Type} {results : List (Except ε α)}
    (h : results.all Except.isOk = true) : ∃ values : List α, results = values.map .ok := by
  induction results with
  | nil => exact ⟨[], rfl⟩
  | cons result results ih =>
      rw [List.all_cons, Bool.and_eq_true] at h
      obtain ⟨values, rfl⟩ := ih h.2
      cases result with
      | error e => cases h.1
      | ok value => exact ⟨value :: values, rfl⟩

/-- If a session reads some lines to the end, with nothing pending then and without an error of any
input, and if the text of the lines has no tokens or passes the check, then the text as a program
gives the last value that the session gave, if there was one, and leaves the state that the session
leaves, up to the places in the bodies of procedures. -/
theorem typing_lines_equals_running_text {s s' : State} {lines : List String}
    {values : List (Option Value)} (hSession : (Prompt.mk s "").after lines = some ⟨s', ""⟩)
    (hValues : (Prompt.mk s "").results lines = values.map .ok)
    (hText : Token.scan (textOf lines) = [] ∨
      Expr.validate (Token.scan (textOf lines)) = .ok ()) :
    ∃ value t, s.program (textOf lines) = (.ok value, t) ∧
      Option.Rel Value.Relaid value values.reduceOption.getLast? ∧ t.Relaid s' := by
  obtain ⟨es, ts, hSpelled, hTokens, hEval⟩ := forms_of_session lines hSession hValues
  rw [String.empty_append] at hTokens
  have hForms : Expr.forms ts = es.map .ok := Expr.forms_eq_map_ok_iff.2 hSpelled
  have hOutcome := State.relaid_evalForms (Expr.relaid_forms hTokens) (.refl s) .none
  rw [hForms, hEval none, Option.or_none, ← s.program_eq_evalForms hText] at hOutcome
  generalize s.program (textOf lines) = r at hOutcome
  obtain ⟨result, t⟩ := r
  obtain ⟨hResult, hState⟩ := hOutcome
  cases hResult with
  | ok hValue => exact ⟨_, t, rfl, hValue, hState⟩

/-- A blank line, a definition over two lines with a comment, and a call. -/
theorem typing_definition_and_call :
    let s := State.initial defaultLimit
    let lines := ["", "(define (id x) ; (", "  x)", "(id #t)"]
    ∃ (s' : State) (values : List (Option Value)),
      (Prompt.mk s "").after lines = some ⟨s', ""⟩ ∧
      (Prompt.mk s "").results lines = values.map .ok ∧
      Expr.validate (Token.scan (textOf lines)) = .ok () ∧
      ∃ value t, s.program (textOf lines) = (.ok value, t) ∧
        Option.Rel Value.Relaid value values.reduceOption.getLast? ∧ t.Relaid s' := by
  intro s lines
  have hPending : ((Prompt.mk s "").after lines).map Prompt.pending = some "" := by decide +kernel
  have hOk : ((Prompt.mk s "").results lines).all Except.isOk = true := by decide +kernel
  have hText : Expr.validate (Token.scan (textOf lines)) = .ok () := by decide +kernel
  obtain ⟨⟨s', pending⟩, hAfter, rfl⟩ := Option.map_eq_some_iff.1 hPending
  obtain ⟨values, hValues⟩ := exists_eq_map_ok hOk
  exact ⟨s', values, hAfter, hValues, hText,
    typing_lines_equals_running_text hAfter hValues (.inr hText)⟩

end Console

end MiniScheme
