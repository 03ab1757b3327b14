import MiniScheme.Console
import MiniScheme.Proofs.Families
import MiniScheme.Proofs.Segments

/-!
# When an input is complete

The console decides on characters when an input is complete. It counts parentheses from left to
right, and all it remembers besides is whether it is inside a comment. The scanner tells atoms and
white space apart as well, and it is its tokens that are counted when the input is checked before
it is evaluated. The two agree: an input is complete if its tokens have no more opening than
closing parentheses.

So of the two ways in which the parentheses of an input can be out of balance, only one is left for
the check to find, and an input that is not complete yet has an opening parenthesis too many.

## Main results

* `Console.balanceFrom_eq`: the counter, from every mode of the scanner.
* `Console.Prompt.line_eq_cut`: how a line is read, with what becomes of the input set apart.
* `Console.complete_iff_tokens_closed`: complete inputs, and the inputs of a session.
-/

namespace MiniScheme

/-! ## The counter and the scanner -/

/-- Number of opening parentheses less the number of closing ones. -/
def Token.surplus (tokens : List Token) : Int :=
  (Token.count .left tokens : Int) - Token.count .right tokens

@[simp]
theorem Token.surplus_nil : surplus [] = 0 := rfl

theorem Token.surplus_append (ts us : List Token) :
    surplus (ts ++ us) = surplus ts + surplus us := by
  simp only [surplus, count, List.countP_append, Int.natCast_add]
  omega

/-- Whether the scanner is inside a comment. -/
def Token.Scan.inComment : Token.Scan → Bool
  | .comment => true
  | _ => false

theorem Token.Scan.surplus_finish (mode : Token.Scan) : surplus mode.finish = 0 := by
  cases mode <;> rfl

namespace Console

open Interpreter (State)
open Token (Scan surplus)

theorem balanceFrom_lead (n : Int) (l : Location) (c : Char) (cs : List Char) :
    balanceFrom false n (c :: cs) =
      balanceFrom (Scan.lead l c).2.inComment (n + surplus (Scan.lead l c).1) cs := by
  rw [balanceFrom, if_neg Bool.false_ne_true]
  unfold Scan.lead
  by_cases hLeft : c = '('
  · rw [if_pos hLeft, if_pos hLeft]
    rfl
  by_cases hRight : c = ')'
  · rw [if_neg hLeft, if_pos hRight, if_neg hLeft, if_pos hRight]
    rfl
  rw [if_neg hLeft, if_neg hRight, if_neg hLeft, if_neg hRight]
  by_cases hComment : c = ';'
  · rw [if_pos hComment, decide_eq_true hComment, Token.surplus_nil, Int.add_zero]
    rfl
  · rw [if_neg hComment, decide_eq_false hComment]
    split
    · rw [Token.surplus_nil, Int.add_zero]
      rfl
    · rw [Token.surplus_nil, Int.add_zero]
      rfl

/-- One character: the counter takes in the tokens that the scanner completes. -/
theorem balanceFrom_step (mode : Scan) (n : Int) (l : Location) (c : Char) (cs : List Char) :
    balanceFrom mode.inComment n (c :: cs) =
      balanceFrom (mode.step l c).2.inComment (n + surplus (mode.step l c).1) cs := by
  cases mode with
  | between => exact balanceFrom_lead n l c cs
  | comment =>
      have hStep : Scan.comment.step l c = ([], if c = '\n' then .between else .comment) := rfl
      have hMode : Scan.comment.inComment = true := rfl
      rw [hStep, hMode, balanceFrom, if_pos rfl, Token.surplus_nil, Int.add_zero]
      by_cases hEnd : c = '\n'
      · rw [if_pos hEnd, hEnd]
        rfl
      · rw [if_neg hEnd, bne_iff_ne.2 hEnd]
        rfl
  | atom start read =>
      by_cases hEnd : Token.isDelimiter c = true
      · have hStep : (Scan.atom start read).step l c =
            ((Scan.atom start read).finish ++ (Scan.lead l c).1, (Scan.lead l c).2) := by
          simp [Scan.step, hEnd]
        rw [hStep, Token.surplus_append, Scan.surplus_finish, Int.zero_add]
        exact balanceFrom_lead n l c cs
      · have hOther : c ≠ '(' ∧ c ≠ ')' ∧ c ≠ ';' := by
          simp only [Token.isDelimiter, Bool.or_eq_true, beq_iff_eq, not_or] at hEnd
          exact ⟨hEnd.1.1.1, hEnd.1.1.2, hEnd.1.2⟩
        have hStep : (Scan.atom start read).step l c = ([], .atom start (c :: read)) := by
          simp [Scan.step, hEnd]
        rw [hStep, Token.surplus_nil, Int.add_zero]
        show balanceFrom false n (c :: cs) = balanceFrom false n cs
        rw [balanceFrom, if_neg Bool.false_ne_true, if_neg hOther.1, if_neg hOther.2.1,
          decide_eq_false hOther.2.2]

/-- The counter adds up the parentheses that the scanner finds. -/
theorem balanceFrom_eq (cs : List Char) :
    ∀ (mode : Scan) (n : Int) (l : Location),
      balanceFrom mode.inComment n cs = n + surplus (Token.scanFrom mode l cs) := by
  induction cs with
  | nil =>
      intro mode n l
      rw [Token.scanFrom, Scan.surplus_finish, Int.add_zero]
      rfl
  | cons c cs ih =>
      intro mode n l
      have hStep := balanceFrom_step mode n l c cs
      rw [hStep, ih _ _ (l.after c), Token.scanFrom, Token.surplus_append]
      omega

theorem isComplete_iff (source : String) :
    isComplete source = true ↔
      Token.count .left (Token.scan source) ≤ Token.count .right (Token.scan source) := by
  have hBalance := balanceFrom_eq source.toList .between 0 .start
  have hStart : Scan.between.inComment = false := rfl
  rw [hStart] at hBalance
  unfold isComplete
  rw [hBalance, decide_eq_true_iff]
  show 0 + surplus (Token.scan source) ≤ 0 ↔ _
  unfold surplus
  omega

/-! ## Lines -/

/-- What becomes of the pending input when a line is read. -/
inductive Cut where
  /-- The line is blank and nothing is pending. -/
  | skip
  /-- The line ends the session. -/
  | quit
  /-- The input is not complete yet. -/
  | more (pending : String)
  /-- The input is complete. -/
  | input (source : String)

/-- Adds a line to the pending input. -/
def cut (pending line : String) : Cut :=
  if pending = "" ∧ isBlankLine line then .skip
  else if pending = "" ∧ isExit line then .quit
  else if isComplete (pending ++ line ++ "\n") then .input (pending ++ line ++ "\n")
  else .more (pending ++ line ++ "\n")

/-- A complete input is evaluated, and nothing else is. -/
theorem Prompt.line_eq_cut (p : Prompt) (line : String) :
    p.line line =
      match cut p.pending line with
      | .skip => .next none p
      | .quit => .quit
      | .more pending => .next none ⟨p.state, pending⟩
      | .input source => .next (p.state.respond source).1 ⟨(p.state.respond source).2, ""⟩ := by
  unfold Prompt.line cut
  by_cases hSkip : p.pending = "" ∧ isBlankLine line
  · rw [if_pos hSkip, if_pos hSkip]
  by_cases hQuit : p.pending = "" ∧ isExit line
  · rw [if_neg hSkip, if_pos hQuit, if_neg hSkip, if_pos hQuit]
  rw [if_neg hSkip, if_neg hQuit, if_neg hSkip, if_neg hQuit]
  by_cases hComplete : isComplete (p.pending ++ line ++ "\n") = true
  · simp only [hComplete, if_true]
  · simp only [hComplete]
    rfl

/-- The prompt after some lines, unless one of them ends the session. -/
def Prompt.after (p : Prompt) : List String → Option Prompt
  | [] => some p
  | line :: lines =>
      match p.line line with
      | .quit => none
      | .next _ p' => p'.after lines

/-- There are more opening than closing parentheses among the tokens. -/
def LeftOpen (source : String) : Prop :=
  Token.count .right (Token.scan source) < Token.count .left (Token.scan source)

theorem cut_eq_skip {pending line : String} (h : cut pending line = .skip) :
    pending = "" ∧ isBlankLine line = true := by
  unfold cut at h
  split_ifs at h with hSkip
  exact hSkip

theorem cut_eq_more {pending line pending' : String} (h : cut pending line = .more pending') :
    pending' = pending ++ line ++ "\n" ∧ ¬isComplete pending' = true := by
  unfold cut at h
  split_ifs at h with _ _ hComplete
  cases h
  exact ⟨rfl, hComplete⟩

theorem cut_eq_input {pending line source : String} (h : cut pending line = .input source) :
    source = pending ++ line ++ "\n" ∧ isComplete source = true := by
  unfold cut at h
  split_ifs at h with _ _ hComplete
  cases h
  exact ⟨rfl, hComplete⟩

/-- If what is pending was left open, so is what is pending after one more line. -/
theorem Prompt.pending_line {p p' : Prompt} {line : String} {output : Option String}
    (hp : p.pending ≠ "" → LeftOpen p.pending) (hLine : p.line line = .next output p') :
    p'.pending ≠ "" → LeftOpen p'.pending := by
  rw [line_eq_cut] at hLine
  cases hCut : cut p.pending line with
  | skip =>
      rw [hCut] at hLine
      cases hLine
      exact hp
  | quit =>
      rw [hCut] at hLine
      cases hLine
  | more pending =>
      rw [hCut] at hLine
      cases hLine
      intro _
      have hOpen := (cut_eq_more hCut).2
      rw [isComplete_iff, Nat.not_le] at hOpen
      exact hOpen
  | input source =>
      rw [hCut] at hLine
      cases hLine
      exact fun hPending => absurd rfl hPending

theorem Prompt.pending_after (lines : List String) :
    ∀ {p p' : Prompt}, (p.pending ≠ "" → LeftOpen p.pending) → p.after lines = some p' →
      p'.pending ≠ "" → LeftOpen p'.pending := by
  induction lines with
  | nil =>
      intro p p' hp hAfter
      cases hAfter
      exact hp
  | cons line lines ih =>
      intro p p' hp hAfter
      unfold after at hAfter
      split at hAfter
      · cases hAfter
      · next hLine => exact ih (pending_line hp hLine) hAfter

/-! ## The check before evaluation -/

theorem unbalanced_of_validate {tokens : List Token} {error : Error} {opening closing : Nat}
    (h : Expr.validate tokens = .error error)
    (hCause : error.cause = .unbalancedParentheses opening closing) :
    opening = Token.count .left tokens ∧ closing = Token.count .right tokens := by
  cases tokens with
  | nil =>
      cases h
      cases hCause
  | cons first rest =>
      simp only [Expr.validate] at h
      split_ifs at h
      all_goals
        cases h
        cases hCause
      exact ⟨rfl, rfl⟩

/-- Only reading and evaluation come after the check, and neither counts parentheses. -/
theorem unbalanced_of_program {s : State} {source : String} {error : Error}
    {opening closing : Nat} (h : (s.program source).1 = .error error)
    (hCause : error.cause = .unbalancedParentheses opening closing) :
    opening = Token.count .left (Token.scan source) ∧
      closing = Token.count .right (Token.scan source) := by
  unfold State.program at h
  dsimp only at h
  split at h
  · cases h
  · split at h
    · next e hValidate =>
        cases h
        exact unbalanced_of_validate hValidate hCause
    · rcases State.cause_of_evalForms h with hMem | hEvaluation
      · rcases Expr.cause_of_mem_forms hMem with hEnd | hLoose
        · rw [hEnd] at hCause
          cases hCause
        · rw [hLoose] at hCause
          cases hCause
      · rw [Cause.OfEvaluation, hCause] at hEvaluation
        exact absurd rfl hEvaluation.1

/-- The console finds an input complete exactly if its tokens have no more opening than closing
parentheses. Hence, in every session, no input that is evaluated is refused for an opening
parenthesis too many, and an input that is pending has one. -/
theorem complete_iff_tokens_closed :
    (∀ source : String, isComplete source = true ↔
      Token.count .left (Token.scan source) ≤ Token.count .right (Token.scan source)) ∧
    ∀ (s : State) (lines : List String) (p : Prompt), (Prompt.mk s "").after lines = some p →
      (p.pending ≠ "" →
        Token.count .right (Token.scan p.pending) < Token.count .left (Token.scan p.pending)) ∧
      ∀ line source, cut p.pending line = .input source →
        ∀ error opening closing, (p.state.program source).1 = .error error →
          error.cause = .unbalancedParentheses opening closing → opening ≤ closing := by
  refine ⟨isComplete_iff, fun s lines p hAfter => ⟨?_, ?_⟩⟩
  · exact Prompt.pending_after lines (fun hPending => absurd rfl hPending) hAfter
  · intro line source hCut error opening closing hError hCause
    have hComplete := (isComplete_iff source).1 (cut_eq_input hCut).2
    obtain ⟨rfl, rfl⟩ := unbalanced_of_program hError hCause
    exact hComplete

/-- An input of two lines: the first leaves a parenthesis open, the second closes one too many. -/
theorem tokens_of_two_lines :
    let p : Prompt := ⟨State.initial defaultLimit, "(list 1 ; (\n"⟩
    let source := "(list 1 ; (\n2))\n"
    (Prompt.mk (State.initial defaultLimit) "").after ["(list 1 ; ("] = some p ∧
      Token.count .right (Token.scan p.pending) < Token.count .left (Token.scan p.pending) ∧
      cut p.pending "2))" = .input source ∧
      (p.state.program source).1 = .error (.bare (.unbalancedParentheses 1 2)) ∧ 1 ≤ 2 := by
  intro p source
  have hAfter : (Prompt.mk (State.initial defaultLimit) "").after ["(list 1 ; ("] = some p := rfl
  have hCut : cut "(list 1 ; (\n" "2))" = .input "(list 1 ; (\n2))\n" := by rfl
  have hError : ((State.initial defaultLimit).program "(list 1 ; (\n2))\n").1 =
      .error (.bare (.unbalancedParentheses 1 2)) := by rfl
  obtain ⟨hPending, hInput⟩ := complete_iff_tokens_closed.2 _ _ p hAfter
  exact ⟨hAfter, hPending (by decide), hCut, hError, hInput _ _ hCut _ _ _ hError rfl⟩

end Console

end MiniScheme
