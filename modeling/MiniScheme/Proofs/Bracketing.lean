import MiniScheme.Expr.Reader
import Mathlib.Data.List.Infix

/-!
# Bracketings: which tokens spell which expressions

`Bracketing es ts` says that the tokens `ts` spell the expressions `es`, one after the other: an
atom is spelled by its token, a list by an opening parenthesis at its place, the spelling of its
elements, and a closing parenthesis somewhere. The relation knows nothing of a reader. It has no
stack, no rest and no error, so it can serve as the grammar that the reader is measured against.

The check that runs before the reader looks at the two parenthesis counts of the *whole*
sequence, while the reader works by nesting. What joins them is `exists_bracketing_of_count`: in
a sequence with more closing than opening parentheses some closing parenthesis is the first to
stand outside every group, and the tokens before it spell expressions.

## Main results

* `formsFrom_of_bracketing`, `forms_of_bracketing`: the reader turns a spelling into what it
  spells, inside an open list and at the top level, whatever follows.
* `Bracketing.eq_nil_of_append`: no proper part at the front of a form is a form.
* `parse_ok_iff_shortest_form`: reading one expression succeeds on exactly the sequences that
  pass the check, and gives the expression spelled by the shortest form at their front.
-/

namespace MiniScheme.Expr

/-! ## Spelling -/

/-- The tokens spell the expressions, in order. -/
inductive Bracketing : List Expr → List Token → Prop where
  | nil : Bracketing [] []
  | atom (l : Option Location) (text : String) {es : List Expr} {ts : List Token}
      (rest : Bracketing es ts) : Bracketing (ofAtom l text :: es) (⟨.atom text, l⟩ :: ts)
  | list (l l' : Option Location) {items es : List Expr} {inside ts : List Token}
      (elements : Bracketing items inside) (rest : Bracketing es ts) :
      Bracketing (.list l items :: es) (⟨.left, l⟩ :: (inside ++ ⟨.right, l'⟩ :: ts))

theorem Bracketing.append {es es' : List Expr} {ts ts' : List Token} (h : Bracketing es ts)
    (h' : Bracketing es' ts') : Bracketing (es ++ es') (ts ++ ts') := by
  induction h with
  | nil => exact h'
  | atom l text _ ih => exact .atom l text ih
  | list l l' elements _ _ ih => simpa using Bracketing.list l l' elements ih

/-- The tokens spell exactly one expression. -/
def IsForm (ts : List Token) : Prop := ∃ e, Bracketing [e] ts

/-- The place of the last of some tokens, or the place given if there is none. -/
def placeAfter (last : Option Location) (ts : List Token) : Option Location :=
  ts.foldl (fun _ token => token.location) last

@[simp]
theorem placeAfter_nil (last : Option Location) : placeAfter last [] = last := rfl

@[simp]
theorem placeAfter_cons (last : Option Location) (t : Token) (ts : List Token) :
    placeAfter last (t :: ts) = placeAfter t.location ts := rfl

@[simp]
theorem placeAfter_append (last : Option Location) (ts us : List Token) :
    placeAfter last (ts ++ us) = placeAfter (placeAfter last ts) us :=
  List.foldl_append

/-! ## The reader on a spelling -/

/-- Inside an open list, a spelling adds what it spells to the innermost list. -/
theorem formsFrom_of_bracketing {es : List Expr} {ts : List Token} (h : Bracketing es ts) :
    ∀ (group : OpenList) (outer : List OpenList) (last : Option Location) (rest : List Token),
      formsFrom (group :: outer) last (ts ++ rest) =
        formsFrom ({ group with items := es.reverse ++ group.items } :: outer)
          (placeAfter last ts) rest := by
  induction h with
  | nil => intro group outer last rest; rfl
  | atom l text _ ih =>
      intro group outer last rest
      rw [List.cons_append, formsFrom, ih]
      simp
  | list l l' _ _ ihElements ihRest =>
      intro group outer last rest
      -- The inner list is open while its elements are read, and joins `group` when it closes.
      rw [List.cons_append, formsFrom, List.append_assoc, ihElements, List.cons_append, formsFrom,
        ihRest]
      simp [OpenList.close]

/-- At the top level, what a spelling spells are the next forms. -/
theorem forms_of_bracketing {es : List Expr} {ts : List Token} (h : Bracketing es ts) :
    ∀ (last : Option Location) (rest : List Token),
      formsFrom [] last (ts ++ rest) =
        es.map Except.ok ++ formsFrom [] (placeAfter last ts) rest := by
  induction h with
  | nil => intro last rest; rfl
  | atom l text _ ih =>
      intro last rest
      rw [List.cons_append, formsFrom, ih]
      rfl
  | list l l' hElements _ _ ihRest =>
      intro last rest
      rw [List.cons_append, formsFrom, List.append_assoc, formsFrom_of_bracketing hElements,
        List.cons_append, formsFrom, ihRest]
      simp [OpenList.close]

/-- A list that is open gives some item, if only an error at the end. -/
theorem formsFrom_cons_ne_nil (ts : List Token) :
    ∀ (group : OpenList) (outer : List OpenList) (last : Option Location),
      formsFrom (group :: outer) last ts ≠ [] := by
  induction ts with
  | nil => intro group outer last; simp [formsFrom]
  | cons t ts ih =>
      intro group outer last
      obtain ⟨lexeme, l⟩ := t
      cases lexeme with
      | left => exact ih _ _ _
      | atom text => exact ih _ _ _
      | right =>
          cases outer with
          | nil => simp [formsFrom]
          | cons group' outer => exact ih _ _ _

/-- Only the empty sequence has no forms. -/
theorem eq_nil_of_formsFrom_eq_nil {last : Option Location} {ts : List Token}
    (h : formsFrom [] last ts = []) : ts = [] := by
  cases ts with
  | nil => rfl
  | cons t ts =>
      obtain ⟨lexeme, l⟩ := t
      cases lexeme with
      | left => exact absurd h (formsFrom_cons_ne_nil ts _ _ _)
      | atom text => simp [formsFrom] at h
      | right => simp [formsFrom] at h

/-! ## Forms at the front of a sequence -/

/-- What stands behind a form at the front of a form is nothing. -/
theorem Bracketing.eq_nil_of_append {e e' : Expr} {ts us : List Token}
    (hFront : Bracketing [e] ts) (hWhole : Bracketing [e'] (ts ++ us)) : us = [] := by
  have hReadWhole := forms_of_bracketing hWhole none []
  have hReadFront := forms_of_bracketing hFront none us
  rw [List.append_nil, hReadFront] at hReadWhole
  have hTail : formsFrom [] (placeAfter none ts) us = [] := by
    simpa [formsFrom] using (List.cons.inj hReadWhole).2
  exact eq_nil_of_formsFrom_eq_nil hTail

/-- Of two forms at the front of one sequence neither is longer. -/
theorem Bracketing.length_le {e e' : Expr} {ts us tokens : List Token}
    (h : Bracketing [e] ts) (h' : Bracketing [e'] us)
    (hts : ts <+: tokens) (hus : us <+: tokens) : ts.length ≤ us.length := by
  rcases List.prefix_or_prefix_of_prefix hts hus with ⟨rest, rfl⟩ | ⟨rest, rfl⟩
  · simp
  · rw [h'.eq_nil_of_append h, List.append_nil]

/-- A spelling has as many opening as closing parentheses. -/
theorem Bracketing.count_eq {es : List Expr} {ts : List Token} (h : Bracketing es ts) :
    Token.count .left ts = Token.count .right ts := by
  induction h with
  | nil => rfl
  | atom l text _ ih => simpa [Token.count, List.countP_cons] using ih
  | list l l' _ _ ihElements ihRest =>
      simp only [Token.count, List.countP_cons, List.countP_append] at ihElements ihRest ⊢
      simp
      omega

/-- Where closing parentheses outnumber the opening ones, some closing parenthesis is the first
outside every group, and the tokens before it are a spelling. -/
theorem exists_bracketing_of_count (tokens : List Token)
    (h : Token.count .left tokens < Token.count .right tokens) :
    ∃ es pre l rest, tokens = pre ++ ⟨.right, l⟩ :: rest ∧ Bracketing es pre := by
  -- By length: behind an opening parenthesis the argument runs twice, once for the group that
  -- the parenthesis opens and once for what follows the end of that group.
  induction hn : tokens.length using Nat.strong_induction_on generalizing tokens with
  | _ n ih =>
      subst hn
      cases tokens with
      | nil => simp [Token.count] at h
      | cons t ts =>
          obtain ⟨lexeme, l⟩ := t
          cases lexeme with
          | right => exact ⟨[], [], l, ts, rfl, .nil⟩
          | atom text =>
              have hCount : Token.count .left ts < Token.count .right ts := by
                simpa [Token.count, List.countP_cons] using h
              obtain ⟨es, pre, l', rest, rfl, hPre⟩ := ih ts.length (by simp) ts hCount rfl
              exact ⟨_, _, l', rest, rfl, .atom l text hPre⟩
          | left =>
              have hCount : Token.count .left ts + 1 < Token.count .right ts := by
                simpa [Token.count, List.countP_cons] using h
              obtain ⟨items, inside, l', after, rfl, hInside⟩ :=
                ih ts.length (by simp) ts (by omega) rfl
              have hBalanced := hInside.count_eq
              have hAfter : Token.count .left after < Token.count .right after := by
                simp only [Token.count, List.countP_cons, List.countP_append] at hCount hBalanced ⊢
                simp at hCount
                omega
              obtain ⟨es, pre, l'', rest, rfl, hPre⟩ :=
                ih after.length (by simp; omega) after hAfter rfl
              refine ⟨_, _, l'', rest, ?_, .list l l' hInside hPre⟩
              simp

/-! ## Reading one expression -/

/-- What a sequence has to be like for an expression to be read from it: it has a token, does
not begin with a closing parenthesis, has as many opening as closing parentheses, and is a
single token or has an opening parenthesis. -/
structure Acceptable (tokens : List Token) : Prop where
  nonempty : tokens ≠ []
  first : ∀ token ∈ tokens.head?, token.lexeme ≠ .right
  balanced : Token.count .left tokens = Token.count .right tokens
  grouped : tokens.length = 1 ∨ ∃ token ∈ tokens, token.lexeme = .left

theorem count_left_pos_iff {tokens : List Token} :
    0 < Token.count .left tokens ↔ ∃ token ∈ tokens, token.lexeme = .left := by
  simp [Token.count, List.countP_pos_iff]

/-- The check lets through what is acceptable. -/
theorem validate_eq_ok_iff (tokens : List Token) :
    validate tokens = .ok () ↔ Acceptable tokens := by
  cases tokens with
  | nil => exact ⟨fun h => by simp [validate] at h, fun h => absurd rfl h.nonempty⟩
  | cons t ts =>
      have hLength : (t :: ts).length = 1 ↔ ts = [] := by simp
      constructor
      · intro h
        simp only [validate] at h
        split_ifs at h with hFirst hBalanced hGrouped
        refine ⟨by simp, by simpa using hFirst, by simpa using hBalanced, ?_⟩
        by_cases hts : ts = []
        · exact .inl (hLength.2 hts)
        · right
          rw [← count_left_pos_iff]
          exact Nat.pos_of_ne_zero fun hZero => hGrouped ⟨hts, hZero⟩
      · intro h
        have hFirst : t.lexeme ≠ .right := h.first t (by simp)
        have hGrouped : ¬(ts ≠ [] ∧ Token.count .left (t :: ts) = 0) := by
          rintro ⟨hts, hZero⟩
          rcases h.grouped with hOne | hLeft
          · exact hts (hLength.1 hOne)
          · rw [← count_left_pos_iff] at hLeft
            omega
        simp only [validate]
        rw [if_neg hFirst, if_neg (not_not.2 h.balanced), if_neg hGrouped]

/-- An acceptable sequence has a form at its front. -/
theorem Acceptable.exists_form {tokens : List Token} (h : Acceptable tokens) :
    ∃ e ts rest, tokens = ts ++ rest ∧ Bracketing [e] ts := by
  obtain _ | ⟨⟨lexeme, l⟩, tokens⟩ := tokens
  · exact absurd rfl h.nonempty
  cases lexeme with
  | right => exact absurd rfl (h.first ⟨.right, l⟩ (by simp))
  | atom text => exact ⟨_, [_], tokens, rfl, .atom l text .nil⟩
  | left =>
      have hCount : Token.count .left tokens < Token.count .right tokens := by
        have hBalanced := h.balanced
        simp [Token.count] at hBalanced ⊢
        omega
      obtain ⟨items, inside, l', rest, rfl, hInside⟩ := exists_bracketing_of_count tokens hCount
      exact ⟨_, _, rest, by simp, .list l l' hInside .nil⟩

/-- With a form at its front, a sequence that passes the check is read as that form. -/
theorem parse_of_form {e : Expr} {ts rest : List Token} (h : Bracketing [e] ts)
    (hValid : validate (ts ++ rest) = .ok ()) : parse (ts ++ rest) = .ok e := by
  have hForms : forms (ts ++ rest) = .ok e :: formsFrom [] (placeAfter none ts) rest :=
    forms_of_bracketing h none rest
  simp only [parse, hValid, hForms, List.headD_cons]

/-- Reading one expression succeeds exactly on the acceptable sequences. The result is then the
expression that the shortest form at the front spells; an error is always the error of the
check, never one of the reader behind it. -/
theorem parse_ok_iff_shortest_form (tokens : List Token) :
    ((∃ e, parse tokens = .ok e) ↔ Acceptable tokens) ∧
      (∀ e, parse tokens = .ok e ↔ Acceptable tokens ∧
        ∃ ts, ts <+: tokens ∧ Bracketing [e] ts ∧
          ∀ us, us <+: tokens → IsForm us → ts.length ≤ us.length) ∧
      (∀ error, parse tokens = .error error ↔ validate tokens = .error error) := by
  have hRead : Acceptable tokens → ∃ e ts, ts <+: tokens ∧ Bracketing [e] ts ∧
      parse tokens = .ok e := by
    intro hAcceptable
    obtain ⟨e, ts, rest, rfl, hForm⟩ := hAcceptable.exists_form
    exact ⟨e, ts, List.prefix_append ts rest, hForm,
      parse_of_form hForm ((validate_eq_ok_iff _).2 hAcceptable)⟩
  have hAccepted : ∀ e, parse tokens = .ok e → Acceptable tokens := by
    intro e hParse
    rw [← validate_eq_ok_iff]
    cases hValid : validate tokens with
    | error error => simp [parse, hValid] at hParse
    | ok => rfl
  refine ⟨⟨fun ⟨e, hParse⟩ => hAccepted e hParse, ?_⟩, ?_, ?_⟩
  · intro hAcceptable
    obtain ⟨e, _, _, _, hParse⟩ := hRead hAcceptable
    exact ⟨e, hParse⟩
  · intro e
    constructor
    · intro hParse
      obtain ⟨e', ts, hPrefix, hForm, hParse'⟩ := hRead (hAccepted e hParse)
      obtain rfl : e' = e := Except.ok.inj (hParse'.symm.trans hParse)
      refine ⟨hAccepted e' hParse, ts, hPrefix, hForm, ?_⟩
      rintro us hus ⟨e'', hForm'⟩
      exact hForm.length_le hForm' hPrefix hus
    · rintro ⟨hAcceptable, ts, ⟨rest, rfl⟩, hForm, _⟩
      exact parse_of_form hForm ((validate_eq_ok_iff _).2 hAcceptable)
  · intro error
    constructor
    · intro hParse
      cases hValid : validate tokens with
      | error error' => simpa [parse, hValid] using hParse
      | ok =>
          obtain ⟨e, _, _, _, hOk⟩ := hRead ((validate_eq_ok_iff _).1 hValid)
          rw [hOk] at hParse
          cases hParse
    · intro hValid
      simp only [parse, hValid]

/-- The tokens of `( a ) ) (`, whose parentheses agree in number although the second closing one
closes nothing and the last opening one is never closed. -/
theorem parse_group_before_loose_parentheses :
    let group : List Token := [⟨.left, none⟩, ⟨.atom "a", none⟩, ⟨.right, none⟩]
    let tokens : List Token := group ++ [⟨.right, none⟩, ⟨.left, none⟩]
    Acceptable tokens ∧ parse tokens = .ok (.list none [ofAtom none "a"]) := by
  intro group tokens
  have hAcceptable : Acceptable tokens :=
    ⟨by simp [tokens, group], by simp [tokens, group], by decide, .inr ⟨⟨.left, none⟩, by decide⟩⟩
  have hPrefix : group <+: tokens := List.prefix_append group _
  have hForm : Bracketing [.list none [ofAtom none "a"]] group :=
    .list none none (.atom none "a" .nil) .nil
  refine ⟨hAcceptable, ((parse_ok_iff_shortest_form tokens).2.1 _).2
    ⟨hAcceptable, group, hPrefix, hForm, ?_⟩⟩
  rintro us hus ⟨_, hForm'⟩
  exact hForm.length_le hForm' hPrefix hus

end MiniScheme.Expr
