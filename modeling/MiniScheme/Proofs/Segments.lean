import MiniScheme.Proofs.Bracketing

/-!
# Every token belongs to one item

The reader takes any token sequence, balanced or not, and never gives up: behind an error it goes
on with the next token. `Reading last segments items` says how its items account for the tokens.
Each item has a segment of its own, and the segments stand one behind the other. The segment of an
expression spells that expression; that of a loose closing parenthesis is this parenthesis. The
only other kind of segment begins with an opening parenthesis that is never closed. It reaches to
the end of the sequence, so it is the last one.

A list that is open in front of some tokens is either closed by one of them, which then has a
spelling in front of it, or by none (`Closes`). In the second case reading these tokens gives
nothing but the error at the end, however many lists are open around them
(`formsFrom_of_not_closes`). This is the whole difference between the two ways in which a list can
end, and the division into segments follows it.

## Main results

* `closes_or_unexpectedEnd`: what can become of an open list.
* `Reading.formsFrom_eq`: a division into segments determines the items.
* `exists_reading`: every sequence has such a division.
* `forms_eq_map_ok_iff`: the sequences that are read without an error.
* `forms_eq_iff_segments`: the items of every sequence.
-/

namespace MiniScheme.Expr

/-! ## Lists that are never closed -/

/-- One of the tokens closes a list that is open in front of them: it is a closing parenthesis
with a spelling before it. -/
def Closes (ts : List Token) : Prop :=
  ∃ es inside l rest, ts = inside ++ ⟨.right, l⟩ :: rest ∧ Bracketing es inside

/-- What becomes of a list that is open in front of some tokens: one of them closes it, or reading
them ends with an error at the last of them, whatever else is open. -/
theorem closes_or_unexpectedEnd (ts : List Token) :
    Closes ts ∨ ∀ group outer last,
      formsFrom (group :: outer) last ts = [.error ⟨.unexpectedEnd, placeAfter last ts⟩] := by
  -- By length: behind an opening parenthesis the question comes up twice, for the inner list and,
  -- if that is closed, for what follows its end.
  induction hn : ts.length using Nat.strong_induction_on generalizing ts with
  | _ n ih =>
      subst hn
      cases ts with
      | nil => exact .inr fun group outer last => rfl
      | cons t ts =>
          obtain ⟨lexeme, l⟩ := t
          have hTail := ih ts.length (by simp) ts rfl
          cases lexeme with
          | right => exact .inl ⟨[], [], l, ts, rfl, .nil⟩
          | atom text =>
              rcases hTail with ⟨es, inside, l', rest, rfl, h⟩ | hEnd
              · exact .inl ⟨_, _, l', rest, rfl, .atom l text h⟩
              · right
                intro group outer last
                rw [formsFrom, hEnd, placeAfter_cons]
          | left =>
              rcases hTail with ⟨items, inside, l', after, rfl, hItems⟩ | hEnd
              · have hShorter : after.length < (inside ++ ⟨.right, l'⟩ :: after).length + 1 := by
                  simp
                  omega
                rcases ih after.length hShorter after rfl with
                  ⟨es, inside', l'', rest, rfl, h⟩ | hEnd
                · refine .inl ⟨_, _, l'', rest, ?_, .list l l' hItems h⟩
                  simp
                · right
                  intro group outer last
                  rw [formsFrom, formsFrom_of_bracketing hItems, formsFrom, hEnd]
                  simp
              · right
                intro group outer last
                rw [formsFrom, hEnd, placeAfter_cons]

theorem formsFrom_of_not_closes {ts : List Token} (h : ¬ Closes ts) (group : OpenList)
    (outer : List OpenList) (last : Option Location) :
    formsFrom (group :: outer) last ts = [.error ⟨.unexpectedEnd, placeAfter last ts⟩] :=
  (closes_or_unexpectedEnd ts).resolve_left h group outer last

/-! ## Segments -/

/-- The items that reading yields, each for its segment of the tokens; `last` is the place of the
last token of all. -/
inductive Reading (last : Option Location) :
    List (List Token) → List (Except Error Expr) → Prop where
  | done : Reading last [] []
  /-- The segment spells an expression. -/
  | form {e : Expr} {segment : List Token} {segments : List (List Token)}
      {items : List (Except Error Expr)} (spelled : Bracketing [e] segment)
      (rest : Reading last segments items) : Reading last (segment :: segments) (.ok e :: items)
  /-- A closing parenthesis that closes nothing. -/
  | loose (l : Option Location) {segments : List (List Token)}
      {items : List (Except Error Expr)} (rest : Reading last segments items) :
      Reading last ([⟨.right, l⟩] :: segments) (.error ⟨.unmatchedParenthesis, l⟩ :: items)
  /-- An opening parenthesis that nothing closes, and all that follows it. -/
  | unclosed (l : Option Location) {after : List Token} (never : ¬ Closes after) :
      Reading last [⟨.left, l⟩ :: after] [.error ⟨.unexpectedEnd, last⟩]

theorem Bracketing.ne_nil_of_cons {e : Expr} {es : List Expr} {ts : List Token}
    (h : Bracketing (e :: es) ts) : ts ≠ [] := by
  cases h <;> simp

/-- No segment is empty. -/
theorem Reading.ne_nil {last : Option Location} {segments : List (List Token)}
    {items : List (Except Error Expr)} (h : Reading last segments items) :
    ∀ segment ∈ segments, segment ≠ [] := by
  induction h with
  | done => simp
  | form spelled _ ih =>
      intro segment hSegment
      rcases List.mem_cons.1 hSegment with rfl | hSegment
      · exact spelled.ne_nil_of_cons
      · exact ih segment hSegment
  | loose l _ ih =>
      intro segment hSegment
      rcases List.mem_cons.1 hSegment with rfl | hSegment
      · simp
      · exact ih segment hSegment
  | unclosed l _ =>
      intro segment hSegment
      rw [List.mem_singleton.1 hSegment]
      simp

/-- A division into segments determines the items. -/
theorem Reading.formsFrom_eq {last : Option Location} {segments : List (List Token)}
    {items : List (Except Error Expr)} (h : Reading last segments items) :
    ∀ before, placeAfter before segments.flatten = last →
      formsFrom [] before segments.flatten = items := by
  induction h with
  | done => intro before _; rfl
  | form spelled _ ih =>
      intro before hLast
      rw [List.flatten_cons, placeAfter_append] at hLast
      rw [List.flatten_cons, forms_of_bracketing spelled, ih _ hLast]
      rfl
  | loose l _ ih =>
      intro before hLast
      rw [List.flatten_cons, List.singleton_append, placeAfter_cons] at hLast
      rw [List.flatten_cons, List.singleton_append, formsFrom, ih _ hLast]
  | unclosed l never =>
      intro before hLast
      rw [List.flatten_singleton, placeAfter_cons] at hLast
      rw [List.flatten_singleton, formsFrom, formsFrom_of_not_closes never, hLast]

/-- Every sequence has a division into segments. -/
theorem exists_reading (ts : List Token) :
    ∀ before, ∃ segments, segments.flatten = ts ∧
      Reading (placeAfter before ts) segments (formsFrom [] before ts) := by
  induction hn : ts.length using Nat.strong_induction_on generalizing ts with
  | _ n ih =>
      subst hn
      intro before
      cases ts with
      | nil => exact ⟨[], rfl, .done⟩
      | cons t ts =>
          obtain ⟨lexeme, l⟩ := t
          cases lexeme with
          | right =>
              obtain ⟨segments, hFlatten, hReading⟩ := ih ts.length (by simp) ts rfl l
              refine ⟨[⟨.right, l⟩] :: segments, by simp [hFlatten], ?_⟩
              rw [formsFrom]
              exact .loose l hReading
          | atom text =>
              obtain ⟨segments, hFlatten, hReading⟩ := ih ts.length (by simp) ts rfl l
              refine ⟨[⟨.atom text, l⟩] :: segments, by simp [hFlatten], ?_⟩
              rw [formsFrom]
              exact .form (.atom l text .nil) hReading
          | left =>
              by_cases hCloses : Closes ts
              · obtain ⟨items, inside, l', rest, rfl, hItems⟩ := hCloses
                have hShorter : rest.length < (inside ++ ⟨.right, l'⟩ :: rest).length + 1 := by
                  simp
                  omega
                obtain ⟨segments, hFlatten, hReading⟩ := ih rest.length hShorter rest rfl l'
                have hForm :
                    Bracketing [.list l items] (⟨.left, l⟩ :: (inside ++ [⟨.right, l'⟩])) :=
                  .list l l' hItems .nil
                refine ⟨(⟨.left, l⟩ :: (inside ++ [⟨.right, l'⟩])) :: segments,
                  by simp [hFlatten], ?_⟩
                rw [formsFrom, formsFrom_of_bracketing hItems, formsFrom]
                simpa [OpenList.close] using Reading.form hForm hReading
              · refine ⟨[⟨.left, l⟩ :: ts], by simp, ?_⟩
                rw [formsFrom, formsFrom_of_not_closes hCloses]
                exact .unclosed l hCloses

/-! ## The items -/

theorem Reading.cause_of_mem {last : Option Location} {segments : List (List Token)}
    {items : List (Except Error Expr)} (h : Reading last segments items) {error : Error}
    (hMem : .error error ∈ items) :
    error.cause = .unexpectedEnd ∨ error.cause = .unmatchedParenthesis := by
  induction h with
  | done => cases hMem
  | form _ _ ih =>
      rcases List.mem_cons.1 hMem with hEq | hMem
      · cases hEq
      · exact ih hMem
  | loose l _ ih =>
      rcases List.mem_cons.1 hMem with hEq | hMem
      · cases hEq
        exact .inr rfl
      · exact ih hMem
  | unclosed l _ =>
      cases List.mem_singleton.1 hMem
      exact .inl rfl

/-- Where every item is an expression, the segments together spell them. -/
theorem Reading.bracketing {last : Option Location} {segments : List (List Token)}
    {items : List (Except Error Expr)} (h : Reading last segments items) :
    ∀ {es : List Expr}, items = es.map .ok → Bracketing es segments.flatten := by
  induction h with
  | done =>
      intro es hItems
      rw [List.map_eq_nil_iff.1 hItems.symm]
      exact .nil
  | @form e segment segments items spelled _ ih =>
      intro es hItems
      obtain ⟨e', es', rfl, hHead, hTail⟩ := List.map_eq_cons_iff.1 hItems.symm
      obtain rfl : e' = e := Except.ok.inj hHead
      exact spelled.append (ih hTail.symm)
  | loose l _ _ =>
      intro es hItems
      obtain ⟨_, _, _, hHead, _⟩ := List.map_eq_cons_iff.1 hItems.symm
      cases hHead
  | unclosed l _ =>
      intro es hItems
      obtain ⟨_, _, _, hHead, _⟩ := List.map_eq_cons_iff.1 hItems.symm
      cases hHead

/-- Reading yields expressions only, just where the tokens spell them. -/
theorem forms_eq_map_ok_iff {tokens : List Token} {es : List Expr} :
    forms tokens = es.map .ok ↔ Bracketing es tokens := by
  constructor
  · intro h
    obtain ⟨_, rfl, hReading⟩ := exists_reading tokens none
    exact hReading.bracketing h
  · intro h
    have hRead := forms_of_bracketing h none []
    rw [List.append_nil] at hRead
    rw [forms, hRead, formsFrom, List.append_nil]

/-- An error of reading complains of an end that came too soon or of a closing parenthesis. -/
theorem cause_of_mem_forms {tokens : List Token} {error : Error}
    (hMem : .error error ∈ forms tokens) :
    error.cause = .unexpectedEnd ∨ error.cause = .unmatchedParenthesis := by
  obtain ⟨_, _, hReading⟩ := exists_reading tokens none
  exact hReading.cause_of_mem hMem

theorem placeAfter_none (ts : List Token) :
    placeAfter none ts = ts.getLast?.bind Token.location := by
  cases ts using List.reverseRecOn with
  | nil => rfl
  | append_singleton ts t => simp

/-- The items that reading yields are those of a division of the tokens into segments that are not
empty: an expression for a segment that spells it, an error at the place of a closing parenthesis
that is a segment by itself, and, for a last segment whose opening parenthesis is never closed, an
error at the place of the last token. Every sequence has such a division, and no two sequences of
items fit divisions of the same tokens. -/
theorem forms_eq_iff_segments (tokens : List Token) (items : List (Except Error Expr)) :
    forms tokens = items ↔
      ∃ segments : List (List Token), segments.flatten = tokens ∧
        (∀ segment ∈ segments, segment ≠ []) ∧
        Reading (tokens.getLast?.bind Token.location) segments items := by
  rw [← placeAfter_none]
  constructor
  · rintro rfl
    obtain ⟨segments, hFlatten, hReading⟩ := exists_reading tokens none
    exact ⟨segments, hFlatten, hReading.ne_nil, hReading⟩
  · rintro ⟨segments, rfl, _, hReading⟩
    exact hReading.formsFrom_eq none rfl

end MiniScheme.Expr
