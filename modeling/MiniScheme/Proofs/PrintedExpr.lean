import MiniScheme.Proofs.Bracketing
import MiniScheme.Proofs.Layout
import MiniScheme.Proofs.NumberText
import MiniScheme.Proofs.Segments

/-!
# Printed expressions are read back

The printed form of an expression has single spaces between the elements of a list, and nothing
around parentheses. That is enough: a space ends an atom, and a parenthesis ends one too. So the
tokens of the printed form spell the expression (`spells_render`), if every symbol in it is an atom
that does not denote a number. An expression that was read has only such symbols, because it was
spelled by tokens of a text.

What was read need not have been written the way it is printed: `+4` is printed as `4`, `1E400` as
`inf`. The printed form is read as the same number, not as the same text.

## Main results

* `Bracketing.readable`: what the tokens of a text spell can be written.
* `spells_render`: the printed form of such an expression spells it.
* `reading_undoes_printing`: what was read, printed and read again is the same expression.
-/

namespace MiniScheme.Expr

/-! ## Expressions that can be written -/

/-- The symbols of an expression are atoms that do not denote numbers. -/
inductive Readable : Expr → Prop where
  | number (l : Option Location) (n : Number) : Readable (.number l n)
  | symbol (l : Option Location) {name : String} (hProper : (Lexeme.atom name).IsProper)
      (hSymbol : Number.ofChars? name.toList = none) : Readable (.symbol l name)
  | list (l : Option Location) {items : List Expr} (hItems : ∀ e ∈ items, Readable e) :
      Readable (.list l items)

theorem readable_ofAtom (l : Option Location) {text : String}
    (hProper : (Lexeme.atom text).IsProper) : (ofAtom l text).Readable := by
  unfold ofAtom
  split
  · exact .number l _
  · next hSymbol => exact .symbol l hProper hSymbol

/-- The names that occur in an expression that can be written can be written. -/
theorem Readable.of_mentions {e : Expr} (h : e.Readable) {name : String}
    (hName : e.Mentions name) : (Expr.symbol none name).Readable := by
  induction hName with
  | symbol =>
      cases h with
      | symbol l hProper hSymbol => exact .symbol none hProper hSymbol
  | list he _ ih =>
      cases h with
      | list l hItems => exact ih (hItems _ he)

/-- What proper tokens spell can be written. -/
theorem Bracketing.readable {es : List Expr} {ts : List Token} (h : Bracketing es ts) :
    (∀ token ∈ ts, token.lexeme.IsProper) → ∀ e ∈ es, e.Readable := by
  induction h with
  | nil => exact fun _ e he => absurd he List.not_mem_nil
  | atom l text _ ih =>
      intro hProper e he
      rcases List.mem_cons.1 he with rfl | he
      · exact readable_ofAtom l (hProper _ List.mem_cons_self)
      · exact ih (fun token hToken => hProper token (List.mem_cons_of_mem _ hToken)) e he
  | list l l' _ _ ihElements ihRest =>
      intro hProper e he
      rcases List.mem_cons.1 he with rfl | he
      · exact .list l (ihElements fun token hToken => hProper token (by simp [hToken]))
      · exact ihRest (fun token hToken => hProper token (by simp [hToken])) e he

theorem Reading.readable {last : Option Location} {segments : List (List Token)}
    {items : List (Except Error Expr)} (h : Reading last segments items)
    (hProper : ∀ token ∈ segments.flatten, token.lexeme.IsProper) {e : Expr}
    (hMem : .ok e ∈ items) : e.Readable := by
  induction h with
  | done => cases hMem
  | form spelled _ ih =>
      rw [List.flatten_cons] at hProper
      rcases List.mem_cons.1 hMem with hEq | hMem
      · cases hEq
        exact spelled.readable (fun token hToken => hProper token (List.mem_append_left _ hToken)) e
          List.mem_cons_self
      · exact ih (fun token hToken => hProper token (List.mem_append_right _ hToken)) hMem
  | loose l _ ih =>
      rcases List.mem_cons.1 hMem with hEq | hMem
      · cases hEq
      · exact ih (fun token hToken => hProper token (List.mem_cons_of_mem _ hToken)) hMem
  | unclosed l _ => cases List.mem_singleton.1 hMem

/-- Every form of a text can be written. -/
theorem readable_of_mem_forms {source : String} {e : Expr}
    (h : .ok e ∈ forms (Token.scan source)) : e.Readable := by
  obtain ⟨segments, hFlatten, hReading⟩ := exists_reading (Token.scan source) none
  refine hReading.readable (fun token hToken => ?_) h
  exact Token.isProper_of_mem_scan (hFlatten ▸ hToken)

/-! ## The tokens of a printed form -/

/-- Scanning a text finds tokens that spell the expressions, up to places, and leaves what follows
the text. -/
def Spells (text : List Char) (es : List Expr) : Prop :=
  ∀ (l : Location) (rest : List Char), Token.EndsAtom rest → ∃ ts es',
    Token.scanFrom .between l (text ++ rest) = ts ++ Token.scanFrom .between (l.past text) rest ∧
      Bracketing es' ts ∧ List.Forall₂ Relaid es es'

theorem spells_nil : Spells [] [] := fun _ _ _ => ⟨[], [], rfl, .nil, .nil⟩

theorem spells_atom {text : String} (hProper : (Lexeme.atom text).IsProper) {e : Expr}
    (he : ∀ l, e.Relaid (ofAtom l text)) : Spells text.toList [e] := by
  intro l rest hRest
  refine ⟨[⟨.atom text, some l⟩], [ofAtom (some l) text], ?_, .atom _ text .nil, .cons (he _) .nil⟩
  exact Token.scanFrom_lexeme hProper (fun _ => hRest) l

/-- A space is enough to keep two texts apart. -/
theorem Spells.append {text text' : List Char} {es es' : List Expr} (h : Spells text es)
    (h' : Spells text' es') : Spells (text ++ ' ' :: text') (es ++ es') := by
  intro l rest hRest
  have hSpace : Token.EndsAtom (' ' :: (text' ++ rest)) := by
    intro c hc
    obtain rfl : ' ' = c := by simpa using hc
    rfl
  have hGap : Token.Gap [' '] := .blank (by decide) .nil
  obtain ⟨ts, read, hScan, hSpelled, hRelaid⟩ := h l _ hSpace
  obtain ⟨ts', read', hScan', hSpelled', hRelaid'⟩ :=
    h' ((l.past text).past [' ']) rest hRest
  refine ⟨ts ++ ts', read ++ read', ?_, hSpelled.append hSpelled', List.rel_append hRelaid hRelaid'⟩
  have hBlank := Token.scanFrom_gap hGap (l.past text) (text' ++ rest)
  rw [List.append_assoc, List.cons_append, hScan]
  rw [List.singleton_append] at hBlank
  rw [hBlank, hScan', List.append_assoc]
  simp

/-- Parentheses stand off from what is around them. -/
theorem Spells.list {text : List Char} {items : List Expr} (h : Spells text items)
    (l : Option Location) : Spells ('(' :: (text ++ [')'])) [.list l items] := by
  intro l' rest hRest
  have hClosing : Token.EndsAtom (')' :: rest) := by
    intro c hc
    obtain rfl : ')' = c := by simpa using hc
    rfl
  obtain ⟨ts, read, hScan, hSpelled, hRelaid⟩ := h (l'.after '(') (')' :: rest) hClosing
  refine ⟨⟨.left, some l'⟩ :: (ts ++ [⟨.right, some ((l'.after '(').past text)⟩]),
    [.list (some l') read], ?_, .list _ _ hSpelled .nil, .cons (.list trivial hRelaid) .nil⟩
  have hLeft : Token.scanFrom .between l' ('(' :: (text ++ ')' :: rest)) =
      ⟨.left, some l'⟩ :: Token.scanFrom .between (l'.after '(') (text ++ ')' :: rest) := rfl
  have hRight : ∀ l'', Token.scanFrom .between l'' (')' :: rest) =
      ⟨.right, some l''⟩ :: Token.scanFrom .between (l''.after ')') rest := fun _ => rfl
  rw [List.cons_append, List.append_assoc, List.singleton_append, hLeft, hScan, hRight]
  simp

theorem spells_renderItems : ∀ {items : List Expr},
    (∀ e ∈ items, Spells e.render.toList [e]) → Spells (renderItems items).toList items
  | [], _ => by
      rw [renderItems]
      exact spells_nil
  | [e], h => by
      rw [renderItems]
      exact h e List.mem_cons_self
  | e :: e' :: es, h => by
      have hRest := spells_renderItems fun e hMem => h e (List.mem_cons_of_mem _ hMem)
      have hWhole := (h e List.mem_cons_self).append hRest
      rw [renderItems]
      simpa using hWhole

/-- The printed form of an expression that can be written spells it. -/
theorem spells_render {e : Expr} (h : e.Readable) : Spells e.render.toList [e] := by
  induction h with
  | number l n =>
      have hRead := Number.ofChars?_render n
      rw [render]
      refine spells_atom (Number.isProper_of_ofChars? hRead) fun l' => ?_
      rw [ofAtom, hRead]
      exact .number trivial n
  | symbol l hProper hSymbol =>
      rw [render]
      refine spells_atom hProper fun l' => ?_
      rw [ofAtom, hSymbol]
      exact .symbol trivial trivial
  | list l hItems ih =>
      have hText := (spells_renderItems ih).list l
      rw [render]
      simpa using hText

/-! ## Reading a printed form -/

theorem readable_of_ofSource {source : String} {e : Expr} (h : ofSource source = .ok e) :
    e.Readable := by
  have hValid : validate (Token.scan source) = .ok () := by
    cases hCheck : validate (Token.scan source) with
    | error error => simp [ofSource, parse, hCheck] at h
    | ok => rfl
  obtain ⟨e', ts, rest, hTokens, hForm⟩ := ((validate_eq_ok_iff _).1 hValid).exists_form
  rw [ofSource, hTokens, parse_of_form hForm (hTokens ▸ hValid)] at h
  obtain rfl := Except.ok.inj h
  refine hForm.readable (fun token hToken => ?_) e' List.mem_cons_self
  exact Token.isProper_of_mem_scan (hTokens ▸ List.mem_append_left rest hToken)

/-- The tokens of one expression pass the check. -/
theorem Bracketing.acceptable {e : Expr} {ts : List Token} (h : Bracketing [e] ts) :
    Acceptable ts := by
  have hBalanced := h.count_eq
  cases h with
  | atom l text rest =>
      cases rest
      exact ⟨by simp, by simp, hBalanced, .inl rfl⟩
  | list l l' elements rest =>
      exact ⟨by simp, by simp, hBalanced, .inr ⟨_, List.mem_cons_self, rfl⟩⟩

/-- A text whose tokens spell one expression, with none left over, is read as that expression. -/
theorem ofSource_of_bracketing {source : String} {e : Expr}
    (h : Bracketing [e] (Token.scan source)) : ofSource source = .ok e := by
  have hValid : validate (Token.scan source ++ []) = .ok () := by
    rw [List.append_nil]
    exact (validate_eq_ok_iff _).2 h.acceptable
  have hParse := parse_of_form h hValid
  rwa [List.append_nil] at hParse

/-- The printed form of an expression is one form, with no tokens left over. -/
theorem exists_bracketing_render {e : Expr} (h : e.Readable) :
    ∃ e', Bracketing [e'] (Token.scan e.render) ∧ e.Relaid e' := by
  have hNil : Token.EndsAtom [] := by
    intro c hc
    cases hc
  obtain ⟨ts, es', hScan, hSpelled, hRelaid⟩ := spells_render h .start [] hNil
  have hEnd : Token.scanFrom .between (Location.start.past e.render.toList) [] = [] := rfl
  rw [List.append_nil, hEnd, List.append_nil] at hScan
  have hTokens : Token.scan e.render = ts := hScan
  cases hRelaid with
  | cons he hNil =>
      cases hNil
      exact ⟨_, hTokens ▸ hSpelled, he⟩

theorem ofSource_render {e : Expr} (h : e.Readable) :
    ∃ e', ofSource e.render = .ok e' ∧ e.Relaid e' := by
  obtain ⟨e', hSpelled, he⟩ := exists_bracketing_render h
  exact ⟨e', ofSource_of_bracketing hSpelled, he⟩

/-- Printing what was read and reading it again gives the same expression, up to places. -/
theorem reading_undoes_printing {source : String} {e : Expr} (h : ofSource source = .ok e) :
    ∃ e', ofSource e.render = .ok e' ∧ e.Relaid e' :=
  ofSource_render (readable_of_ofSource h)

/-- The least integer, numbers that are not printed as they were written, reals of all kinds, a
symbol that begins like a number, and the empty list. -/
theorem reading_printed_numbers :
    let source := "(-9223372036854775808 +4 -0 9223372036854775808 .5 1E400 -nan 1+ ())"
    ∃ e, ofSource source = .ok e ∧
      e.render = "(-9223372036854775808 4 0 9.223372036854776e18 0.5 inf NaN 1+ ())" ∧
      ∃ e', ofSource e.render = .ok e' ∧ e.Relaid e' := by
  intro source
  have hPrinted : (ofSource source).toOption.map render =
      some "(-9223372036854775808 4 0 9.223372036854776e18 0.5 inf NaN 1+ ())" := by
    decide +kernel
  cases hRead : ofSource source with
  | error error =>
      rw [hRead] at hPrinted
      cases hPrinted
  | ok e =>
      rw [hRead] at hPrinted
      exact ⟨e, rfl, Option.some.inj hPrinted, reading_undoes_printing hRead⟩

end MiniScheme.Expr
