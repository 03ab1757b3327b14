import Mathlib.Data.List.Infix
import MiniScheme.Token

/-!
# Texts laid out from tokens

A text is a sequence of tokens with gaps around them. A gap is made of white space and comments;
it may be empty, but not between two atoms. Which of the many texts with the same tokens one has is
the choice of the gaps.

This is described here without the scanner: `layOut lead pieces` is the text that starts with the
gap `lead` and goes on with tokens and the gaps behind them, and `WellLaid lead pieces` says that
they are what tokens and gaps may be. Scanning undoes it (`scanFrom_layOut`): it finds the tokens,
and each of them at the place that the text before it leads to. The other way round every text is
laid out from some tokens and gaps (`exists_wellLaid`). Together the two say what the tokens of a
text are.

## Main results

* `scanFrom_layOut`: scanning a text that is laid out.
* `exists_wellLaid`: every text is laid out.
* `scan_undoes_every_layout`: whatever the gaps, the tokens are found; single spaces are enough.
* `scan_accounts_for_every_character`: what the tokens of a text are, and where.
-/

namespace MiniScheme

/-! ## Places -/

namespace Location

/-- The place behind some characters, the first of which stands at `l`. -/
def past (l : Location) (cs : List Char) : Location := cs.foldl after l

@[simp]
theorem past_nil (l : Location) : l.past [] = l := rfl

@[simp]
theorem past_cons (l : Location) (c : Char) (cs : List Char) :
    l.past (c :: cs) = (l.after c).past cs := rfl

@[simp]
theorem past_append (l : Location) (cs ds : List Char) :
    l.past (cs ++ ds) = (l.past cs).past ds := List.foldl_append

/-- The place behind a text: one line more than it has line ends, and one column more than it has
characters behind the last of them. -/
def behind (text : List Char) : Location :=
  ⟨1 + text.count '\n', 1 + (text.reverse.takeWhile fun c => c != '\n').length⟩

theorem behind_append_singleton (text : List Char) (c : Char) :
    behind (text ++ [c]) = (behind text).after c := by
  by_cases hc : c = '\n'
  · subst hc
    simp [behind, after, Nat.add_assoc]
  · simp [behind, after, hc, Nat.add_comm]

theorem past_start (text : List Char) : start.past text = behind text := by
  -- Characters are added at the end, where `behind` counts columns from.
  induction text using List.reverseRecOn with
  | nil => rfl
  | append_singleton text c ih =>
      rw [past_append, ih, behind_append_singleton]
      rfl

end Location

/-! ## Tokens and gaps -/

/-- A lexeme that can stand in a text: an atom has characters, and none of them is a delimiter. -/
def Lexeme.IsProper : Lexeme → Prop
  | .atom text => text ≠ "" ∧ ∀ c ∈ text.toList, Token.isDelimiter c = false
  | _ => True

instance Lexeme.decidableIsProper : DecidablePred Lexeme.IsProper
  | .atom text =>
      decidable_of_iff (text ≠ "" ∧ (text.toList.all fun c => !Token.isDelimiter c) = true)
        (by simp [IsProper])
  | .left => .isTrue trivial
  | .right => .isTrue trivial

/-- Whether a lexeme is an atom. -/
def Lexeme.isAtom : Lexeme → Bool
  | .atom _ => true
  | _ => false

namespace Token

/-- White space and comments, each comment with the line end behind it. -/
inductive Gap : List Char → Prop where
  | nil : Gap []
  | blank {c : Char} {cs : List Char} (hBlank : Text.isBlank c = true) (rest : Gap cs) :
      Gap (c :: cs)
  | comment {text cs : List Char} (hText : '\n' ∉ text) (rest : Gap cs) :
      Gap (';' :: (text ++ '\n' :: cs))

/-- White space and comments at the end of a text, which may also end a comment. -/
inductive LastGap : List Char → Prop where
  | closed {cs : List Char} (h : Gap cs) : LastGap cs
  | comment {cs text : List Char} (h : Gap cs) (hText : '\n' ∉ text) :
      LastGap (cs ++ ';' :: text)

/-- A lexeme and the gap behind it. -/
structure Piece where
  lexeme : Lexeme
  gap : List Char

/-- The text of a gap and of lexemes with the gaps behind them. -/
def layOut (lead : List Char) : List Piece → List Char
  | [] => lead
  | piece :: pieces => lead ++ (piece.lexeme.text.toList ++ layOut piece.gap pieces)

/-- The lexemes can stand in a text, the gaps are white space and comments, and there is something
between two atoms. -/
def WellLaid (lead : List Char) : List Piece → Prop
  | [] => LastGap lead
  | piece :: pieces =>
      Gap lead ∧ piece.lexeme.IsProper ∧
        (piece.lexeme.isAtom = true → (∃ next ∈ pieces.head?, next.lexeme.isAtom = true) →
          piece.gap ≠ []) ∧
        WellLaid piece.gap pieces

/-- The tokens of a text that is laid out from `l` on, each at the place where it stands. -/
def placed (l : Location) (lead : List Char) : List Piece → List Token
  | [] => []
  | piece :: pieces =>
      ⟨piece.lexeme, some (l.past lead)⟩ ::
        placed ((l.past lead).past piece.lexeme.text.toList) piece.gap pieces

@[simp]
theorem map_lexeme_placed (pieces : List Piece) :
    ∀ l lead, (placed l lead pieces).map lexeme = pieces.map Piece.lexeme := by
  induction pieces with
  | nil => exact fun _ _ => rfl
  | cons piece pieces ih => exact fun _ _ => congrArg (piece.lexeme :: ·) (ih _ _)

theorem location_of_getElem?_placed (pieces : List Piece) :
    ∀ {l : Location} {lead : List Char} {i : Nat} {token : Token},
      (placed l lead pieces)[i]? = some token →
      token.location = some (l.past (layOut lead (pieces.take i))) := by
  induction pieces with
  | nil =>
      intro l lead i token h
      simp [placed] at h
  | cons piece pieces ih =>
      intro l lead i token h
      cases i with
      | zero =>
          simp only [placed, List.getElem?_cons_zero, Option.some.injEq] at h
          rw [← h]
          rfl
      | succ i =>
          rw [ih h]
          simp [layOut]

/-! ## Scanning gaps -/

/-- A character that ends an atom starts a gap or is a parenthesis. -/
theorem Gap.isDelimiter_of_mem_head? {cs : List Char} (h : Gap cs) :
    ∀ c ∈ cs.head?, isDelimiter c = true := by
  intro c hc
  cases h with
  | nil => simp at hc
  | blank hBlank _ =>
      obtain rfl : _ = c := by simpa using hc
      simp [isDelimiter, hBlank]
  | comment _ _ =>
      obtain rfl : ';' = c := by simpa using hc
      rfl

theorem LastGap.isDelimiter_of_mem_head? {cs : List Char} (h : LastGap cs) :
    ∀ c ∈ cs.head?, isDelimiter c = true := by
  cases h with
  | closed h => exact h.isDelimiter_of_mem_head?
  | @comment cs text h _ =>
      intro c hc
      cases cs with
      | nil =>
          obtain rfl : ';' = c := by simpa using hc
          rfl
      | cons d cs => exact h.isDelimiter_of_mem_head? c hc

theorem step_between_of_isBlank {c : Char} (hBlank : Text.isBlank c = true) (l : Location) :
    Scan.between.step l c = ([], .between) := by
  have hLeft : c ≠ '(' := by rintro rfl; exact absurd hBlank (by decide)
  have hRight : c ≠ ')' := by rintro rfl; exact absurd hBlank (by decide)
  have hComment : c ≠ ';' := by rintro rfl; exact absurd hBlank (by decide)
  simp [Scan.step, Scan.lead, hLeft, hRight, hComment, hBlank]

/-- Inside a comment nothing is found up to the line end. -/
theorem scanFrom_comment {text : List Char} (hText : '\n' ∉ text) :
    ∀ l rest, scanFrom .comment l (text ++ rest) = scanFrom .comment (l.past text) rest := by
  induction text with
  | nil => exact fun _ _ => rfl
  | cons c text ih =>
      intro l rest
      have hc : c ≠ '\n' := Ne.symm (List.ne_of_not_mem_cons hText)
      have hStep : Scan.comment.step l c = ([], .comment) := by simp [Scan.step, hc]
      rw [List.cons_append, scanFrom, hStep]
      exact ih (List.not_mem_of_not_mem_cons hText) _ _

/-- Nothing is found in a gap. -/
theorem scanFrom_gap {gap : List Char} (h : Gap gap) :
    ∀ l rest, scanFrom .between l (gap ++ rest) = scanFrom .between (l.past gap) rest := by
  induction h with
  | nil => exact fun _ _ => rfl
  | blank hBlank _ ih =>
      intro l rest
      rw [List.cons_append, scanFrom, step_between_of_isBlank hBlank]
      exact ih _ _
  | @comment text cs hText _ ih =>
      intro l rest
      have hLead : scanFrom .between l (';' :: (text ++ '\n' :: (cs ++ rest))) =
          scanFrom .comment (l.after ';') (text ++ '\n' :: (cs ++ rest)) := rfl
      have hEnd : ∀ l', scanFrom .comment l' ('\n' :: (cs ++ rest)) =
          scanFrom .between (l'.after '\n') (cs ++ rest) := fun _ => rfl
      rw [List.cons_append, List.append_assoc, List.cons_append, hLead, scanFrom_comment hText,
        hEnd, ih]
      simp

theorem scanFrom_lastGap {gap : List Char} (h : LastGap gap) (l : Location) :
    scanFrom .between l gap = [] := by
  cases h with
  | closed h =>
      have hScan := scanFrom_gap h l []
      rwa [List.append_nil] at hScan
  | @comment cs text h hText =>
      have hScan := scanFrom_comment hText ((l.past cs).after ';') []
      rw [List.append_nil] at hScan
      rw [scanFrom_gap h]
      exact hScan

/-! ## Scanning tokens -/

/-- The text ends here or goes on with a character that ends an atom. -/
def EndsAtom (rest : List Char) : Prop := ∀ c ∈ rest.head?, isDelimiter c = true

/-- Inside an atom, characters are collected up to the next delimiter. -/
theorem scanFrom_atom {text : List Char} (hText : ∀ c ∈ text, isDelimiter c = false)
    {rest : List Char} (hRest : EndsAtom rest) (start : Location) :
    ∀ l read, scanFrom (.atom start read) l (text ++ rest) =
      ⟨.atom (String.ofList (read.reverse ++ text)), some start⟩ ::
        scanFrom .between (l.past text) rest := by
  induction text with
  | nil =>
      intro l read
      cases rest with
      | nil => simp [scanFrom, Scan.finish]
      | cons c rest =>
          have hc : isDelimiter c = true := hRest c (by simp)
          simp [scanFrom, Scan.step, hc, Scan.finish]
  | cons c text ih =>
      intro l read
      have hc : isDelimiter c = false := hText c (by simp)
      have hStep : (Scan.atom start read).step l c = ([], .atom start (c :: read)) := by
        simp [Scan.step, hc]
      rw [List.cons_append, scanFrom, hStep, ih fun d hd => hText d (by simp [hd])]
      simp

theorem lead_of_not_isDelimiter {c : Char} (hc : isDelimiter c = false) (l : Location) :
    Scan.lead l c = ([], .atom l [c]) := by
  simp only [isDelimiter, Bool.or_eq_false_iff, beq_eq_false_iff_ne] at hc
  obtain ⟨⟨⟨hLeft, hRight⟩, hComment⟩, hBlank⟩ := hc
  simp [Scan.lead, hLeft, hRight, hComment, hBlank]

/-- A lexeme is found where its text stands, if it is a parenthesis or ends there. -/
theorem scanFrom_lexeme {lexeme : Lexeme} (hProper : lexeme.IsProper) {rest : List Char}
    (hRest : lexeme.isAtom = true → EndsAtom rest) (l : Location) :
    scanFrom .between l (lexeme.text.toList ++ rest) =
      ⟨lexeme, some l⟩ :: scanFrom .between (l.past lexeme.text.toList) rest := by
  cases lexeme with
  | left => rfl
  | right => rfl
  | atom text =>
      obtain ⟨hNonempty, hText⟩ := hProper
      obtain ⟨c, cs, hChars⟩ : ∃ c cs, text.toList = c :: cs :=
        List.exists_cons_of_ne_nil (by simpa using hNonempty)
      rw [hChars] at hText
      have hFirst : Scan.between.step l c = ([], .atom l [c]) :=
        lead_of_not_isDelimiter (hText c (by simp)) l
      have hWhole : String.ofList ([c].reverse ++ cs) = text := by
        rw [List.reverse_singleton, List.singleton_append, ← hChars, String.ofList_toList]
      show scanFrom .between l (text.toList ++ rest) = _ :: scanFrom _ (l.past text.toList) rest
      rw [hChars, List.cons_append, scanFrom, hFirst]
      show scanFrom (.atom l [c]) (l.after c) (cs ++ rest) = _
      rw [scanFrom_atom (fun d hd => hText d (by simp [hd])) (hRest rfl), hWhole]
      rfl

/-- Behind an atom a text that is well laid out ends or goes on with a delimiter. -/
theorem WellLaid.endsAtom {gap : List Char} {pieces : List Piece} (h : WellLaid gap pieces)
    (hGap : (∃ next ∈ pieces.head?, next.lexeme.isAtom = true) → gap ≠ []) :
    EndsAtom (layOut gap pieces) := by
  cases pieces with
  | nil => exact LastGap.isDelimiter_of_mem_head? h
  | cons piece pieces =>
      cases gap with
      | cons c gap => exact h.1.isDelimiter_of_mem_head?
      | nil =>
          -- Without a gap the next token is a parenthesis.
          obtain ⟨lexeme, gap⟩ := piece
          intro c hc
          cases lexeme with
          | left =>
              obtain rfl : '(' = c := by simpa [layOut, Lexeme.text] using hc
              rfl
          | right =>
              obtain rfl : ')' = c := by simpa [layOut, Lexeme.text] using hc
              rfl
          | atom text => exact absurd rfl (hGap ⟨_, rfl, rfl⟩)

/-- Scanning a text that is laid out finds its tokens, each at its place. -/
theorem scanFrom_layOut (pieces : List Piece) :
    ∀ {lead : List Char}, WellLaid lead pieces → ∀ l,
      scanFrom .between l (layOut lead pieces) = placed l lead pieces := by
  induction pieces with
  | nil => exact fun h l => scanFrom_lastGap h l
  | cons piece pieces ih =>
      rintro lead ⟨hLead, hProper, hGap, hRest⟩ l
      rw [layOut, scanFrom_gap hLead,
        scanFrom_lexeme hProper fun hAtom => hRest.endsAtom (hGap hAtom), ih hRest]
      rfl

/-! ## Every text is laid out -/

theorem Gap.append {cs ds : List Char} (h : Gap cs) (h' : Gap ds) : Gap (cs ++ ds) := by
  induction h with
  | nil => exact h'
  | blank hBlank _ ih => exact .blank hBlank ih
  | comment hText _ ih =>
      rw [List.cons_append, List.append_assoc]
      exact .comment hText ih

/-- A gap in front of a text that is well laid out is part of its first gap. -/
theorem WellLaid.prepend {gap lead : List Char} {pieces : List Piece} (hGap : Gap gap)
    (h : WellLaid lead pieces) : WellLaid (gap ++ lead) pieces := by
  cases pieces with
  | cons piece pieces => exact ⟨hGap.append h.1, h.2⟩
  | nil =>
      cases h with
      | closed h => exact .closed (hGap.append h)
      | comment h hText =>
          show LastGap _
          rw [← List.append_assoc]
          exact .comment (hGap.append h) hText

theorem layOut_prepend (gap lead : List Char) (pieces : List Piece) :
    layOut (gap ++ lead) pieces = gap ++ layOut lead pieces := by
  cases pieces with
  | nil => rfl
  | cons piece pieces => exact List.append_assoc _ _ _

/-- A character that is no delimiter in front of a text that is laid out: it begins the first
token, if that is an atom and nothing stands before it, and is an atom of its own otherwise. -/
theorem exists_wellLaid_atom {c : Char} (hc : isDelimiter c = false) {lead : List Char}
    {pieces : List Piece} (h : WellLaid lead pieces) :
    ∃ pieces', WellLaid [] pieces' ∧ layOut [] pieces' = c :: layOut lead pieces := by
  have hSingle : (Lexeme.atom (String.ofList [c])).IsProper := by simp [Lexeme.IsProper, hc]
  by_cases hJoins : lead = [] ∧ ∃ next ∈ pieces.head?, next.lexeme.isAtom = true
  · obtain ⟨rfl, next, hNext, hAtom⟩ := hJoins
    obtain _ | ⟨⟨lexeme, gap⟩, pieces⟩ := pieces
    · simp at hNext
    obtain rfl : ⟨lexeme, gap⟩ = next := by simpa using hNext
    obtain ⟨_, hProper, hGap, hRest⟩ := h
    cases lexeme with
    | left => simp [Lexeme.isAtom] at hAtom
    | right => simp [Lexeme.isAtom] at hAtom
    | atom text =>
        refine ⟨⟨.atom (String.ofList (c :: text.toList)), gap⟩ :: pieces, ⟨.nil, ?_, hGap, hRest⟩,
          by simp [layOut, Lexeme.text]⟩
        refine ⟨by simp, fun d hd => ?_⟩
        rw [String.toList_ofList] at hd
        rcases List.mem_cons.1 hd with rfl | hd
        · exact hc
        · exact hProper.2 d hd
  · refine ⟨⟨.atom (String.ofList [c]), lead⟩ :: pieces,
      ⟨.nil, hSingle, fun _ hNext hLead => ?_, h⟩, by simp [layOut, Lexeme.text]⟩
    exact hJoins ⟨hLead, hNext⟩

/-- Every text is laid out from some tokens and gaps. -/
theorem exists_wellLaid (cs : List Char) :
    ∃ lead pieces, WellLaid lead pieces ∧ layOut lead pieces = cs := by
  -- By length, because a comment is passed over as a whole.
  induction hn : cs.length using Nat.strong_induction_on generalizing cs with
  | _ n ih =>
      subst hn
      cases cs with
      | nil => exact ⟨[], [], .closed .nil, rfl⟩
      | cons c cs =>
          have hRest := ih cs.length (by simp) cs rfl
          by_cases hLeft : c = '('
          · obtain ⟨lead, pieces, h, rfl⟩ := hRest
            refine ⟨[], ⟨.left, lead⟩ :: pieces, ⟨.nil, trivial, by simp [Lexeme.isAtom], h⟩, ?_⟩
            simp [layOut, Lexeme.text, hLeft]
          by_cases hRight : c = ')'
          · obtain ⟨lead, pieces, h, rfl⟩ := hRest
            refine ⟨[], ⟨.right, lead⟩ :: pieces, ⟨.nil, trivial, by simp [Lexeme.isAtom], h⟩, ?_⟩
            simp [layOut, Lexeme.text, hRight]
          by_cases hBlank : Text.isBlank c = true
          · obtain ⟨lead, pieces, h, rfl⟩ := hRest
            exact ⟨[c] ++ lead, pieces, h.prepend (.blank hBlank .nil),
              layOut_prepend [c] lead pieces⟩
          by_cases hComment : c = ';'
          · subst hComment
            by_cases hEnd : '\n' ∈ cs
            · obtain ⟨text, rest, rfl, hText⟩ := List.eq_append_cons_of_mem hEnd
              obtain ⟨lead, pieces, h, rfl⟩ := ih rest.length (by simp; omega) rest rfl
              refine ⟨';' :: (text ++ ['\n']) ++ lead, pieces, h.prepend (.comment hText .nil), ?_⟩
              rw [layOut_prepend]
              simp
            · exact ⟨';' :: cs, [], .comment .nil hEnd, rfl⟩
          · obtain ⟨lead, pieces, h, rfl⟩ := hRest
            have hc : isDelimiter c = false := by
              simp [isDelimiter, hLeft, hRight, hBlank, hComment]
            obtain ⟨pieces', h', hText⟩ := exists_wellLaid_atom hc h
            exact ⟨[], pieces', h', hText⟩

/-! ## The tokens of a text -/

theorem WellLaid.of_append (before : List Piece) {piece : Piece} {after : List Piece} :
    ∀ {lead : List Char}, WellLaid lead (before ++ piece :: after) →
      piece.lexeme.IsProper ∧ WellLaid piece.gap after ∧
        (piece.lexeme.isAtom = true → EndsAtom (layOut piece.gap after)) := by
  induction before with
  | nil =>
      rintro lead ⟨_, hProper, hGap, hRest⟩
      exact ⟨hProper, hRest, fun hAtom => hRest.endsAtom (hGap hAtom)⟩
  | cons _ before ih => exact fun h => ih h.2.2.2

theorem scan_eq_placed {source : String} {lead : List Char} {pieces : List Piece}
    (h : WellLaid lead pieces) (hText : layOut lead pieces = source.toList) :
    scan source = placed .start lead pieces := by
  rw [scan, ← hText]
  exact scanFrom_layOut pieces h .start

theorem isProper_of_mem_scan {source : String} {token : Token} (h : token ∈ scan source) :
    token.lexeme.IsProper := by
  obtain ⟨lead, pieces, hLaid, hText⟩ := exists_wellLaid source.toList
  have hLexeme : token.lexeme ∈ pieces.map Piece.lexeme := by
    rw [← map_lexeme_placed pieces .start lead, ← scan_eq_placed hLaid hText]
    exact List.mem_map_of_mem h
  obtain ⟨piece, hPiece, hEq⟩ := List.mem_map.1 hLexeme
  obtain ⟨before, after, rfl⟩ := List.append_of_mem hPiece
  exact hEq ▸ (WellLaid.of_append before hLaid).1

/-- Lexemes with single spaces between them. -/
def spaced : List Lexeme → List Piece
  | [] => []
  | [lexeme] => [⟨lexeme, []⟩]
  | lexeme :: next :: lexemes => ⟨lexeme, [' ']⟩ :: spaced (next :: lexemes)

theorem map_lexeme_spaced (lexemes : List Lexeme) :
    (spaced lexemes).map Piece.lexeme = lexemes := by
  fun_induction spaced lexemes with
  | case1 => rfl
  | case2 lexeme => rfl
  | case3 lexeme next lexemes ih => exact congrArg (lexeme :: ·) ih

theorem layOut_spaced (lexemes : List Lexeme) :
    ∀ lead, layOut lead (spaced lexemes) =
      lead ++ [' '].intercalate (lexemes.map fun lexeme => lexeme.text.toList) := by
  fun_induction spaced lexemes with
  | case1 => simp [layOut]
  | case2 lexeme => simp [layOut]
  | case3 lexeme next lexemes ih =>
      intro lead
      simp only [layOut, ih, List.map_cons, List.intercalate_cons_cons, List.append_assoc]

theorem wellLaid_spaced (lexemes : List Lexeme) :
    ∀ {lead : List Char}, Gap lead → (∀ lexeme ∈ lexemes, lexeme.IsProper) →
      WellLaid lead (spaced lexemes) := by
  have hSpace : Gap [' '] := .blank (by decide) .nil
  fun_induction spaced lexemes with
  | case1 => exact fun hLead _ => .closed hLead
  | case2 lexeme =>
      intro lead hLead hProper
      exact ⟨hLead, hProper lexeme (by simp), by simp, .closed .nil⟩
  | case3 lexeme next lexemes ih =>
      intro lead hLead hProper
      refine ⟨hLead, hProper lexeme (by simp), fun _ _ => by simp, ih hSpace fun other hOther => ?_⟩
      exact hProper other (List.mem_cons_of_mem _ hOther)

/-- Whatever the gaps, scanning a text finds the lexemes that it is laid out from. In particular
the lexemes of a text are found again if they are written with single spaces between them. -/
theorem scan_undoes_every_layout :
    (∀ (lead : List Char) (pieces : List Piece), WellLaid lead pieces →
      (scan (String.ofList (layOut lead pieces))).map lexeme = pieces.map Piece.lexeme) ∧
    ∀ source : String,
      (scan (" ".intercalate ((scan source).map fun token => token.lexeme.text))).map lexeme =
        (scan source).map lexeme := by
  have hLayout : ∀ (lead : List Char) (pieces : List Piece), WellLaid lead pieces →
      (scan (String.ofList (layOut lead pieces))).map lexeme = pieces.map Piece.lexeme := by
    intro lead pieces h
    rw [scan_eq_placed h String.toList_ofList.symm, map_lexeme_placed]
  refine ⟨hLayout, fun source => ?_⟩
  have hLaid : WellLaid [] (spaced ((scan source).map lexeme)) := by
    refine wellLaid_spaced _ .nil fun lexeme hLexeme => ?_
    obtain ⟨token, hToken, rfl⟩ := List.mem_map.1 hLexeme
    exact isProper_of_mem_scan hToken
  have hJoined : String.ofList (layOut [] (spaced ((scan source).map lexeme))) =
      " ".intercalate ((scan source).map fun token => token.lexeme.text) := by
    rw [← String.toList_inj, String.toList_ofList, layOut_spaced, String.toList_intercalate]
    simp [Function.comp_def]
  rw [← hJoined, hLayout _ _ hLaid, map_lexeme_spaced]

/-- Two atoms with a comment between them in a list, and a comment that the text ends. -/
theorem scan_list_among_comments :
    let pieces : List Piece := [⟨.left, []⟩, ⟨.atom "f", "; (\n".toList⟩, ⟨.atom "x", []⟩,
      ⟨.right, " ; end".toList⟩]
    WellLaid "\t".toList pieces ∧
      String.ofList (layOut "\t".toList pieces) = "\t(f; (\nx) ; end" ∧
      (scan "\t(f; (\nx) ; end").map lexeme = [.left, .atom "f", .atom "x", .right] := by
  intro pieces
  have hComment : Gap (';' :: (" (".toList ++ '\n' :: [])) := .comment (by decide) .nil
  have hEnd : LastGap ([' '] ++ ';' :: " end".toList) :=
    .comment (.blank (by decide) .nil) (by decide)
  have hAtoms : (Lexeme.atom "f").IsProper ∧ (Lexeme.atom "x").IsProper := by decide
  have hLaid : WellLaid "\t".toList pieces :=
    ⟨.blank (by decide) .nil, trivial, by simp [Lexeme.isAtom], .nil, hAtoms.1, by simp, hComment,
      hAtoms.2, by simp [Lexeme.isAtom], .nil, trivial, by simp, hEnd⟩
  exact ⟨hLaid, by decide, scan_undoes_every_layout.1 _ _ hLaid⟩

/-- A text is its tokens in order with gaps around them, and nothing else. A gap is white space and
comments; an atom has characters, none of them a delimiter, and a delimiter or the end of the text
behind it. The place of a token counts the line ends before it, and the characters between it and
the last of them, or the start of the text. -/
theorem scan_accounts_for_every_character (source : String) :
    ∃ (lead : List Char) (pieces : List Piece),
      source.toList = layOut lead pieces ∧
      (scan source).map lexeme = pieces.map Piece.lexeme ∧
      WellLaid lead pieces ∧
      (∀ before text gap after, pieces = before ++ ⟨.atom text, gap⟩ :: after →
        text ≠ "" ∧ (∀ c ∈ text.toList, isDelimiter c = false) ∧
          ∀ c ∈ (layOut gap after).head?, isDelimiter c = true) ∧
      ∀ (i : Nat) (token : Token), (scan source)[i]? = some token →
        token.location = some ⟨1 + (layOut lead (pieces.take i)).count '\n',
          1 + ((layOut lead (pieces.take i)).reverse.takeWhile fun c => c != '\n').length⟩ := by
  obtain ⟨lead, pieces, hLaid, hText⟩ := exists_wellLaid source.toList
  have hScan := scan_eq_placed hLaid hText
  refine ⟨lead, pieces, hText.symm, ?_, hLaid, ?_, ?_⟩
  · rw [hScan, map_lexeme_placed]
  · rintro before text gap after rfl
    obtain ⟨hProper, _, hEnds⟩ := WellLaid.of_append before hLaid
    exact ⟨hProper.1, hProper.2, hEnds rfl⟩
  · intro i token hToken
    rw [hScan] at hToken
    rw [location_of_getElem?_placed pieces hToken, Location.past_start]
    rfl

end Token

end MiniScheme
