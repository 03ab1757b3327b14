import MiniScheme.Proofs.Correspondence.States

/-!
# Layout does not change the meaning of a text

White space and comments separate tokens and decide their places, and that is all they do. Two
texts with the same lexemes are read as expressions that are equal up to places, so evaluation
gives values that are equal up to the places inside procedure bodies, or errors with the same
cause.

Procedures outlive the text they come from. So the states in which the two texts are evaluated need
not be the same either: they may differ in the places inside the procedures that were defined
before, and the states after the evaluation again differ in that way only.

The two evaluations are compared under the correspondence `Correspondence.layout`, which lets
places differ and nothing else. Matching frames have the same index there: a matching that contains
equality and is one-to-one is equality.

## Main results

* `Expr.relaid_forms`, `Expr.relaid_parse`: texts with the same lexemes are read alike.
* `Interpreter.State.outcomeRelaid_of_agree`: what agrees under that correspondence.
* `Interpreter.State.layout_never_changes_meaning`: evaluation of texts with the same lexemes.
-/

namespace MiniScheme

/-! ## Equal up to places -/

/-- Places may differ and nothing else. -/
def Correspondence.layout : Correspondence where
  place _ _ := True
  name _ := True
  id := Eq
  place_none := trivial
  place_or _ _ := trivial
  id_iff ha hb := by rw [ha, hb]

open Correspondence (layout)

/-- Expressions that are equal up to places. -/
abbrev Expr.Relaid : Expr → Expr → Prop := Expr.Alike layout

/-- Values that are equal up to the places in the bodies of procedures. -/
abbrev Value.Relaid : Value → Value → Prop := Value.Alike layout Eq

/-- Frames that are equal up to the places in the bodies of procedures. -/
abbrev Frame.Relaid : Frame → Frame → Prop := Frame.Alike layout Eq

/-- Heaps that are equal up to the places in the bodies of procedures. The bounds on the height of
bodies that they keep decide no more than the fuel of evaluation, so they may differ as well, if
both are true bounds. -/
structure Heap.Relaid (h h' : Heap) : Prop where
  frame : ∀ f : FrameId, Option.Rel Frame.Relaid h.frames[f]? h'.frames[f]?
  nextId : h.nextId = h'.nextId
  bound : h.tallest = h'.tallest ∨
    h.BodiesWithin h.tallest ∧ h'.BodiesWithin h'.tallest

/-- Results that are equal up to places; `good` says it for values. -/
abbrev ResultRelaid {α : Type} (good : α → α → Prop) : Except Error α → Except Error α → Prop :=
  ExceptRel (fun e e' => e.cause = e'.cause) good

theorem Correspondence.layout_transparent : layout.Transparent :=
  ⟨fun _ => trivial, fun _ => trivial⟩

theorem Value.Relaid.refl (v : Value) : v.Relaid v :=
  Value.alike_refl Correspondence.layout_transparent (fun _ _ _ _ => rfl)
    (Value.all_of_forall (fun _ _ => rfl) v)

theorem Frame.Relaid.refl (frame : Frame) : frame.Relaid frame :=
  ⟨optionRel_refl (fun _ => rfl) _, rfl, fun _ _ => optionRel_refl Value.Relaid.refl _⟩

theorem Heap.Relaid.refl (h : Heap) : h.Relaid h :=
  ⟨fun _ => optionRel_refl Frame.Relaid.refl _, rfl, .inl rfl⟩

/-! ## Heaps -/

theorem Heap.Relaid.size_eq {h h' : Heap} (hAlike : h.Relaid h') :
    h.frames.size = h'.frames.size := by
  have hNone : ∀ f : FrameId, h.frames[f]? = none ↔ h'.frames[f]? = none := by
    intro f
    have hFrame := hAlike.frame f
    generalize h.frames[f]? = x, h'.frames[f]? = x' at hFrame
    cases hFrame <;> simp
  have hLe := Array.getElem?_eq_none_iff.1 ((hNone h'.frames.size).2 (by simp))
  have hGe := Array.getElem?_eq_none_iff.1 ((hNone h.frames.size).1 (by simp))
  exact Nat.le_antisymm hLe hGe

theorem Heap.Relaid.alike {h h' : Heap} (hAlike : h.Relaid h') : h.Alike layout Eq h' where
  frame := by
    rintro f _ rfl
    exact hAlike.frame f
  one_to_one := by
    rintro f _ g _ rfl rfl
    exact Iff.rfl
  way := .inl ⟨fun _ _ hf => hf, hAlike.size_eq⟩
  id k := congrArg (· + k) hAlike.nextId
  keeps := ⟨fun _ => trivial, fun _ => trivial, nofun, nofun⟩

/-- Frames match one to one, so a matching that contains equality has no room for more. -/
theorem Heap.Alike.matching_eq {C : Correspondence} {M : Matching} {h h' : Heap} (hM : Eq ≤ M)
    (hAlike : h.Alike C M h') : M = Eq := by
  funext f f'
  refine propext ⟨fun hf => ?_, fun hEq => hM f f' hEq⟩
  exact (hAlike.one_to_one hf (hM f' f' rfl)).2 rfl

/-! ## Reading -/

/-- The same lexemes, at any places. -/
abbrev Token.AllRelaid : List Token → List Token → Prop :=
  List.Forall₂ fun token token' => token.lexeme = token'.lexeme

theorem Token.allRelaid_iff {tokens tokens' : List Token} :
    AllRelaid tokens tokens' ↔ tokens.map lexeme = tokens'.map lexeme := by
  rw [← List.forall₂_eq_eq_eq, List.forall₂_map_left_iff, List.forall₂_map_right_iff]

theorem Token.AllRelaid.count_eq {tokens tokens' : List Token} (h : AllRelaid tokens tokens')
    (lexeme : Lexeme) : count lexeme tokens = count lexeme tokens' := by
  induction h with
  | nil => rfl
  | cons hHead _ ih =>
      unfold count at ih ⊢
      rw [List.countP_cons, List.countP_cons, ih, hHead]

theorem Token.AllRelaid.isEmpty_eq {tokens tokens' : List Token} (h : AllRelaid tokens tokens') :
    tokens.isEmpty = tokens'.isEmpty := by
  cases h <;> rfl

namespace Expr

/-- Open lists that have come to the same elements, up to places. -/
def OpenList.Relaid (group group' : OpenList) : Prop :=
  List.Forall₂ Expr.Relaid group.items group'.items

theorem OpenList.Relaid.close {group group' : OpenList} (h : group.Relaid group') :
    group.close.Relaid group'.close :=
  .list trivial (List.rel_reverse h)

theorem OpenList.Relaid.add {group group' : OpenList} (h : group.Relaid group') {e e' : Expr}
    (he : e.Relaid e') :
    OpenList.Relaid { group with items := e :: group.items }
      { group' with items := e' :: group'.items } :=
  .cons he h

theorem relaid_ofAtom (l l' : Option Location) (text : String) :
    (ofAtom l text).Relaid (ofAtom l' text) := by
  unfold ofAtom
  cases Number.ofChars? text.toList with
  | none => exact .symbol trivial trivial
  | some n => exact .number trivial n

/-- What reading finds depends on the lexemes only, up to places. -/
theorem relaid_formsFrom {tokens tokens' : List Token} (h : Token.AllRelaid tokens tokens') :
    ∀ {groups groups' : List OpenList} (last last' : Option Location),
      List.Forall₂ OpenList.Relaid groups groups' →
      List.Forall₂ (ResultRelaid Expr.Relaid) (formsFrom groups last tokens)
        (formsFrom groups' last' tokens') := by
  induction h with
  | nil =>
      intro groups groups' last last' hGroups
      cases hGroups with
      | nil => exact .nil
      | cons _ _ => exact .cons (.error rfl) .nil
  | @cons token token' _ _ hHead _ ih =>
      intro groups groups' last last' hGroups
      obtain ⟨lexeme, l⟩ := token
      obtain ⟨lexeme', l'⟩ := token'
      obtain rfl : lexeme = lexeme' := hHead
      cases lexeme with
      | left => exact ih l l' (.cons .nil hGroups)
      | atom text =>
          have hAtom := relaid_ofAtom l l' text
          cases hGroups with
          | nil => exact .cons (.ok hAtom) (ih l l' .nil)
          | cons hGroup hOuter => exact ih l l' (.cons (hGroup.add hAtom) hOuter)
      | right =>
          cases hGroups with
          | nil => exact .cons (.error rfl) (ih l l' .nil)
          | cons hGroup hOuter =>
              cases hOuter with
              | nil => exact .cons (.ok hGroup.close) (ih l l' .nil)
              | cons hGroup' hOuter => exact ih l l' (.cons (hGroup'.add hGroup.close) hOuter)

/-- Tokens that differ in their places only are read as forms that differ in their places only. -/
theorem relaid_forms {tokens tokens' : List Token} (h : Token.AllRelaid tokens tokens') :
    List.Forall₂ (ResultRelaid Expr.Relaid) (forms tokens) (forms tokens') :=
  relaid_formsFrom h none none .nil

theorem relaid_validate {tokens tokens' : List Token} (h : Token.AllRelaid tokens tokens') :
    ResultRelaid (fun _ _ => True) (validate tokens) (validate tokens') := by
  have hOpening := h.count_eq .left
  have hClosing := h.count_eq .right
  cases h with
  | nil => exact .error rfl
  | @cons first first' rest rest' hFirst hRest =>
      have hNil : rest = [] ↔ rest' = [] := by cases hRest <;> simp
      unfold validate
      simp only [hFirst, hOpening, hClosing, ne_eq, hNil]
      split
      · exact .error rfl
      · split
        · exact .error rfl
        · split
          · exact .error rfl
          · exact .ok trivial

/-- The same for reading one expression, errors included. -/
theorem relaid_parse {tokens tokens' : List Token} (h : Token.AllRelaid tokens tokens') :
    ResultRelaid Expr.Relaid (parse tokens) (parse tokens') := by
  have hValidate := relaid_validate h
  have hForms := relaid_forms h
  unfold parse
  generalize validate tokens = x, validate tokens' = x' at hValidate
  cases hValidate with
  | error hCause => exact .error hCause
  | ok _ =>
      dsimp only
      generalize forms tokens = items, forms tokens' = items' at hForms
      cases hForms with
      | nil => exact .error rfl
      | cons hFirst _ => exact hFirst

end Expr

/-! ## Texts -/

namespace Interpreter.State

/-- States that are equal up to the places in the bodies of procedures. -/
structure Relaid (s s' : State) : Prop where
  interpreter : s.interpreter = s'.interpreter
  heap : s.heap.Relaid s'.heap

/-- Outcomes that are equal up to places; `good` says it for values. -/
structure OutcomeRelaid {α : Type} (good : α → α → Prop) (r r' : Except Error α × State) :
    Prop where
  result : ResultRelaid good r.1 r'.1
  state : r.2.Relaid r'.2

theorem Relaid.refl (s : State) : s.Relaid s := ⟨rfl, .refl s.heap⟩

theorem Relaid.alike {s s' : State} (hs : s.Relaid s') : s.Alike layout Eq s' where
  global := congrArg Interpreter.global hs.interpreter
  limit := congrArg Interpreter.limit hs.interpreter
  machine := ⟨hs.heap.alike, .inl (congrArg Interpreter.depth hs.interpreter)⟩
  bounds := hs.heap.bound

/-- Under the layout correspondence the matching does not grow. -/
theorem outcomeRelaid_of_agree {α : Type} {good : Matching → α → α → Prop}
    {r r' : Except Error α × State} (h : Agree layout Eq good r r') :
    OutcomeRelaid (good Eq) r r' := by
  obtain ⟨M, hM, hResult, hState⟩ := h
  obtain rfl := hState.machine.heap.matching_eq hM
  refine ⟨hResult.mono (fun _ _ hError => hError.cause) fun _ _ ha => ha, ?_, ?_⟩
  · have hDepth := hState.machine.depth_eq id
    generalize r.2 = s, r'.2 = s' at hState hDepth
    obtain ⟨⟨global, limit, depth⟩, h⟩ := s
    obtain ⟨⟨global', limit', depth'⟩, h'⟩ := s'
    obtain rfl : global = global' := hState.global
    obtain rfl : limit = limit' := hState.limit
    obtain rfl : depth = depth' := hDepth
    rfl
  · exact ⟨fun f => hState.machine.heap.frame rfl, hState.machine.heap.id 0, hState.bounds⟩

/-- What was read is equal up to places. -/
theorem readAlike_of_relaid {x x' : Except Error Expr} (h : ResultRelaid Expr.Relaid x x') :
    ReadAlike layout x x' :=
  h.mono (fun _ _ hCause => ⟨hCause, trivial⟩) fun _ _ he => he

theorem relaid_evalRead {s s' : State} (hs : s.Relaid s') (env : FrameId)
    {e e' : Except Error Expr} (he : ResultRelaid Expr.Relaid e e') :
    OutcomeRelaid Value.Relaid (s.evalRead env e) (s'.evalRead env e') :=
  outcomeRelaid_of_agree (agree_evalRead id hs.alike rfl (readAlike_of_relaid he))

/-- Evaluating forms that are equal up to places, in states that are. -/
theorem relaid_evalForms {forms forms' : List (Except Error Expr)}
    (hForms : List.Forall₂ (ResultRelaid Expr.Relaid) forms forms') {s s' : State}
    {last last' : Option Value} (hs : s.Relaid s') (hLast : Option.Rel Value.Relaid last last') :
    OutcomeRelaid (Option.Rel Value.Relaid) (s.evalForms last forms)
      (s'.evalForms last' forms') :=
  outcomeRelaid_of_agree (agree_evalForms id (hForms.imp fun _ _ => readAlike_of_relaid) hs.alike
    hLast)

theorem relaid_program {s s' : State} (hs : s.Relaid s') {source source' : String}
    (hTokens : Token.AllRelaid (Token.scan source) (Token.scan source')) :
    OutcomeRelaid (Option.Rel Value.Relaid) (s.program source) (s'.program source') := by
  have hCheck := Expr.relaid_validate hTokens
  have hForms := Expr.relaid_forms hTokens
  refine outcomeRelaid_of_agree (agree_program id hs.alike hTokens.isEmpty_eq ?_ ?_)
  · exact hCheck.mono (fun _ _ hCause => ⟨hCause, trivial⟩) fun _ _ h => h
  · exact hForms.imp fun _ _ => readAlike_of_relaid

theorem OutcomeRelaid.imp {α : Type} {good good' : α → α → Prop}
    {r r' : Except Error α × State} (h : OutcomeRelaid good r r')
    (hImp : ∀ a a', good a a' → good' a a') : OutcomeRelaid good' r r' :=
  ⟨h.result.mono (fun _ _ hError => hError) hImp, h.state⟩

/-- Texts with the same lexemes, evaluated in states that are equal up to places, have values that
are equal up to places and thus the same text, or errors with the same cause; and they leave states
that are equal up to places. This is so for the first expression of the texts, in the global frame
or any other, and for the texts as programs. -/
theorem layout_never_changes_meaning {source source' : String}
    (hLexemes : (Token.scan source).map Token.lexeme = (Token.scan source').map Token.lexeme)
    {s s' : State} (hs : s.Relaid s') :
    OutcomeRelaid (fun v v' => v.Relaid v' ∧ v.render = v'.render)
        (s.eval source) (s'.eval source') ∧
      OutcomeRelaid (Option.Rel fun v v' => v.Relaid v' ∧ v.render = v'.render)
        (s.program source) (s'.program source') ∧
      ∀ env, OutcomeRelaid (fun v v' => v.Relaid v' ∧ v.render = v'.render)
        (s.evalIn env source) (s'.evalIn env source') := by
  have hTokens := Token.allRelaid_iff.2 hLexemes
  have hText : ∀ v v' : Value, v.Relaid v' → v.Relaid v' ∧ v.render = v'.render :=
    fun v v' hv => ⟨hv, hv.render_eq⟩
  have hIn : ∀ env, OutcomeRelaid (fun v v' => v.Relaid v' ∧ v.render = v'.render)
      (s.evalIn env source) (s'.evalIn env source') := fun env =>
    (relaid_evalRead hs env (Expr.relaid_parse hTokens)).imp hText
  refine ⟨?_, ?_, hIn⟩
  · have hGlobal := hIn s.interpreter.global
    unfold eval
    rw [← hs.interpreter]
    exact hGlobal
  · exact (relaid_program hs hTokens).imp fun _ _ hv => optionRel_mono hText hv

/-- A procedure that was defined in two layouts, called in two layouts. -/
theorem layout_of_definition_and_call :
    let s := ((State.initial defaultLimit).eval "(define (id x) x)").2
    let s' := ((State.initial defaultLimit).eval "(define\n  (id x) ; any x\n  x)").2
    (Token.scan "(id 1)").map Token.lexeme = (Token.scan "( id\t1 ) ; one").map Token.lexeme ∧
      s.Relaid s' ∧ (s.eval "(id 1)").1.toOption.map Value.render = some "1" ∧
      OutcomeRelaid (fun v v' => v.Relaid v' ∧ v.render = v'.render)
        (s.eval "(id 1)") (s'.eval "( id\t1 ) ; one") := by
  intro s s'
  have hDefinition := layout_never_changes_meaning
    (show (Token.scan "(define (id x) x)").map Token.lexeme =
      (Token.scan "(define\n  (id x) ; any x\n  x)").map Token.lexeme by decide)
    (Relaid.refl (State.initial defaultLimit))
  have hCall : (Token.scan "(id 1)").map Token.lexeme =
      (Token.scan "( id\t1 ) ; one").map Token.lexeme := by decide
  have hs : s.Relaid s' := hDefinition.1.state
  have hValue : (s.eval "(id 1)").1.toOption.map Value.render = some "1" := by decide +kernel
  exact ⟨hCall, hs, hValue, (layout_never_changes_meaning hCall hs).1⟩

end Interpreter.State

end MiniScheme
