import MiniScheme.Interpreter
import MiniScheme.Proofs.Correspondence.Evaluate
import MiniScheme.Proofs.Store

/-!
# Alike states of an interpreter

Interpreters in alike states answer alike: to expressions, to the forms of a text, and to the
application of a procedure. The states they are in afterwards are alike again, under a matching that
may have grown.

## Main results

* `Interpreter.State.agree_evalExpr`, `Interpreter.State.agree_apply`: expressions and procedures.
* `Interpreter.State.agree_evalForms`: forms that are alike, one by one.
* `Interpreter.State.agree_program`: texts that are read alike.
-/

namespace MiniScheme

variable {C : Correspondence} {M M' : Matching}

/-! ## Heaps with frames in common -/

/-- Heaps that have the frames of a sound heap in common are alike, and these frames match
themselves. Whether the frames that they have beside them are enough or too many is for the
correspondence to say. -/
theorem Heap.Sound.alike_of_common {b h h' : Heap} (hSound : b.Sound) (hC : C.Transparent)
    (hOld : ∀ (f : FrameId) (frame : Frame) (name : String) (v w : Value) (id : Nat),
      b.frames[f]? = some frame → frame.bindings.get? name = some v → w.Part v →
      w.identity? = some id → C.id id id)
    (hLeft : ∀ f : FrameId, f < b.frames.size → h.frames[f]? = b.frames[f]?)
    (hRight : ∀ f : FrameId, f < b.frames.size → h'.frames[f]? = b.frames[f]?)
    (hId : ∀ k, C.id (h.nextId + k) (h'.nextId + k))
    (hKeeps : Matching.Keeps C (fun f f' => f = f' ∧ f < b.frames.size) h.frames.size
      h'.frames.size) :
    h.Alike C (fun f f' => f = f' ∧ f < b.frames.size) h' where
  frame := by
    rintro f _ ⟨rfl, hf⟩
    rw [hLeft f hf, hRight f hf]
    cases hFrame : b.frames[f]? with
    | none => exact .none
    | some frame =>
        refine .some ⟨?_, rfl, fun name _ => ?_⟩
        · cases hParent : frame.parent with
          | none => exact .none
          | some parent => exact .some ⟨rfl, hSound.parent_lt_size ⟨frame, hFrame, hParent⟩⟩
        · cases hv : frame.bindings.get? name with
          | none => exact .none
          | some v =>
              have hFine := hSound.bound f frame hFrame hf name v hv
              refine .some (Value.alike_refl hC
                (fun w id hPart => hOld f frame name v w id hFrame hv hPart) ?_)
              exact Value.All.mono (fun _ _ hFits => ⟨rfl, hFits.frame_lt⟩) hFine
  one_to_one := by
    rintro f _ g _ ⟨rfl, _⟩ ⟨rfl, _⟩
    exact Iff.rfl
  way := by
    right
    rintro f _ ⟨rfl, hf⟩
    have hFrame := Array.getElem?_eq_getElem hf
    have hOlder : ∀ parent, (b.frames[f]).parent = some parent → parent < f :=
      fun parent hParent => hSound.parent_lt ⟨_, hFrame, hParent⟩
    exact ⟨⟨_, (hLeft f hf).trans hFrame, hOlder⟩, ⟨_, (hRight f hf).trans hFrame, hOlder⟩⟩
  id := hId
  keeps := hKeeps

/-! ## What was read -/

/-- What was read is alike: an expression, or the error of reading it. -/
abbrev ReadAlike (C : Correspondence) : Except Error Expr → Except Error Expr → Prop :=
  ExceptRel (Error.Alike C) (Expr.Alike C)

theorem readAlike_refl (hC : C.Transparent) (x : Except Error Expr) : ReadAlike C x x := by
  cases x with
  | error e => exact .error ⟨rfl, hC.place _⟩
  | ok e => exact .ok (Expr.alike_refl hC e)

namespace Interpreter.State

/-- States with matching global frames, the same limit and alike machines. -/
structure Alike (C : Correspondence) (M : Matching) (s s' : State) : Prop where
  global : M s.interpreter.global s'.interpreter.global
  limit : s.interpreter.limit = s'.interpreter.limit
  machine : s.machine.Alike C M s'.machine
  bounds : s.heap.BoundsAgree s'.heap

/-- Outcomes with alike errors or results that are good together, and with alike states. -/
def Agree (C : Correspondence) (M : Matching) {α : Type} (good : Matching → α → α → Prop)
    (r r' : Except Error α × State) : Prop :=
  ∃ M', M ≤ M' ∧ ExceptRel (Error.Alike C) (good M') r.1 r'.1 ∧ r.2.Alike C M' r'.2

variable {s s' : State} {α : Type} {good : Matching → α → α → Prop}

theorem Agree.weaken {r r' : Except Error α × State} (hM : M ≤ M') (h : Agree C M' good r r') :
    Agree C M good r r' := by
  obtain ⟨M'', hM', hResult, hState⟩ := h
  exact ⟨M'', hM.trans hM', hResult, hState⟩

/-- The same answer without a change of state. -/
theorem agree_same (hs : s.Alike C M s') {x x' : Except Error α}
    (hx : ExceptRel (Error.Alike C) (good M) x x') : Agree C M good (x, s) (x', s') :=
  ⟨M, le_refl M, hx, hs⟩

variable (hC : ¬C.lenient)
include hC

/-- Alike expressions have alike outcomes in matching frames of alike states. -/
theorem agree_evalExpr (hs : s.Alike C M s') {env env' : FrameId} (hEnv : M env env')
    {e e' : Expr} (he : e.Alike C e') :
    Agree C M (Value.Alike C) (s.evalExpr env e) (s'.evalExpr env' e') := by
  have hBounds : s.machine.heap.BoundsAgree s'.machine.heap := hs.bounds
  obtain ⟨M', hM, hResult, hMachine⟩ :=
    Eval.agrees_evaluate hC s.interpreter.limit hEnv he hs.machine hBounds
  have hAfter := Eval.boundsAgree_evaluate s.interpreter.limit env env' he.height_eq hBounds
  unfold evalExpr
  rw [← hs.limit]
  exact ⟨M', hM, hResult, hM _ _ hs.global, hs.limit, hMachine, hAfter⟩

/-- Alike procedures make alike outcomes of alike arguments, if the bounds of the two heaps are the
same, or are true ones for all that is applied. -/
theorem agree_apply (hs : s.Alike C M s') {p p' : Procedure} (hp : p.Alike C M p')
    {args args' : List Value} (hArgs : Value.AllAlike C M args args')
    (hBounds : s.machine.heap.tallest = s'.machine.heap.tallest ∨
      s.machine.heap.Bounds (.procedure p :: args) ∧
        s'.machine.heap.Bounds (.procedure p' :: args')) :
    Agree C M (Value.Alike C) (s.apply p args) (s'.apply p' args') := by
  obtain ⟨M', hM, hResult, hMachine⟩ :=
    Eval.agrees_apply hC s.interpreter.limit hp hArgs hs.machine hBounds
  have hAfter := Eval.boundsAgree_apply s.interpreter.limit hBounds
  unfold State.apply
  rw [← hs.limit]
  exact ⟨M', hM, hResult, hM _ _ hs.global, hs.limit, hMachine, hAfter⟩

theorem agree_evalRead (hs : s.Alike C M s') {env env' : FrameId} (hEnv : M env env')
    {x x' : Except Error Expr} (hx : ReadAlike C x x') :
    Agree C M (Value.Alike C) (s.evalRead env x) (s'.evalRead env' x') := by
  cases hx with
  | error he => exact agree_same hs (.error he)
  | ok he => exact agree_evalExpr hC hs hEnv he

/-- Forms that are alike, in alike states. -/
theorem agree_evalForms {forms forms' : List (Except Error Expr)}
    (hForms : List.Forall₂ (ReadAlike C) forms forms') :
    ∀ {M : Matching} {s s' : State} {last last' : Option Value}, s.Alike C M s' →
      Option.Rel (Value.Alike C M) last last' →
      Agree C M (fun M => Option.Rel (Value.Alike C M)) (s.evalForms last forms)
        (s'.evalForms last' forms') := by
  induction hForms with
  | nil =>
      intro M s s' last last' hs hLast
      exact agree_same hs (.ok hLast)
  | @cons form form' _ _ hForm _ ih =>
      intro M s s' last last' hs _
      have hFirst := agree_evalRead hC hs hs.global hForm
      unfold evalForms
      generalize s.evalRead s.interpreter.global form = r,
        s'.evalRead s'.interpreter.global form' = r' at hFirst
      obtain ⟨result, t⟩ := r
      obtain ⟨result', t'⟩ := r'
      obtain ⟨M', hM, hResult, ht⟩ := hFirst
      cases hResult with
      | error he => exact ⟨M', hM, .error he, ht⟩
      | ok hv => exact (ih ht (.some hv)).weaken hM

/-- Texts whose tokens are checked and read alike, as programs. -/
theorem agree_program (hs : s.Alike C M s') {source source' : String}
    (hEmpty : (Token.scan source).isEmpty = (Token.scan source').isEmpty)
    (hCheck : ExceptRel (Error.Alike C) (fun _ _ => True) (Expr.validate (Token.scan source))
      (Expr.validate (Token.scan source')))
    (hForms : List.Forall₂ (ReadAlike C) (Expr.forms (Token.scan source))
      (Expr.forms (Token.scan source'))) :
    Agree C M (fun M => Option.Rel (Value.Alike C M)) (s.program source) (s'.program source') := by
  unfold program
  dsimp only
  rw [← hEmpty]
  split
  · exact agree_same hs (.ok .none)
  · generalize Expr.validate (Token.scan source) = x,
      Expr.validate (Token.scan source') = x' at hCheck
    cases hCheck with
    | error he => exact agree_same hs (.error he)
    | ok _ => exact agree_evalForms hC hForms hs .none

end Interpreter.State

end MiniScheme
