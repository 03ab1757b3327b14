import MiniScheme.Proofs.Nodes
import MiniScheme.Proofs.Store

/-!
# Errors point at the expression that raised them

If all of the code has places, an error of evaluation has one, and it is the place of the expression
that raised it: of the innermost one that saw the error, in the expression under evaluation or in
the body of a procedure that was there before, however the call of it came about. Procedures that
are made under way have bodies that are parts of these.

This is the regime `Regime.blame nodes`, for any set of located expressions that is closed under
items.

## Main results

* `Eval.keeps_blame`: evaluation keeps the regime.
* `Eval.errors_point_at_their_expression`: the place of every error of an evaluation.
-/

namespace MiniScheme

/-- Every node has a place. -/
def Expr.Located (e : Expr) : Prop := e.AllNodes fun x => x.location.isSome = true

/-- An error that has a place keeps it. -/
theorem Error.orAt_of_isSome {e : Error} (h : e.location.isSome = true) (l : Option Location) :
    e.orAt l = e := by
  obtain ⟨cause, location⟩ := e
  cases location with
  | none => cases h
  | some place => rfl

/-- Bodies consist of the given expressions, and an error points at the one that raised it. -/
def Regime.blame (nodes : Expr → Prop) : Regime where
  closure _ code _ := code.body ≠ [] ∧ ∀ e ∈ code.body, nodes e
  frame _ _ := True
  link _ _ := True
  stop
    | .error error => error.location.isSome = true ∧ ∃ x, nodes x ∧ error.RaisedAt x
    | .exhausted => True
  closure_mono _ h := h
  frame_mono _ h := h
  frame_of_lt _ h := h
  frame_child _ h := h
  link_child h := h
  frame_parent _ h _ := h
  frame_closure _ := trivial
  stop_locate _ l h := by rwa [Error.orAt_of_isSome h.1 l]
  stop_body h hNil := absurd hNil h.1

namespace Eval

/-- Evaluation keeps the regime if the expressions are located and their items are among them. -/
theorem keeps_blame {nodes : Expr → Prop}
    (hItem : ∀ {l es e}, nodes (.list l es) → e ∈ es → nodes e)
    (hLocated : ∀ {x}, nodes x → x.location.isSome = true) (limit : Option Nat) (fuel : Nat) :
    (Regime.blame nodes).Keeps (fun _ e => nodes e) (run limit fuel) := by
  have hPass : (Regime.blame nodes).Passes limit (fun _ e => nodes e) (fun _ e => nodes e) := by
    constructor
    case operand => exact fun hList he => hItem hList he
    case element => exact fun hList he => hItem hList he
    case body => exact fun _ _ hCode he => hCode.2 _ he
    case code =>
      intro d l es n code env hList hCode hMem _ _
      exact ⟨hCode.body_ne_nil, fun e he => hItem hList (hMem e he)⟩
    case name => exact fun _ _ _ _ => trivial
    case raised =>
      intro d e error he hRaised
      refine ⟨?_, e, he, hRaised⟩
      cases hRaised with
      | itself _ => exact hLocated he
      | head hCall text =>
          cases hCall with
          | list _ => exact hLocated (hItem he List.mem_cons_self)
    case write => exact fun _ _ _ => trivial
    case assignable => exact fun _ _ => trivial
  exact @Regime.keeps_run (Regime.blame nodes) limit (fun _ _ e => nodes e) (fun _ _ _ => trivial)
    (fun _ => hPass) fuel

end Eval

/-- The nodes of the expression and of the bodies that lie in the heap. -/
def Heap.CodeNode (h : Heap) (e x : Expr) : Prop :=
  x.IsNodeOf e ∨ ∃ b, h.HasBody b ∧ x.IsNodeOf b

theorem Heap.CodeNode.item {h : Heap} {e x : Expr} {l : Option Location} {es : List Expr}
    (hList : h.CodeNode e (.list l es)) (hx : x ∈ es) : h.CodeNode e x := by
  rcases hList with hNode | ⟨b, hBody, hNode⟩
  · exact .inl (hNode.of_item hx)
  · exact .inr ⟨b, hBody, hNode.of_item hx⟩

/-- What the cause of an error says of the expression that the error points at. -/
def Cause.Concerns (nodes : Expr → Prop) (x : Expr) : Cause → Prop
  | .notCallable _ => ∃ call, nodes call ∧ call.IsCall x
  | cause => cause.RaisedBy x

theorem Cause.RaisedBy.concerns {nodes : Expr → Prop} {x : Expr} {cause : Cause}
    (h : cause.RaisedBy x) : cause.Concerns nodes x := by
  cases cause with
  | notCallable text => simp [Cause.RaisedBy, Cause.OfCall, Cause.OfValue, Cause.OfContent] at h
  | _ => exact h

theorem Cause.Ordinary.category_eq {cause : Cause} (h : cause.Ordinary) :
    cause.category = .naming ∨ cause.category = .evaluation := by
  obtain ⟨_, hReading, hFile⟩ := h
  cases hCategory : cause.category with
  | reading => exact absurd hCategory hReading
  | naming => exact .inl rfl
  | evaluation => exact .inr rfl
  | file => exact absurd hCategory hFile

namespace Eval

/-- The code that an evaluation can come to obeys the regime of its own nodes. -/
theorem ready_blame {e : Expr} {m : Machine} (hSound : m.heap.Sound) (env : FrameId) :
    (Regime.blame (m.heap.CodeNode e)).Ready (note e m) env := by
  have hHolds : (Regime.blame (m.heap.CodeNode e)).Holds m.heap := by
    refine ⟨fun f frame hFrame _ name v hv => ?_, fun _ _ _ _ _ _ => trivial,
      fun _ _ _ _ _ _ _ => trivial⟩
    have hf : f < m.heap.frames.size := (Array.getElem?_eq_some_iff.1 hFrame).1
    have hFits := Value.all_iff_occurs.1 (hSound.bound f frame hFrame hf name v hv)
    refine Value.all_iff_occurs.2 fun code g hOccurs => ?_
    refine ⟨(hFits code g hOccurs).wellFormed.body_ne_nil, fun b hb => .inr ⟨b, ?_, .self⟩⟩
    exact ⟨f, frame, name, v, code, g, hFrame, hv, hOccurs, hb⟩
  exact ⟨hHolds.noteHeight e.height, trivial, Nat.zero_le _, trivial⟩

/-- Let all nodes of the expression and of the bodies in the heap have a place. If the evaluation
fails, the error is about a name or about evaluation, and it points at one of these nodes: at a
special form that has the text of the error, at a symbol or a `set!` whose name is not bound, at a
`del` of a name that its frame does not define, at `()`, at the head of a call that is no procedure,
and with any other cause at a call. -/
theorem errors_point_at_their_expression (limit : Nat) (env : FrameId) {e : Expr} (he : e.Located)
    {m : Machine} (hSound : m.heap.Sound) (hBodies : ∀ b, m.heap.HasBody b → b.Located)
    {error : Error} (hError : (evaluate limit env e m).1 = .error error) :
    (error.cause.category = .naming ∨ error.cause.category = .evaluation) ∧
    error.location.isSome = true ∧
    ∃ x, m.heap.CodeNode e x ∧ error.location = x.location ∧
      error.cause.Concerns (m.heap.CodeNode e) x := by
  have hLocated : ∀ {x}, m.heap.CodeNode e x → x.location.isSome = true := by
    rintro x (hNode | ⟨b, hBody, hNode⟩)
    · exact he x hNode
    · exact hBodies b hBody x hNode
  have hStop : (Regime.blame (m.heap.CodeNode e)).stop (.error error) := by
    rcases evaluate_returns limit env e hSound.bodiesWithin with
      ⟨v, m', hEq, _⟩ | ⟨error', m', hEq, _, fuel, hRun⟩
    · rw [hEq] at hError
      cases hError
    · rw [hEq] at hError
      cases hError
      have hEnds := keeps_blame (fun hList hx => hList.item hx) hLocated (some limit) fuel env e
        (note e m) (ready_blame hSound env) (.inl .self)
      rw [hRun fuel (Nat.le_refl _)] at hEnds
      exact hEnds.2.2
  obtain ⟨hPlace, x, hx, hRaised⟩ := hStop
  refine ⟨hRaised.ordinary.category_eq, hPlace, ?_⟩
  cases hRaised with
  | itself hCause => exact ⟨x, hx, rfl, hCause.concerns⟩
  | @head head hCall text =>
      refine ⟨head, ?_, rfl, x, hx, hCall⟩
      cases hCall with
      | list _ => exact hx.item List.mem_cons_self

/-- `(car x)`, read from the seventh line. -/
def carOfX : Expr :=
  .list (some ⟨7, 3⟩) [.symbol (some ⟨7, 4⟩) "car", .symbol (some ⟨7, 8⟩) "x"]

/-- A heap whose global frame binds `first` to a procedure with that body. -/
def firstHeap : Heap :=
  (Heap.empty.newGlobal.2.noteHeight 2).define 1 "first"
    (.procedure (.closure 0 ⟨⟨["x"], none⟩, [carOfX]⟩ 1))

/-- `(begin (first nil))`, read from the first line. -/
def callFirst : Expr :=
  .list (some ⟨1, 1⟩) [.symbol (some ⟨1, 2⟩) "begin",
    .list (some ⟨1, 8⟩) [.symbol (some ⟨1, 9⟩) "first", .symbol (some ⟨1, 15⟩) "nil"]]

theorem located_carOfX : carOfX.Located := by
  simp [Expr.Located, carOfX, Expr.allNodes_list_iff, Expr.allNodes_symbol_iff, Expr.location]

theorem located_firstHeap : ∀ b, firstHeap.HasBody b → b.Located := by
  have hGlobal := (Regime.blame Expr.Located).holds_newGlobal trivial
  have hCode : (Regime.blame Expr.Located).closure 2 ⟨⟨["x"], none⟩, [carOfX]⟩ 1 := by
    refine ⟨by simp, fun e he => ?_⟩
    rw [List.mem_singleton.1 he]
    exact located_carOfX
  have hHolds : (Regime.blame Expr.Located).Holds firstHeap :=
    (hGlobal.noteHeight 2).define 1 hCode trivial
  exact hHolds.forall_hasBody (fun _ _ => trivial) fun h => h.2

theorem sound_firstHeap : firstHeap.Sound := by
  refine (Heap.sound_empty.newGlobal.noteHeight 2).define 1 "first" ?_
  refine ⟨⟨by simp, by decide, by decide⟩, by decide, fun e he => ?_⟩
  rw [List.mem_singleton.1 he]
  decide

/-- A call in the first line fails in the seventh, where the body of the procedure is. -/
theorem error_of_callFirst :
    callFirst.Located ∧ firstHeap.Sound ∧ (∀ b, firstHeap.HasBody b → b.Located) ∧
    (evaluate 3 1 callFirst ⟨firstHeap, 0⟩).1 = .error ⟨.typeMismatch "nil" .pair, some ⟨7, 3⟩⟩ ∧
    ∃ x, firstHeap.CodeNode callFirst x ∧ some ⟨7, 3⟩ = x.location ∧ ∃ head, x.IsCall head := by
  have hLocated : callFirst.Located := by
    simp [Expr.Located, callFirst, Expr.allNodes_list_iff, Expr.allNodes_symbol_iff, Expr.location]
  have hError : (evaluate 3 1 callFirst ⟨firstHeap, 0⟩).1 =
      .error ⟨.typeMismatch "nil" .pair, some ⟨7, 3⟩⟩ := rfl
  obtain ⟨_, _, x, hx, hPlace, hCause⟩ := errors_point_at_their_expression 3 1 hLocated
    (m := ⟨firstHeap, 0⟩) sound_firstHeap located_firstHeap hError
  exact ⟨hLocated, sound_firstHeap, located_firstHeap, hError, x, hx, hPlace, hCause.2⟩

end Eval

end MiniScheme
