import MiniScheme.Proofs.BuiltinFaults
import MiniScheme.Proofs.FormParts

/-!
# Which expression raises an error

An error comes up without a place, deep in an operation that knows nothing of expressions, and the
first expression that sees it gives it its own place. `Cause.RaisedBy x` says which causes these are
for the expression `x`: a special form complains of its shape, a symbol and a `set!` of an unbound
name, a `del` of a name that its frame does not define, `()` of being empty, and a call of its
arguments and of the depth of recursion. Only the complaint that the head of a call is no procedure
has a place from the beginning, that of the head.

The cause of an empty body is not among them. No form that can be read has one, so it is a matter of
the procedures that are called.
-/

namespace MiniScheme

/-- The cause of evaluating a body that has no expression. -/
def Cause.emptyBody : Cause := .malformedForm "empty body"

/-- A cause that any evaluation may have: one of the families that evaluation is about, and not
the empty body, which depends on the procedures that occur. -/
def Cause.Ordinary (cause : Cause) : Prop :=
  cause ≠ Cause.emptyBody ∧ cause.category ≠ .reading ∧ cause.category ≠ .file

/-- A cause that lies in a call: in the values of its arguments, or in the depth of recursion. -/
def Cause.OfCall (cause : Cause) : Prop := cause.OfValue ∨ ∃ most, cause = .depthExceeded most

namespace Expr

/-- A list headed by the keyword, with these operands. -/
inductive HasKeyword (keyword : Keyword) (operands : List Expr) : Expr → Prop where
  | list {l : Option Location} {head : Expr} (h : head.keyword? = some keyword) :
      HasKeyword keyword operands (.list l (head :: operands))

/-- A list with that head, which is not a keyword. -/
inductive IsCall : Expr → Expr → Prop where
  | list {l : Option Location} {head : Expr} {operands : List Expr} (h : head.keyword? = none) :
      IsCall (.list l (head :: operands)) head

end Expr

/-- The expression is the first to see the cause, and gives it its place. -/
def Cause.RaisedBy (x : Expr) : Cause → Prop
  | .malformedForm text => (∃ keyword operands, x.HasKeyword keyword operands) ∧ text = x.render
  | .unboundSymbol name => x.name? = some name ∨
      ∃ target operands, x.HasKeyword .set (target :: operands) ∧ target.name? = some name
  | .notLocallyBound name => ∃ target, x.HasKeyword .del [target] ∧ target.name? = some name
  | .emptyCall => ∃ l, x = .list l []
  | cause => cause.OfCall ∧ ∃ head, x.IsCall head

/-- The error that the expression raises: one that it gives its own place, or one that has the place
of its head. -/
inductive Error.RaisedAt (x : Expr) : Error → Prop where
  | itself {cause : Cause} (h : cause.RaisedBy x) : RaisedAt x ⟨cause, x.location⟩
  | head {head : Expr} (h : x.IsCall head) (text : String) :
      RaisedAt x ⟨.notCallable text, head.location⟩

theorem Cause.OfValue.ordinary {cause : Cause} (h : cause.OfValue) : cause.Ordinary := by
  cases cause <;>
    simp_all [Cause.OfValue, Cause.OfContent, Cause.Ordinary, Cause.emptyBody, Cause.category]

theorem Cause.OfCall.ordinary {cause : Cause} (h : cause.OfCall) : cause.Ordinary := by
  rcases h with hValue | ⟨most, rfl⟩
  · exact hValue.ordinary
  · simp [Cause.Ordinary, Cause.emptyBody, Cause.category]

/-- A call gives its place to what lies in the call. -/
theorem Cause.OfCall.raisedBy {cause : Cause} (h : cause.OfCall) {x head : Expr}
    (hx : x.IsCall head) : cause.RaisedBy x := by
  cases cause with
  | malformedForm text => simp [Cause.OfCall, Cause.OfValue, Cause.OfContent] at h
  | unboundSymbol name => simp [Cause.OfCall, Cause.OfValue, Cause.OfContent] at h
  | notLocallyBound name => simp [Cause.OfCall, Cause.OfValue, Cause.OfContent] at h
  | emptyCall => simp [Cause.OfCall, Cause.OfValue, Cause.OfContent] at h
  | _ => exact ⟨h, head, hx⟩

/-- The text of a list begins with a parenthesis. -/
theorem ordinary_malformedForm (l : Option Location) (es : List Expr) :
    (Cause.malformedForm (Expr.list l es).render).Ordinary := by
  refine ⟨fun h => ?_, by simp [Cause.category], by simp [Cause.category]⟩
  have hText : "(" ++ Expr.renderItems es ++ ")" = "empty body" := by
    simpa [Cause.emptyBody, Expr.render] using h
  have hChars := congrArg String.toList hText
  simp at hChars

theorem Cause.RaisedBy.ordinary {x : Expr} {cause : Cause} (h : cause.RaisedBy x) :
    cause.Ordinary := by
  cases cause with
  | malformedForm text =>
      obtain ⟨⟨keyword, operands, ⟨_⟩⟩, rfl⟩ := h
      exact ordinary_malformedForm _ _
  | unboundSymbol name => simp [Cause.Ordinary, Cause.emptyBody, Cause.category]
  | notLocallyBound name => simp [Cause.Ordinary, Cause.emptyBody, Cause.category]
  | emptyCall => simp [Cause.Ordinary, Cause.emptyBody, Cause.category]
  | _ => exact h.1.ordinary

theorem Error.RaisedAt.ordinary {x : Expr} {error : Error} (h : error.RaisedAt x) :
    error.cause.Ordinary := by
  cases h with
  | itself h => exact h.ordinary
  | head _ text => simp [Cause.Ordinary, Cause.emptyBody, Cause.category]

end MiniScheme
