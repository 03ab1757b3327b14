import MiniScheme.Proofs.Regime

/-!
# Nodes of expressions, and bodies in a heap

The code that an evaluation can come to is the expression that it starts with and the bodies of the
procedures that lie in the heap, with all of their nodes. Conditions on a program are conditions on
these.
-/

namespace MiniScheme

namespace Expr

/-- The expression itself, or a node of an item of it. -/
inductive IsNodeOf (x : Expr) : Expr → Prop where
  | self : IsNodeOf x x
  | item {l : Option Location} {es : List Expr} {e : Expr} (he : e ∈ es) (h : IsNodeOf x e) :
      IsNodeOf x (.list l es)

/-- An item of a node is a node. -/
theorem IsNodeOf.of_item {l : Option Location} {es : List Expr} {x e : Expr}
    (h : (Expr.list l es).IsNodeOf e) (hx : x ∈ es) : x.IsNodeOf e := by
  induction h with
  | self => exact .item hx .self
  | item he _ ih => exact .item he ih

/-- Every node of the expression has the property. -/
def AllNodes (p : Expr → Prop) (e : Expr) : Prop := ∀ x, x.IsNodeOf e → p x

variable {p : Expr → Prop}

theorem AllNodes.root {e : Expr} (h : e.AllNodes p) : p e := h e .self

theorem AllNodes.item {l : Option Location} {es : List Expr} {e : Expr}
    (h : (Expr.list l es).AllNodes p) (he : e ∈ es) : e.AllNodes p :=
  fun x hx => h x (.item he hx)

theorem allNodes_list_iff {l : Option Location} {es : List Expr} :
    (Expr.list l es).AllNodes p ↔ p (.list l es) ∧ ∀ e ∈ es, e.AllNodes p := by
  constructor
  · intro h
    exact ⟨h.root, fun e he => h.item he⟩
  · rintro ⟨hRoot, hItems⟩ x hx
    cases hx with
    | self => exact hRoot
    | item he hx => exact hItems _ he x hx

theorem allNodes_symbol_iff {l : Option Location} {name : String} :
    (Expr.symbol l name).AllNodes p ↔ p (.symbol l name) := by
  constructor
  · exact fun h => h.root
  · intro h x hx
    cases hx with
    | self => exact h

end Expr

/-- The expression stands in the body of a procedure that the heap holds. -/
def Heap.HasBody (h : Heap) (e : Expr) : Prop :=
  ∃ (f : FrameId) (frame : Frame) (name : String) (v : Value) (code : Lambda) (g : FrameId),
    h.frames[f]? = some frame ∧ frame.bindings.get? name = some v ∧ v.Occurs code g ∧ e ∈ code.body

/-- What holds of all expressions in bodies holds of those of every procedure in a definition. -/
theorem Heap.all_of_hasBody {h : Heap} {p : Expr → Prop} (hBodies : ∀ e, h.HasBody e → p e)
    {f : FrameId} {frame : Frame} (hFrame : h.frames[f]? = some frame) {name : String} {v : Value}
    (hv : frame.bindings.get? name = some v) : v.All fun code _ => ∀ e ∈ code.body, p e :=
  Value.all_iff_occurs.2 fun code g hOccurs e he =>
    hBodies e ⟨f, frame, name, v, code, g, hFrame, hv, hOccurs, he⟩

/-- What a regime says of bodies holds of all that lie in the heap, if all frames may be used. -/
theorem Regime.Holds.forall_hasBody {R : Regime} {h : Heap} (hHolds : R.Holds h)
    (hFrame : ∀ n f, R.frame n f) {p : Expr → Prop}
    (hClosure : ∀ {n code f}, R.closure n code f → ∀ e ∈ code.body, p e) :
    ∀ e, h.HasBody e → p e := by
  rintro e ⟨f, frame, name, v, code, g, hFound, hv, hOccurs, he⟩
  have hFine := hHolds.bound f frame hFound (hFrame _ f) name v hv
  exact hClosure (Value.all_iff_occurs.1 hFine code g hOccurs) e he

end MiniScheme
