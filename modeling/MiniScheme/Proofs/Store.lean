import Mathlib.Logic.Relation
import MiniScheme.Proofs.Termination

/-!
# Sound heaps

A heap is sound if every frame but a root has a parent that is older, and if every procedure in
the definitions of a frame keeps a frame that exists and has well-formed code, no higher than the
heap's bound. Parents being older, the way from a frame along its parents comes to an end, and
only leads through frames that exist.

Soundness is a regime, so evaluation preserves it; in a sound heap a procedure with an empty body
does not occur, so evaluating one is not among the ways in which evaluation ends.

`Heap.Yields` sums up what holds of every operation that starts from a sound heap: the heap is
extended and sound again, whether the operation fails or not, and the result is one that may be.

## Main results

* `Heap.Sound.path_chain`: the frames in which a name is looked for are the whole way to a root.
* `Heap.Sound.not_transGen_isParent`: no frame is above itself.
* `Heap.Sound.yields_evaluate`, `Heap.Sound.yields_apply`: evaluation preserves soundness.
-/

namespace MiniScheme

/-! ## The regime -/

/-- Code and frame of a procedure that may occur while there are `size` frames and no body is
higher than `tallest`. -/
structure Lambda.Fits (tallest size : Nat) (code : Lambda) (f : FrameId) : Prop where
  wellFormed : code.WellFormed
  frame_lt : f < size
  within : code.Within tallest

theorem Lambda.Fits.mono {tallest tallest' size size' : Nat} (hTallest : tallest ≤ tallest')
    (hSize : size ≤ size') {code : Lambda} {f : FrameId} (h : code.Fits tallest size f) :
    code.Fits tallest' size' f :=
  ⟨h.wellFormed, Nat.lt_of_lt_of_le h.frame_lt hSize, h.within.mono hTallest⟩

/-- Procedures fit, frames exist, parents are older, and no body is found empty. -/
def Regime.store (tallest : Nat) : Regime where
  closure size code f := code.Fits tallest size f
  frame size f := f < size
  link f parent := parent < f
  stop
    | .error e => e.cause ≠ Cause.emptyBody
    | .exhausted => True
  closure_mono hSize h := h.mono (Nat.le_refl _) hSize
  frame_mono hSize h := Nat.lt_of_lt_of_le h hSize
  frame_of_lt h _ := h
  frame_child _ _ := Nat.lt_succ_self _
  link_child h := h
  frame_parent _ h hLink := Nat.lt_trans hLink h
  frame_closure h := h.frame_lt
  stop_locate _ _ h := h
  stop_body h hBody := absurd hBody h.wellFormed.body_ne_nil

/-- Evaluation preserves the regime as long as no expression is higher than the bound. -/
theorem Eval.keeps_store (limit : Option Nat) (tallest fuel : Nat) :
    (Regime.store tallest).Keeps (fun _ e => e.height ≤ tallest) (run limit fuel) := by
  have hItem : ∀ {l : Option Location} {es : List Expr} {e : Expr},
      (Expr.list l es).height ≤ tallest → e ∈ es → e.height ≤ tallest := by
    intro l es e hList he
    have hLower := Expr.height_le_heightItems he
    rw [Expr.height] at hList
    omega
  have hPass : (Regime.store tallest).Passes limit (fun _ e => e.height ≤ tallest)
      (fun _ e => e.height ≤ tallest) := by
    constructor
    case operand => exact fun hList he => hItem hList he
    case element => exact fun hList he => hItem hList he
    case body => exact fun _ _ hCode he => hCode.within _ he
    case code =>
      intro d l es n code env hList hCode hMem _ hEnv
      exact ⟨hCode, hEnv, fun e he => hItem hList (hMem e he)⟩
    case name => exact fun _ _ _ _ => trivial
    case raised => exact fun _ hRaised => hRaised.ordinary.1
    case write => exact fun _ _ _ => trivial
    case assignable => exact fun _ _ => trivial
  exact @Regime.keeps_run (Regime.store tallest) limit (fun _ _ e => e.height ≤ tallest)
    (fun _ _ _ => trivial) (fun _ => hPass) fuel

namespace Heap

/-! ## Sound heaps -/

/-- A value that may occur while the heap is `h`. -/
def Admits (h : Heap) (v : Value) : Prop :=
  v.All fun code f => code.Fits h.tallest h.frames.size f

/-- The procedures in its frames fit, and parents are older. -/
def Sound (h : Heap) : Prop := (Regime.store h.tallest).Holds h

/-- `h'` has the frames of `h`, and its bound is no lower. -/
structure Extends (h h' : Heap) : Prop where
  grows : h.Grows h'
  tallest_le : h.tallest ≤ h'.tallest

variable {h h' : Heap}

theorem Extends.refl (h : Heap) : h.Extends h := ⟨.refl h, Nat.le_refl _⟩

theorem Extends.trans {h'' : Heap} (hFirst : h.Extends h') (hSecond : h'.Extends h'') :
    h.Extends h'' :=
  ⟨hFirst.grows.trans hSecond.grows, Nat.le_trans hFirst.tallest_le hSecond.tallest_le⟩

theorem Extends.lt_size (hExtends : h.Extends h') {f : FrameId} (hf : f < h.frames.size) :
    f < h'.frames.size :=
  Nat.lt_of_lt_of_le hf hExtends.grows.size_le

theorem Admits.extend {v : Value} (hv : h.Admits v) (hExtends : h.Extends h') : h'.Admits v :=
  Value.All.mono (fun _ _ hFits => hFits.mono hExtends.tallest_le hExtends.grows.size_le) hv

theorem sound_empty : Heap.empty.Sound := Regime.holds_empty _

theorem Sound.noteHeight (hSound : h.Sound) (height : Nat) : (h.noteHeight height).Sound := by
  have hLe : h.tallest ≤ (h.noteHeight height).tallest := Nat.le_max_left _ _
  constructor
  · intro f frame hFrame hf name v hv
    exact Value.All.mono (fun _ _ hFits => hFits.mono hLe (Nat.le_refl _))
      (hSound.bound f frame hFrame hf name v hv)
  · exact hSound.linked
  · exact hSound.named

theorem extends_noteHeight (h : Heap) (height : Nat) : h.Extends (h.noteHeight height) :=
  ⟨⟨Nat.le_refl _, Nat.le_refl _, fun _ frame hFrame => ⟨frame, hFrame, rfl, rfl⟩⟩,
    Nat.le_max_left _ _⟩

theorem Sound.bodiesWithin (hSound : h.Sound) : h.BodiesWithin h.tallest := by
  intro f frame hFrame name v hv
  have hf : f < h.frames.size := (Array.getElem?_eq_some_iff.1 hFrame).1
  exact Value.All.mono (fun _ _ hFits => hFits.within) (hSound.bound f frame hFrame hf name v hv)

/-! ## Parents -/

/-- `parent` is the parent of frame `f`. -/
def IsParent (h : Heap) (parent f : FrameId) : Prop :=
  ∃ frame, h.frames[f]? = some frame ∧ frame.parent = some parent

/-- The frames from `f` on, each the parent of the one before it, the last a root. -/
inductive Path (h : Heap) : FrameId → List FrameId → Prop where
  | root {f : FrameId} {frame : Frame} (hFrame : h.frames[f]? = some frame)
      (hParent : frame.parent = none) : Path h f [f]
  | child {f parent : FrameId} {fs : List FrameId} (hParent : h.IsParent parent f)
      (rest : Path h parent fs) : Path h f (f :: fs)

theorem Sound.parent_lt (hSound : h.Sound) {parent f : FrameId} (hParent : h.IsParent parent f) :
    parent < f := by
  obtain ⟨frame, hFrame, hEq⟩ := hParent
  have hf : f < h.frames.size := (Array.getElem?_eq_some_iff.1 hFrame).1
  exact hSound.linked f frame parent hFrame hf hEq

theorem Sound.parent_lt_size (hSound : h.Sound) {parent f : FrameId}
    (hParent : h.IsParent parent f) : parent < h.frames.size := by
  have hLt := hSound.parent_lt hParent
  obtain ⟨frame, hFrame, _⟩ := hParent
  have hf : f < h.frames.size := (Array.getElem?_eq_some_iff.1 hFrame).1
  exact Nat.lt_trans hLt hf

theorem Sound.lt_of_transGen (hSound : h.Sound) {ancestor f : FrameId}
    (hAbove : Relation.TransGen h.IsParent ancestor f) : ancestor < f := by
  induction hAbove with
  | single hParent => exact hSound.parent_lt hParent
  | tail _ hParent ih => exact Nat.lt_trans ih (hSound.parent_lt hParent)

/-- No frame is above itself. -/
theorem Sound.not_transGen_isParent (hSound : h.Sound) (f : FrameId) :
    ¬ Relation.TransGen h.IsParent f f := by
  intro hAbove
  exact Nat.lt_irrefl f (hSound.lt_of_transGen hAbove)

/-- Enough fuel for the index of a frame is enough for the way to its root. -/
theorem Sound.path_chainFrom (hSound : h.Sound) (fuel : Nat) :
    ∀ f, f < fuel → f < h.frames.size → h.Path f (h.chainFrom fuel f) := by
  induction fuel with
  | zero => intro f hf; omega
  | succ fuel ih =>
      intro f hf hSize
      obtain ⟨frame, hFrame⟩ : ∃ frame, h.frames[f]? = some frame :=
        ⟨h.frames[f], Array.getElem?_eq_getElem hSize⟩
      cases hEq : frame.parent with
      | none =>
          simp only [chainFrom, hFrame, hEq]
          exact .root hFrame hEq
      | some parent =>
          have hParent : h.IsParent parent f := ⟨frame, hFrame, hEq⟩
          have hFuel : parent < fuel :=
            Nat.lt_of_lt_of_le (hSound.parent_lt hParent) (Nat.le_of_lt_succ hf)
          simp only [chainFrom, hFrame, hEq]
          exact .child hParent (ih parent hFuel (hSound.parent_lt_size hParent))

/-- The frames in which a name is looked for are the whole way to a root. -/
theorem Sound.path_chain (hSound : h.Sound) {f : FrameId} (hf : f < h.frames.size) :
    h.Path f (h.chain f) :=
  hSound.path_chainFrom (f + 1) f (Nat.lt_succ_self f) hf

/-! ## Operations -/

/-- The outcome of an operation on `h`: the heap is extended and sound, and the result is good or
an error that may be. -/
structure Yields {α : Type} (h : Heap) (good : Heap → α → Prop) (result : Except Error α)
    (h' : Heap) : Prop where
  extension : h.Extends h'
  sound : h'.Sound
  ok : ∀ a, result = .ok a → good h' a
  error : ∀ e, result = .error e → e.cause ≠ Cause.emptyBody

variable {α : Type} {good : Heap → α → Prop}

theorem Yields.trans {h'' : Heap} {result : Except Error α} (hExtends : h.Extends h')
    (hNext : h'.Yields good result h'') : h.Yields good result h'' :=
  ⟨hExtends.trans hNext.extension, hNext.sound, hNext.ok, hNext.error⟩

theorem yields_ok {a : α} (hExtends : h.Extends h') (hSound : h'.Sound) (ha : good h' a) :
    h.Yields good (.ok a) h' :=
  ⟨hExtends, hSound, fun _ hEq => by cases hEq; exact ha, nofun⟩

theorem yields_error {e : Error} (hExtends : h.Extends h') (hSound : h'.Sound)
    (he : e.cause ≠ Cause.emptyBody) : h.Yields good (.error e) h' :=
  ⟨hExtends, hSound, nofun, fun _ hEq => by cases hEq; exact he⟩

/-- A step under the regime has such an outcome; where the fuel was spent, the error of the depth
limit stands for it. -/
theorem yields_outcome {limit : Nat} {x : Eval Value} {m : Machine}
    (hx : (Regime.store m.heap.tallest).Safe m (Regime.store m.heap.tallest).Fine (x m)) :
    m.heap.Yields Admits (Eval.outcome limit x m).1 (Eval.outcome limit x m).2.heap := by
  have hExtends : ∀ {m' : Machine}, m.Grows m' → m.heap.Extends m'.heap := fun hGrows =>
    ⟨hGrows.heap, Nat.le_of_eq hGrows.tallest.symm⟩
  unfold Eval.outcome
  cases hEnd : x m with
  | ok v m' =>
      rw [hEnd] at hx
      obtain ⟨hGrows, hHolds, hv⟩ := hx
      rw [← hGrows.tallest] at hHolds hv
      exact yields_ok (hExtends hGrows.toGrows) hHolds hv
  | error stop m' =>
      rw [hEnd] at hx
      obtain ⟨hGrows, hHolds, hStop⟩ := hx
      rw [← hGrows.tallest] at hHolds
      cases stop with
      | error e => exact yields_error (hExtends hGrows.toGrows) hHolds hStop
      | exhausted =>
          have hCause : (Error.bare (.depthExceeded limit)).cause ≠ Cause.emptyBody := by
            simp [Error.bare, Cause.emptyBody]
          exact yields_error (hExtends hGrows.toGrows) hHolds hCause

/-- Evaluating an expression in a frame that exists. -/
theorem Sound.yields_evaluate {m : Machine} (hSound : m.heap.Sound) (limit : Nat) {env : FrameId}
    (hEnv : env < m.heap.frames.size) (e : Expr) :
    m.heap.Yields Admits (Eval.evaluate limit env e m).1 (Eval.evaluate limit env e m).2.heap := by
  have hNoted : (Eval.note e m).heap.Sound := hSound.noteHeight e.height
  have hExtends : m.heap.Extends (Eval.note e m).heap := extends_noteHeight m.heap e.height
  refine Yields.trans hExtends (yields_outcome ?_)
  exact Eval.keeps_store (some limit) _ _ env e _ ⟨hNoted, hEnv, Nat.zero_le _, trivial⟩
    (Nat.le_max_right _ _)

/-- Applying a procedure that may occur to values that may. -/
theorem Sound.yields_apply {m : Machine} (hSound : m.heap.Sound) (limit : Nat) {p : Procedure}
    (hp : m.heap.Admits (.procedure p)) {args : List Value}
    (hArgs : ∀ v ∈ args, m.heap.Admits v) :
    m.heap.Yields Admits (Eval.apply limit p args m).1 (Eval.apply limit p args m).2.heap := by
  refine yields_outcome ?_
  exact Regime.safe_applyProcedure (Eval.keeps_store (some limit) _ _) hSound (Nat.zero_le _) hp
    hArgs (fun _ _ _ hCode _ e he => hCode.within e he) (fun _ hStop => hStop)
    fun _ hCall => hCall.ordinary.1

theorem Sound.newRoot (hSound : h.Sound) : h.newRoot.2.Sound := by
  refine Regime.Holds.push hSound rfl ?_
  exact fun _ hParent => nomatch hParent

theorem Sound.newChild (hSound : h.Sound) {parent : FrameId} (hParent : parent < h.frames.size) :
    (h.newChild parent).2.Sound := by
  refine Regime.Holds.push hSound rfl ?_
  intro parent' hEq
  cases hEq
  exact hParent

theorem extends_push (h : Heap) (frame : Frame) : h.Extends (h.push frame).2 :=
  ⟨h.grows_push frame, Nat.le_refl _⟩

theorem lt_size_push (h : Heap) (frame : Frame) :
    (h.push frame).1 < (h.push frame).2.frames.size := by
  rw [size_push]
  exact Nat.lt_succ_self _

theorem Sound.newGlobal (hSound : h.Sound) : h.newGlobal.2.Sound :=
  hSound.newRoot.newChild (h.lt_size_push _)

theorem extends_newGlobal (h : Heap) : h.Extends h.newGlobal.2 :=
  (h.extends_push _).trans (h.newRoot.2.extends_push _)

theorem Sound.define (hSound : h.Sound) (f : FrameId) (name : String) {v : Value}
    (hv : h.Admits v) : (h.define f name v).Sound :=
  Regime.Holds.define hSound f hv trivial

theorem extends_alter (h : Heap) (f : FrameId) (change : Bindings → Bindings) :
    h.Extends (h.alter f change) :=
  ⟨h.grows_alter f change, Nat.le_refl _⟩

theorem extends_define (h : Heap) (f : FrameId) (name : String) (v : Value) :
    h.Extends (h.define f name v) :=
  h.extends_alter f fun bindings => bindings.insert name v

end Heap

end MiniScheme
