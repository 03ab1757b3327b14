import MiniScheme.Eval
import MiniScheme.Proofs.Occurrence
import MiniScheme.Proofs.Raising
import MiniScheme.Proofs.HeapGrowth

/-!
# What evaluation preserves

Invariants of evaluation have one shape. They say which procedures may lie around in frames and
values, which frames may be used and which names defined in them, and in which ways evaluation may
end without a value; and they hold because evaluation makes procedures out of the expressions it is
given and frames below frames it knows. A `Regime` is such an invariant: a few predicates and the
laws that tie them to what evaluation does. Frames that may not be used are left alone: this holds
of every regime, and `Regime.Grows` says it.

A frame that may be used is looked into, and names that it binds may be given new values. Not every
such frame need be one in which expressions are evaluated, so that `define` can reach it: those are
its `scope`. Nor need names of every such frame be given new values: where no expression assigns,
that can be kept to the frames that are `writable`. A regime that says nothing of these leaves them
as they are. In the same way names can be kept from being given values, in whichever frame, if no
expression mentions them: those that are not `assignable`.

The rules of evaluation are gone through once, for every regime. `Regime.keeps_rules` says that
the rules respect a regime if the evaluator does that they are given for the expressions inside;
`Regime.keeps_run` ties the knot. A property of evaluation is then a regime whose laws are checked,
with no further look at the rules.

The predicates take the number of frames, because a regime may speak of existing frames, and the
heap grows under way. A regime that tells old frames from new ones has a number of frames to start
from, its `base`.
-/

namespace MiniScheme

/-- Every procedure in the definitions of the frame satisfies `p`. -/
def Frame.All (p : Lambda → FrameId → Prop) (frame : Frame) : Prop :=
  ∀ name v, frame.bindings.get? name = some v → v.All p

/-- An invariant of evaluation. -/
structure Regime where
  /-- The number of frames that there are at least. -/
  base : Nat := 0
  /-- Code and frame of the procedures that may occur. -/
  closure : Nat → Lambda → FrameId → Prop
  /-- The frames that may be used. -/
  frame : Nat → FrameId → Prop
  /-- How the index of a frame and that of its parent are related. -/
  link : FrameId → FrameId → Prop
  /-- How evaluation may end without a value. -/
  stop : Stop → Prop
  /-- The frames in which expressions may be evaluated, if they may be used at all. -/
  scope : FrameId → Prop := fun _ => True
  /-- The names that a frame may define. -/
  name : FrameId → String → Prop := fun _ _ => True
  /-- The frames whose definitions may change, if they may be used at all. -/
  writable : FrameId → Prop := fun _ => True
  /-- The names whose definitions may change. -/
  assignable : String → Prop := fun _ => True
  closure_mono : ∀ {n n' code f}, n ≤ n' → closure n code f → closure n' code f
  frame_mono : ∀ {n n' f}, n ≤ n' → frame n f → frame n' f
  frame_of_lt : ∀ {n n' f}, f < n → frame n' f → frame n f
  frame_child : ∀ {n f}, base ≤ n → frame n f → frame (n + 1) n
  link_child : ∀ {n f}, frame n f → link n f
  frame_parent : ∀ {n f parent}, f < n → frame n f → link f parent → frame n parent
  frame_closure : ∀ {n code f}, closure n code f → frame n f
  stop_locate : ∀ e location, stop (.error e) → stop (.error (e.orAt location))
  stop_body : ∀ {n code f}, closure n code f → code.body = [] →
    stop (.error (.bare Cause.emptyBody))
  scope_new : ∀ {f}, base ≤ f → scope f := by intros; trivial
  name_new : ∀ {n code f f' x}, closure n code f → base ≤ f' → x ∈ code.formals.names →
    name f' x := by intros; trivial
  name_builtin : ∀ {f} (b : Builtin), name f b.name := by intros; trivial
  writable_new : ∀ {f}, base ≤ f → writable f := by intros; trivial
  assignable_new : ∀ {n code f x}, closure n code f → x ∈ code.formals.names →
    assignable x := by intros; trivial

namespace Regime

open Eval

variable {R : Regime}

/-! ## Heaps under a regime -/

/-- The frames that may be used hold procedures that may occur, and have parents that they may have
and names that they may define. -/
structure Holds (R : Regime) (h : Heap) : Prop where
  bound : ∀ (f : FrameId) (frame : Frame), h.frames[f]? = some frame →
    R.frame h.frames.size f → frame.All (R.closure h.frames.size)
  linked : ∀ (f : FrameId) (frame : Frame) (parent : FrameId), h.frames[f]? = some frame →
    R.frame h.frames.size f → frame.parent = some parent → R.link f parent
  named : ∀ (f : FrameId) (frame : Frame) (name : String) (v : Value), h.frames[f]? = some frame →
    R.frame h.frames.size f → frame.bindings.get? name = some v → R.name f name

theorem holds_empty (R : Regime) : R.Holds Heap.empty :=
  ⟨by simp [Heap.empty], by simp [Heap.empty], by simp [Heap.empty]⟩

/-- A value that may occur while the heap is `h`. -/
def Fine (R : Regime) (h : Heap) (v : Value) : Prop := v.All (R.closure h.frames.size)

theorem Fine.grow {h h' : Heap} {v : Value} (hv : R.Fine h v) (hGrows : h.Grows h') :
    R.Fine h' v :=
  Value.All.mono (fun _ _ => R.closure_mono hGrows.size_le) hv

theorem Holds.alter {h : Heap} (hHolds : R.Holds h) (f : FrameId) {change : Bindings → Bindings}
    (hChange : ∀ bindings : Bindings,
      (∀ name v, bindings.get? name = some v → R.Fine h v ∧ R.name f name) →
      ∀ name v, (change bindings).get? name = some v → R.Fine h v ∧ R.name f name) :
    R.Holds (h.alter f change) := by
  have hBound : ∀ (g : FrameId) (frame' : Frame) (name : String) (v : Value),
      (h.alter f change).frames[g]? = some frame' → R.frame h.frames.size g →
      frame'.bindings.get? name = some v → R.Fine h v ∧ R.name g name := by
    intro g frame' name v hFrame' hAllowed hv
    obtain ⟨frame, hFrame, _, _, hBindings⟩ := Heap.exists_of_getElem?_alter hFrame'
    have hOld : ∀ name v, frame.bindings.get? name = some v → R.Fine h v ∧ R.name g name :=
      fun name v hv => ⟨hHolds.bound g frame hFrame hAllowed name v hv,
        hHolds.named g frame name v hFrame hAllowed hv⟩
    rcases hBindings with ⟨rfl, hEq⟩ | hEq
    · exact hChange frame.bindings hOld name v (hEq ▸ hv)
    · exact hOld name v (hEq ▸ hv)
  constructor
  · intro g frame' hFrame' hAllowed name v hv
    rw [Heap.size_alter] at hAllowed ⊢
    exact (hBound g frame' name v hFrame' hAllowed hv).1
  · intro g frame' parent hFrame' hAllowed hParent
    rw [Heap.size_alter] at hAllowed
    obtain ⟨frame, hFrame, hSame, _, _⟩ := Heap.exists_of_getElem?_alter hFrame'
    exact hHolds.linked g frame parent hFrame hAllowed (hSame ▸ hParent)
  · intro g frame' name v hFrame' hAllowed hv
    rw [Heap.size_alter] at hAllowed
    exact (hBound g frame' name v hFrame' hAllowed hv).2

theorem Holds.define {h : Heap} (hHolds : R.Holds h) (f : FrameId) {name : String} {v : Value}
    (hv : R.Fine h v) (hName : R.name f name) : R.Holds (h.define f name v) := by
  rw [Heap.define_eq_alter]
  refine hHolds.alter f fun bindings hBindings other w hw => ?_
  rw [Bindings.get?_insert] at hw
  split at hw
  · next hEq =>
      cases hw
      exact ⟨hv, hEq ▸ hName⟩
  · exact hBindings other w hw

theorem Holds.erase {h : Heap} (hHolds : R.Holds h) (f : FrameId) (name : String) :
    R.Holds (h.alter f fun bindings => bindings.erase name) := by
  refine hHolds.alter f fun bindings hBindings other w hw => ?_
  rw [Bindings.get?_erase] at hw
  split at hw
  · cases hw
  · exact hBindings other w hw

theorem Holds.push {h : Heap} (hHolds : R.Holds h) {frame : Frame}
    (hBindings : frame.bindings = .empty)
    (hParent : ∀ parent, frame.parent = some parent → R.link h.frames.size parent) :
    R.Holds (h.push frame).2 := by
  have hOld : ∀ {f : FrameId} {old : Frame}, h.frames[f]? = some old →
      R.frame (h.frames.size + 1) f → R.frame h.frames.size f := fun hFrame hAllowed =>
    R.frame_of_lt (Array.getElem?_eq_some_iff.1 hFrame).1 hAllowed
  constructor
  · intro f frame' hFrame' hAllowed
    rw [Heap.size_push] at hAllowed ⊢
    rw [Heap.getElem?_push] at hFrame'
    intro name v hv
    split at hFrame'
    · cases hFrame'
      rw [hBindings] at hv
      cases hv
    · have hFine := hHolds.bound f frame' hFrame' (hOld hFrame' hAllowed) name v hv
      exact Value.All.mono (fun _ _ => R.closure_mono (Nat.le_succ _)) hFine
  · intro f frame' parent hFrame' hAllowed hEq
    rw [Heap.size_push] at hAllowed
    rw [Heap.getElem?_push] at hFrame'
    split at hFrame'
    · next hf =>
        cases hFrame'
        exact hf ▸ hParent parent hEq
    · exact hHolds.linked f frame' parent hFrame' (hOld hFrame' hAllowed) hEq
  · intro f frame' name v hFrame' hAllowed hv
    rw [Heap.size_push] at hAllowed
    rw [Heap.getElem?_push] at hFrame'
    split at hFrame'
    · cases hFrame'
      rw [hBindings] at hv
      cases hv
    · exact hHolds.named f frame' name v hFrame' (hOld hFrame' hAllowed) hv

/-- A heap that holds nothing but a root and an empty global frame. -/
theorem holds_newGlobal (R : Regime) (hLink : R.link 1 0) : R.Holds Heap.empty.newGlobal.2 := by
  have hRoot : R.Holds Heap.empty.newRoot.2 := by
    refine R.holds_empty.push rfl fun parent hParent => ?_
    cases hParent
  refine hRoot.push rfl fun parent hParent => ?_
  cases hParent
  exact hLink

/-- Looking for a name from a frame that may be used leads to such frames only. -/
theorem Holds.frame_of_mem_chainFrom {h : Heap} (hHolds : R.Holds h) (fuel : Nat) :
    ∀ f, R.frame h.frames.size f → ∀ g ∈ h.chainFrom fuel f, R.frame h.frames.size g := by
  induction fuel with
  | zero => intro f _ g hg; simp [Heap.chainFrom] at hg
  | succ fuel ih =>
      intro f hf g hg
      unfold Heap.chainFrom at hg
      split at hg
      · simp at hg
      · next frame hFrame =>
          split at hg
          · obtain rfl : g = f := by simpa using hg
            exact hf
          · next parent hParent =>
              rcases List.mem_cons.1 hg with rfl | hg
              · exact hf
              · have hLt : f < h.frames.size := (Array.getElem?_eq_some_iff.1 hFrame).1
                have hLink := hHolds.linked f frame parent hFrame hf hParent
                exact ih parent (R.frame_parent hLt hf hLink) g hg

theorem Holds.frame_of_home? {h : Heap} (hHolds : R.Holds h) {f g : FrameId}
    (hf : R.frame h.frames.size f) {name : String} (hHome : h.home? f name = some g) :
    R.frame h.frames.size g :=
  hHolds.frame_of_mem_chainFrom (f + 1) f hf g (List.mem_of_find?_eq_some hHome)

theorem Holds.fine_of_frame {h : Heap} (hHolds : R.Holds h) {f : FrameId}
    (hf : R.frame h.frames.size f) {frame : Frame} (hFrame : h.frames[f]? = some frame)
    {name : String} {v : Value} (hv : frame.get? name = some v) : R.Fine h v := by
  rcases Frame.get?_eq_some hv with hDefined | ⟨b, _, _, rfl⟩
  · exact hHolds.bound f frame hFrame hf name v hDefined
  · trivial

theorem Holds.fine_of_get? {h : Heap} (hHolds : R.Holds h) {f : FrameId}
    (hf : R.frame h.frames.size f) {name : String} {v : Value} (hv : h.get? f name = some v) :
    R.Fine h v := by
  obtain ⟨g, hHome, hLocal⟩ := Option.bind_eq_some_iff.1 hv
  obtain ⟨frame, hFrame, hGet⟩ := Option.bind_eq_some_iff.1 hLocal
  exact hHolds.fine_of_frame (hHolds.frame_of_home? hf hHome) hFrame hGet

/-- A frame that binds a name may define it. -/
theorem Holds.name_of_home? {h : Heap} (hHolds : R.Holds h) {f g : FrameId}
    (hf : R.frame h.frames.size f) {name : String} (hHome : h.home? f name = some g) :
    R.name g name := by
  have hg := hHolds.frame_of_home? hf hHome
  obtain ⟨v, hLocal⟩ := Heap.exists_local?_of_home? hHome
  obtain ⟨frame, hFrame, hGet⟩ := Option.bind_eq_some_iff.1 hLocal
  rcases Frame.get?_eq_some hGet with hDefined | ⟨b, hBuiltin, _, _⟩
  · exact hHolds.named g frame name v hFrame hg hDefined
  · exact Builtin.name_of_ofName? hBuiltin ▸ R.name_builtin b

/-! ## Machines under a regime -/

/-- A frame that may be used and whose definitions may change. -/
def Open (R : Regime) (h : Heap) (f : FrameId) : Prop := R.frame h.frames.size f ∧ R.writable f

theorem Open.grow {h h' : Heap} {f : FrameId} (hf : R.Open h f) (hGrows : h.Grows h') :
    R.Open h' f :=
  ⟨R.frame_mono hGrows.size_le hf.1, hf.2⟩

/-- What an evaluation under a regime does to a machine: it grows, frames that may not be used or
changed stay as they are, new frames are no roots, and names that may not be given values have the
definitions that they had. -/
structure Grows (R : Regime) (m m' : Machine) : Prop extends Machine.Grows m m' where
  kept : ∀ f, f < m.heap.frames.size → ¬R.Open m.heap f →
    m'.heap.frames[f]? = m.heap.frames[f]?
  fresh : ∀ (f : FrameId) (frame : Frame), m.heap.frames.size ≤ f →
    m'.heap.frames[f]? = some frame → frame.parent.isSome = true ∧ frame.hasBuiltins = false
  defined : ∀ (f : FrameId) (name : String), ¬R.assignable name →
    m'.heap.defined? f name = m.heap.defined? f name

/-- Where no frame was added, there is none beyond the old ones. -/
theorem fresh_of_size_eq {h h' : Heap} (hSize : h'.frames.size = h.frames.size) (f : FrameId)
    (frame : Frame) (hf : h.frames.size ≤ f) (hFrame : h'.frames[f]? = some frame) :
    frame.parent.isSome = true ∧ frame.hasBuiltins = false := by
  have hLt : f < h'.frames.size := (Array.getElem?_eq_some_iff.1 hFrame).1
  exact absurd hf (Nat.not_le_of_lt (hSize ▸ hLt))

theorem Grows.refl (m : Machine) : R.Grows m m :=
  ⟨.refl m, fun _ _ _ => rfl, fresh_of_size_eq rfl, fun _ _ _ => rfl⟩

theorem Grows.trans {m₁ m₂ m₃ : Machine} (h₁₂ : R.Grows m₁ m₂) (h₂₃ : R.Grows m₂ m₃) :
    R.Grows m₁ m₃ := by
  refine ⟨h₁₂.toGrows.trans h₂₃.toGrows, fun f hf hOpen => ?_, fun f frame hf hFrame => ?_,
    fun f name hName => (h₂₃.defined f name hName).trans (h₁₂.defined f name hName)⟩
  · have hLater : ¬R.Open m₂.heap f := fun h => hOpen ⟨R.frame_of_lt hf h.1, h.2⟩
    rw [h₂₃.kept f (Nat.lt_of_lt_of_le hf h₁₂.heap.size_le) hLater, h₁₂.kept f hf hOpen]
  · cases hMiddle : m₂.heap.frames[f]? with
    | none => exact h₂₃.fresh f frame (Array.getElem?_eq_none_iff.1 hMiddle) hFrame
    | some frame₂ =>
        obtain ⟨frame', hFrame', hParent, hBuiltins⟩ := h₂₃.heap.frame f frame₂ hMiddle
        obtain rfl : frame = frame' := Option.some.inj (hFrame.symm.trans hFrame')
        rw [hParent, hBuiltins]
        exact h₁₂.fresh f frame₂ hf hMiddle

/-- A frame that may not be used stays as it is. -/
theorem Grows.untouched {m m' : Machine} (h : R.Grows m m') (f : FrameId)
    (hf : f < m.heap.frames.size) (hFrame : ¬R.frame m.heap.frames.size f) :
    m'.heap.frames[f]? = m.heap.frames[f]? :=
  h.kept f hf fun hOpen => hFrame hOpen.1

theorem grows_alter (m : Machine) {f : FrameId} (hf : R.Open m.heap f)
    {change : Bindings → Bindings}
    (hChange : ∀ (bindings : Bindings) (name : String), ¬R.assignable name →
      (change bindings).get? name = bindings.get? name) :
    R.Grows m { m with heap := m.heap.alter f change } := by
  refine ⟨⟨m.heap.grows_alter f change, rfl, rfl⟩, fun g _ hg => ?_,
    fresh_of_size_eq (Heap.size_alter _ _ _), fun g name hName =>
      m.heap.defined?_alter f g fun bindings => hChange bindings name hName⟩
  have hNe : f ≠ g := fun hEq => hg (hEq ▸ hf)
  rw [Heap.getElem?_alter, if_neg hNe]

theorem grows_define (m : Machine) {f : FrameId} (hf : R.Open m.heap f) {name : String}
    (hName : R.assignable name) (v : Value) :
    R.Grows m { m with heap := m.heap.define f name v } := by
  rw [Heap.define_eq_alter]
  refine grows_alter m hf fun bindings other hOther => ?_
  have hNe : other ≠ name := fun hEq => hOther (hEq ▸ hName)
  rw [Bindings.get?_insert, if_neg hNe]

theorem grows_erase (m : Machine) {f : FrameId} (hf : R.Open m.heap f) {name : String}
    (hName : R.assignable name) :
    R.Grows m { m with heap := m.heap.alter f fun bindings => bindings.erase name } := by
  refine grows_alter m hf fun bindings other hOther => ?_
  have hNe : other ≠ name := fun hEq => hOther (hEq ▸ hName)
  rw [Bindings.get?_erase, if_neg hNe]

theorem grows_newChild (m : Machine) (parent : FrameId) :
    R.Grows m { m with heap := (m.heap.newChild parent).2 } := by
  refine ⟨⟨m.heap.grows_push _, rfl, rfl⟩, fun f hf _ => ?_, fun f frame hf hFrame => ?_,
    fun f name _ => m.heap.defined?_push rfl f name⟩
  · exact (Heap.getElem?_push _ _ f).trans (if_neg (Nat.ne_of_lt hf))
  · have hNew := (Heap.getElem?_push _ _ f).symm.trans hFrame
    split at hNew
    · cases hNew
      exact ⟨rfl, rfl⟩
    · have hLt : f < m.heap.frames.size := (Array.getElem?_eq_some_iff.1 hNew).1
      exact absurd hf (Nat.not_le_of_lt hLt)

/-- Giving identities out changes no frame. -/
theorem grows_nextId (m : Machine) {id : Nat} (hId : m.heap.nextId ≤ id) :
    R.Grows m { m with heap := { m.heap with nextId := id } } :=
  ⟨⟨⟨Nat.le_refl _, hId, fun _ frame hFrame => ⟨frame, hFrame, rfl, rfl⟩⟩, rfl, rfl⟩,
    fun _ _ _ => rfl, fresh_of_size_eq rfl, fun _ _ _ => rfl⟩

/-! ## Steps under a regime -/

/-- The outcome of a step from `m`: the machine has grown, the regime holds, and the result is
good or the end is one of the given ones. -/
def Ends (R : Regime) (stop : Stop → Prop) {α : Type} (m : Machine) (good : Heap → α → Prop) :
    EStateM.Result Stop Machine α → Prop
  | .ok a m' => R.Grows m m' ∧ R.Holds m'.heap ∧ good m'.heap a
  | .error s m' => R.Grows m m' ∧ R.Holds m'.heap ∧ stop s

/-- A step that ends without a value ends in one of the ways of the regime. -/
abbrev Safe (R : Regime) {α : Type} (m : Machine) (good : Heap → α → Prop) :
    EStateM.Result Stop Machine α → Prop :=
  R.Ends R.stop m good

section Steps

variable {α β : Type} {stop stop' : Stop → Prop} {m : Machine} {good : Heap → α → Prop}
  {good' : Heap → β → Prop}

theorem Ends.mono {r : EStateM.Result Stop Machine α} (h : R.Ends stop m good r)
    (hStop : ∀ s, stop s → stop' s) : R.Ends stop' m good r := by
  cases r with
  | ok a m' => exact h
  | error s m' => exact ⟨h.1, h.2.1, hStop s h.2.2⟩

theorem Ends.bind {x : Eval α} {f : α → Eval β} (hx : R.Ends stop m good (x m))
    (hf : ∀ a m', R.Grows m m' → R.Holds m'.heap → good m'.heap a → R.Ends stop m' good' (f a m')) :
    R.Ends stop m good' ((x >>= f) m) := by
  show R.Ends stop m good' (EStateM.bind x f m)
  unfold EStateM.bind
  cases hEnd : x m with
  | error stop m' => rw [hEnd] at hx; exact hx
  | ok a m' =>
      rw [hEnd] at hx
      obtain ⟨hGrows, hHolds, hGood⟩ := hx
      have hNext := hf a m' hGrows hHolds hGood
      show R.Ends stop m good' (f a m')
      cases hEnd' : f a m' with
      | ok b m'' =>
          rw [hEnd'] at hNext
          exact ⟨hGrows.trans hNext.1, hNext.2⟩
      | error stop m'' =>
          rw [hEnd'] at hNext
          exact ⟨hGrows.trans hNext.1, hNext.2⟩

theorem safe_pure {a : α} (hm : R.Holds m.heap) (ha : good m.heap a) :
    R.Ends stop m good ((pure a : Eval α) m) :=
  ⟨.refl m, hm, ha⟩

theorem safe_fail {cause : Cause} (hm : R.Holds m.heap) (hCause : stop (.error (.bare cause))) :
    R.Ends stop m good (fail cause m) :=
  ⟨.refl m, hm, hCause⟩

theorem safe_ofExcept {x : Except Cause α} (hm : R.Holds m.heap)
    (hOk : ∀ a, x = .ok a → good m.heap a)
    (hError : ∀ cause, x = .error cause → stop (.error (.bare cause))) :
    R.Ends stop m good (ofExcept x m) := by
  cases x with
  | ok a => exact safe_pure hm (hOk a rfl)
  | error cause => exact safe_fail hm (hError cause rfl)

/-- What was left without a place is given one. -/
theorem safe_locate {step : Eval α} {location : Option Location} (h : R.Ends stop m good (step m))
    (hLocate : ∀ e, stop (.error e) → stop' (.error (e.orAt location)))
    (hExhausted : stop .exhausted → stop' .exhausted) :
    R.Ends stop' m good (locate location step m) := by
  unfold locate
  cases hEnd : step m with
  | ok a m' =>
      rw [hEnd] at h
      exact h
  | error s m' =>
      rw [hEnd] at h
      obtain ⟨hGrows, hHolds, hStop⟩ := h
      cases s with
      | error e => exact ⟨hGrows, hHolds, hLocate e hStop⟩
      | exhausted => exact ⟨hGrows, hHolds, hExhausted hStop⟩

/-- A procedure body runs on a machine whose counter is one higher, and leaves it as it was. -/
theorem safe_nested {limit : Option Nat} {body : Eval α} (hm : R.Holds m.heap)
    (hLimit : ∀ most, stop (.error (.bare (.depthExceeded most))))
    (hBody : admits limit m.depth = true → R.Ends stop (enter m) good (body (enter m))) :
    R.Ends stop m good (nested limit body m) := by
  unfold nested
  split
  · next hAdmits =>
      have hRun := hBody hAdmits
      have hLeave : ∀ m', R.Grows (enter m) m' → R.Grows m (leave m') := by
        intro m' hGrows
        refine ⟨⟨hGrows.heap, hGrows.tallest, ?_⟩, hGrows.kept, hGrows.fresh, hGrows.defined⟩
        show m'.depth - 1 = m.depth
        rw [hGrows.depth]
        rfl
      split
      · next a m' hEnd =>
          rw [hEnd] at hRun
          exact ⟨hLeave m' hRun.1, hRun.2⟩
      · next stop m' hEnd =>
          rw [hEnd] at hRun
          exact ⟨hLeave m' hRun.1, hRun.2⟩
  · exact safe_fail hm (hLimit _)

/-- What a step leaves behind, whether it ends with a value or not. -/
theorem Ends.outcome {step : Eval α} (limit : Nat) (h : R.Ends stop m good (step m)) :
    R.Grows m (outcome limit step m).2 ∧ R.Holds (outcome limit step m).2.heap := by
  unfold Eval.outcome
  cases hStep : step m with
  | ok a m' =>
      rw [hStep] at h
      exact ⟨h.1, h.2.1⟩
  | error stop m' =>
      rw [hStep] at h
      cases stop with
      | error e => exact ⟨h.1, h.2.1⟩
      | exhausted => exact ⟨h.1, h.2.1⟩

theorem Ends.good_of_outcome {step : Eval α} {limit : Nat} (h : R.Ends stop m good (step m)) {a : α}
    (ha : (Eval.outcome limit step m).1 = .ok a) :
    good (Eval.outcome limit step m).2.heap a := by
  unfold Eval.outcome at ha ⊢
  cases hStep : step m with
  | ok a' m' =>
      rw [hStep] at h ha
      cases ha
      exact h.2.2
  | error stop m' =>
      rw [hStep] at ha
      cases stop with
      | error e => cases ha
      | exhausted => cases ha

end Steps

/-! ## Operations on the machine -/

section Operations

variable {stop : Stop → Prop} {m : Machine}

/-- A result about which nothing is claimed. -/
def Any {α : Type} : Heap → α → Prop := fun _ _ => True

/-- Values that may occur. -/
def AllFine (R : Regime) (h : Heap) (vs : List Value) : Prop := ∀ v ∈ vs, R.Fine h v

/-- Names with values that may occur. -/
def EntriesFine (R : Regime) (h : Heap) (entries : List (String × Value)) : Prop :=
  ∀ entry ∈ entries, R.Fine h entry.2

theorem AllFine.grow {h h' : Heap} {vs : List Value} (hvs : R.AllFine h vs)
    (hGrows : h.Grows h') : R.AllFine h' vs :=
  fun v hv => (hvs v hv).grow hGrows

theorem Holds.nextId {h : Heap} (hHolds : R.Holds h) (id : Nat) :
    R.Holds { h with nextId := id } :=
  ⟨hHolds.bound, hHolds.linked, hHolds.named⟩

theorem Holds.noteHeight {h : Heap} (hHolds : R.Holds h) (height : Nat) :
    R.Holds (h.noteHeight height) :=
  ⟨hHolds.bound, hHolds.linked, hHolds.named⟩

theorem safe_cons {car cdr : Value} (hm : R.Holds m.heap) (hCar : R.Fine m.heap car)
    (hCdr : R.Fine m.heap cdr) : R.Ends stop m R.Fine (cons car cdr m) :=
  ⟨grows_nextId m (Nat.le_succ _), hm.nextId _, hCar, hCdr⟩

theorem safe_chain {items : List Value} (hm : R.Holds m.heap) (hItems : R.AllFine m.heap items) :
    R.Ends stop m R.Fine (chain items .nil m) := by
  have hNil : Value.nil.All (R.closure m.heap.frames.size) := trivial
  exact ⟨grows_nextId m (Nat.le_add_right _ _), hm.nextId _, Value.all_chain hItems hNil _⟩

theorem safe_closure {code : Lambda} {env : FrameId} (hm : R.Holds m.heap)
    (hCode : R.closure m.heap.frames.size code env) :
    R.Ends stop m R.Fine (Eval.closure code env m) :=
  ⟨grows_nextId m (Nat.le_succ _), hm.nextId _, hCode⟩

/-- A frame that may be used and was not there from the beginning. -/
def New (R : Regime) (h : Heap) (f : FrameId) : Prop := R.frame h.frames.size f ∧ R.base ≤ f

theorem New.isOpen {h : Heap} {f : FrameId} (hf : R.New h f) : R.Open h f :=
  ⟨hf.1, R.writable_new hf.2⟩

theorem safe_newChild {parent : FrameId} (hm : R.Holds m.heap)
    (hBase : R.base ≤ m.heap.frames.size) (hParent : R.frame m.heap.frames.size parent) :
    R.Ends stop m R.New (newChild parent m) := by
  refine ⟨grows_newChild m parent, hm.push rfl ?_, ?_, hBase⟩
  · intro parent' hEq
    cases hEq
    exact R.link_child hParent
  · show R.frame (m.heap.push _).2.frames.size m.heap.frames.size
    rw [Heap.size_push]
    exact R.frame_child hBase hParent

theorem safe_define {env : FrameId} {name : String} {v : Value} (hm : R.Holds m.heap)
    (hEnv : R.Open m.heap env) (hName : R.name env name) (hAssignable : R.assignable name)
    (hv : R.Fine m.heap v) : R.Ends stop m Any (Eval.define env name v m) :=
  ⟨grows_define m hEnv hAssignable v, hm.define env hv hName, trivial⟩

theorem safe_defineAll {env : FrameId} {entries : List (String × Value)} (hm : R.Holds m.heap)
    (hEnv : R.Open m.heap env)
    (hNames : ∀ entry ∈ entries, R.name env entry.1 ∧ R.assignable entry.1)
    (hEntries : R.EntriesFine m.heap entries) : R.Ends stop m Any (defineAll env entries m) := by
  show R.Grows m { m with heap := m.heap.defineAll env entries } ∧
    R.Holds (m.heap.defineAll env entries) ∧ True
  induction entries generalizing m with
  | nil => exact ⟨.refl m, hm, trivial⟩
  | cons entry entries ih =>
      obtain ⟨name, v⟩ := entry
      have hv : R.Fine m.heap v := hEntries (name, v) (by simp)
      obtain ⟨hName, hAssignable⟩ := hNames (name, v) (by simp)
      have hFirst := grows_define m hEnv hAssignable v
      have hRest := ih (m := { m with heap := m.heap.define env name v })
        (hm.define env hv hName) (hEnv.grow hFirst.heap)
        (fun entry hEntry => hNames entry (by simp [hEntry]))
        fun entry hEntry => (hEntries entry (by simp [hEntry])).grow hFirst.heap
      exact ⟨hFirst.trans hRest.1, hRest.2⟩

theorem safe_lookup {env : FrameId} {name : String} (hm : R.Holds m.heap)
    (hEnv : R.frame m.heap.frames.size env)
    (hUnbound : stop (.error (.bare (.unboundSymbol name)))) :
    R.Ends stop m R.Fine (lookup env name m) := by
  refine safe_ofExcept hm (fun v hv => ?_) (fun cause hCause => ?_)
  · unfold Heap.lookup at hv
    split at hv
    · next w hw =>
        cases hv
        exact hm.fine_of_get? hEnv hw
    · cases hv
  · unfold Heap.lookup at hCause
    split at hCause
    · cases hCause
    · cases hCause
      exact hUnbound

theorem safe_set {env : FrameId} {name : String} {v : Value} (hm : R.Holds m.heap)
    (hEnv : R.frame m.heap.frames.size env) (hWrite : ∀ f, R.writable f)
    (hAssignable : R.assignable name) (hv : R.Fine m.heap v)
    (hUnbound : stop (.error (.bare (.unboundSymbol name)))) :
    R.Ends stop m Any (Eval.set env name v m) := by
  unfold Eval.set Heap.set
  cases hHome : m.heap.home? env name with
  | none => exact safe_fail hm hUnbound
  | some g =>
      exact ⟨grows_define m ⟨hm.frame_of_home? hEnv hHome, hWrite g⟩ hAssignable v,
        hm.define g hv (hm.name_of_home? hEnv hHome), trivial⟩

theorem safe_delete {env : FrameId} {name : String} (hm : R.Holds m.heap)
    (hEnv : R.Open m.heap env) (hAssignable : R.assignable name)
    (hMissing : stop (.error (.bare (.notLocallyBound name)))) :
    R.Ends stop m R.Fine (delete env name m) := by
  unfold delete
  split
  · next v heap hDelete =>
      obtain ⟨⟨frame, hFrame, hv⟩, rfl⟩ := Heap.delete_eq_ok hDelete
      have hGrows := grows_erase m hEnv hAssignable
      exact ⟨hGrows, hm.erase env name,
        Fine.grow (hm.bound env frame hFrame hEnv.1 name v hv) hGrows.heap⟩
  · next cause hDelete =>
      unfold Heap.delete at hDelete
      split at hDelete
      · cases hDelete
        exact safe_fail hm hMissing
      · cases hDelete

theorem safe_callBuiltin {b : Builtin} {args : List Value} (hm : R.Holds m.heap)
    (hArgs : R.AllFine m.heap args)
    (hFault : ∀ cause : Cause, cause.OfValue → stop (.error (.bare cause))) :
    R.Ends stop m R.Fine (callBuiltin b args m) := by
  unfold callBuiltin
  split
  · next v id hApply =>
      obtain ⟨hv, hId⟩ := Builtin.all_apply hArgs hApply
      exact ⟨grows_nextId m hId, hm.nextId id, hv⟩
  · next cause hApply => exact safe_fail hm (hFault cause (Builtin.ofValue_of_apply hApply))

end Operations

end Regime

end MiniScheme
