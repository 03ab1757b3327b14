import MiniScheme.Eval.Machine

/-!
# Heaps only grow

No operation removes a frame, and none changes the parent of a frame or whether it binds the
built-in procedures: definitions are all that ever changes in a frame. `Heap.Grows h h'` says that
`h'` can be had from `h` in this way. It is a preorder, so what single operations do to a heap
carries over to whole evaluations.

Every operation on definitions is `Heap.alter`: it changes the bindings of one frame.
-/

namespace MiniScheme

/-- What a frame gives a name is one of its definitions, or a built-in procedure. -/
theorem Frame.get?_eq_some {frame : Frame} {name : String} {v : Value}
    (h : frame.get? name = some v) :
    frame.bindings.get? name = some v ∨
      ∃ b, Builtin.ofName? name = some b ∧ frame.hasBuiltins ∧ v = .procedure (.builtin b) := by
  unfold Frame.get? at h
  split at h
  · next w hw => exact .inl (hw.trans h)
  · split at h
    · next hBuiltins =>
        obtain ⟨b, hName, rfl⟩ := Option.map_eq_some_iff.1 h
        exact .inr ⟨b, hName, hBuiltins, rfl⟩
    · cases h

/-- The definitions with several names bound, one after the other. -/
def Bindings.insertAll (b : Bindings) (entries : List (String × Value)) : Bindings :=
  entries.foldl (fun b entry => b.insert entry.1 entry.2) b

theorem Bindings.insertAll_concat (b : Bindings) (entries : List (String × Value)) (name : String)
    (v : Value) :
    b.insertAll (entries ++ [(name, v)]) = (b.insertAll entries).insert name v := by
  rw [insertAll, List.foldl_append]
  rfl

namespace Heap

/-- `h'` has the frames of `h`, with the same parents and built-in procedures, and perhaps more
of them. -/
structure Grows (h h' : Heap) : Prop where
  size_le : h.frames.size ≤ h'.frames.size
  nextId_le : h.nextId ≤ h'.nextId
  frame : ∀ (f : FrameId) (frame : Frame), h.frames[f]? = some frame →
    ∃ frame' : Frame, h'.frames[f]? = some frame' ∧ frame'.parent = frame.parent ∧
      frame'.hasBuiltins = frame.hasBuiltins

theorem Grows.refl (h : Heap) : h.Grows h :=
  ⟨Nat.le_refl _, Nat.le_refl _, fun _ frame hFrame => ⟨frame, hFrame, rfl, rfl⟩⟩

theorem Grows.trans {h₁ h₂ h₃ : Heap} (h₁₂ : h₁.Grows h₂) (h₂₃ : h₂.Grows h₃) : h₁.Grows h₃ := by
  refine ⟨Nat.le_trans h₁₂.size_le h₂₃.size_le, Nat.le_trans h₁₂.nextId_le h₂₃.nextId_le, ?_⟩
  intro f frame hFrame
  obtain ⟨frame', hFrame', hParent, hBuiltins⟩ := h₁₂.frame f frame hFrame
  obtain ⟨frame'', hFrame'', hParent', hBuiltins'⟩ := h₂₃.frame f frame' hFrame'
  exact ⟨frame'', hFrame'', hParent'.trans hParent, hBuiltins'.trans hBuiltins⟩

/-! ## One frame -/

/-- The value that frame `f` itself defines a name as. -/
def defined? (h : Heap) (f : FrameId) (name : String) : Option Value :=
  h.frames[f]?.bind fun frame => frame.bindings.get? name

/-- The heap with the definitions of frame `f` changed. -/
def alter (h : Heap) (f : FrameId) (change : Bindings → Bindings) : Heap :=
  { h with
    frames := h.frames.modify f fun frame => { frame with bindings := change frame.bindings } }

theorem define_eq_alter (h : Heap) (f : FrameId) (name : String) (v : Value) :
    h.define f name v = h.alter f fun bindings => bindings.insert name v := rfl

@[simp]
theorem size_alter (h : Heap) (f : FrameId) (change : Bindings → Bindings) :
    (h.alter f change).frames.size = h.frames.size := by
  simp [alter]

theorem getElem?_alter (h : Heap) (f g : FrameId) (change : Bindings → Bindings) :
    (h.alter f change).frames[g]? =
      if f = g then
        h.frames[g]?.map fun frame => { frame with bindings := change frame.bindings }
      else h.frames[g]? := by
  simp [alter, Array.getElem?_modify]

/-- A frame of the altered heap is a frame of the heap up to its definitions. -/
theorem exists_of_getElem?_alter {h : Heap} {f g : FrameId} {change : Bindings → Bindings}
    {frame' : Frame} (hFrame : (h.alter f change).frames[g]? = some frame') :
    ∃ frame, h.frames[g]? = some frame ∧ frame'.parent = frame.parent ∧
      frame'.hasBuiltins = frame.hasBuiltins ∧
      (f = g ∧ frame'.bindings = change frame.bindings ∨ frame'.bindings = frame.bindings) := by
  rw [getElem?_alter] at hFrame
  split at hFrame
  · next hEq =>
      obtain ⟨frame, hOld, rfl⟩ := Option.map_eq_some_iff.1 hFrame
      exact ⟨frame, hOld, rfl, rfl, .inl ⟨hEq, rfl⟩⟩
  · exact ⟨frame', hFrame, rfl, rfl, .inr rfl⟩

theorem defined?_alter (h : Heap) (f g : FrameId) {name : String} {change : Bindings → Bindings}
    (hChange : ∀ bindings : Bindings, (change bindings).get? name = bindings.get? name) :
    (h.alter f change).defined? g name = h.defined? g name := by
  unfold defined?
  rw [getElem?_alter]
  split
  · cases h.frames[g]? with
    | none => rfl
    | some frame => exact hChange frame.bindings
  · rfl

theorem grows_alter (h : Heap) (f : FrameId) (change : Bindings → Bindings) :
    h.Grows (h.alter f change) := by
  refine ⟨by simp, Nat.le_refl _, fun g frame hFrame => ?_⟩
  rw [getElem?_alter, hFrame]
  split
  · exact ⟨_, rfl, rfl, rfl⟩
  · exact ⟨frame, rfl, rfl, rfl⟩

theorem grows_define (h : Heap) (f : FrameId) (name : String) (v : Value) :
    h.Grows (h.define f name v) :=
  h.grows_alter f fun bindings => bindings.insert name v

theorem delete_eq_ok {h h' : Heap} {f : FrameId} {name : String} {v : Value}
    (hDelete : h.delete f name = .ok (v, h')) :
    (∃ frame, h.frames[f]? = some frame ∧ frame.bindings.get? name = some v) ∧
      h' = h.alter f fun bindings => bindings.erase name := by
  unfold delete at hDelete
  split at hDelete
  · cases hDelete
  · next w hw =>
      cases hDelete
      exact ⟨Option.bind_eq_some_iff.1 hw, rfl⟩

theorem chainFrom_noteHeight (h : Heap) (height fuel : Nat) :
    ∀ f, (h.noteHeight height).chainFrom fuel f = h.chainFrom fuel f := by
  induction fuel with
  | zero => exact fun f => rfl
  | succ fuel ih =>
      intro f
      simp only [chainFrom, noteHeight, ← ih]

theorem get?_noteHeight (h : Heap) (height : Nat) (f : FrameId) (name : String) :
    (h.noteHeight height).get? f name = h.get? f name := by
  have hChain : (h.noteHeight height).chain f = h.chain f :=
    h.chainFrom_noteHeight height (f + 1) f
  rw [get?, get?, home?, home?, hChain]
  rfl

/-- The home of a name binds it. -/
theorem exists_local?_of_home? {h : Heap} {f g : FrameId} {name : String}
    (hHome : h.home? f name = some g) : ∃ v, h.local? g name = some v := by
  unfold home? at hHome
  have hBinds := List.find?_some hHome
  exact Option.isSome_iff_exists.1 hBinds

/-! ## New frames -/

@[simp]
theorem size_push (h : Heap) (frame : Frame) :
    (h.push frame).2.frames.size = h.frames.size + 1 := by
  simp [push]

theorem getElem?_push (h : Heap) (frame : Frame) (f : FrameId) :
    (h.push frame).2.frames[f]? = if f = h.frames.size then some frame else h.frames[f]? := by
  simp [push, Array.getElem?_push]

/-- What is defined in a new frame could have been in it from the beginning. -/
theorem define_push (h : Heap) (frame : Frame) (name : String) (v : Value) :
    (h.push frame).2.define h.frames.size name v =
      (h.push { frame with bindings := frame.bindings.insert name v }).2 := by
  have hFrames : (h.frames.push frame).modify h.frames.size (fun frame =>
      { frame with bindings := frame.bindings.insert name v }) =
      h.frames.push { frame with bindings := frame.bindings.insert name v } := by
    refine Array.ext_getElem? fun f => ?_
    rw [Array.getElem?_modify, Array.getElem?_push, Array.getElem?_push]
    by_cases hf : h.frames.size = f
    · simp [hf]
    · simp [hf, Ne.symm hf]
  simp only [push, define, hFrames]

theorem defineAll_push (h : Heap) (entries : List (String × Value)) :
    ∀ frame : Frame, (h.push frame).2.defineAll h.frames.size entries =
      (h.push { frame with bindings := frame.bindings.insertAll entries }).2 := by
  induction entries with
  | nil => exact fun frame => rfl
  | cons entry entries ih =>
      intro frame
      show ((h.push frame).2.define h.frames.size entry.1 entry.2).defineAll h.frames.size entries =
        _
      rw [define_push, ih]
      rfl

/-- A frame without definitions adds none. -/
theorem defined?_push (h : Heap) {frame : Frame} (hFrame : frame.bindings = .empty) (f : FrameId)
    (name : String) : (h.push frame).2.defined? f name = h.defined? f name := by
  unfold defined?
  rw [getElem?_push]
  split
  · next hf =>
      rw [hf, Array.getElem?_eq_none (Nat.le_refl _)]
      show frame.bindings.get? name = none
      rw [hFrame, Bindings.get?_empty]
  · rfl

theorem grows_push (h : Heap) (frame : Frame) : h.Grows (h.push frame).2 := by
  refine ⟨by simp, Nat.le_refl _, fun f old hOld => ?_⟩
  have hLt : f < h.frames.size := (Array.getElem?_eq_some_iff.1 hOld).1
  refine ⟨old, ?_, rfl, rfl⟩
  rw [getElem?_push, if_neg (Nat.ne_of_lt hLt), hOld]

end Heap

/-! ## Machines -/

/-- What an evaluation does to a machine as a whole: the heap grows, and the counter of active
procedure bodies is as it was. -/
structure Machine.Grows (m m' : Machine) : Prop where
  heap : m.heap.Grows m'.heap
  tallest : m'.heap.tallest = m.heap.tallest
  depth : m'.depth = m.depth

theorem Machine.Grows.refl (m : Machine) : m.Grows m := ⟨.refl _, rfl, rfl⟩

theorem Machine.Grows.trans {m₁ m₂ m₃ : Machine} (h₁₂ : m₁.Grows m₂) (h₂₃ : m₂.Grows m₃) :
    m₁.Grows m₃ :=
  ⟨h₁₂.heap.trans h₂₃.heap, h₂₃.tallest.trans h₁₂.tallest, h₂₃.depth.trans h₁₂.depth⟩

end MiniScheme
