import MiniScheme.Value
import MiniScheme.Error

/-!
# Frames

Bindings live in frames. A frame has its own definitions and may have a parent, in which a name
is looked for when the frame itself does not bind it. A root frame has no parent and binds, below
its own definitions, the names of the built-in procedures.

The heap holds all frames ever made; a frame is its index, and the parent of a frame is always
older than the frame. It also gives out the identities of pairs and procedures.

## Main definitions

* `Heap.chain f`: the frames in which names are looked for from `f`, the nearest first.
* `Heap.home? f n`: the nearest of them that binds `n`.
* `Heap.get?`, `Heap.set`: read and replace the binding in that frame.
* `Heap.define`, `Heap.delete`: add and remove a definition of the frame itself.
-/

namespace MiniScheme

/-! ## Definitions of one frame -/

/-- Names with their values; each name occurs once. -/
structure Bindings where
  entries : List (String × Value)

namespace Bindings

/-- No definition at all. -/
def empty : Bindings := ⟨[]⟩

/-- The value of a name. -/
def get? (b : Bindings) (name : String) : Option Value :=
  b.entries.lookup name

/-- The definitions without that of `name`. -/
def erase (b : Bindings) (name : String) : Bindings :=
  ⟨b.entries.filter fun entry => entry.1 != name⟩

/-- The definitions with `name` bound to `value`, whatever it was bound to. -/
def insert (b : Bindings) (name : String) (value : Value) : Bindings :=
  ⟨(name, value) :: (b.erase name).entries⟩

@[simp]
theorem get?_empty (name : String) : empty.get? name = none := rfl

theorem get?_erase (b : Bindings) (name other : String) :
    (b.erase name).get? other = if other = name then none else b.get? other := by
  obtain ⟨entries⟩ := b
  show (entries.filter fun entry => entry.1 != name).lookup other =
    if other = name then none else entries.lookup other
  induction entries with
  | nil => simp
  | cons entry entries ih =>
      obtain ⟨key, value⟩ := entry
      by_cases hKey : key = name
      · rw [List.filter_cons_of_neg (by simp [hKey]), ih, hKey]
        split
        · rfl
        · next hOther => simp [List.lookup_cons, beq_false_of_ne hOther]
      · rw [List.filter_cons_of_pos (by simp [hKey]), List.lookup_cons, List.lookup_cons, ih]
        by_cases hOther : other = key
        · simp [hOther, hKey]
        · simp [beq_false_of_ne hOther]

theorem get?_insert (b : Bindings) (name other : String) (value : Value) :
    (b.insert name value).get? other = if other = name then some value else b.get? other := by
  by_cases h : other = name
  · simp [insert, get?, h]
  · have hErase := get?_erase b name other
    simp only [get?, h, if_false] at hErase
    simp [insert, get?, List.lookup_cons, beq_false_of_ne h, hErase, h]

end Bindings

/-- A frame: its parent, its definitions, and whether it binds the built-in procedures. -/
structure Frame where
  parent : Option FrameId
  bindings : Bindings
  hasBuiltins : Bool

namespace Frame

/-- The value that the frame itself gives a name; a definition hides a built-in procedure. -/
def get? (frame : Frame) (name : String) : Option Value :=
  match frame.bindings.get? name with
  | some v => some v
  | none =>
      if frame.hasBuiltins then (Builtin.ofName? name).map fun b => .procedure (.builtin b)
      else none

end Frame

/-! ## All frames -/

/-- All frames, the next identity for a pair or a procedure, and a bound on the height of the
procedure bodies. -/
structure Heap where
  frames : Array Frame
  nextId : Nat
  tallest : Nat

namespace Heap

/-- The heap before anything is made. -/
def empty : Heap := ⟨#[], 0, 0⟩

/-- The heap with one more frame, and the index of that frame. -/
def push (h : Heap) (frame : Frame) : FrameId × Heap :=
  (h.frames.size, { h with frames := h.frames.push frame })

/-- A new frame with nothing but the built-in procedures. -/
def newRoot (h : Heap) : FrameId × Heap :=
  h.push ⟨none, .empty, true⟩

/-- A new empty frame below a given one. -/
def newChild (h : Heap) (parent : FrameId) : FrameId × Heap :=
  h.push ⟨some parent, .empty, false⟩

/-- A new empty frame below a new root. -/
def newGlobal (h : Heap) : FrameId × Heap :=
  let root := h.newRoot
  root.2.newChild root.1

/-- The value that frame `f` itself gives a name. -/
def local? (h : Heap) (f : FrameId) (name : String) : Option Value :=
  h.frames[f]?.bind fun frame => frame.get? name

/-- The first `fuel` frames on the way from `f` to its root. -/
def chainFrom (h : Heap) : Nat → FrameId → List FrameId
  | 0, _ => []
  | fuel + 1, f =>
      match h.frames[f]? with
      | none => []
      | some frame =>
          match frame.parent with
          | none => [f]
          | some parent => f :: h.chainFrom fuel parent

/-- The frames on the way from `f` to its root. Parents are older than their children, so there
are at most `f + 1` of them. -/
def chain (h : Heap) (f : FrameId) : List FrameId := h.chainFrom (f + 1) f

/-- The nearest frame, from `f` on, that binds a name. -/
def home? (h : Heap) (f : FrameId) (name : String) : Option FrameId :=
  (h.chain f).find? fun g => (h.local? g name).isSome

/-- The value of a name as seen from frame `f`. -/
def get? (h : Heap) (f : FrameId) (name : String) : Option Value :=
  (h.home? f name).bind fun g => h.local? g name

/-- The value of a name as seen from frame `f`, or an error that names it. -/
def lookup (h : Heap) (f : FrameId) (name : String) : Except Cause Value :=
  match h.get? f name with
  | some v => .ok v
  | none => .error (.unboundSymbol name)

/-- Binds a name in frame `f` itself. -/
def define (h : Heap) (f : FrameId) (name : String) (value : Value) : Heap :=
  { h with
    frames := h.frames.modify f fun frame =>
      { frame with bindings := frame.bindings.insert name value } }

/-- Binds several names in frame `f` itself, one after the other. -/
def defineAll (h : Heap) (f : FrameId) : List (String × Value) → Heap
  | [] => h
  | (name, value) :: entries => (h.define f name value).defineAll f entries

/-- Gives a name a new value in the nearest frame that binds it. -/
def set (h : Heap) (f : FrameId) (name : String) (value : Value) : Except Cause Heap :=
  match h.home? f name with
  | some g => .ok (h.define g name value)
  | none => .error (.unboundSymbol name)

/-- Removes a definition of frame `f` itself and returns the value it had. -/
def delete (h : Heap) (f : FrameId) (name : String) : Except Cause (Value × Heap) :=
  match h.frames[f]?.bind fun frame => frame.bindings.get? name with
  | none => .error (.notLocallyBound name)
  | some v =>
      .ok (v,
        { h with
          frames := h.frames.modify f fun frame =>
            { frame with bindings := frame.bindings.erase name } })

/-- Notes the height of an expression that is about to be evaluated. -/
def noteHeight (h : Heap) (height : Nat) : Heap :=
  { h with tallest := max h.tallest height }

end Heap

end MiniScheme
