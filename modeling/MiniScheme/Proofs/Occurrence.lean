import MiniScheme.Builtin.Apply
import MiniScheme.Heap

/-!
# Procedures that occur in values

A value can hold procedures: it is one, or it is a pair whose parts hold some. What a program can
do later depends on the procedures that lie around in frames and lists, so every invariant of
evaluation says something of all of them. `Value.All p` says it of one value, for a property `p`
of the code of a procedure and the frame it keeps; `Frame.All p` of the definitions of a frame.

Pairs and procedures have identities, so what is said of a value may also concern the pairs in it.
`Value.Part` is the relation of a value to what it occurs in.

Nothing but evaluating a lambda makes a procedure, and pairs are made only by special forms and
`append`. The results here are the part of that fact that concerns built-in procedures:
`Builtin.origin_of_apply` says where the value of one comes from, and what the arguments hold is
derived from it.
-/

namespace MiniScheme

/-- A procedure written in the language satisfies `p`. -/
def Procedure.All (p : Lambda → FrameId → Prop) : Procedure → Prop
  | .builtin _ => True
  | .closure _ code frame => p code frame

namespace Value

variable {p q : Lambda → FrameId → Prop}

/-- Every procedure that occurs in the value, also inside pairs, satisfies `p`. -/
def All (p : Lambda → FrameId → Prop) : Value → Prop
  | .pair _ car cdr => car.All p ∧ cdr.All p
  | .procedure f => f.All p
  | _ => True

theorem All.mono (hpq : ∀ code frame, p code frame → q code frame) {v : Value} (h : v.All p) :
    v.All q := by
  induction v with
  | pair id car cdr ihCar ihCdr => exact ⟨ihCar h.1, ihCdr h.2⟩
  | procedure f =>
      cases f with
      | builtin b => trivial
      | closure id code frame => exact hpq code frame h
  | _ => trivial

theorem all_of_forall (hp : ∀ code frame, p code frame) (v : Value) : v.All p := by
  induction v with
  | pair id car cdr ihCar ihCdr => exact ⟨ihCar, ihCdr⟩
  | procedure f =>
      cases f with
      | builtin b => trivial
      | closure id code frame => exact hp code frame
  | _ => trivial

/-- A procedure with that code and frame is the value, or occurs in a part of it. -/
inductive Occurs (code : Lambda) (frame : FrameId) : Value → Prop where
  | procedure {id : Nat} : Occurs code frame (.procedure (.closure id code frame))
  | car {id : Nat} {car cdr : Value} (h : Occurs code frame car) :
      Occurs code frame (.pair id car cdr)
  | cdr {id : Nat} {car cdr : Value} (h : Occurs code frame cdr) :
      Occurs code frame (.pair id car cdr)

theorem all_iff_occurs {v : Value} :
    v.All p ↔ ∀ code frame, v.Occurs code frame → p code frame := by
  constructor
  · intro h code frame hOccurs
    induction hOccurs with
    | procedure => exact h
    | car _ ih => exact ih h.1
    | cdr _ ih => exact ih h.2
  · intro h
    induction v with
    | pair id car cdr ihCar ihCdr =>
        constructor
        · exact ihCar fun code frame hOccurs => h code frame (.car hOccurs)
        · exact ihCdr fun code frame hOccurs => h code frame (.cdr hOccurs)
    | procedure f =>
        cases f with
        | builtin b => trivial
        | closure id code frame => exact h code frame .procedure
    | _ => trivial

/-! ## Parts -/

/-- The value is `v` or occurs in it. -/
inductive Part (w : Value) : Value → Prop where
  | whole : Part w w
  | car {id : Nat} {car cdr : Value} (h : Part w car) : Part w (.pair id car cdr)
  | cdr {id : Nat} {car cdr : Value} (h : Part w cdr) : Part w (.pair id car cdr)

theorem Part.trans {u v w : Value} (huv : u.Part v) (hvw : v.Part w) : u.Part w := by
  induction hvw with
  | whole => exact huv
  | car _ ih => exact .car ih
  | cdr _ ih => exact .cdr ih

theorem Occurs.exists_part {code : Lambda} {frame : FrameId} {v : Value}
    (h : v.Occurs code frame) : ∃ id, (Value.procedure (.closure id code frame)).Part v := by
  induction h with
  | procedure => exact ⟨_, .whole⟩
  | car _ ih =>
      obtain ⟨id, hPart⟩ := ih
      exact ⟨id, .car hPart⟩
  | cdr _ ih =>
      obtain ⟨id, hPart⟩ := ih
      exact ⟨id, .cdr hPart⟩

theorem Occurs.of_part {code : Lambda} {frame : FrameId} {v w : Value}
    (h : w.Occurs code frame) (hPart : w.Part v) : v.Occurs code frame := by
  induction hPart with
  | whole => exact h
  | car _ ih => exact .car ih
  | cdr _ ih => exact .cdr ih

/-- The identity of a pair, or of a procedure written in the language. -/
def identity? : Value → Option Nat
  | .pair id _ _ => some id
  | .procedure (.closure id _ _) => some id
  | _ => none

theorem All.part {v w : Value} (h : v.All p) (hPart : w.Part v) : w.All p := by
  induction hPart with
  | whole => exact h
  | car _ ih => exact ih h.1
  | cdr _ ih => exact ih h.2

/-! ## Lists -/

theorem part_of_mem_items {v : Value} : ∀ w ∈ v.items, w.Part v := by
  induction v with
  | pair id car cdr _ ihCdr =>
      intro w hw
      rcases List.mem_cons.1 hw with rfl | hw
      · exact .car .whole
      · exact .cdr (ihCdr w hw)
  | _ => intro w hw; simp [items] at hw

theorem part_of_listRef {v w : Value} {index : Int} (hw : v.listRef index = .ok w) :
    w.Part v := by
  cases v with
  | pair id car cdr =>
      simp only [listRef, Walk.nth?_start] at hw
      split at hw
      · cases hw; exact .car .whole
      · split at hw
        · cases hw
        · split at hw
          · next hElement =>
              cases hw
              exact part_of_mem_items w (List.mem_of_getElem? hElement)
          · cases hw
  | _ => simp [listRef] at hw

theorem part_of_asPair {v car cdr : Value} (hParts : v.asPair = .ok (car, cdr)) :
    car.Part v ∧ cdr.Part v := by
  cases v with
  | pair id car' cdr' => cases hParts; exact ⟨.car .whole, .cdr .whole⟩
  | _ => simp [asPair] at hParts

theorem all_chain {vs : List Value} {last : Value} (hvs : ∀ v ∈ vs, v.All p)
    (hLast : last.All p) (id : Nat) : (chain id vs last).All p := by
  induction vs generalizing id with
  | nil => exact hLast
  | cons v vs ih =>
      exact ⟨hvs v (by simp), ih (fun w hw => hvs w (by simp [hw])) (id + 1)⟩

end Value

/-! ## Built-in procedures -/

theorem bind_eq_ok {ε α β : Type} {x : Except ε α} {f : α → Except ε β} {b : β} :
    x >>= f = .ok b ↔ ∃ a, x = .ok a ∧ f a = .ok b := by
  cases x <;> simp [bind, Except.bind]

theorem map_eq_ok {ε α β : Type} {x : Except ε α} {f : α → β} {b : β} :
    x.map f = .ok b ↔ ∃ a, x = .ok a ∧ f a = b := by
  cases x <;> simp [Except.map]

namespace Builtin

variable {p : Lambda → FrameId → Prop}

/-- Where the value of a built-in procedure comes from, and which identity is the next one then: it
is a number or a boolean, or occurs in an argument, or is a new list of values that do. -/
inductive Origin (args : List Value) (id : Nat) : Value → Nat → Prop where
  | number (n : Number) : Origin args id (.number n) id
  | boolean (b : Bool) : Origin args id (.boolean b) id
  | part {v w : Value} (hw : w ∈ args) (hPart : v.Part w) : Origin args id v id
  | list {vs : List Value} (hvs : ∀ v ∈ vs, ∃ w ∈ args, v.Part w) :
      Origin args id (.chain id vs .nil) (id + vs.length)

variable {args : List Value} {id id' : Nat} {v : Value}

theorem mem_of_exactly {n : Nat} {vs : Vector Value n} (h : exactly n args = .ok vs) (i : Fin n) :
    vs.get i ∈ args := by
  by_cases hCount : args.length = n
  · rw [exactly, dif_pos hCount] at h
    cases h
    exact List.getElem_mem _
  · rw [exactly, dif_neg hCount] at h
    cases h

theorem parts_of_concat {elements : List Value} (h : concat args = .ok elements) :
    ∀ v ∈ elements, ∃ w ∈ args, v.Part w := by
  induction args generalizing elements with
  | nil => cases h; simp
  | cons arg args ih =>
      simp only [concat, bind_eq_ok, Value.listElements_eq] at h
      obtain ⟨own, hOwn, others, hOthers, hElements⟩ := h
      split at hOwn
      · cases hOwn
        cases hElements
        intro v hv
        rcases List.mem_append.1 hv with hv | hv
        · exact ⟨arg, List.mem_cons_self, Value.part_of_mem_items v hv⟩
        · obtain ⟨w, hw, hPart⟩ := ih hOthers v hv
          exact ⟨w, List.mem_cons_of_mem _ hw, hPart⟩
      · cases hOwn

/-- A procedure that makes no pairs. -/
theorem origin_withoutPairs {outcome : Except Cause Value}
    (hOutcome : ∀ w, outcome = .ok w → Origin args id w id)
    (h : withoutPairs id outcome = .ok (v, id')) : Origin args id v id' := by
  obtain ⟨w, hw, hEq⟩ := map_eq_ok.1 h
  cases hEq
  exact hOutcome v hw

/-- A procedure that makes no pairs and wraps what it computes. -/
theorem origin_withoutPairs_map {α : Type} {x : Except Cause α} {f : α → Value}
    (h : withoutPairs id (x.map f) = .ok (v, id')) (hf : ∀ a, Origin args id (f a) id) :
    Origin args id v id' := by
  refine origin_withoutPairs (fun w hw => ?_) h
  obtain ⟨a, _, rfl⟩ := map_eq_ok.1 hw
  exact hf a

theorem origin_of_apply {b : Builtin} (h : b.apply args id = .ok (v, id')) :
    Origin args id v id' := by
  cases b with
  | add => exact origin_withoutPairs_map h .number
  | sub => exact origin_withoutPairs_map h .number
  | mul => exact origin_withoutPairs_map h .number
  | div => exact origin_withoutPairs_map h .number
  | compare comparison => exact origin_withoutPairs_map h .boolean
  | equal => exact origin_withoutPairs (fun w hw => by cases hw; exact .boolean _) h
  | not => exact origin_withoutPairs_map h fun _ => .boolean _
  | isList => exact origin_withoutPairs_map h fun _ => .boolean _
  | car =>
      refine origin_withoutPairs (fun w hw => ?_) h
      simp only [bind_eq_ok] at hw
      obtain ⟨vs, hOne, ⟨car, cdr⟩, hParts, hEq⟩ := hw
      cases hEq
      exact .part (mem_of_exactly hOne _) (Value.part_of_asPair hParts).1
  | cdr =>
      refine origin_withoutPairs (fun w hw => ?_) h
      simp only [bind_eq_ok] at hw
      obtain ⟨vs, hOne, ⟨car, cdr⟩, hParts, hEq⟩ := hw
      cases hEq
      exact .part (mem_of_exactly hOne _) (Value.part_of_asPair hParts).2
  | length =>
      refine origin_withoutPairs (fun w hw => ?_) h
      simp only [bind_eq_ok] at hw
      obtain ⟨vs, _, count, _, hEq⟩ := hw
      cases hEq
      exact .number _
  | listRef =>
      refine origin_withoutPairs (fun w hw => ?_) h
      simp only [bind_eq_ok] at hw
      obtain ⟨vs, hTwo, index, _, hRef⟩ := hw
      exact .part (mem_of_exactly hTwo _) (Value.part_of_listRef hRef)
  | append =>
      obtain ⟨elements, hElements, hEq⟩ := map_eq_ok.1 h
      cases hEq
      exact .list (parts_of_concat hElements)

/-- A built-in procedure returns only procedures that its arguments hold, and it gives identities
out in ascending order. -/
theorem all_apply {b : Builtin} (h : ∀ w ∈ args, w.All p) (hv : b.apply args id = .ok (v, id')) :
    v.All p ∧ id ≤ id' := by
  cases origin_of_apply hv with
  | number n => exact ⟨trivial, Nat.le_refl id⟩
  | boolean b => exact ⟨trivial, Nat.le_refl id⟩
  | part hw hPart => exact ⟨(h _ hw).part hPart, Nat.le_refl id⟩
  | list hvs =>
      have hNil : Value.nil.All p := trivial
      refine ⟨Value.all_chain (fun v hv => ?_) hNil id, Nat.le_add_right id _⟩
      obtain ⟨w, hw, hPart⟩ := hvs v hv
      exact (h w hw).part hPart

end Builtin

end MiniScheme
