import Mathlib.Logic.ExistsUnique
import MiniScheme.Value.List

/-!
# The list operations agree on what a list is

A value can be taken apart in one way only: into the pairs of its chain, each with its element and
its identity, and what the chain ends in, which is no pair. `Value.linked` puts such parts together
again. So whatever an operation on lists answers can be said in terms of the elements and the end,
and this is done here for all of them: for the walk that hands out the elements one by one, for the
test whether a value is a proper list, for the list of its elements and their number, and for the
element at an index.

All of them walk along the chain, and each looks at the end of the walk in its own way. What they
have in common is that a walk past the elements of a chain leaves its end (`Walk.yields_run`).

## Main results

* `existsUnique_linked`: every value is a chain of unique elements and a unique end.
* `Walk.yields_run`: what the walk that the operations make hands out, and where it ends.
* `list_operations_agree`: what each operation answers, from the elements and the end.
-/

namespace MiniScheme.Value

/-! ## Taking values apart -/

/-- Whether a value is a pair. -/
def isPair : Value → Bool
  | .pair _ _ _ => true
  | _ => false

/-- The chain of the given elements, each with the identity of its pair, and the given end. -/
def linked : List (Value × Nat) → Value → Value
  | [], last => last
  | (v, id) :: cells, last => .pair id v (linked cells last)

/-- The elements along the chain of pairs, each with the identity of its pair. -/
def cells : Value → List (Value × Nat)
  | .pair id car cdr => (car, id) :: cdr.cells
  | _ => []

/-- A chain that is built has consecutive identities. -/
theorem chain_eq_linked (vs : List Value) (last : Value) :
    ∀ id, chain id vs last = linked (vs.zipIdx id) last := by
  induction vs with
  | nil => exact fun _ => rfl
  | cons v vs ih =>
      intro id
      rw [chain, ih, List.zipIdx_cons, linked]

theorem isPair_tail (v : Value) : v.tail.isPair = false := by
  induction v with
  | pair id car cdr _ ihCdr => exact ihCdr
  | _ => rfl

theorem linked_cells (v : Value) : linked v.cells v.tail = v := by
  induction v with
  | pair id car cdr _ ihCdr => rw [cells, tail, linked, ihCdr]
  | _ => rfl

theorem items_eq_map_cells (v : Value) : v.items = v.cells.map Prod.fst := by
  induction v with
  | pair id car cdr _ ihCdr => rw [items, cells, ihCdr, List.map_cons]
  | _ => rfl

/-- What is no pair is the end of an empty chain. -/
theorem parts_of_not_pair {v : Value} (h : v.isPair = false) : v.cells = [] ∧ v.tail = v := by
  cases v with
  | pair id car cdr => cases h
  | _ => exact ⟨rfl, rfl⟩

section Linked

variable {tail : Value} (hTail : tail.isPair = false) (cells : List (Value × Nat))

include hTail

theorem cells_linked : (linked cells tail).cells = cells := by
  induction cells with
  | nil => exact (parts_of_not_pair hTail).1
  | cons cell cells ih => rw [linked, Value.cells, ih]

theorem tail_linked : (linked cells tail).tail = tail := by
  induction cells with
  | nil => exact (parts_of_not_pair hTail).2
  | cons cell cells ih => rw [linked, Value.tail, ih]

theorem items_linked : (linked cells tail).items = cells.map Prod.fst := by
  rw [items_eq_map_cells, cells_linked hTail]

end Linked

/-- A value is put together from one sequence of cells and one end. -/
theorem existsUnique_linked (v : Value) : ∃! parts : List (Value × Nat) × Value,
    parts.2.isPair = false ∧ linked parts.1 parts.2 = v := by
  refine ⟨(v.cells, v.tail), ⟨v.isPair_tail, v.linked_cells⟩, ?_⟩
  rintro ⟨cells, tail⟩ ⟨hTail, rfl⟩
  rw [cells_linked hTail, tail_linked hTail]

/-! ## Walks -/

namespace Walk

/-- From one walk the given elements come, in order, and then it has become the other. -/
inductive Yields : Walk → List Value → Walk → Prop where
  | done (w : Walk) : Yields w [] w
  | next {w w' u : Walk} {v : Value} {vs : List Value} (hNext : w.next? = some (v, w'))
      (rest : Yields w' vs u) : Yields w (v :: vs) u

/-- Past the first pair, what is ahead is what that pair left. -/
theorem yields_self (v : Value) : Yields ⟨v, v⟩ v.items ⟨v.tail, v.tail⟩ := by
  induction v with
  | pair id car cdr _ ihCdr => exact .next rfl ihCdr
  | _ => exact .done _

theorem next?_of_not_pair {w : Walk} (h : w.ahead.isPair = false) : w.next? = none := by
  obtain ⟨ahead, rest⟩ := w
  cases ahead with
  | pair id car cdr => cases h
  | _ => rfl

/-- The walk along a chain meets its elements and no more, and what is left then is its end. -/
theorem yields_run (id : Nat) (car cdr : Value) : ∃ w,
    (start id car cdr).run = ((Value.pair id car cdr).items, w) ∧
      (start id car cdr).Yields (Value.pair id car cdr).items w ∧
      w.next? = none ∧ w.rest = (Value.pair id car cdr).tail :=
  ⟨⟨cdr.tail, cdr.tail⟩, run_start id car cdr, .next rfl (yields_self cdr),
    next?_of_not_pair cdr.isPair_tail, rfl⟩

end Walk

/-! ## Operations -/

theorem isNil_iff (v : Value) : v.isNil = true ↔ v = .nil := by
  cases v <;> simp [isNil]

theorem isProperList_iff (v : Value) : v.isProperList = true ↔ v.tail = .nil := by
  rw [isProperList_eq, isNil_iff]

/-- The elements and their number are given together or refused together. -/
theorem listElements_and_listLength (v : Value) :
    (v.tail = .nil → v.listElements = .ok v.items ∧ v.listLength = .ok v.items.length) ∧
    (v.tail ≠ .nil → v.listElements = .error (.improperList v.render) ∧
      v.listLength = .error (.improperList v.render)) := by
  rw [Ne, ← isProperList_iff, listElements_eq, listLength_eq]
  exact ⟨fun hProper => ⟨if_pos hProper, if_pos hProper⟩, fun hNot => ⟨if_neg hNot, if_neg hNot⟩⟩

/-- The indices at which a chain with the given elements and end is looked into: all of a proper
list, and only the first of any other. -/
def HasIndex (items : List Value) (tail : Value) (index : Int) : Prop :=
  0 ≤ index ∧ index < items.length ∧ (tail = .nil ∨ index = 0)

/-- Without a pair there is no element, whatever the index. -/
theorem listRef_of_not_pair {v : Value} (h : v.isPair = false) (index : Int) :
    v.listRef index = if v.isNil then .error (.indexOutOfRange index)
      else .error (.typeMismatch v.render .list) := by
  cases v with
  | pair id car cdr => cases h
  | _ => rfl

theorem listRef_pair_of_ne_zero (id : Nat) (car cdr : Value) {index : Int} (h : index ≠ 0) :
    (Value.pair id car cdr).listRef index =
      if index < 0 ∨ (Value.pair id car cdr).isProperList = false then
        .error (.indexOutOfRange index)
      else
        (Value.pair id car cdr).items[index.toNat]?.elim (.error (.indexOutOfRange index)) .ok := by
  rw [listRef, if_neg h, Walk.nth?_start]
  cases (Value.pair id car cdr).items[index.toNat]? <;> rfl

/-- With a pair there is an element at every index that the chain has, and at no other. -/
theorem listRef_pair (id : Nat) (car cdr : Value) (index : Int) :
    let v := Value.pair id car cdr
    (HasIndex v.items v.tail index →
      ∃ element, v.items[index.toNat]? = some element ∧ v.listRef index = .ok element) ∧
    (¬HasIndex v.items v.tail index → v.listRef index = .error (.indexOutOfRange index)) := by
  intro v
  by_cases hZero : index = 0
  · subst hZero
    refine ⟨fun _ => ⟨car, rfl, rfl⟩, fun hNot => absurd ⟨Int.le_refl 0, ?_, .inr rfl⟩ hNot⟩
    exact Int.ofNat_lt.2 (Nat.succ_pos cdr.items.length)
  have hRef := listRef_pair_of_ne_zero id car cdr hZero
  by_cases hOut : index < 0 ∨ v.isProperList = false
  · rw [if_pos hOut] at hRef
    refine ⟨fun hIndex => ?_, fun _ => hRef⟩
    obtain ⟨hLow, _, hNil | hFirst⟩ := hIndex
    · rcases hOut with hNegative | hImproper
      · exact absurd hLow (Int.not_le.2 hNegative)
      · rw [v.isProperList_iff.2 hNil] at hImproper
        cases hImproper
    · exact absurd hFirst hZero
  · rw [if_neg hOut] at hRef
    have hLow : 0 ≤ index := Int.not_lt.1 fun hNegative => hOut (.inl hNegative)
    have hNil : v.tail = .nil :=
      v.isProperList_iff.1 (Bool.not_eq_false _ ▸ fun hImproper => hOut (.inr hImproper))
    have hCount : HasIndex v.items v.tail index ↔ index.toNat < v.items.length := by
      refine ⟨fun hIndex => ?_, fun hLt => ⟨hLow, ?_, .inl hNil⟩⟩
      · have hHigh := hIndex.2.1
        omega
      · omega
    rw [hCount]
    refine ⟨fun hLt => ⟨v.items[index.toNat], List.getElem?_eq_getElem hLt, ?_⟩, fun hGe => ?_⟩
    · rw [List.getElem?_eq_getElem hLt] at hRef
      exact hRef
    · rw [List.getElem?_eq_none (Nat.not_lt.1 hGe)] at hRef
      exact hRef

/-- What the element at an index is, for any value. -/
theorem listRef_cases (v : Value) (index : Int) :
    (HasIndex v.items v.tail index →
      ∃ element, v.items[index.toNat]? = some element ∧ v.listRef index = .ok element) ∧
    (v.items = [] ∧ v.tail ≠ .nil → v.listRef index = .error (.typeMismatch v.render .list)) ∧
    (¬HasIndex v.items v.tail index → ¬(v.items = [] ∧ v.tail ≠ .nil) →
      v.listRef index = .error (.indexOutOfRange index)) := by
  cases hPair : v.isPair with
  | true =>
      cases v with
      | pair id car cdr =>
          obtain ⟨hInside, hOutside⟩ := listRef_pair id car cdr index
          exact ⟨hInside, fun hEmpty => absurd hEmpty.1 (List.cons_ne_nil _ _),
            fun hNot _ => hOutside hNot⟩
      | _ => cases hPair
  | false =>
      obtain ⟨hCells, hTail⟩ := parts_of_not_pair hPair
      have hItems : v.items = [] := by rw [items_eq_map_cells, hCells, List.map_nil]
      rw [hItems, hTail, listRef_of_not_pair hPair]
      refine ⟨fun hIndex => ?_, fun hEmpty => ?_, fun _ hNot => ?_⟩
      · have hHigh : index < (0 : Nat) := hIndex.2.1
        exact absurd hIndex.1 (Int.not_le.2 hHigh)
      · exact if_neg (mt v.isNil_iff.1 hEmpty.2)
      · exact if_pos (v.isNil_iff.2 (Classical.byContradiction fun hNe => hNot ⟨rfl, hNe⟩))

/-- The list operations agree on what a list is. Every value is the chain of unique elements and a
unique end that is no pair, and a chain that is built from elements and an end is that chain. For
the chain of some elements and an end that is no pair,

* a walk along it yields exactly the elements, in order, and leaves the end;
* it is a proper list if and only if the end is the empty list;
* of a proper list, the elements and their number are given; for any other chain both are refused,
  with the text of the value;
* the element at an index is given if there is one, and, unless the end is the empty list, only at
  the first index; what is neither a pair nor the empty list is refused as no list, and any other
  index as out of range. -/
theorem list_operations_agree :
    (∀ v : Value, ∃! parts : List (Value × Nat) × Value,
      parts.2.isPair = false ∧ linked parts.1 parts.2 = v) ∧
    (∀ id items tail, chain id items tail = linked (items.zipIdx id) tail) ∧
    ∀ (cells : List (Value × Nat)) (tail : Value), tail.isPair = false →
      let items := cells.map Prod.fst
      let v := linked cells tail
      (∀ id car cdr, v = .pair id car cdr → ∃ w, (Walk.start id car cdr).run = (items, w) ∧
        (Walk.start id car cdr).Yields items w ∧ w.next? = none ∧ w.rest = tail) ∧
      (v.isProperList = true ↔ tail = .nil) ∧
      (tail = .nil → v.listElements = .ok items ∧ v.listLength = .ok items.length) ∧
      (tail ≠ .nil → v.listElements = .error (.improperList v.render) ∧
        v.listLength = .error (.improperList v.render)) ∧
      ∀ index : Int,
        (HasIndex items tail index →
          ∃ element, items[index.toNat]? = some element ∧ v.listRef index = .ok element) ∧
        (items = [] ∧ tail ≠ .nil →
          v.listRef index = .error (.typeMismatch v.render .list)) ∧
        (¬HasIndex items tail index → ¬(items = [] ∧ tail ≠ .nil) →
          v.listRef index = .error (.indexOutOfRange index)) := by
  refine ⟨existsUnique_linked, fun id items tail => chain_eq_linked items tail id, ?_⟩
  intro cells tail hTail items v
  have hItems : v.items = items := items_linked hTail cells
  have hEnd : v.tail = tail := tail_linked hTail cells
  clear_value items v
  subst hItems hEnd
  obtain ⟨hProper, hImproper⟩ := v.listElements_and_listLength
  refine ⟨?_, v.isProperList_iff, hProper, hImproper, v.listRef_cases⟩
  rintro id car cdr rfl
  exact Walk.yields_run id car cdr

/-- A chain of two elements that ends in a boolean has its first element and no other. -/
theorem operations_on_dotted_list :
    let one : Value := .number (.integer 1)
    let two : Value := .number (.integer 2)
    let v := Value.pair 4 one (.pair 9 two (.boolean true))
    (∃ w, (Walk.start 4 one (.pair 9 two (.boolean true))).Yields [one, two] w ∧
        w.rest = .boolean true) ∧
      v.listElements = .error (.improperList "(1 2 . #t)") ∧
      v.listLength = .error (.improperList "(1 2 . #t)") ∧
      v.listRef 0 = .ok one ∧ v.listRef 1 = .error (.indexOutOfRange 1) := by
  intro one two v
  obtain ⟨_, _, hOperations⟩ := list_operations_agree
  obtain ⟨hWalk, _, _, hImproper, hRef⟩ := hOperations [(one, 4), (two, 9)] (.boolean true) rfl
  have hText : v.render = "(1 2 . #t)" := by decide +kernel
  obtain ⟨w, _, hYields, _, hRest⟩ := hWalk 4 one (.pair 9 two (.boolean true)) rfl
  obtain ⟨element, hElement, hFirst⟩ := (hRef 0).1 ⟨by decide, by decide, .inr rfl⟩
  obtain rfl : one = element := Option.some.inj hElement
  obtain ⟨hElements, hLength⟩ := hImproper (by simp)
  rw [← hText]
  refine ⟨⟨w, hYields, hRest⟩, hElements, hLength, hFirst, (hRef 1).2.2 ?_ (by simp)⟩
  rintro ⟨_, _, hNil | hZero⟩
  · cases hNil
  · cases hZero

end MiniScheme.Value
