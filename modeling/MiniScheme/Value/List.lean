import MiniScheme.Value

/-!
# Lists

Every value is a chain of pairs, possibly empty, that ends in something that is not a pair: the
elements `items` and the end `tail`. A proper list is a chain that ends in `nil`. The other way
round, `Value.chain` builds the chain of given elements and end; its pairs take consecutive
identities from a given one on, the first pair the first of them.

The operations on lists go along a chain with a `Walk`, which hands out one element at a time. What
the chain ends in is known only when the walk is over, so each operation that needs a proper list
goes to the end before it answers.
-/

namespace MiniScheme.Value

/-! ## Chains -/

/-- The elements along the chain of pairs. -/
def items : Value → List Value
  | .pair _ car cdr => car :: cdr.items
  | _ => []

/-- What the chain of pairs ends in. -/
def tail : Value → Value
  | .pair _ _ cdr => cdr.tail
  | v => v

/-- Whether a value is the empty list. -/
def isNil : Value → Bool
  | .nil => true
  | _ => false

/-- The chain of the given elements and end, with identities from `id` on. -/
def chain (id : Nat) : List Value → Value → Value
  | [], last => last
  | v :: vs, last => .pair id v (chain (id + 1) vs last)

@[simp]
theorem items_chain (id : Nat) (vs : List Value) (last : Value) :
    (chain id vs last).items = vs ++ last.items := by
  induction vs generalizing id with
  | nil => rfl
  | cons v vs ih => simp [chain, items, ih]

@[simp]
theorem tail_chain (id : Nat) (vs : List Value) (last : Value) :
    (chain id vs last).tail = last.tail := by
  induction vs generalizing id with
  | nil => rfl
  | cons v vs ih => simp [chain, tail, ih]

/-! ## Walks -/

/-- A walk along a chain: what it comes to next, and what the pair that it has come from, or else
the pair that it starts at, has behind it. -/
structure Walk where
  ahead : Value
  rest : Value

namespace Walk

/-- The walk that starts at a pair. -/
def start (id : Nat) (car cdr : Value) : Walk := ⟨.pair id car cdr, cdr⟩

/-- The next element and the walk past it; there is none where no pair is ahead. -/
def next? (w : Walk) : Option (Value × Walk) :=
  match w.ahead with
  | .pair _ car cdr => some (car, ⟨cdr, cdr⟩)
  | _ => none

/-- The element after so many others. -/
def nth? : Nat → Walk → Option Value
  | 0, w => w.next?.map Prod.fst
  | n + 1, w => w.next?.bind fun next => nth? n next.2

/-- Walks to the end; `done` holds the elements met before, the last one first. -/
def runFrom (done : List Value) : Value → Value → List Value × Walk
  | .pair _ car cdr, _ => runFrom (car :: done) cdr cdr
  | ahead, rest => (done.reverse, ⟨ahead, rest⟩)

/-- All elements that a walk meets, in order, and the walk at its end. -/
def run (w : Walk) : List Value × Walk := runFrom [] w.ahead w.rest

theorem runFrom_self (v : Value) :
    ∀ done, runFrom done v v = (done.reverse ++ v.items, ⟨v.tail, v.tail⟩) := by
  induction v with
  | pair id car cdr _ ihCdr =>
      intro done
      rw [runFrom, ihCdr, items, tail, List.reverse_cons, List.append_assoc, List.singleton_append]
  | _ => simp [runFrom, items, tail]

theorem run_start (id : Nat) (car cdr : Value) :
    (start id car cdr).run = (car :: cdr.items, ⟨cdr.tail, cdr.tail⟩) :=
  runFrom_self cdr [car]

theorem nth?_eq (n : Nat) : ∀ w : Walk, w.nth? n = w.ahead.items[n]? := by
  induction n with
  | zero =>
      rintro ⟨ahead, rest⟩
      cases ahead <;> rfl
  | succ n ih =>
      rintro ⟨ahead, rest⟩
      cases ahead with
      | pair id car cdr => exact ih ⟨cdr, cdr⟩
      | _ => rfl

theorem nth?_start (n id : Nat) (car cdr : Value) :
    (start id car cdr).nth? n = (Value.pair id car cdr).items[n]? :=
  nth?_eq n (start id car cdr)

end Walk

/-! ## Operations -/

/-- A proper list ends in `nil`. -/
def isProperList : Value → Bool
  | .nil => true
  | .pair id car cdr => (Walk.start id car cdr).run.2.rest.isNil
  | _ => false

/-- The elements of a proper list. -/
def listElements (v : Value) : Except Cause (List Value) :=
  match v with
  | .nil => .ok []
  | .pair id car cdr =>
      let walk := (Walk.start id car cdr).run
      if walk.2.rest.isNil then .ok walk.1 else .error (.improperList v.render)
  | other => .error (.improperList other.render)

/-- The number of elements of a proper list. -/
def listLength (v : Value) : Except Cause Nat :=
  match v with
  | .nil => .ok 0
  | .pair id car cdr =>
      let walk := (Walk.start id car cdr).run
      if walk.2.rest.isNil then .ok walk.1.length else .error (.improperList v.render)
  | other => .error (.improperList other.render)

/-- The element at an index, counted from zero. A chain that is not a proper list has only its
first element. -/
def listRef (v : Value) (index : Int) : Except Cause Value :=
  match v with
  | .pair id car cdr =>
      if index = 0 then .ok car
      else if index < 0 ∨ v.isProperList = false then .error (.indexOutOfRange index)
      else
        match (Walk.start id car cdr).nth? index.toNat with
        | some element => .ok element
        | none => .error (.indexOutOfRange index)
  | .nil => .error (.indexOutOfRange index)
  | other => .error (.typeMismatch other.render .list)

theorem isProperList_eq (v : Value) : v.isProperList = v.tail.isNil := by
  cases v with
  | pair id car cdr => rw [isProperList, Walk.run_start, tail]
  | _ => rfl

theorem listElements_eq (v : Value) : v.listElements =
    if v.isProperList then .ok v.items else .error (.improperList v.render) := by
  cases v with
  | pair id car cdr => simp only [listElements, isProperList, Walk.run_start, items]
  | _ => rfl

theorem listElements_chain (id : Nat) (vs : List Value) :
    (chain id vs .nil).listElements = .ok vs := by
  rw [listElements_eq, isProperList_eq, tail_chain, items_chain]
  exact congrArg Except.ok (List.append_nil vs)

theorem listLength_eq (v : Value) : v.listLength =
    if v.isProperList then .ok v.items.length else .error (.improperList v.render) := by
  cases v with
  | pair id car cdr => simp only [listLength, isProperList, Walk.run_start, items]
  | _ => rfl

end MiniScheme.Value
