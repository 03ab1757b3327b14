import MiniScheme.Value.List

/-!
# What the built-in procedures compute

Arguments are looked at from left to right, and the first one that does not fit decides the
error. The procedures check their number of arguments themselves; the names in that error are
`x1`, `x2`, … whatever the declared parameters are called, except for `-` and `/`.

Of all built-in procedures only `append` makes pairs. The second result is the first identity
that has not been given out.
-/

namespace MiniScheme.Builtin

/-- Combines numbers from left to right. -/
def fold (op : Number → Number → Except Cause Number) (start : Number) :
    List Value → Except Cause Number
  | [] => .ok start
  | v :: vs => do
      let n ← v.asNumber
      let next ← op start n
      fold op next vs

/-- A difference or quotient: of the first argument and the others, or, of a lone argument, of
`unit` and it. -/
def foldFrom (op : Number → Number → Except Cause Number) (unit : Number) :
    List Value → Except Cause Number
  | [] => .error (.argumentMismatch ⟨["x1"], some "x"⟩ 0)
  | [v] => do op unit (← v.asNumber)
  | v :: vs => do fold op (← v.asNumber) vs

/-- Whether each number stands in the relation to the next; what comes after the first that does
not is not looked at. -/
def chained (comparison : Number.Comparison) (previous : Number) :
    List Value → Except Cause Bool
  | [] => .ok true
  | v :: vs => do
      let n ← v.asNumber
      if Number.holds comparison previous n then chained comparison n vs else .ok false

/-- A chained comparison; of no arguments and of one number it holds. -/
def compareAll (comparison : Number.Comparison) : List Value → Except Cause Bool
  | [] => .ok true
  | v :: vs => do chained comparison (← v.asNumber) vs

/-- Whether each value is equal to the next. -/
def allSame : List Value → Bool
  | v :: w :: vs => v.same w && allSame (w :: vs)
  | _ => true

/-- The names `x1`, `x2`, … of as many parameters. -/
def numbered (count : Nat) : Formals :=
  ⟨(List.range count).map fun n => "x" ++ (n + 1).repr, none⟩

/-- The arguments, if there are exactly `n` of them. -/
def exactly (n : Nat) (args : List Value) : Except Cause (Vector Value n) :=
  if h : args.length = n then .ok ⟨args.toArray, h⟩
  else .error (.argumentMismatch (numbered n) args.length)

/-- The elements of several proper lists, in order. -/
def concat : List Value → Except Cause (List Value)
  | [] => .ok []
  | v :: vs => do
      let elements ← v.listElements
      let others ← concat vs
      .ok (elements ++ others)

/-- The outcome of a procedure that makes no pairs, and so leaves the next identity alone. -/
def withoutPairs (id : Nat) (outcome : Except Cause Value) : Except Cause (Value × Nat) :=
  outcome.map fun v => (v, id)

/-- Applies a built-in procedure, with identities from `id` on for the pairs it makes. -/
def apply (b : Builtin) (args : List Value) (id : Nat) : Except Cause (Value × Nat) :=
  match b with
  | .add => withoutPairs id ((fold Number.add (.integer 0) args).map .number)
  | .sub => withoutPairs id ((foldFrom Number.sub (.integer 0) args).map .number)
  | .mul => withoutPairs id ((fold Number.mul (.integer 1) args).map .number)
  | .div => withoutPairs id ((foldFrom Number.div (.integer 1) args).map .number)
  | .compare comparison => withoutPairs id ((compareAll comparison args).map .boolean)
  | .equal => withoutPairs id (.ok (.boolean (allSame args)))
  | .not => withoutPairs id ((exactly 1 args).map fun vs =>
      .boolean (vs.get ⟨0, Nat.one_pos⟩).isFalse)
  | .car => withoutPairs id do
      let vs ← exactly 1 args
      .ok (← (vs.get ⟨0, Nat.one_pos⟩).asPair).1
  | .cdr => withoutPairs id do
      let vs ← exactly 1 args
      .ok (← (vs.get ⟨0, Nat.one_pos⟩).asPair).2
  | .isList => withoutPairs id ((exactly 1 args).map fun vs =>
      .boolean (vs.get ⟨0, Nat.one_pos⟩).isProperList)
  | .length => withoutPairs id do
      let vs ← exactly 1 args
      let count ← (vs.get ⟨0, Nat.one_pos⟩).listLength
      .ok (.number (.integer (Int64.ofNat count)))
  | .listRef => withoutPairs id do
      let vs ← exactly 2 args
      let index ← (vs.get ⟨1, Nat.one_lt_two⟩).asInteger
      (vs.get ⟨0, Nat.two_pos⟩).listRef index.toInt
  | .append => (concat args).map fun elements =>
      (.chain id elements .nil, id + elements.length)

end MiniScheme.Builtin
