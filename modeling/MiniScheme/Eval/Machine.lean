import MiniScheme.Heap
import MiniScheme.Value.List
import MiniScheme.Builtin.Apply

/-!
# Steps of evaluation

Evaluation reads and changes a machine: the heap, and a counter of the procedure bodies that are
active. A step ends with a value, with an error, or, where it was given too little fuel, with
neither; whatever the end, the machine is left as it was then. Nothing is rolled back.

`Eval.nested` is the one place where the counter changes. It raises the counter for the time of
a procedure body and lowers it again on every way out, and it refuses a body that would be one
too many.
-/

namespace MiniScheme

/-- The heap and the number of procedure bodies that are active. -/
structure Machine where
  heap : Heap
  depth : Nat

/-- Why a step gave no value. -/
inductive Stop where
  | error (error : Error)
  /-- The fuel did not suffice to tell. -/
  | exhausted

/-- A step of evaluation, with a result of type `α`. -/
abbrev Eval (α : Type) := EStateM Stop Machine α

namespace Eval

/-- Fails with a cause that has no place yet. -/
def fail {α : Type} (cause : Cause) : Eval α :=
  throw (.error (.bare cause))

/-- The result of a computation that can fail. -/
def ofExcept {α : Type} : Except Cause α → Eval α
  | .ok a => pure a
  | .error cause => fail cause

/-- Gives an error a place unless it has one. -/
def locate {α : Type} (location : Option Location) (step : Eval α) : Eval α := fun m =>
  match step m with
  | .error (.error e) m' => .error (.error (e.orAt location)) m'
  | result => result

/-- An identity that was not given out before. -/
def freshId : Eval Nat := fun m =>
  .ok m.heap.nextId { m with heap := { m.heap with nextId := m.heap.nextId + 1 } }

/-- A new pair. -/
def cons (car cdr : Value) : Eval Value := do
  let id ← freshId
  pure (.pair id car cdr)

/-- A new chain of pairs. -/
def chain (items : List Value) (last : Value) : Eval Value := fun m =>
  let id := m.heap.nextId
  .ok (.chain id items last) { m with heap := { m.heap with nextId := id + items.length } }

/-- A new procedure that keeps frame `env`. -/
def closure (code : Lambda) (env : FrameId) : Eval Value := do
  let id ← freshId
  pure (.procedure (.closure id code env))

/-- A new empty frame below `parent`. -/
def newChild (parent : FrameId) : Eval FrameId := fun m =>
  let next := m.heap.newChild parent
  .ok next.1 { m with heap := next.2 }

/-- Binds a name in frame `env`. -/
def define (env : FrameId) (name : String) (value : Value) : Eval Unit := fun m =>
  .ok () { m with heap := m.heap.define env name value }

/-- Binds several names in frame `env`. -/
def defineAll (env : FrameId) (entries : List (String × Value)) : Eval Unit := fun m =>
  .ok () { m with heap := m.heap.defineAll env entries }

/-- The value of a name as seen from frame `env`. -/
def lookup (env : FrameId) (name : String) : Eval Value := fun m =>
  ofExcept (m.heap.lookup env name) m

/-- Gives a name a new value in the nearest frame that binds it. -/
def set (env : FrameId) (name : String) (value : Value) : Eval Unit := fun m =>
  match m.heap.set env name value with
  | .ok heap => .ok () { m with heap := heap }
  | .error cause => fail cause m

/-- Removes a definition of frame `env` and returns the value it had. -/
def delete (env : FrameId) (name : String) : Eval Value := fun m =>
  match m.heap.delete env name with
  | .ok (v, heap) => .ok v { m with heap := heap }
  | .error cause => fail cause m

/-- The value of a built-in procedure. -/
def callBuiltin (b : Builtin) (args : List Value) : Eval Value := fun m =>
  match b.apply args m.heap.nextId with
  | .ok (v, id) => .ok v { m with heap := { m.heap with nextId := id } }
  | .error cause => fail cause m

/-- Whether one more procedure body may become active. -/
def admits (limit : Option Nat) (depth : Nat) : Bool :=
  limit.all fun most => depth < most

/-- A machine with one procedure body more that is active. -/
def enter (m : Machine) : Machine := { m with depth := m.depth + 1 }

/-- A machine with one procedure body less that is active. -/
def leave (m : Machine) : Machine := { m with depth := m.depth - 1 }

/-- Runs a procedure body, if the limit admits one more. The counter is lowered again whether
the body ends with a value or an error. -/
def nested {α : Type} (limit : Option Nat) (body : Eval α) : Eval α := fun m =>
  if admits limit m.depth then
    match body (enter m) with
    | .ok a m' => .ok a (leave m')
    | .error stop m' => .error stop (leave m')
  else fail (.depthExceeded (limit.getD 0)) m

end Eval

end MiniScheme
