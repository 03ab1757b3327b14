import MiniScheme.Formals
import MiniScheme.Number

/-!
# Built-in procedures

The names of the built-in procedures and the parameters they declare. What they compute is in
`MiniScheme.Builtin.Apply`.
-/

namespace MiniScheme

/-- The built-in procedures. -/
inductive Builtin where
  | add
  | sub
  | mul
  | div
  | compare (comparison : Number.Comparison)
  | equal
  | not
  | car
  | cdr
  | isList
  | length
  | listRef
  | append
  deriving DecidableEq, Repr

namespace Builtin

/-- All built-in procedures. -/
def all : List Builtin :=
  [.add, .sub, .mul, .div, .compare .greater, .compare .greaterEqual, .compare .less,
    .compare .lessEqual, .equal, .not, .car, .cdr, .isList, .length, .listRef, .append]

/-- The name that the built-in procedure is bound to. -/
def name : Builtin → String
  | .add => "+"
  | .sub => "-"
  | .mul => "*"
  | .div => "/"
  | .compare .greater => ">"
  | .compare .greaterEqual => ">="
  | .compare .less => "<"
  | .compare .lessEqual => "<="
  | .equal => "equal?"
  | .not => "not"
  | .car => "car"
  | .cdr => "cdr"
  | .isList => "list?"
  | .length => "length"
  | .listRef => "list-ref"
  | .append => "append"

/-- The parameters that the built-in procedure declares. -/
def formals : Builtin → Formals
  | .add => ⟨[], some "x"⟩
  | .sub => ⟨["x1"], some "x"⟩
  | .mul => ⟨[], some "x"⟩
  | .div => ⟨["x1"], some "x"⟩
  | .compare _ => ⟨[], some "x"⟩
  | .equal => ⟨[], some "obj"⟩
  | .not => ⟨["obj"], none⟩
  | .car => ⟨["pair"], none⟩
  | .cdr => ⟨["pair"], none⟩
  | .isList => ⟨["obj"], none⟩
  | .length => ⟨["list"], none⟩
  | .listRef => ⟨["list", "k"], none⟩
  | .append => ⟨[], some "lists"⟩

/-- The built-in procedure of the given name. -/
def ofName? (name : String) : Option Builtin :=
  all.find? fun builtin => builtin.name == name

theorem ofName?_name (b : Builtin) : ofName? b.name = some b := by
  cases b with
  | compare comparison => cases comparison <;> decide
  | _ => decide

theorem name_of_ofName? {name : String} {b : Builtin} (h : ofName? name = some b) :
    b.name = name := by
  simpa using List.find?_some h

/-- The printed form of a built-in procedure. -/
def render (b : Builtin) : String := "<builtin procedure " ++ b.name ++ ">"

end Builtin

end MiniScheme
