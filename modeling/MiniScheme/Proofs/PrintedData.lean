import MiniScheme.Proofs.PrintedExpr
import MiniScheme.Proofs.StructuralEquality

/-!
# Printed data are read back

A value without procedures in it is printed as an expression: numbers as they are, booleans and
the empty list as symbols, a chain of pairs as a list. The printer never builds that expression. It
runs along a chain and goes into the first parts on the way, so the structure of the value is in
the text only as parentheses, spaces and dots. `Value.quoted` is the expression, and its printed
form is the printed form of the value (`Value.render_quoted`).

The rest is for the reader. What `quoted` builds can be written, so the reader finds it again, up
to places. `Expr.datum?` turns an expression back into a value, and the value that comes out is the
one that was printed, with new pairs. So nothing is lost in printing but the identities of pairs.

## Main results

* `Value.render_quoted`: printing a value is printing its expression.
* `Value.datum?_quoted_and_tail`: the expression denotes the value.
* `Value.printed_data_is_unambiguous`: printed data are read back, and two data print alike only if
  they are the same but for the identities of pairs.
-/

namespace MiniScheme

/-! ## Expressions that denote values -/

/-- The value that a symbol stands for by itself. -/
def Value.ofLiteral? (name : String) : Option Value :=
  if name = "#t" then some (.boolean true)
  else if name = "#f" then some (.boolean false)
  else if name = "nil" then some .nil
  else none

namespace Expr

/-- Whether an expression is the symbol that announces the last tail of a chain. -/
def isDot (e : Expr) : Bool := e.name? == some "."

mutual

/-- The value that an expression denotes, if it is not to be evaluated. A list is a chain of pairs,
all of them new; pairs that are yet to be made have the identity zero. -/
def datum? : Expr → Option Value
  | .number _ n => some (.number n)
  | .symbol _ name => Value.ofLiteral? name
  | .list _ items => datumItems? items

/-- The chain that the elements of a list denote. A dot announces its last tail. -/
def datumItems? : List Expr → Option Value
  | [] => some .nil
  | e :: es =>
      if e.isDot then datumLast? es else do return .pair 0 (← e.datum?) (← datumItems? es)

/-- What stands after a dot is one expression. -/
def datumLast? : List Expr → Option Value
  | [last] => last.datum?
  | _ => none

end

/-- A dot denotes nothing by itself. -/
theorem isDot_of_datum? {e : Expr} {v : Value} (h : e.datum? = some v) : e.isDot = false := by
  cases e with
  | number l n => rfl
  | list l items => rfl
  | symbol l name =>
      by_contra hDot
      obtain rfl : name = "." := by simpa [isDot, name?] using hDot
      rw [datum?] at h
      cases h

theorem datumItems?_cons {e : Expr} {es : List Expr} {v w : Value} (he : e.datum? = some v)
    (hes : datumItems? es = some w) : datumItems? (e :: es) = some (.pair 0 v w) := by
  rw [datumItems?, if_neg (by simp [isDot_of_datum? he]), he, hes]
  rfl

theorem isDot_eq_of_relaid {e e' : Expr} (h : e.Relaid e') : e.isDot = e'.isDot := by
  cases h <;> rfl

theorem datumItems?_congr {es es' : List Expr}
    (h : List.Forall₂ (fun e e' => e.isDot = e'.isDot ∧ e.datum? = e'.datum?) es es') :
    datumItems? es = datumItems? es' := by
  induction h with
  | nil => rfl
  | @cons e e' es es' hHead hTail ih =>
      have hLast : datumLast? es = datumLast? es' := by
        rcases hTail with _ | ⟨hLast, _ | _⟩
        · rfl
        · rw [datumLast?, datumLast?, hLast.2]
        · rfl
      rw [datumItems?, datumItems?, hHead.1, hHead.2, hLast, ih]

/-- Places do not matter for what an expression denotes. -/
theorem datum?_eq_of_relaid {e : Expr} : ∀ {e' : Expr}, e.Relaid e' → e.datum? = e'.datum? := by
  induction e using Expr.induction with
  | number l n =>
      intro e' h
      cases h
      rfl
  | symbol l name =>
      intro e' h
      cases h
      rfl
  | list l items ih =>
      intro e' h
      cases h with
      | list _ hItems =>
          rw [datum?, datum?]
          exact datumItems?_congr (forall₂_imp_of_mem hItems fun e he e' hAlike =>
            ⟨isDot_eq_of_relaid hAlike, ih e he hAlike⟩)

end Expr

namespace Value

/-! ## The expression that is printed -/

/-- Whether no procedure occurs. -/
def isData : Value → Bool
  | .pair _ car cdr => car.isData && cdr.isData
  | .procedure _ => false
  | _ => true

mutual

/-- The expression with the same printed form. -/
def quoted : Value → Expr
  | .number n => .number none n
  | .boolean b => .symbol none (renderBoolean b)
  | .nil => .symbol none "nil"
  | .pair _ car cdr => .list none (car.quoted :: cdr.quotedTail)
  | .procedure p => .symbol none p.render

/-- What follows the first element of a chain, element by element. -/
def quotedTail : Value → List Expr
  | .number n => [.symbol none ".", .number none n]
  | .boolean b => [.symbol none ".", .symbol none (renderBoolean b)]
  | .nil => []
  | .pair _ car cdr => car.quoted :: cdr.quotedTail
  | .procedure p => [.symbol none ".", .symbol none p.render]

end

theorem isData_pair {id : Nat} {car cdr : Value} :
    (Value.pair id car cdr).isData = true ↔ car.isData = true ∧ cdr.isData = true := by
  rw [isData, Bool.and_eq_true]

theorem renderItems_dotted (e e' : Expr) :
    Expr.renderItems [e, .symbol none ".", e'] ++ ")" =
      e.render ++ (" . " ++ e'.render ++ ")") := by
  rw [Expr.renderItems, Expr.renderItems, Expr.renderItems, Expr.render]
  simp only [String.append_assoc]
  rfl

/-- The printer, along a chain and into its elements, does what printing the expression would. -/
theorem render_quoted_and_tail (v : Value) :
    v.quoted.render = v.render ∧
      ∀ e, Expr.renderItems (e :: v.quotedTail) ++ ")" = e.render ++ v.renderTail := by
  induction v with
  | number n => exact ⟨rfl, fun e => renderItems_dotted e (.number none n)⟩
  | boolean b => exact ⟨rfl, fun e => renderItems_dotted e (.symbol none (renderBoolean b))⟩
  | nil => exact ⟨rfl, fun e => rfl⟩
  | procedure p => exact ⟨rfl, fun e => renderItems_dotted e (.symbol none p.render)⟩
  | pair id car cdr ihCar ihCdr =>
      -- The first part ends up in front of what the second part is printed as.
      have hItems := ihCdr.2 car.quoted
      rw [ihCar.1] at hItems
      constructor
      · rw [quoted, Expr.render, render, String.append_assoc, String.append_assoc, hItems]
      · intro e
        rw [quotedTail, Expr.renderItems, renderTail]
        rw [String.append_assoc, hItems, String.append_assoc, String.append_assoc]

/-- A value is printed as the expression that denotes it. -/
theorem render_quoted (v : Value) : v.quoted.render = v.render :=
  (render_quoted_and_tail v).1

/-- The identities of pairs are not printed. -/
theorem render_unshared_and_tail (v : Value) :
    v.unshared.render = v.render ∧ v.unshared.renderTail = v.renderTail := by
  induction v with
  | number n => exact ⟨rfl, rfl⟩
  | boolean b => exact ⟨rfl, rfl⟩
  | nil => exact ⟨rfl, rfl⟩
  | procedure p => exact ⟨rfl, rfl⟩
  | pair id car cdr ihCar ihCdr =>
      rw [unshared, render, render, renderTail, renderTail, ihCar.1, ihCdr.2]
      exact ⟨rfl, rfl⟩

/-! ## Reading it -/

/-- The symbols that data are printed with. -/
theorem readable_literal {name : String} (hName : name ∈ ["#t", "#f", "nil", "."]) :
    (Expr.symbol none name).Readable := by
  have hAll : ∀ name ∈ ["#t", "#f", "nil", "."],
      (Lexeme.atom name).IsProper ∧ Number.ofChars? name.toList = none := by
    decide +kernel
  exact .symbol none (hAll name hName).1 (hAll name hName).2

theorem readable_boolean (b : Bool) : (Expr.symbol none (renderBoolean b)).Readable := by
  cases b <;> exact readable_literal (by simp [renderBoolean])

theorem readable_dotted {e : Expr} (h : e.Readable) :
    ∀ e' ∈ [.symbol none ".", e], e'.Readable := by
  have hDot : (Expr.symbol none ".").Readable := readable_literal (by simp)
  simpa using ⟨hDot, h⟩

theorem readable_quoted_and_tail {v : Value} (h : v.isData = true) :
    v.quoted.Readable ∧ ∀ e ∈ v.quotedTail, e.Readable := by
  induction v with
  | number n => exact ⟨.number none n, readable_dotted (.number none n)⟩
  | boolean b => exact ⟨readable_boolean b, readable_dotted (readable_boolean b)⟩
  | nil => exact ⟨readable_literal (by simp), fun e he => absurd he List.not_mem_nil⟩
  | procedure p => cases h
  | pair id car cdr ihCar ihCdr =>
      have hItems : ∀ e ∈ car.quoted :: cdr.quotedTail, e.Readable :=
        List.forall_mem_cons.2 ⟨(ihCar (isData_pair.1 h).1).1, (ihCdr (isData_pair.1 h).2).2⟩
      exact ⟨.list none hItems, hItems⟩

theorem datum?_boolean (b : Bool) :
    (Expr.symbol none (renderBoolean b)).datum? = some (.boolean b) := by
  cases b <;> rfl

theorem datumItems?_dotted (e : Expr) :
    Expr.datumItems? [.symbol none ".", e] = e.datum? := by
  have hDot : (Expr.symbol none ".").isDot = true := by decide
  rw [Expr.datumItems?, if_pos hDot, Expr.datumLast?]

/-- The expression of a datum denotes it, but for the identities of pairs, and so do the items that
it is written as behind the first element of a list. -/
theorem datum?_quoted_and_tail {v : Value} (h : v.isData = true) :
    v.quoted.datum? = some v.unshared ∧ Expr.datumItems? v.quotedTail = some v.unshared := by
  induction v with
  | number n => exact ⟨rfl, datumItems?_dotted _⟩
  | boolean b => exact ⟨datum?_boolean b, (datumItems?_dotted _).trans (datum?_boolean b)⟩
  | nil => exact ⟨rfl, rfl⟩
  | procedure p => cases h
  | pair id car cdr ihCar ihCdr =>
      have hItems : Expr.datumItems? (car.quoted :: cdr.quotedTail) =
          some (.pair 0 car.unshared cdr.unshared) :=
        Expr.datumItems?_cons (ihCar (isData_pair.1 h).1).1 (ihCdr (isData_pair.1 h).2).2
      exact ⟨hItems, hItems⟩

/-- The printed form of a datum is one form, with no tokens left over, and it denotes the datum. -/
theorem exists_bracketing_render {v : Value} (h : v.isData = true) :
    ∃ e, Expr.Bracketing [e] (Token.scan v.render) ∧ e.datum? = some v.unshared := by
  obtain ⟨e, hSpelled, hRelaid⟩ := Expr.exists_bracketing_render (readable_quoted_and_tail h).1
  rw [render_quoted] at hSpelled
  exact ⟨e, hSpelled, Expr.datum?_eq_of_relaid hRelaid ▸ (datum?_quoted_and_tail h).1⟩

/-- A datum is printed as one expression that denotes it, and reading takes all of the text. So data
that are printed alike are the same, but for the identities of pairs. -/
theorem printed_data_is_unambiguous :
    (∀ v : Value, v.isData = true → ∃ e, Expr.ofSource v.render = .ok e ∧
      Expr.forms (Token.scan v.render) = [.ok e] ∧ e.datum? = some v.unshared) ∧
    ∀ v w : Value, v.isData = true → w.isData = true →
      (v.render = w.render ↔ v.unshared = w.unshared) := by
  constructor
  · intro v hv
    obtain ⟨e, hSpelled, hDatum⟩ := exists_bracketing_render hv
    exact ⟨e, Expr.ofSource_of_bracketing hSpelled, Expr.forms_eq_map_ok_iff.2 hSpelled, hDatum⟩
  · intro v w hv hw
    constructor
    · intro hText
      obtain ⟨e, hSpelled, hDatum⟩ := exists_bracketing_render hv
      obtain ⟨e', hSpelled', hDatum'⟩ := exists_bracketing_render hw
      rw [← hText] at hSpelled'
      have hRead : Except.ok e = Except.ok e' :=
        (Expr.ofSource_of_bracketing hSpelled).symm.trans (Expr.ofSource_of_bracketing hSpelled')
      cases hRead
      exact Option.some.inj (hDatum.symm.trans hDatum')
    · intro hEq
      rw [← (render_unshared_and_tail v).1, hEq, (render_unshared_and_tail w).1]

/-- A pair in the first part, a dot inside and one outside, and reals that are easily mistaken. -/
theorem printed_nested_pairs :
    let nan : Value := .number (.real (0.0 / 0.0))
    let zero : Value := .number (.real (-0.0))
    let five : Value := .number (.integer 5)
    let v := pair 7 (pair 3 .nil (.boolean false)) (pair 9 nan (pair 4 zero five))
    let w := pair 1 (pair 1 .nil (.boolean false)) (pair 9 nan (pair 2 zero five))
    v.render = "((nil . #f) NaN -0.0 . 5)" ∧ v.unshared = w.unshared ∧
      ∃ e, Expr.ofSource "((nil . #f) NaN -0.0 . 5)" = .ok e ∧
        Expr.forms (Token.scan "((nil . #f) NaN -0.0 . 5)") = [.ok e] ∧
        e.datum? = some v.unshared := by
  intro nan zero five v w
  have hv : v.render = "((nil . #f) NaN -0.0 . 5)" := by decide +kernel
  have hw : w.render = "((nil . #f) NaN -0.0 . 5)" := by decide +kernel
  have hRead := printed_data_is_unambiguous.1 v rfl
  rw [hv] at hRead
  exact ⟨hv, (printed_data_is_unambiguous.2 v w rfl rfl).1 (hv.trans hw.symm), hRead⟩

end Value
end MiniScheme
