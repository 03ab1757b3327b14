import Mathlib.Data.List.Forall2
import MiniScheme.Eval
import MiniScheme.Proofs.FormParts

/-!
# The shapes of special forms

`Form.read?` finds out whether operands have the shape that a keyword asks for by taking them apart.
Here the shapes are said outright: a parameter list is spelled by its symbols, of which the last two
can be a dot and the rest name (`Formals.symbols`), and `Form.WellShaped` has a case for each way to
write a special form.

The two differ in one place. The bindings of a `let` belong to its shape, but `Form.read?` leaves
them alone.

## Main results

* `Form.readNames?_eq_some_iff`, `Form.readFormalList?_eq_some_iff`: what parameter lists are read.
* `Form.wellShaped_iff`: a shape is right if and only if the operands can be read and, in a `let`,
  all of its bindings can.
* `Eval.run_form`, `Eval.run_malformed`: one step of evaluation, for operands that can be read and
  for operands that cannot.
-/

namespace MiniScheme

/-! ## Parameter lists -/

namespace Formals

/-- The symbols that a parameter list is written with: its fixed names and, behind a dot, its rest
name. -/
def symbols (f : Formals) : List String :=
  match f.rest with
  | none => f.fixed
  | some rest => f.fixed ++ [".", rest]

/-- Parameters that a procedure can have: different names, all of which can be bound. -/
structure Valid (f : Formals) : Prop where
  nodup : f.names.Nodup
  bindable : ∀ name ∈ f.names, Form.isBindable name = true

end Formals

namespace Form

theorem bindable?_eq_some_iff {e : Expr} {name : String} :
    bindable? e = some name ↔ e.name? = some name ∧ isBindable name = true :=
  Option.filter_eq_some_iff

theorem bindable?_symbol {name : String} (h : isBindable name = true) (l : Option Location) :
    bindable? (.symbol l name) = some name :=
  Option.filter_some_pos h

/-- The expressions are the symbols with these names. -/
def Spells (es : List Expr) (names : List String) : Prop :=
  List.Forall₂ (fun e name => e.name? = some name) es names

theorem spells_of_readNames? {es : List Expr} {formals : Formals}
    (h : readNames? es = some formals) : Spells es formals.symbols := by
  induction es generalizing formals with
  | nil =>
      cases h
      exact .nil
  | cons e es ih =>
      unfold readNames? at h
      split at h
      · next hDot =>
          split at h
          · obtain ⟨rest, hRest, rfl⟩ := Option.map_eq_some_iff.1 h
            exact .cons hDot (.cons (bindable?_eq_some_iff.1 hRest).1 .nil)
          · cases h
      · obtain ⟨name, hName, hOthers⟩ := Option.bind_eq_some_iff.1 h
        obtain ⟨⟨fixed, rest⟩, hRead, rfl⟩ := Option.map_eq_some_iff.1 hOthers
        have hFirst := (bindable?_eq_some_iff.1 hName).1
        cases rest with
        | none => exact .cons hFirst (ih hRead)
        | some rest => exact .cons hFirst (ih hRead)

theorem readNames?_of_spells {es : List Expr} {formals : Formals} (h : Spells es formals.symbols)
    (hBindable : ∀ name ∈ formals.names, isBindable name = true) :
    readNames? es = some formals := by
  obtain ⟨fixed, rest⟩ := formals
  induction fixed generalizing es with
  | nil =>
      cases rest with
      | none =>
          cases h
          rfl
      | some rest =>
          -- What is left is the dot and the rest name.
          obtain ⟨dot, es, hDot, hLast, rfl⟩ := List.forall₂_cons_right_iff.1 h
          obtain ⟨last, es, hRest, hNil, rfl⟩ := List.forall₂_cons_right_iff.1 hLast
          cases hNil
          have hBindable := hBindable rest (by simp [Formals.names])
          simp only [readNames?, hDot, bindable?_eq_some_iff.2 ⟨hRest, hBindable⟩, if_true,
            Option.map_some]
  | cons name fixed ih =>
      have hSymbols : Formals.symbols ⟨name :: fixed, rest⟩ =
          name :: Formals.symbols ⟨fixed, rest⟩ := by
        cases rest <;> rfl
      rw [hSymbols] at h
      obtain ⟨e, es, hName, hOthers, rfl⟩ := List.forall₂_cons_right_iff.1 h
      have hFirst := hBindable name List.mem_cons_self
      have hDot : e.name? ≠ some "." := by
        rw [hName]
        rintro hEq
        rw [Option.some.inj hEq] at hFirst
        exact absurd hFirst (by decide)
      have hRead := ih hOthers fun other hOther => hBindable other (List.mem_cons_of_mem _ hOther)
      unfold readNames?
      rw [if_neg hDot, bindable?_eq_some_iff.2 ⟨hName, hFirst⟩, hRead]
      rfl

/-- A dot is no name that can be bound, so there is one way to read a list of symbols. -/
theorem readNames?_eq_some_iff {es : List Expr} {formals : Formals} :
    readNames? es = some formals ↔
      Spells es formals.symbols ∧ ∀ name ∈ formals.names, isBindable name = true :=
  ⟨fun h => ⟨spells_of_readNames? h, bindable_of_readNames? h⟩,
    fun h => readNames?_of_spells h.1 h.2⟩

/-- The lists that are read as parameters are the spellings of valid ones. -/
theorem readFormalList?_eq_some_iff {es : List Expr} {formals : Formals} :
    readFormalList? es = some formals ↔ Spells es formals.symbols ∧ formals.Valid := by
  unfold readFormalList?
  rw [Option.filter_eq_some_iff, readNames?_eq_some_iff, decide_eq_true_iff]
  constructor
  · rintro ⟨⟨hSpells, hBindable⟩, hNodup⟩
    exact ⟨hSpells, hNodup, hBindable⟩
  · rintro ⟨hSpells, hNodup, hBindable⟩
    exact ⟨⟨hSpells, hBindable⟩, hNodup⟩

/-! ## Shapes -/

/-- A symbol that can be bound. -/
inductive IsName : Expr → Prop where
  | symbol {l : Option Location} {name : String} (h : isBindable name = true) :
      IsName (.symbol l name)

/-- A list of different names that can be bound, the last one possibly behind a dot. -/
def IsFormalList (es : List Expr) : Prop :=
  ∃ formals : Formals, Spells es formals.symbols ∧ formals.Valid

/-- The parameters of a `lambda`: a name for all arguments, or a list of names. -/
inductive IsFormals : Expr → Prop where
  | rest {e : Expr} (h : IsName e) : IsFormals e
  | list {l : Option Location} {es : List Expr} (h : IsFormalList es) : IsFormals (.list l es)

/-- A binding `(name value)` of a `let`. -/
inductive IsBinding : Expr → Prop where
  | list {l : Option Location} {name value : Expr} (h : IsName name) :
      IsBinding (.list l [name, value])

/-- The operands have the shape that the keyword asks for. -/
inductive WellShaped : Keyword → List Expr → Prop where
  | define {name value : Expr} (hName : IsName name) : WellShaped .define [name, value]
  | procedure {l : Option Location} {name : Expr} {formals body : List Expr} (hName : IsName name)
      (hFormals : IsFormalList formals) (hBody : body ≠ []) :
      WellShaped .define (.list l (name :: formals) :: body)
  | lambda {formals : Expr} {body : List Expr} (hFormals : IsFormals formals) (hBody : body ≠ []) :
      WellShaped .lambda (formals :: body)
  | branch {test consequent alternative : Expr} :
      WellShaped .ifThenElse [test, consequent, alternative]
  | sequence {body : List Expr} (hBody : body ≠ []) : WellShaped .begin body
  | conjunction {operands : List Expr} : WellShaped .and operands
  | disjunction {operands : List Expr} : WellShaped .or operands
  | bind {l : Option Location} {bindings body : List Expr}
      (hBindings : ∀ b ∈ bindings, IsBinding b) (hBody : body ≠ []) :
      WellShaped .letIn (.list l bindings :: body)
  | set {name value : Expr} (hName : IsName name) : WellShaped .set [name, value]
  | delete {name : Expr} (hName : IsName name) : WellShaped .del [name]
  | pair {car cdr : Expr} : WellShaped .cons [car, cdr]
  | list {items : List Expr} : WellShaped .list items

theorem isName_iff {e : Expr} : IsName e ↔ ∃ name, bindable? e = some name := by
  constructor
  · rintro ⟨h⟩
    exact ⟨_, bindable?_symbol h _⟩
  · rintro ⟨name, h⟩
    obtain ⟨hName, hBindable⟩ := bindable?_eq_some_iff.1 h
    cases e with
    | symbol l other =>
        cases hName
        exact .symbol hBindable
    | _ => cases hName

theorem isFormalList_iff {es : List Expr} :
    IsFormalList es ↔ ∃ formals, readFormalList? es = some formals := by
  simp only [IsFormalList, readFormalList?_eq_some_iff]

theorem isFormals_iff {e : Expr} : IsFormals e ↔ ∃ formals, readFormals? e = some formals := by
  constructor
  · rintro (⟨⟨hName⟩⟩ | hList)
    · exact ⟨⟨[], some _⟩, by rw [readFormals?, bindable?_symbol hName, Option.map_some]⟩
    · exact isFormalList_iff.1 hList
  · rintro ⟨formals, h⟩
    cases e with
    | number l n => cases h
    | list l es => exact .list (isFormalList_iff.2 ⟨formals, h⟩)
    | symbol l name =>
        obtain ⟨rest, hRest, _⟩ := Option.map_eq_some_iff.1 h
        exact .rest (isName_iff.2 ⟨rest, hRest⟩)

theorem isBinding_iff {e : Expr} : IsBinding e ↔ ∃ entry, binding? e = some entry := by
  constructor
  · rintro ⟨hName⟩
    obtain ⟨name, h⟩ := isName_iff.1 hName
    exact ⟨(name, _), by rw [binding?, h, Option.map_some]⟩
  · rintro ⟨entry, h⟩
    unfold binding? at h
    split at h
    · obtain ⟨name, hName, _⟩ := Option.map_eq_some_iff.1 h
      exact .list (isName_iff.2 ⟨name, hName⟩)
    · cases h

/-- The bindings of a `let`; no other form has any. -/
def bindings : Form → List Expr
  | .bind bindings _ => bindings
  | _ => []

theorem exists_read?_of_wellShaped {keyword : Keyword} {operands : List Expr}
    (h : WellShaped keyword operands) :
    ∃ parts, read? keyword operands = some parts ∧ ∀ b ∈ parts.bindings, IsBinding b := by
  cases h with
  | @define name value hName =>
      cases hName with
      | @symbol l name h =>
          refine ⟨.define name value, ?_, List.forall_mem_nil _⟩
          rw [read?, readDefine?, bindable?_symbol h, Option.map_some]
  | @procedure l name formals body hName hFormals hBody =>
      obtain ⟨e, es, rfl⟩ := List.exists_cons_of_ne_nil hBody
      obtain ⟨name, hName⟩ := isName_iff.1 hName
      obtain ⟨formals, hFormals⟩ := isFormalList_iff.1 hFormals
      refine ⟨.procedure name ⟨formals, e :: es⟩, ?_, List.forall_mem_nil _⟩
      rw [read?, readDefine?, hName, Option.bind_some, hFormals, Option.map_some]
  | @lambda formals body hFormals hBody =>
      obtain ⟨e, es, rfl⟩ := List.exists_cons_of_ne_nil hBody
      obtain ⟨formals, hFormals⟩ := isFormals_iff.1 hFormals
      refine ⟨.lambda ⟨formals, e :: es⟩, ?_, List.forall_mem_nil _⟩
      rw [read?, hFormals, Option.map_some]
  | branch => exact ⟨_, rfl, List.forall_mem_nil _⟩
  | sequence hBody =>
      obtain ⟨e, es, rfl⟩ := List.exists_cons_of_ne_nil hBody
      exact ⟨_, rfl, List.forall_mem_nil _⟩
  | conjunction => exact ⟨_, rfl, List.forall_mem_nil _⟩
  | disjunction => exact ⟨_, rfl, List.forall_mem_nil _⟩
  | bind hBindings hBody =>
      obtain ⟨e, es, rfl⟩ := List.exists_cons_of_ne_nil hBody
      exact ⟨_, rfl, hBindings⟩
  | @set name value hName =>
      obtain ⟨name, hName⟩ := isName_iff.1 hName
      refine ⟨.set name value, ?_, List.forall_mem_nil _⟩
      rw [read?, hName, Option.map_some]
  | delete hName =>
      obtain ⟨name, hName⟩ := isName_iff.1 hName
      refine ⟨.delete name, ?_, List.forall_mem_nil _⟩
      rw [read?, hName, Option.map_some]
  | pair => exact ⟨_, rfl, List.forall_mem_nil _⟩
  | list => exact ⟨_, rfl, List.forall_mem_nil _⟩

theorem wellShaped_of_read? {keyword : Keyword} {operands : List Expr} {parts : Form}
    (h : read? keyword operands = some parts) (hBindings : ∀ b ∈ parts.bindings, IsBinding b) :
    WellShaped keyword operands := by
  cases reads_of_read? h with
  | define hName => exact .define (isName_iff.2 ⟨_, hName⟩)
  | procedure hName hFormals =>
      exact .procedure (isName_iff.2 ⟨_, hName⟩) (isFormalList_iff.2 ⟨_, hFormals⟩) (by simp)
  | lambda hFormals => exact .lambda (isFormals_iff.2 ⟨_, hFormals⟩) (by simp)
  | branch => exact .branch
  | sequence => exact .sequence (by simp)
  | conjunction => exact .conjunction
  | disjunction => exact .disjunction
  | bind => exact .bind hBindings (by simp)
  | set hName => exact .set (isName_iff.2 ⟨_, hName⟩)
  | delete hName => exact .delete (isName_iff.2 ⟨_, hName⟩)
  | pair => exact .pair
  | list => exact .list

/-- A shape is right if and only if the operands can be read and, in a `let`, all bindings can. -/
theorem wellShaped_iff {keyword : Keyword} {operands : List Expr} :
    WellShaped keyword operands ↔
      ∃ parts, read? keyword operands = some parts ∧ ∀ b ∈ parts.bindings, IsBinding b :=
  ⟨exists_read?_of_wellShaped, fun ⟨_, hRead, hBindings⟩ => wellShaped_of_read? hRead hBindings⟩

end Form

/-! ## One step of evaluation -/

theorem Expr.keyword?_symbol (l : Option Location) (keyword : Keyword) :
    (Expr.symbol l keyword.text).keyword? = some keyword :=
  Keyword.ofText?_text keyword

namespace Eval

variable {head : Expr} {keyword : Keyword} {operands : List Expr}

/-- One step of evaluating a special form whose operands can be read. -/
theorem run_form (hHead : head.keyword? = some keyword) {parts : Form}
    (hRead : Form.read? keyword operands = some parts) (limit : Option Nat) (fuel : Nat)
    (env : FrameId) (l : Option Location) :
    run limit (fuel + 1) env (.list l (head :: operands)) =
      locate l (form (run limit fuel) env (.list l (head :: operands)) parts) := by
  simp only [run, rules, expression, combination, hHead, hRead]
  rfl

/-- Operands that cannot be read are not evaluated. -/
theorem run_malformed (hHead : head.keyword? = some keyword)
    (hRead : Form.read? keyword operands = none) (limit : Option Nat) (fuel : Nat) (env : FrameId)
    (l : Option Location) (m : Machine) :
    run limit (fuel + 1) env (.list l (head :: operands)) m =
      .error (.error ⟨.malformedForm (Expr.list l (head :: operands)).render, l⟩) m := by
  simp only [run, rules, expression, combination, hHead, hRead]
  rfl

end Eval

end MiniScheme
