import Mathlib.Data.List.Forall2
import Mathlib.Order.Basic
import MiniScheme.Proofs.Occurrence

/-!
# Two evaluations side by side

Many properties of evaluation compare two runs: of two layouts of one program, in two heaps that
differ where the program does not look, before and after something was allocated. What such runs
have in common is that their expressions, values and heaps are alike up to some choices that
evaluation does not see. A `Correspondence` says what may differ:

* the places that expressions and errors carry;
* bindings of names that no expression mentions;
* the identities of pairs and procedures, which evaluation only compares with each other;
* the number of active procedure bodies: the first run may have more of them, and may then be
  refused one where the second is not.

Which frame of one heap stands for which of the other is a `Matching`. It is kept apart from the
rest because it grows: each new frame of the one heap is matched with the new frame of the other. A
correspondence only sets bounds to it: which frames may stand for each other, and which frames of
either heap have to be matched with one of the other. Without mention there are no such bounds.

`Expr.Alike` and `Value.Alike` are the relations that come of this. The results here are about data
only: what alike expressions and values have in common. Alike heaps are in
`MiniScheme.Proofs.Correspondence.Heaps` and evaluation is in
`MiniScheme.Proofs.Correspondence.Rules`.

## Main results

* `Expr.Alike.render_eq`, `Value.Alike.render_eq`: what is alike has the same text.
* `Value.Alike.same_eq`: equality cannot tell values from those they are alike to.
* `Builtin.alike_apply`: built-in procedures give alike results for alike arguments.
-/

namespace MiniScheme

/-! ## What may differ -/

/-- Places and identities that stand for each other, the names that are mentioned, whether the first
run may have more active procedure bodies than the second, the frames that may stand for each other,
and those of the first heap and of the second that have to be matched. -/
structure Correspondence where
  place : Option Location → Option Location → Prop
  name : String → Prop
  id : Nat → Nat → Prop
  lenient : Prop := False
  pair : FrameId → FrameId → Prop := fun _ _ => True
  left : FrameId → Prop := fun _ => False
  right : FrameId → Prop := fun _ => False
  place_none : place none none
  place_or : ∀ {l l' k k'}, place l l' → place k k' → place (l.or k) (l'.or k')
  id_iff : ∀ {a a' b b'}, id a a' → id b b' → (a = b ↔ a' = b')

/-- Every place stands for itself, and all names are mentioned. -/
structure Correspondence.Transparent (C : Correspondence) : Prop where
  place : ∀ l, C.place l l
  name : ∀ name, C.name name

/-- Places and identities stand for themselves only. -/
structure Correspondence.Strict (C : Correspondence) : Prop where
  place : ∀ {l l'}, C.place l l' → l = l'
  id : ∀ {a a'}, C.id a a' → a = a'

/-- Which frame of one heap stands for which of another. -/
abbrev Matching := FrameId → FrameId → Prop

variable {C : Correspondence} {M M' : Matching}

/-- Two results that can fail are related: both have a value or both an error. -/
inductive ExceptRel {ε ε' α α' : Type} (bad : ε → ε' → Prop) (good : α → α' → Prop) :
    Except ε α → Except ε' α' → Prop where
  | ok {a : α} {a' : α'} (h : good a a') : ExceptRel bad good (.ok a) (.ok a')
  | error {e : ε} {e' : ε'} (h : bad e e') : ExceptRel bad good (.error e) (.error e')

theorem ExceptRel.mono {ε ε' α α' : Type} {bad bad' : ε → ε' → Prop} {good good' : α → α' → Prop}
    {x : Except ε α} {x' : Except ε' α'} (h : ExceptRel bad good x x')
    (hBad : ∀ e e', bad e e' → bad' e e') (hGood : ∀ a a', good a a' → good' a a') :
    ExceptRel bad' good' x x' := by
  cases h with
  | ok ha => exact .ok (hGood _ _ ha)
  | error he => exact .error (hBad _ _ he)

theorem ExceptRel.eq {ε α : Type} {bad : ε → ε → Prop} {good : α → α → Prop} {x x' : Except ε α}
    (h : ExceptRel bad good x x') (hBad : ∀ e e', bad e e' → e = e')
    (hGood : ∀ a a', good a a' → a = a') : x = x' := by
  cases h with
  | ok ha => rw [hGood _ _ ha]
  | error he => rw [hBad _ _ he]

section ExceptRel

variable {ε α α' β β' : Type} {good : α → α' → Prop} {good' : β → β' → Prop}

theorem ExceptRel.bind {x : Except ε α} {x' : Except ε α'} {f : α → Except ε β}
    {f' : α' → Except ε β'} (hx : ExceptRel Eq good x x')
    (hf : ∀ a a', good a a' → ExceptRel Eq good' (f a) (f' a')) :
    ExceptRel Eq good' (x >>= f) (x' >>= f') := by
  cases hx with
  | ok h => exact hf _ _ h
  | error h => exact .error h

theorem ExceptRel.map {x : Except ε α} {x' : Except ε α'} {f : α → β} {f' : α' → β'}
    (hx : ExceptRel Eq good x x') (hf : ∀ a a', good a a' → good' (f a) (f' a')) :
    ExceptRel Eq good' (x.map f) (x'.map f') := by
  cases hx with
  | ok h => exact .ok (hf _ _ h)
  | error h => exact .error h

end ExceptRel

theorem optionRel_getElem? {α β : Type} {R : α → β → Prop} {as : List α} {bs : List β}
    (h : List.Forall₂ R as bs) (n : Nat) : Option.Rel R as[n]? bs[n]? := by
  induction h generalizing n with
  | nil => exact .none
  | cons hHead _ ih =>
      cases n with
      | zero => exact .some hHead
      | succ n => exact ih n

/-! ## Expressions -/

/-- Expressions of the same shape, with the same numbers and names; the names are among those
that are mentioned. -/
inductive Expr.Alike (C : Correspondence) : Expr → Expr → Prop where
  | number {l l' : Option Location} (hl : C.place l l') (n : Number) :
      Alike C (.number l n) (.number l' n)
  | symbol {l l' : Option Location} (hl : C.place l l') {name : String} (hName : C.name name) :
      Alike C (.symbol l name) (.symbol l' name)
  | list {l l' : Option Location} {es es' : List Expr} (hl : C.place l l')
      (hItems : List.Forall₂ (Alike C) es es') : Alike C (.list l es) (.list l' es')

/-- Expressions that are alike, one by one. -/
abbrev Expr.AllAlike (C : Correspondence) : List Expr → List Expr → Prop :=
  List.Forall₂ (Expr.Alike C)

/-- Induction over expressions, with the hypothesis for every element of a list. -/
theorem Expr.induction {motive : Expr → Prop} (number : ∀ l n, motive (.number l n))
    (symbol : ∀ l name, motive (.symbol l name))
    (list : ∀ l es, (∀ e ∈ es, motive e) → motive (.list l es)) : ∀ e, motive e
  | .number l n => number l n
  | .symbol l name => symbol l name
  | .list l es => list l es fun e _ => Expr.induction number symbol list e

theorem forall₂_imp_of_mem {α β : Type} {R S : α → β → Prop} {as : List α} {bs : List β}
    (h : List.Forall₂ R as bs) (hImp : ∀ a ∈ as, ∀ b, R a b → S a b) : List.Forall₂ S as bs := by
  induction h with
  | nil => exact .nil
  | cons hHead _ ih =>
      refine .cons (hImp _ (by simp) _ hHead) (ih fun a ha => hImp a (by simp [ha]))

namespace Expr

theorem alike_refl (hC : C.Transparent) (e : Expr) : e.Alike C e := by
  induction e using Expr.induction with
  | number l n => exact .number (hC.place l) n
  | symbol l name => exact .symbol (hC.place l) (hC.name name)
  | list l es ih => exact .list (hC.place l) (List.forall₂_same.2 ih)

theorem Alike.eq (hPlace : ∀ {l l'}, C.place l l' → l = l') {e e' : Expr} (h : e.Alike C e') :
    e = e' := by
  induction e using Expr.induction generalizing e' with
  | number l n =>
      cases h with
      | number hl n => rw [hPlace hl]
  | symbol l name =>
      cases h with
      | symbol hl _ => rw [hPlace hl]
  | list l es ih =>
      cases h with
      | @list _ _ _ es' hl hItems =>
          have hEq : es = es' := by
            rw [← List.forall₂_eq_eq_eq]
            exact forall₂_imp_of_mem hItems fun e he e' => ih e he
          rw [hPlace hl, hEq]

theorem Alike.place {e e' : Expr} (h : e.Alike C e') : C.place e.location e'.location := by
  cases h <;> assumption

theorem Alike.name?_eq {e e' : Expr} (h : e.Alike C e') : e.name? = e'.name? := by
  cases h <;> rfl

theorem Alike.name_of_name? {e e' : Expr} (h : e.Alike C e') {name : String}
    (hName : e.name? = some name) : C.name name := by
  cases h with
  | number => cases hName
  | symbol _ h => cases hName; exact h
  | list => cases hName

theorem renderItems_congr {es es' : List Expr}
    (h : List.Forall₂ (fun e e' => e.render = e'.render) es es') :
    renderItems es = renderItems es' := by
  induction h with
  | nil => rfl
  | cons hHead hTail ih =>
      cases hTail with
      | nil => simpa [renderItems] using hHead
      | cons _ _ => rw [renderItems, renderItems, hHead, ih]

/-- What is alike has the same text. -/
theorem Alike.render_eq {e e' : Expr} (h : e.Alike C e') : e.render = e'.render := by
  induction e using Expr.induction generalizing e' with
  | number l n => cases h; rfl
  | symbol l name => cases h; rfl
  | list l es ih =>
      cases h with
      | list hl hItems =>
          have hTexts := forall₂_imp_of_mem hItems fun e he e' => ih e he
          rw [render, render, renderItems_congr hTexts]

theorem heightItems_congr {es es' : List Expr}
    (h : List.Forall₂ (fun e e' => e.height = e'.height) es es') :
    heightItems es = heightItems es' := by
  induction h with
  | nil => rfl
  | cons hHead _ ih => rw [heightItems, heightItems, hHead, ih]

theorem Alike.height_eq {e e' : Expr} (h : e.Alike C e') : e.height = e'.height := by
  induction e using Expr.induction generalizing e' with
  | number l n => cases h; rfl
  | symbol l name => cases h; rfl
  | list l es ih =>
      cases h with
      | list hl hItems =>
          have hHeights := forall₂_imp_of_mem hItems fun e he e' => ih e he
          rw [height, height, heightItems_congr hHeights]

end Expr

/-! ## Values -/

/-- Code with the same parameters and alike bodies. -/
structure Lambda.Alike (C : Correspondence) (code code' : Lambda) : Prop where
  formals : code.formals = code'.formals
  body : Expr.AllAlike C code.body code'.body

/-- The same built-in procedure, or alike code with matching frames. -/
inductive Procedure.Alike (C : Correspondence) (M : Matching) : Procedure → Procedure → Prop where
  | builtin (b : Builtin) : Alike C M (.builtin b) (.builtin b)
  | closure {id id' : Nat} {code code' : Lambda} {f f' : FrameId} (hId : C.id id id')
      (hCode : code.Alike C code') (hFrame : M f f') :
      Alike C M (.closure id code f) (.closure id' code' f')

/-- Values of the same shape, with the same numbers and booleans and with alike procedures. -/
inductive Value.Alike (C : Correspondence) (M : Matching) : Value → Value → Prop where
  | number (n : Number) : Alike C M (.number n) (.number n)
  | boolean (b : Bool) : Alike C M (.boolean b) (.boolean b)
  | nil : Alike C M .nil .nil
  | pair {id id' : Nat} {car car' cdr cdr' : Value} (hId : C.id id id') (hCar : Alike C M car car')
      (hCdr : Alike C M cdr cdr') : Alike C M (.pair id car cdr) (.pair id' car' cdr')
  | procedure {p p' : Procedure} (hp : p.Alike C M p') : Alike C M (.procedure p) (.procedure p')

/-- Values that are alike, one by one. -/
abbrev Value.AllAlike (C : Correspondence) (M : Matching) : List Value → List Value → Prop :=
  List.Forall₂ (Value.Alike C M)

theorem Procedure.Alike.mono (hM : M ≤ M') {p p' : Procedure} (h : p.Alike C M p') :
    p.Alike C M' p' := by
  cases h with
  | builtin b => exact .builtin b
  | closure hId hCode hFrame => exact .closure hId hCode (hM _ _ hFrame)

theorem Procedure.Alike.formals_eq {p p' : Procedure} (h : p.Alike C M p') :
    p.formals = p'.formals := by
  cases h with
  | builtin b => rfl
  | closure _ hCode _ => exact hCode.formals

theorem Procedure.Alike.render_eq {p p' : Procedure} (h : p.Alike C M p') :
    p.render = p'.render := by
  cases h with
  | builtin b => rfl
  | closure _ hCode _ =>
      exact congrArg (fun formals => "<procedure (lambda " ++ formals.render ++ ")>") hCode.formals

theorem Procedure.Alike.same_eq {p p' q q' : Procedure} (hp : p.Alike C M p')
    (hq : q.Alike C M q') : p.same q = p'.same q' := by
  cases hp with
  | builtin b => cases hq <;> rfl
  | closure hId _ _ =>
      cases hq with
      | builtin b => rfl
      | closure hId' _ _ =>
          simp only [Procedure.same, beq_eq_beq]
          exact C.id_iff hId hId'

namespace Value

/-- A value is alike to itself, if its identities stand for themselves and its procedures have
bodies that are alike to themselves and frames that match themselves. -/
theorem alike_self {v : Value}
    (hId : ∀ (w : Value) (id : Nat), w.Part v → w.identity? = some id → C.id id id)
    (hv : v.All fun code f => (∀ e ∈ code.body, e.Alike C e) ∧ M f f) : v.Alike C M v := by
  induction v with
  | number n => exact .number n
  | boolean b => exact .boolean b
  | nil => exact .nil
  | pair id car cdr ihCar ihCdr =>
      exact .pair (hId _ id .whole rfl) (ihCar (fun w a hw => hId w a (.car hw)) hv.1)
        (ihCdr (fun w a hw => hId w a (.cdr hw)) hv.2)
  | procedure p =>
      refine .procedure ?_
      cases p with
      | builtin b => exact .builtin b
      | closure id code f =>
          exact .closure (hId _ id .whole rfl) ⟨rfl, List.forall₂_same.2 hv.1⟩ hv.2

theorem alike_refl (hC : C.Transparent) {v : Value}
    (hId : ∀ (w : Value) (id : Nat), w.Part v → w.identity? = some id → C.id id id)
    (hv : v.All fun _ f => M f f) : v.Alike C M v :=
  alike_self hId (hv.mono fun _ _ hf => ⟨fun e _ => Expr.alike_refl hC e, hf⟩)

/-- The value with other identities and frames. -/
def rename (ids frames : Nat → Nat) : Value → Value
  | .number n => .number n
  | .boolean b => .boolean b
  | .nil => .nil
  | .pair id car cdr => .pair (ids id) (car.rename ids frames) (cdr.rename ids frames)
  | .procedure (.builtin b) => .procedure (.builtin b)
  | .procedure (.closure id code f) => .procedure (.closure (ids id) code (frames f))

theorem rename_id (v : Value) : v.rename id id = v := by
  induction v with
  | pair _ car cdr ihCar ihCdr => rw [rename, ihCar, ihCdr, id_eq]
  | procedure p => cases p <;> rfl
  | _ => rfl

/-- Where places are the same and identities and frames are given by functions, what a value is
alike to is the value renamed. -/
theorem Alike.eq_rename (hPlace : ∀ {l l'}, C.place l l' → l = l') {ids frames : Nat → Nat}
    (hIds : ∀ {a a'}, C.id a a' → a' = ids a) (hFrames : ∀ f f', M f f' → f' = frames f)
    {v v' : Value} (h : v.Alike C M v') : v' = v.rename ids frames := by
  induction h with
  | number n => rfl
  | boolean b => rfl
  | nil => rfl
  | pair hId _ _ ihCar ihCdr => rw [rename, hIds hId, ihCar, ihCdr]
  | procedure hp =>
      cases hp with
      | builtin b => rfl
      | @closure id id' code code' f f' hId hCode hFrame =>
          obtain ⟨formals, body⟩ := code
          obtain ⟨formals', body'⟩ := code'
          obtain rfl : formals = formals' := hCode.formals
          obtain rfl : body = body' := by
            rw [← List.forall₂_eq_eq_eq]
            exact hCode.body.imp fun _ _ => Expr.Alike.eq hPlace
          rw [rename, hIds hId, hFrames _ _ hFrame]

theorem Alike.eq (hC : C.Strict) (hM : M ≤ Eq) {v v' : Value} (h : v.Alike C M v') : v = v' := by
  have hEq : v' = v.rename id id :=
    h.eq_rename hC.place (fun hId => (hC.id hId).symm) fun f f' hFrame => (hM f f' hFrame).symm
  exact (hEq.trans v.rename_id).symm

theorem Alike.mono (hM : M ≤ M') {v v' : Value} (h : v.Alike C M v') : v.Alike C M' v' := by
  induction h with
  | number n => exact .number n
  | boolean b => exact .boolean b
  | nil => exact .nil
  | pair hId _ _ ihCar ihCdr => exact .pair hId ihCar ihCdr
  | procedure hp => exact .procedure (hp.mono hM)

theorem AllAlike.mono (hM : M ≤ M') {vs vs' : List Value} (h : AllAlike C M vs vs') :
    AllAlike C M' vs vs' :=
  h.imp fun _ _ hv => hv.mono hM

/-- What is alike has the same text, also as the tail of a list. -/
theorem Alike.texts_eq {v v' : Value} (h : v.Alike C M v') :
    v.render = v'.render ∧ v.renderTail = v'.renderTail := by
  induction h with
  | number n => exact ⟨rfl, rfl⟩
  | boolean b => exact ⟨rfl, rfl⟩
  | nil => exact ⟨rfl, rfl⟩
  | pair _ _ _ ihCar ihCdr =>
      simp only [render, renderTail, ihCar.1, ihCdr.2]
      exact ⟨trivial, trivial⟩
  | procedure hp => simp only [render, renderTail, hp.render_eq, and_self]

/-- Alike values have the same text: what may differ between them is not printed. -/
theorem Alike.render_eq {v v' : Value} (h : v.Alike C M v') : v.render = v'.render :=
  h.texts_eq.1

theorem Alike.isTrue_eq {v v' : Value} (h : v.Alike C M v') : v.isTrue = v'.isTrue := by
  cases h <;> rfl

theorem Alike.isFalse_eq {v v' : Value} (h : v.Alike C M v') : v.isFalse = v'.isFalse := by
  cases h <;> rfl

theorem Alike.samePair_eq {v v' w w' : Value} (hv : v.Alike C M v') (hw : w.Alike C M w') :
    v.samePair w = v'.samePair w' := by
  cases hv with
  | pair hId _ _ =>
      cases hw with
      | pair hId' _ _ =>
          simp only [samePair, beq_eq_beq]
          exact C.id_iff hId hId'
      | _ => rfl
  | _ => cases hw <;> rfl

/-- Equality cannot tell values from those they are alike to. -/
theorem Alike.same_eq {v v' w w' : Value} (hv : v.Alike C M v') (hw : w.Alike C M w') :
    v.same w = v'.same w' := by
  induction hv generalizing w w' with
  | pair hId hCar hCdr ihCar ihCdr =>
      cases hw with
      | pair hId' hCar' hCdr' =>
          rw [same, same, ihCar hCar', hCdr.samePair_eq hCdr', ihCdr hCdr']
      | _ => rfl
  | procedure hp =>
      cases hw with
      | procedure hq => exact hp.same_eq hq
      | _ => rfl
  | _ => cases hw <;> rfl

end Value

/-! ## Lists -/

namespace Value

theorem Alike.items {v v' : Value} (h : v.Alike C M v') : AllAlike C M v.items v'.items := by
  induction h with
  | pair _ hCar _ _ ihCdr => exact .cons hCar ihCdr
  | _ => exact .nil

theorem Alike.isProperList_eq {v v' : Value} (h : v.Alike C M v') :
    v.isProperList = v'.isProperList := by
  rw [Value.isProperList_eq, Value.isProperList_eq]
  induction h with
  | pair _ _ _ _ ihCdr => exact ihCdr
  | _ => rfl

theorem AllAlike.chain {vs vs' : List Value} (hvs : AllAlike C M vs vs') {last last' : Value}
    (hLast : last.Alike C M last') :
    ∀ {id id' : Nat}, (∀ k, C.id (id + k) (id' + k)) →
      (chain id vs last).Alike C M (chain id' vs' last') := by
  induction hvs with
  | nil => exact fun _ => hLast
  | cons hHead _ ih =>
      intro id id' hId
      refine .pair (hId 0) hHead (ih fun k => ?_)
      rw [Nat.add_assoc, Nat.add_assoc]
      exact hId (1 + k)

/-! ## Parts of a value -/

theorem Alike.asNumber_eq {v v' : Value} (h : v.Alike C M v') : v.asNumber = v'.asNumber := by
  have hText := h.render_eq
  cases h with
  | number n => rfl
  | _ => simp only [asNumber, hText]

theorem Alike.asInteger_eq {v v' : Value} (h : v.Alike C M v') : v.asInteger = v'.asInteger := by
  have hText := h.render_eq
  cases h with
  | number n => rfl
  | _ => simp only [asInteger, hText]

theorem Alike.asPair {v v' : Value} (h : v.Alike C M v') :
    ExceptRel Eq (fun parts parts' => parts.1.Alike C M parts'.1 ∧ parts.2.Alike C M parts'.2)
      v.asPair v'.asPair := by
  have hText := h.render_eq
  cases h with
  | pair _ hCar hCdr => exact .ok ⟨hCar, hCdr⟩
  | _ => exact .error (by rw [hText])

theorem Alike.listElements {v v' : Value} (h : v.Alike C M v') :
    ExceptRel Eq (AllAlike C M) v.listElements v'.listElements := by
  rw [Value.listElements_eq, Value.listElements_eq, h.isProperList_eq, h.render_eq]
  split
  · exact .ok h.items
  · exact .error rfl

theorem Alike.listLength_eq {v v' : Value} (h : v.Alike C M v') :
    v.listLength = v'.listLength := by
  simp only [Value.listLength_eq, h.isProperList_eq, h.render_eq, h.items.length_eq]

theorem Alike.listRef {v v' : Value} (h : v.Alike C M v') (index : Int) :
    ExceptRel Eq (Value.Alike C M) (v.listRef index) (v'.listRef index) := by
  have hText := h.render_eq
  have hProper := h.isProperList_eq
  have hItems := h.items
  cases h with
  | pair _ hCar _ =>
      simp only [Value.listRef, hProper, Walk.nth?_start]
      split
      · exact .ok hCar
      · split
        · exact .error rfl
        · have hElement := optionRel_getElem? hItems index.toNat
          revert hElement
          generalize (Value.items _)[index.toNat]? = x, (Value.items _)[index.toNat]? = y
          intro hElement
          cases hElement with
          | none => exact .error rfl
          | some hv => exact .ok hv
  | nil => exact .error rfl
  | _ => exact .error (by rw [hText])

end Value

/-! ## Built-in procedures -/

namespace Builtin

variable {args args' : List Value}

theorem fold_congr (op : Number → Number → Except Cause Number)
    (h : Value.AllAlike C M args args') : ∀ start, fold op start args = fold op start args' := by
  induction h with
  | nil => intro start; rfl
  | cons hHead _ ih =>
      intro start
      simp only [fold, hHead.asNumber_eq, ih]

theorem foldFrom_congr (op : Number → Number → Except Cause Number) (unit : Number)
    (h : Value.AllAlike C M args args') : foldFrom op unit args = foldFrom op unit args' := by
  cases h with
  | nil => rfl
  | cons hHead hTail =>
      cases hTail with
      | nil => simp only [foldFrom, hHead.asNumber_eq]
      | cons hNext hTail =>
          have hFold := fold_congr op (.cons hNext hTail)
          simp only [foldFrom, hHead.asNumber_eq, hFold]

theorem chained_congr (comparison : Number.Comparison) (h : Value.AllAlike C M args args') :
    ∀ previous, chained comparison previous args = chained comparison previous args' := by
  induction h with
  | nil => intro previous; rfl
  | cons hHead _ ih =>
      intro previous
      simp only [chained, hHead.asNumber_eq, ih]

theorem compareAll_congr (comparison : Number.Comparison) (h : Value.AllAlike C M args args') :
    compareAll comparison args = compareAll comparison args' := by
  cases h with
  | nil => rfl
  | cons hHead hTail => simp only [compareAll, hHead.asNumber_eq, chained_congr comparison hTail]

theorem allSame_congr (h : Value.AllAlike C M args args') : allSame args = allSame args' := by
  induction h with
  | nil => rfl
  | cons hHead hTail ih =>
      cases hTail with
      | nil => rfl
      | cons hNext _ => rw [allSame, allSame, hHead.same_eq hNext, ih]

theorem alike_exactly (n : Nat) (h : Value.AllAlike C M args args') :
    ExceptRel Eq (fun vs vs' => ∀ i : Fin n, (vs.get i).Alike C M (vs'.get i)) (exactly n args)
      (exactly n args') := by
  have hLength := h.length_eq
  by_cases hCount : args.length = n
  · have hCount' : args'.length = n := hLength.symm.trans hCount
    rw [exactly, exactly, dif_pos hCount, dif_pos hCount']
    refine .ok fun i => ?_
    exact h.get (hCount.symm ▸ i.isLt) (hCount'.symm ▸ i.isLt)
  · have hCount' : args'.length ≠ n := fun hEq => hCount (hLength.trans hEq)
    rw [exactly, exactly, dif_neg hCount, dif_neg hCount', hLength]
    exact .error rfl

theorem alike_concat (h : Value.AllAlike C M args args') :
    ExceptRel Eq (Value.AllAlike C M) (concat args) (concat args') := by
  induction h with
  | nil => exact .ok .nil
  | cons hHead _ ih =>
      refine hHead.listElements.bind fun own own' hOwn => ?_
      refine ih.bind fun others others' hOthers => ?_
      exact .ok (List.rel_append hOwn hOthers)

/-- A value and the next identity: the values are alike, and so are all identities from there. -/
def Outcomes (C : Correspondence) (M : Matching) (r r' : Value × Nat) : Prop :=
  r.1.Alike C M r'.1 ∧ ∀ k, C.id (r.2 + k) (r'.2 + k)

section Apply

variable {id id' : Nat} (hId : ∀ k, C.id (id + k) (id' + k))
include hId

theorem alike_withoutPairs {x x' : Except Cause Value} (h : ExceptRel Eq (Value.Alike C M) x x') :
    ExceptRel Eq (Outcomes C M) (withoutPairs id x) (withoutPairs id' x') :=
  h.map fun _ _ hv => ⟨hv, hId⟩

/-- A computation that is the same for both, and whose result holds neither pairs nor
procedures. -/
theorem alike_withoutPairs_map {α : Type} (x : Except Cause α) {f : α → Value}
    (hf : ∀ a, (f a).Alike C M (f a)) :
    ExceptRel Eq (Outcomes C M) (withoutPairs id (x.map f)) (withoutPairs id' (x.map f)) := by
  refine alike_withoutPairs hId ?_
  cases x with
  | ok a => exact .ok (hf a)
  | error cause => exact .error rfl

/-- A built-in procedure makes alike values of alike arguments, and gives out as many
identities. -/
theorem alike_apply (b : Builtin) (hArgs : Value.AllAlike C M args args') :
    ExceptRel Eq (Outcomes C M) (b.apply args id) (b.apply args' id') := by
  cases b with
  | add =>
      simp only [apply, fold_congr Number.add hArgs]
      exact alike_withoutPairs_map hId _ .number
  | sub =>
      simp only [apply, foldFrom_congr Number.sub _ hArgs]
      exact alike_withoutPairs_map hId _ .number
  | mul =>
      simp only [apply, fold_congr Number.mul hArgs]
      exact alike_withoutPairs_map hId _ .number
  | div =>
      simp only [apply, foldFrom_congr Number.div _ hArgs]
      exact alike_withoutPairs_map hId _ .number
  | compare comparison =>
      simp only [apply, compareAll_congr comparison hArgs]
      exact alike_withoutPairs_map hId _ .boolean
  | equal =>
      simp only [apply, allSame_congr hArgs]
      exact alike_withoutPairs hId (.ok (.boolean _))
  | not =>
      refine alike_withoutPairs hId ((alike_exactly 1 hArgs).map fun vs vs' hvs => ?_)
      rw [(hvs _).isFalse_eq]
      exact .boolean _
  | car =>
      refine alike_withoutPairs hId ((alike_exactly 1 hArgs).bind fun vs vs' hvs => ?_)
      exact (hvs _).asPair.bind fun parts parts' hParts => .ok hParts.1
  | cdr =>
      refine alike_withoutPairs hId ((alike_exactly 1 hArgs).bind fun vs vs' hvs => ?_)
      exact (hvs _).asPair.bind fun parts parts' hParts => .ok hParts.2
  | isList =>
      refine alike_withoutPairs hId ((alike_exactly 1 hArgs).map fun vs vs' hvs => ?_)
      rw [(hvs _).isProperList_eq]
      exact .boolean _
  | length =>
      refine alike_withoutPairs hId ((alike_exactly 1 hArgs).bind fun vs vs' hvs => ?_)
      rw [(hvs _).listLength_eq]
      cases (vs'.get ⟨0, Nat.one_pos⟩).listLength with
      | ok count => exact .ok (.number _)
      | error cause => exact .error rfl
  | listRef =>
      refine alike_withoutPairs hId ((alike_exactly 2 hArgs).bind fun vs vs' hvs => ?_)
      rw [(hvs _).asInteger_eq]
      cases (vs'.get ⟨1, Nat.one_lt_two⟩).asInteger with
      | ok index => exact (hvs _).listRef index.toInt
      | error cause => exact .error rfl
  | append =>
      refine (alike_concat hArgs).map fun elements elements' hElements => ?_
      refine ⟨hElements.chain .nil hId, fun k => ?_⟩
      rw [hElements.length_eq, Nat.add_assoc, Nat.add_assoc]
      exact hId _

end Apply

end Builtin

end MiniScheme
