import MiniScheme.Proofs.Adequacy
import MiniScheme.Proofs.Correspondence.Heaps

/-!
# Alike evaluations have alike outcomes

Two evaluations of alike expressions, in matching frames of alike heaps, stay alike to the end:
both give a value, or both stop, for the same cause, and the heaps they leave behind are alike. The
matching may have grown by then, because evaluation makes frames.

`Agrees` is that relation between two outcomes. Its bind rule passes the grown matching on, so that
every rule of evaluation is gone through once, for all correspondences. A property that compares
two evaluations is then a correspondence and a matching to begin with, with no further look at the
rules.

## Main results

* `Form.alike_read?`: alike operands have alike parts.
* `Eval.agrees_applyProcedure`: applications of alike procedures.
* `Eval.consistent_rules`, `Eval.consistent_run`: one application of the rules, and evaluation with
  any amount of fuel.
* `Eval.agrees_of_definite`: evaluation with two amounts of fuel that both suffice.
-/

namespace MiniScheme

variable {C : Correspondence} {M M' : Matching}

/-! ## Reading special forms -/

/-- Special forms of the same kind with alike parts. -/
inductive Form.Alike (C : Correspondence) : Form → Form → Prop where
  | define (name : String) {value value' : Expr} (hValue : value.Alike C value') :
      Alike C (.define name value) (.define name value')
  | procedure (name : String) {code code' : Lambda} (hCode : code.Alike C code') :
      Alike C (.procedure name code) (.procedure name code')
  | lambda {code code' : Lambda} (hCode : code.Alike C code') :
      Alike C (.lambda code) (.lambda code')
  | branch {test test' consequent consequent' alternative alternative' : Expr}
      (hTest : test.Alike C test') (hConsequent : consequent.Alike C consequent')
      (hAlternative : alternative.Alike C alternative') :
      Alike C (.branch test consequent alternative) (.branch test' consequent' alternative')
  | sequence {es es' : List Expr} (hes : Expr.AllAlike C es es') :
      Alike C (.sequence es) (.sequence es')
  | conjunction {es es' : List Expr} (hes : Expr.AllAlike C es es') :
      Alike C (.conjunction es) (.conjunction es')
  | disjunction {es es' : List Expr} (hes : Expr.AllAlike C es es') :
      Alike C (.disjunction es) (.disjunction es')
  | bind {bindings bindings' es es' : List Expr} (hBindings : Expr.AllAlike C bindings bindings')
      (hes : Expr.AllAlike C es es') : Alike C (.bind bindings es) (.bind bindings' es')
  | set {name : String} (hName : C.name name) {value value' : Expr}
      (hValue : value.Alike C value') : Alike C (.set name value) (.set name value')
  | delete {name : String} (hName : C.name name) : Alike C (.delete name) (.delete name)
  | pair {car car' cdr cdr' : Expr} (hCar : car.Alike C car') (hCdr : cdr.Alike C cdr') :
      Alike C (.pair car cdr) (.pair car' cdr')
  | list {es es' : List Expr} (hes : Expr.AllAlike C es es') : Alike C (.list es) (.list es')

namespace Form

theorem bindable?_congr {e e' : Expr} (h : e.Alike C e') : bindable? e = bindable? e' := by
  rw [bindable?, bindable?, h.name?_eq]

/-- A form that is made of a name that can be bound. -/
theorem alike_map_bindable? {e e' : Expr} (h : e.Alike C e') {make make' : String → Form}
    (hMake : ∀ name, C.name name → (make name).Alike C (make' name)) :
    Option.Rel (Form.Alike C) ((bindable? e).map make) ((bindable? e').map make') := by
  rw [← bindable?_congr h]
  cases hName : bindable? e with
  | none => exact .none
  | some name => exact .some (hMake name (h.name_of_name? (Option.filter_eq_some_iff.1 hName).1))

theorem readNames?_congr {es es' : List Expr} (h : Expr.AllAlike C es es') :
    readNames? es = readNames? es' := by
  induction h with
  | nil => rfl
  | cons hHead hTail ih =>
      unfold readNames?
      rw [hHead.name?_eq, bindable?_congr hHead, ih]
      split
      · -- Behind the dot: the same name, or not exactly one name in both.
        cases hTail with
        | nil => rfl
        | cons hLast hTail =>
            cases hTail with
            | nil => simp only [bindable?_congr hLast]
            | cons _ _ => rfl
      · rfl

theorem readFormalList?_congr {es es' : List Expr} (h : Expr.AllAlike C es es') :
    readFormalList? es = readFormalList? es' := by
  rw [readFormalList?, readFormalList?, readNames?_congr h]

theorem readFormals?_congr {e e' : Expr} (h : e.Alike C e') : readFormals? e = readFormals? e' := by
  cases h with
  | number => rfl
  | symbol hl hName => simp only [readFormals?, bindable?, Expr.name?]
  | list hl hItems => exact readFormalList?_congr hItems

/-- Alike bindings bind the same name, to alike expressions. -/
theorem alike_binding? {e e' : Expr} (h : e.Alike C e') :
    Option.Rel (fun entry entry' => entry.1 = entry'.1 ∧ entry.2.Alike C entry'.2) (binding? e)
      (binding? e') := by
  cases h with
  | number => exact .none
  | symbol => exact .none
  | list hl hItems =>
      cases hItems with
      | nil => exact .none
      | cons hName hItems =>
          cases hItems with
          | nil => exact .none
          | cons hValue hItems =>
              cases hItems with
              | cons _ _ => exact .none
              | nil =>
                  simp only [binding?, bindable?_congr hName]
                  cases bindable? _ with
                  | none => exact .none
                  | some name => exact .some ⟨rfl, hValue⟩

theorem alike_readDefine? {es es' : List Expr} (h : Expr.AllAlike C es es') :
    Option.Rel (Form.Alike C) (readDefine? es) (readDefine? es') := by
  cases h with
  | nil => exact .none
  | cons hTarget hRest =>
      cases hTarget with
      | number hl n => cases hRest <;> exact .none
      | symbol hl hName =>
          cases hRest with
          | nil => exact .none
          | cons hValue hRest =>
              cases hRest with
              | nil =>
                  have hTarget := Expr.Alike.symbol hl hName
                  exact alike_map_bindable? hTarget fun name _ => .define name hValue
              | cons _ _ => exact .none
      | list hl hItems =>
          cases hItems with
          | nil => cases hRest <;> exact .none
          | cons hName hFormals =>
              cases hRest with
              | nil => exact .none
              | cons he hes =>
                  simp only [readDefine?, bindable?_congr hName, readFormalList?_congr hFormals]
                  cases bindable? _ with
                  | none => exact .none
                  | some name =>
                      cases readFormalList? _ with
                      | none => exact .none
                      | some formals => exact .some (.procedure name ⟨rfl, .cons he hes⟩)

/-- Alike operands have alike parts. -/
theorem alike_read? (keyword : Keyword) {es es' : List Expr} (h : Expr.AllAlike C es es') :
    Option.Rel (Form.Alike C) (read? keyword es) (read? keyword es') := by
  cases keyword with
  | define => exact alike_readDefine? h
  | and => exact .some (.conjunction h)
  | or => exact .some (.disjunction h)
  | list => exact .some (.list h)
  | lambda =>
      cases h with
      | nil => exact .none
      | cons hFormals hRest =>
          cases hRest with
          | nil => exact .none
          | cons he hes =>
              simp only [read?, readFormals?_congr hFormals]
              cases readFormals? _ with
              | none => exact .none
              | some formals => exact .some (.lambda ⟨rfl, .cons he hes⟩)
  | ifThenElse =>
      cases h with
      | nil => exact .none
      | cons hTest hRest =>
          cases hRest with
          | nil => exact .none
          | cons hConsequent hRest =>
              cases hRest with
              | nil => exact .none
              | cons hAlternative hRest =>
                  cases hRest with
                  | nil => exact .some (.branch hTest hConsequent hAlternative)
                  | cons _ _ => exact .none
  | begin =>
      cases h with
      | nil => exact .none
      | cons he hes => exact .some (.sequence (.cons he hes))
  | letIn =>
      cases h with
      | nil => exact .none
      | cons hBindings hRest =>
          cases hBindings with
          | number hl n => cases hRest <;> exact .none
          | symbol hl hName => cases hRest <;> exact .none
          | list hl hItems =>
              cases hRest with
              | nil => exact .none
              | cons he hes => exact .some (.bind hItems (.cons he hes))
  | set =>
      cases h with
      | nil => exact .none
      | cons hTarget hRest =>
          cases hRest with
          | nil => exact .none
          | cons hValue hRest =>
              cases hRest with
              | nil => exact alike_map_bindable? hTarget fun name hName => .set hName hValue
              | cons _ _ => exact .none
  | del =>
      cases h with
      | nil => exact .none
      | cons hTarget hRest =>
          cases hRest with
          | nil => exact alike_map_bindable? hTarget fun name hName => .delete hName
          | cons _ _ => exact .none
  | cons =>
      cases h with
      | nil => exact .none
      | cons hCar hRest =>
          cases hRest with
          | nil => exact .none
          | cons hCdr hRest =>
              cases hRest with
              | nil => exact .some (.pair hCar hCdr)
              | cons _ _ => exact .none

end Form

/-! ## Outcomes -/

/-- Errors with the same cause, at places that stand for each other. -/
structure Error.Alike (C : Correspondence) (e e' : Error) : Prop where
  cause : e.cause = e'.cause
  place : C.place e.location e'.location

theorem Error.Alike.orAt {e e' : Error} (h : e.Alike C e') {l l' : Option Location}
    (hl : C.place l l') : (e.orAt l).Alike C (e'.orAt l') :=
  ⟨h.cause, C.place_or h.place hl⟩

theorem Error.Alike.eq (hPlace : ∀ {l l'}, C.place l l' → l = l') {e e' : Error}
    (h : e.Alike C e') : e = e' := by
  obtain ⟨cause, location⟩ := e
  obtain ⟨cause', location'⟩ := e'
  obtain rfl : cause = cause' := h.cause
  obtain rfl : location = location' := hPlace h.place
  rfl

/-- Both stop with alike errors, or both because the fuel was spent. -/
inductive Stop.Alike (C : Correspondence) : Stop → Stop → Prop where
  | error {e e' : Error} (he : e.Alike C e') : Alike C (.error e) (.error e')
  | exhausted : Alike C .exhausted .exhausted

/-- Machines with alike heaps and as many active procedure bodies, or with more of them on the
first. -/
structure Machine.Alike (C : Correspondence) (M : Matching) (m m' : Machine) : Prop where
  heap : m.heap.Alike C M m'.heap
  depth : m.depth = m'.depth ∨ C.lenient ∧ m'.depth ≤ m.depth

theorem Machine.Alike.depth_eq {m m' : Machine} (h : m.Alike C M m') (hC : ¬C.lenient) :
    m.depth = m'.depth :=
  h.depth.resolve_right fun hLenient => hC hLenient.1

theorem Machine.Alike.depth_le {m m' : Machine} (h : m.Alike C M m') : m'.depth ≤ m.depth :=
  h.depth.elim (fun hEq => Nat.le_of_eq hEq.symm) And.right

namespace Eval

theorem alike_enter {m m' : Machine} (h : m.Alike C M m') : (enter m).Alike C M (enter m') :=
  ⟨h.heap, h.depth.imp (congrArg (· + 1)) (And.imp_right (Nat.add_le_add_right · 1))⟩

theorem alike_leave {m m' : Machine} (h : m.Alike C M m') : (leave m).Alike C M (leave m') :=
  ⟨h.heap, h.depth.imp (congrArg (· - 1)) (And.imp_right (Nat.sub_le_sub_right · 1))⟩

/-- Two outcomes agree: both are values that are good together, or both stop alike. The machines
are alike, under a matching that may have grown. If the first run may have more active bodies, it
may also have been refused one, and then nothing is said of the second. -/
inductive Agrees (C : Correspondence) (M : Matching) {α : Type} (good : Matching → α → α → Prop) :
    EStateM.Result Stop Machine α → EStateM.Result Stop Machine α → Prop where
  | ok {M' : Matching} {a a' : α} {m m' : Machine} (hM : M ≤ M') (hm : m.Alike C M' m')
      (ha : good M' a a') : Agrees C M good (.ok a m) (.ok a' m')
  | error {M' : Matching} {stop stop' : Stop} {m m' : Machine} (hM : M ≤ M')
      (hm : m.Alike C M' m') (hStop : stop.Alike C stop') :
      Agrees C M good (.error stop m) (.error stop' m')
  | refused {e : Error} {m : Machine} {r' : EStateM.Result Stop Machine α} (hC : C.lenient)
      (hCause : ∃ limit, e.cause = .depthExceeded limit) :
      Agrees C M good (.error (.error e) m) r'

section Steps

variable {α β : Type} {good : Matching → α → α → Prop} {good' : Matching → β → β → Prop}
  {m m' : Machine}

theorem Agrees.weaken {r r' : EStateM.Result Stop Machine α} (hM : M ≤ M')
    (h : Agrees C M' good r r') : Agrees C M good r r' := by
  cases h with
  | ok hM' hm ha => exact .ok (hM.trans hM') hm ha
  | error hM' hm hStop => exact .error (hM.trans hM') hm hStop
  | refused hC hCause => exact .refused hC hCause

theorem Agrees.imp {good'' : Matching → α → α → Prop} {r r' : EStateM.Result Stop Machine α}
    (h : Agrees C M good r r')
    (hGood : ∀ {M' : Matching} {a a' : α}, M ≤ M' → good M' a a' → good'' M' a a') :
    Agrees C M good'' r r' := by
  cases h with
  | ok hM hm ha => exact .ok hM hm (hGood hM ha)
  | error hM hm hStop => exact .error hM hm hStop
  | refused hC hCause => exact .refused hC hCause

/-- Steps that agree are followed by steps that agree. What comes next may depend on how the first
steps ended. -/
theorem Agrees.bind_of_eq {x x' : Eval α} {f f' : α → Eval β}
    (hx : Agrees C M good (x m) (x' m'))
    (hf : ∀ {M' : Matching} {a a' : α} {n n' : Machine}, M ≤ M' → x m = .ok a n →
      x' m' = .ok a' n' → n.Alike C M' n' → good M' a a' → Agrees C M' good' (f a n) (f' a' n')) :
    Agrees C M good' ((x >>= f) m) ((x' >>= f') m') := by
  show Agrees C M good' (EStateM.bind x f m) (EStateM.bind x' f' m')
  unfold EStateM.bind
  generalize hEq : x m = r, hEq' : x' m' = r' at hx
  cases hx with
  | ok hM hm ha => exact (hf hM hEq hEq' hm ha).weaken hM
  | error hM hm hStop => exact .error hM hm hStop
  | refused hC hCause => exact .refused hC hCause

theorem Agrees.bind {x x' : Eval α} {f f' : α → Eval β} (hx : Agrees C M good (x m) (x' m'))
    (hf : ∀ {M' : Matching} {a a' : α} {n n' : Machine}, M ≤ M' → n.Alike C M' n' →
      good M' a a' → Agrees C M' good' (f a n) (f' a' n')) :
    Agrees C M good' ((x >>= f) m) ((x' >>= f') m') :=
  hx.bind_of_eq fun hM _ _ => hf hM

theorem agrees_pure {a a' : α} (hm : m.Alike C M m') (ha : good M a a') :
    Agrees C M good ((pure a : Eval α) m) ((pure a' : Eval α) m') :=
  .ok (le_refl M) hm ha

theorem agrees_throw {e e' : Error} (hm : m.Alike C M m') (he : e.Alike C e') :
    Agrees C M good ((throw (.error e) : Eval α) m) ((throw (.error e') : Eval α) m') :=
  .error (le_refl M) hm (.error he)

theorem agrees_fail (cause : Cause) (hm : m.Alike C M m') :
    Agrees C M good (fail cause m) (fail cause m') :=
  agrees_throw hm ⟨rfl, C.place_none⟩

theorem agrees_ofExcept {x x' : Except Cause α} (hm : m.Alike C M m')
    (hx : ExceptRel Eq (good M) x x') : Agrees C M good (ofExcept x m) (ofExcept x' m') := by
  cases hx with
  | ok ha => exact agrees_pure hm ha
  | error hCause =>
      rw [hCause]
      exact agrees_fail _ hm

theorem agrees_locate {l l' : Option Location} {x x' : Eval α} (hl : C.place l l')
    (hx : Agrees C M good (x m) (x' m')) :
    Agrees C M good (locate l x m) (locate l' x' m') := by
  unfold locate
  generalize x m = r, x' m' = r' at hx
  cases hx with
  | ok hM hm ha => exact .ok hM hm ha
  | error hM hm hStop =>
      cases hStop with
      | error he => exact .error hM hm (.error (he.orAt hl))
      | exhausted => exact .error hM hm .exhausted
  | refused hC hCause => exact .refused hC hCause

theorem admits_of_le {limit : Option Nat} {depth depth' : Nat} (hLe : depth' ≤ depth)
    (h : admits limit depth = true) : admits limit depth' = true := by
  cases limit with
  | none => rfl
  | some most => exact decide_eq_true (Nat.lt_of_le_of_lt hLe (of_decide_eq_true h))

theorem agrees_nested {limit : Option Nat} {x x' : Eval α} (hm : m.Alike C M m')
    (hx : Agrees C M good (x (enter m)) (x' (enter m'))) :
    Agrees C M good (nested limit x m) (nested limit x' m') := by
  unfold nested
  by_cases hAdmits : admits limit m.depth = true
  · rw [if_pos hAdmits, if_pos (admits_of_le hm.depth_le hAdmits)]
    generalize x (enter m) = r, x' (enter m') = r' at hx
    cases hx with
    | ok hM hm ha => exact .ok hM (alike_leave hm) ha
    | error hM hm hStop => exact .error hM (alike_leave hm) hStop
    | refused hC hCause => exact .refused hC hCause
  · rw [if_neg hAdmits]
    rcases hm.depth with hEq | ⟨hC, _⟩
    · rw [if_neg (hEq ▸ hAdmits)]
      exact agrees_fail _ hm
    · exact .refused hC ⟨_, rfl⟩

end Steps

/-! ## Operations on the machine -/

section Operations

variable {m m' : Machine} (hm : m.Alike C M m')
include hm

theorem agrees_freshId : Agrees C M (fun _ => C.id) (freshId m) (freshId m') := by
  refine .ok (le_refl M) ⟨hm.heap.nextId fun k => ?_, hm.depth⟩ (hm.heap.id 0)
  rw [Nat.add_assoc, Nat.add_assoc]
  exact hm.heap.id (1 + k)

theorem agrees_cons {car car' cdr cdr' : Value} (hCar : car.Alike C M car')
    (hCdr : cdr.Alike C M cdr') :
    Agrees C M (Value.Alike C) (cons car cdr m) (cons car' cdr' m') :=
  (agrees_freshId hm).bind fun hM hn hId =>
    agrees_pure hn (.pair hId (hCar.mono hM) (hCdr.mono hM))

theorem agrees_chain {items items' : List Value} (hItems : Value.AllAlike C M items items') :
    Agrees C M (Value.Alike C) (chain items .nil m) (chain items' .nil m') := by
  refine .ok (le_refl M) ⟨hm.heap.nextId fun k => ?_, hm.depth⟩ (hItems.chain .nil hm.heap.id)
  rw [hItems.length_eq, Nat.add_assoc, Nat.add_assoc]
  exact hm.heap.id _

theorem agrees_closure {code code' : Lambda} {env env' : FrameId} (hCode : code.Alike C code')
    (hEnv : M env env') :
    Agrees C M (Value.Alike C) (closure code env m) (closure code' env' m') :=
  (agrees_freshId hm).bind fun hM hn hId =>
    agrees_pure hn (.procedure (.closure hId hCode (hM _ _ hEnv)))

theorem agrees_newChild {parent parent' : FrameId} (hParent : M parent parent') :
    Agrees C M (fun M' => M') (newChild parent m) (newChild parent' m') :=
  .ok (Heap.le_withPair M _ _) ⟨hm.heap.newChild hParent, hm.depth⟩ (.inr ⟨rfl, rfl⟩)

theorem agrees_define {env env' : FrameId} (hEnv : M env env') (name : String) {v v' : Value}
    (hv : v.Alike C M v') :
    Agrees C M (fun _ _ _ => True) (define env name v m) (define env' name v' m') :=
  .ok (le_refl M) ⟨hm.heap.define hEnv name hv, hm.depth⟩ trivial

theorem agrees_defineAll {env env' : FrameId} (hEnv : M env env')
    {entries entries' : List (String × Value)} (hEntries : EntriesAlike C M entries entries') :
    Agrees C M (fun _ _ _ => True) (defineAll env entries m) (defineAll env' entries' m') :=
  .ok (le_refl M) ⟨Heap.Alike.defineAll hEntries hEnv hm.heap, hm.depth⟩ trivial

theorem agrees_lookup {env env' : FrameId} (hEnv : M env env') {name : String}
    (hName : C.name name) :
    Agrees C M (Value.Alike C) (lookup env name m) (lookup env' name m') :=
  agrees_ofExcept hm (hm.heap.lookup hEnv hName)

theorem agrees_set {env env' : FrameId} (hEnv : M env env') {name : String} (hName : C.name name)
    {v v' : Value} (hv : v.Alike C M v') :
    Agrees C M (fun _ _ _ => True) (set env name v m) (set env' name v' m') := by
  have hSet := hm.heap.set hEnv hName hv
  unfold Eval.set
  generalize m.heap.set env name v = x, m'.heap.set env' name v' = x' at hSet
  cases hSet with
  | ok hHeap => exact .ok (le_refl M) ⟨hHeap, hm.depth⟩ trivial
  | error hCause =>
      rw [hCause]
      exact agrees_fail _ hm

theorem agrees_delete {env env' : FrameId} (hEnv : M env env') {name : String}
    (hName : C.name name) :
    Agrees C M (Value.Alike C) (delete env name m) (delete env' name m') := by
  have hDelete := hm.heap.delete hEnv hName
  unfold Eval.delete
  generalize m.heap.delete env name = x, m'.heap.delete env' name = x' at hDelete
  cases hDelete with
  | ok h => exact .ok (le_refl M) ⟨h.2, hm.depth⟩ h.1
  | error hCause =>
      rw [hCause]
      exact agrees_fail _ hm

theorem agrees_callBuiltin (b : Builtin) {args args' : List Value}
    (hArgs : Value.AllAlike C M args args') :
    Agrees C M (Value.Alike C) (callBuiltin b args m) (callBuiltin b args' m') := by
  have hApply := Builtin.alike_apply hm.heap.id b hArgs
  unfold callBuiltin
  generalize b.apply args m.heap.nextId = x, b.apply args' m'.heap.nextId = x' at hApply
  cases hApply with
  | ok h => exact .ok (le_refl M) ⟨hm.heap.nextId h.2, hm.depth⟩ h.1
  | error hCause =>
      rw [hCause]
      exact agrees_fail _ hm

end Operations

/-! ## Several expressions -/

/-- Evaluations of alike expressions in matching frames of alike machines agree. -/
def Consistent (C : Correspondence) (self : Evaluator) : Prop :=
  ∀ {M : Matching} {env env' : FrameId} {e e' : Expr} {m m' : Machine}, M env env' →
    e.Alike C e' → m.Alike C M m' →
    Agrees C M (Value.Alike C) (self env e m) (self env' e' m')

variable {self : Evaluator} {limit : Option Nat}

section Sequences

variable (hself : Consistent C self)
include hself

theorem agrees_eachFrom {es es' : List Expr} (hes : Expr.AllAlike C es es') :
    ∀ {M : Matching} {env env' : FrameId} {done done' : List Value} {m m' : Machine},
      M env env' → Value.AllAlike C M done done' → m.Alike C M m' →
      Agrees C M (Value.AllAlike C) (eachFrom self env done es m)
        (eachFrom self env' done' es' m') := by
  induction hes with
  | nil =>
      intro M env env' done done' m m' _ hDone hm
      exact agrees_pure hm (List.rel_reverse hDone)
  | cons he _ ih =>
      intro M env env' done done' m m' hEnv hDone hm
      refine (hself hEnv he hm).bind fun hM hn hv => ?_
      exact ih (hM _ _ hEnv) (.cons hv (hDone.mono hM)) hn

theorem agrees_each {es es' : List Expr} (hes : Expr.AllAlike C es es') {env env' : FrameId}
    {m m' : Machine} (hEnv : M env env') (hm : m.Alike C M m') :
    Agrees C M (Value.AllAlike C) (each self env es m) (each self env' es' m') :=
  agrees_eachFrom hself hes hEnv .nil hm

theorem agrees_body {es es' : List Expr} (hes : Expr.AllAlike C es es') :
    ∀ {M : Matching} {env env' : FrameId} {m m' : Machine}, M env env' → m.Alike C M m' →
      Agrees C M (Value.Alike C) (body self env es m) (body self env' es' m') := by
  induction hes with
  | nil =>
      intro M env env' m m' _ hm
      exact agrees_fail _ hm
  | cons he hes ih =>
      intro M env env' m m' hEnv hm
      cases hes with
      | nil => exact hself hEnv he hm
      | cons _ _ =>
          exact (hself hEnv he hm).bind fun hM hn _ => ih (hM _ _ hEnv) hn

/-- Expressions are evaluated until the value of one passes a test that alike values pass
together. -/
theorem agrees_scan {scan : FrameId → List Expr → Eval Value} {test : Value → Bool} {b b' : Bool}
    (hNil : ∀ env, scan env [] = pure (.boolean b))
    (hCons : ∀ env e es, scan env (e :: es) =
      self env e >>= fun v => if test v then pure (.boolean b') else scan env es)
    (hTest : ∀ {M : Matching} {v v' : Value}, v.Alike C M v' → test v = test v')
    {es es' : List Expr} (hes : Expr.AllAlike C es es') :
    ∀ {M : Matching} {env env' : FrameId} {m m' : Machine}, M env env' → m.Alike C M m' →
      Agrees C M (Value.Alike C) (scan env es m) (scan env' es' m') := by
  induction hes with
  | nil =>
      intro M env env' m m' _ hm
      rw [hNil, hNil]
      exact agrees_pure hm (.boolean b)
  | cons he _ ih =>
      intro M env env' m m' hEnv hm
      rw [hCons, hCons]
      refine (hself hEnv he hm).bind fun hM hn hv => ?_
      rw [hTest hv]
      split
      · exact agrees_pure hn (.boolean b')
      · exact ih (hM _ _ hEnv) hn

theorem agrees_conjunction {es es' : List Expr} (hes : Expr.AllAlike C es es')
    {env env' : FrameId} {m m' : Machine} (hEnv : M env env') (hm : m.Alike C M m') :
    Agrees C M (Value.Alike C) (conjunction self env es m) (conjunction self env' es' m') :=
  agrees_scan hself (fun _ => rfl) (fun _ _ _ => rfl) (fun hv => hv.isFalse_eq) hes hEnv hm

theorem agrees_disjunction {es es' : List Expr} (hes : Expr.AllAlike C es es')
    {env env' : FrameId} {m m' : Machine} (hEnv : M env env') (hm : m.Alike C M m') :
    Agrees C M (Value.Alike C) (disjunction self env es m) (disjunction self env' es' m') :=
  agrees_scan hself (fun _ => rfl) (fun _ _ _ => rfl) (fun hv => hv.isTrue_eq) hes hEnv hm

theorem agrees_bindings {whole whole' : Expr} (hWhole : whole.Alike C whole')
    {es es' : List Expr} (hes : Expr.AllAlike C es es') :
    ∀ {M : Matching} {env env' inner inner' : FrameId} {m m' : Machine}, M env env' →
      M inner inner' → m.Alike C M m' →
      Agrees C M (fun _ _ _ => True) (bindings self env inner whole es m)
        (bindings self env' inner' whole' es' m') := by
  induction hes with
  | nil =>
      intro M env env' inner inner' m m' _ _ hm
      exact agrees_pure hm trivial
  | @cons e e' _ _ he _ ih =>
      intro M env env' inner inner' m m' hEnv hInner hm
      have hBinding := Form.alike_binding? he
      unfold bindings
      generalize Form.binding? e = x, Form.binding? e' = x' at hBinding
      cases hBinding with
      | none =>
          dsimp only
          rw [hWhole.render_eq]
          exact agrees_fail _ hm
      | @some entry entry' hEntry =>
          obtain ⟨name, value⟩ := entry
          obtain ⟨name', value'⟩ := entry'
          obtain ⟨rfl, hValue⟩ := hEntry
          refine (hself hEnv hValue hm).bind fun hM hn hv => ?_
          refine (agrees_define hn (hM _ _ hInner) name hv).bind fun hM' hn' _ => ?_
          have hGrown := hM.trans hM'
          exact ih (hGrown _ _ hEnv) (hGrown _ _ hInner) hn'

end Sequences

/-! ## Calls -/

theorem zip_alike (names : List String) {args args' : List Value}
    (hArgs : Value.AllAlike C M args args') :
    EntriesAlike C M (names.zip args) (names.zip args') := by
  induction hArgs generalizing names with
  | nil =>
      rw [List.zip_nil_right]
      exact .nil
  | cons hHead _ ih =>
      cases names with
      | nil => exact .nil
      | cons name names => exact .cons ⟨rfl, hHead⟩ (ih names)

theorem agrees_bindArguments (formals : Formals) {args args' : List Value} {m m' : Machine}
    (hArgs : Value.AllAlike C M args args') (hm : m.Alike C M m') :
    Agrees C M (EntriesAlike C) (bindArguments formals args m)
      (bindArguments formals args' m') := by
  rw [bindArguments_eq, bindArguments_eq]
  cases formals.rest with
  | none => exact agrees_pure hm (zip_alike formals.fixed hArgs)
  | some rest =>
      refine (agrees_chain hm (List.forall₂_drop _ hArgs)).bind fun hM hn hOthers => ?_
      refine agrees_pure hn (List.rel_append (zip_alike formals.fixed (hArgs.mono hM)) ?_)
      exact .cons ⟨rfl, hOthers⟩ .nil

theorem agrees_enterBody (hself : Consistent C self) {code code' : Lambda}
    (hCode : code.Alike C code') {f f' : FrameId} (hf : M f f') {args args' : List Value}
    (hArgs : Value.AllAlike C M args args') {m m' : Machine} (hm : m.Alike C M m') :
    Agrees C M (Value.Alike C) (enterBody self code f args m)
      (enterBody self code' f' args' m') := by
  unfold enterBody
  refine (agrees_newChild hm hf).bind fun {M₁ inner inner' _ _} hM₁ hm₁ hInner => ?_
  rw [← hCode.formals]
  refine (agrees_bindArguments code.formals (hArgs.mono hM₁) hm₁).bind fun hM₂ hm₂ hEntries => ?_
  refine (agrees_defineAll hm₂ (hM₂ _ _ hInner) hEntries).bind fun hM₃ hm₃ _ => ?_
  exact agrees_body hself hCode.body (hM₃ _ _ (hM₂ _ _ hInner)) hm₃

/-- Applications of alike procedures to alike arguments agree. -/
theorem agrees_applyProcedure (hself : Consistent C self) {p p' : Procedure}
    (hp : p.Alike C M p') {args args' : List Value} (hArgs : Value.AllAlike C M args args')
    {m m' : Machine} (hm : m.Alike C M m') :
    Agrees C M (Value.Alike C) (applyProcedure limit self p args m)
      (applyProcedure limit self p' args' m') := by
  unfold applyProcedure
  rw [hp.formals_eq, hArgs.length_eq]
  split
  · cases hp with
    | builtin b => exact agrees_callBuiltin hm b hArgs
    | closure hId hCode hf =>
        exact agrees_nested hm (agrees_enterBody hself hCode hf hArgs (alike_enter hm))
  · exact agrees_fail _ hm

theorem agrees_callee {l l' : Option Location} (hl : C.place l l') {v v' : Value}
    (hv : v.Alike C M v') {m m' : Machine} (hm : m.Alike C M m') :
    Agrees C M (Procedure.Alike C) (callee l v m) (callee l' v' m') := by
  have hText := hv.render_eq
  cases hv with
  | procedure hp => exact agrees_pure hm hp
  | _ => exact agrees_throw hm ⟨congrArg Cause.notCallable hText, hl⟩

theorem agrees_call (hself : Consistent C self) {env env' : FrameId} (hEnv : M env env')
    {head head' : Expr} (hHead : head.Alike C head') {es es' : List Expr}
    (hes : Expr.AllAlike C es es') {m m' : Machine} (hm : m.Alike C M m') :
    Agrees C M (Value.Alike C) (call limit self env head es m)
      (call limit self env' head' es' m') := by
  unfold call
  refine (hself hEnv hHead hm).bind fun hM₁ hm₁ hv => ?_
  refine (agrees_callee hHead.place hv hm₁).bind fun hM₂ hm₂ hp => ?_
  refine (agrees_each hself hes (hM₂ _ _ (hM₁ _ _ hEnv)) hm₂).bind fun hM₃ hm₃ hArgs => ?_
  exact agrees_applyProcedure hself (hp.mono hM₃) hArgs hm₃

/-! ## Special forms -/

theorem agrees_form (hself : Consistent C self) {env env' : FrameId} (hEnv : M env env')
    {whole whole' : Expr} (hWhole : whole.Alike C whole') {parts parts' : Form}
    (hParts : parts.Alike C parts') {m m' : Machine} (hm : m.Alike C M m') :
    Agrees C M (Value.Alike C) (form self env whole parts m)
      (form self env' whole' parts' m') := by
  cases hParts with
  | define name hValue =>
      refine (hself hEnv hValue hm).bind fun hM₁ hm₁ hv => ?_
      refine (agrees_define hm₁ (hM₁ _ _ hEnv) name hv).bind fun hM₂ hm₂ _ => ?_
      exact agrees_pure hm₂ (hv.mono hM₂)
  | procedure name hCode =>
      refine (agrees_closure hm hCode hEnv).bind fun hM₁ hm₁ hv => ?_
      refine (agrees_define hm₁ (hM₁ _ _ hEnv) name hv).bind fun hM₂ hm₂ _ => ?_
      exact agrees_pure hm₂ (hv.mono hM₂)
  | lambda hCode => exact agrees_closure hm hCode hEnv
  | branch hTest hConsequent hAlternative =>
      refine (hself hEnv hTest hm).bind fun hM₁ hm₁ hv => ?_
      rw [hv.isTrue_eq]
      split
      · exact hself (hM₁ _ _ hEnv) hConsequent hm₁
      · exact hself (hM₁ _ _ hEnv) hAlternative hm₁
  | sequence hes => exact agrees_body hself hes hEnv hm
  | conjunction hes => exact agrees_conjunction hself hes hEnv hm
  | disjunction hes => exact agrees_disjunction hself hes hEnv hm
  | bind hBindings hes =>
      refine (agrees_newChild hm hEnv).bind fun hM₁ hm₁ hInner => ?_
      refine (agrees_bindings hself hWhole hBindings (hM₁ _ _ hEnv) hInner hm₁).bind
        fun hM₂ hm₂ _ => ?_
      exact agrees_body hself hes (hM₂ _ _ hInner) hm₂
  | set hName hValue =>
      refine (hself hEnv hValue hm).bind fun hM₁ hm₁ hv => ?_
      refine (agrees_set hm₁ (hM₁ _ _ hEnv) hName hv).bind fun hM₂ hm₂ _ => ?_
      exact agrees_pure hm₂ (hv.mono hM₂)
  | delete hName => exact agrees_delete hm hEnv hName
  | pair hCar hCdr =>
      refine (hself hEnv hCar hm).bind fun hM₁ hm₁ ha => ?_
      refine (hself (hM₁ _ _ hEnv) hCdr hm₁).bind fun hM₂ hm₂ hd => ?_
      exact agrees_cons hm₂ (ha.mono hM₂) hd
  | list hes =>
      exact (agrees_each hself hes hEnv hm).bind fun hM₁ hm₁ hvs => agrees_chain hm₁ hvs

/-! ## Expressions -/

theorem agrees_symbol {env env' : FrameId} (hEnv : M env env') {name : String}
    (hName : C.name name) {m m' : Machine} (hm : m.Alike C M m') :
    Agrees C M (Value.Alike C) (symbol env name m) (symbol env' name m') := by
  unfold symbol
  split
  · exact agrees_pure hm (.boolean true)
  · split
    · exact agrees_pure hm (.boolean false)
    · split
      · exact agrees_pure hm .nil
      · exact agrees_lookup hm hEnv hName

theorem agrees_combination (hself : Consistent C self) {env env' : FrameId} (hEnv : M env env')
    {whole whole' : Expr} (hWhole : whole.Alike C whole') {head head' : Expr}
    (hHead : head.Alike C head') {es es' : List Expr} (hes : Expr.AllAlike C es es')
    {m m' : Machine} (hm : m.Alike C M m') :
    Agrees C M (Value.Alike C) (combination limit self env whole head es m)
      (combination limit self env' whole' head' es' m') := by
  unfold combination Expr.keyword?
  rw [← hHead.name?_eq]
  cases head.name?.bind Keyword.ofText? with
  | none => exact agrees_call hself hEnv hHead hes hm
  | some keyword =>
      have hParts := Form.alike_read? keyword hes
      dsimp only
      generalize Form.read? keyword es = x, Form.read? keyword es' = x' at hParts
      cases hParts with
      | none =>
          dsimp only
          rw [hWhole.render_eq]
          exact agrees_fail _ hm
      | some hParts => exact agrees_form hself hEnv hWhole hParts hm

/-- The rules are consistent if the evaluator is that they are given. -/
theorem consistent_rules (hself : Consistent C self) : Consistent C (rules limit self) := by
  intro M env env' e e' m m' hEnv he hm
  refine agrees_locate he.place ?_
  cases he with
  | number hl n => exact agrees_pure hm (.number n)
  | symbol hl hName => exact agrees_symbol hEnv hName hm
  | list hl hItems =>
      cases hItems with
      | nil => exact agrees_fail _ hm
      | cons hHead hes =>
          exact agrees_combination hself hEnv (.list hl (.cons hHead hes)) hHead hes hm

/-- Evaluations of alike expressions, with any amount of fuel, agree. -/
theorem consistent_run (limit : Option Nat) (fuel : Nat) : Consistent C (run limit fuel) := by
  induction fuel with
  | zero =>
      intro M env env' e e' m m' _ _ hm
      exact .error (le_refl M) hm .exhausted
  | succ fuel ih => exact consistent_rules ih

/-- Different amounts of fuel do not matter, if both suffice. -/
theorem agrees_of_definite {limit : Option Nat} {fuel fuel' : Nat} {env env' : FrameId}
    {e e' : Expr} {m m' : Machine} (hEnv : M env env') (he : e.Alike C e') (hm : m.Alike C M m')
    (h : Definite (run limit fuel env e m)) (h' : Definite (run limit fuel' env' e' m')) :
    Agrees C M (Value.Alike C) (run limit fuel env e m) (run limit fuel' env' e' m') := by
  obtain ⟨_, n, hn⟩ := Returns.of_definite h
  obtain ⟨_, n', hn'⟩ := Returns.of_definite h'
  have hRun := consistent_run limit (max n n') hEnv he hm
  rw [hn _ (Nat.le_max_left n n'), hn' _ (Nat.le_max_right n n')] at hRun
  exact hRun

end Eval

end MiniScheme
