import MiniScheme.Proofs.ActiveBodies
import MiniScheme.Proofs.Acts
import MiniScheme.Proofs.Confinement
import MiniScheme.Proofs.FormShapes
import MiniScheme.Proofs.Layout

/-!
# A `let` is an applied lambda

`(let ((name value) …) body …)` has the outcome of `((lambda (name …) body …) value …)`, with the
same effects, unless the application is one procedure body too many.

The two evaluations do not go in step. The `let` makes its frame first and fills it while its values
are still being computed; the call makes a procedure first, and a frame only when it has all of the
arguments. So frames and identities are given out in another order, and for some time the `let` has
a frame that the call has nothing for. That frame is out of reach until the body is evaluated: the
values are computed in the frame outside, and nothing that they come to leads to it. When the call
has made its own frame, the two are found to have alike definitions, and are matched.

## Main results

* `Eval.agrees_operands`: the values are computed, in the frame outside.
* `Eval.agrees_application`: the body is evaluated, in the frame that binds them.
* `Eval.let_is_applied_lambda`: the two evaluations, from any sound heap.
-/

namespace MiniScheme

/-! ## The two expressions -/

namespace Expr

/-- `((lambda (name …) body …) value …)`. -/
def appliedLambda (entries : List (String × Expr)) (inside : List Expr) : Expr :=
  .list none (.list none (.symbol none "lambda" ::
    .list none ((entries.map Prod.fst).map (.symbol none)) :: inside) :: entries.map Prod.snd)

/-- `(let ((name value) …) body …)`. -/
def letIn (entries : List (String × Expr)) (inside : List Expr) : Expr :=
  .list none (.symbol none "let" ::
    .list none (entries.map fun entry => .list none [.symbol none entry.1, entry.2]) :: inside)

end Expr

/-- Lists that are both related to a third one. -/
theorem forall₂_of_both {α β γ : Type} {R : α → γ → Prop} {S : β → γ → Prop} {P : α → β → Prop}
    {cs : List γ} (hRS : ∀ c ∈ cs, ∀ a b, R a c → S b c → P a b) :
    ∀ {as : List α} {bs : List β}, List.Forall₂ R as cs → List.Forall₂ S bs cs →
      List.Forall₂ P as bs := by
  induction cs with
  | nil =>
      intro as bs has hbs
      cases has
      cases hbs
      exact .nil
  | cons c cs ih =>
      intro as bs has hbs
      cases has with
      | cons ha has =>
          cases hbs with
          | cons hb hbs =>
              exact .cons (hRS c (by simp) _ _ ha hb)
                (ih (fun c hc => hRS c (by simp [hc])) has hbs)

/-- Any places stand for each other, and all names are mentioned. -/
structure Correspondence.Placeless (C : Correspondence) : Prop where
  place : ∀ l l', C.place l l'
  name : ∀ name, C.name name

namespace Expr

variable {C : Correspondence}

/-- Two layouts of one expression are alike. -/
theorem alike_of_relaid (hC : C.Placeless) {e e₁ e₂ : Expr} (h₁ : e₁.Relaid e)
    (h₂ : e₂.Relaid e) : e₁.Alike C e₂ := by
  induction e using Expr.induction generalizing e₁ e₂ with
  | number l n =>
      cases h₁
      cases h₂
      exact .number (hC.place _ _) n
  | symbol l name =>
      cases h₁
      cases h₂
      exact .symbol (hC.place _ _) (hC.name name)
  | list l es ih =>
      cases h₁ with
      | list _ h₁ =>
          cases h₂ with
          | list _ h₂ =>
              exact .list (hC.place _ _)
                (forall₂_of_both (P := Alike C) (fun e he _ _ => ih e he) h₁ h₂)

theorem allAlike_of_relaid (hC : C.Placeless) {es es₁ es₂ : List Expr}
    (h₁ : List.Forall₂ Relaid es₁ es) (h₂ : List.Forall₂ Relaid es₂ es) : AllAlike C es₁ es₂ :=
  forall₂_of_both (S := Relaid) (P := Alike C) (fun _ _ _ _ => alike_of_relaid hC) h₁ h₂

/-- A layout of a form has the same name at its head. -/
theorem exists_of_relaid_form {e : Expr} {name : String} {es : List Expr}
    (h : e.Relaid (.list none (.symbol none name :: es))) :
    ∃ l l' es', e = .list l (.symbol l' name :: es') ∧ List.Forall₂ Relaid es' es := by
  cases h with
  | list _ hItems =>
      cases hItems with
      | cons hHead hOperands =>
          cases hHead with
          | symbol _ _ => exact ⟨_, _, _, rfl, hOperands⟩

end Expr

/-! ## Reading them -/

namespace Form

/-- A list of different names that can be bound is a parameter list without a rest name. -/
theorem readFormals?_names {names : List String}
    (hNames : ∀ name ∈ names, isBindable name = true) (hNodup : names.Nodup) {e : Expr}
    (he : e.Relaid (.list none (names.map (.symbol none)))) :
    readFormals? e = some ⟨names, none⟩ := by
  have hSpells : Spells (names.map (.symbol none)) names :=
    List.forall₂_map_left_iff.2 (List.forall₂_same.2 fun _ _ => rfl)
  have hValid : Formals.Valid ⟨names, none⟩ := by
    constructor <;> simpa [Formals.names]
  rw [readFormals?_congr he, readFormals?, readFormalList?_eq_some_iff]
  exact ⟨hSpells, hValid⟩

end Form

namespace Eval

variable {entries : List (String × Expr)} {inside : List Expr}

/-- The head of the call makes a procedure. -/
theorem run_lambda {names : List String} (hNames : ∀ name ∈ names, Form.isBindable name = true)
    (hNodup : names.Nodup) (hInside : inside ≠ []) {head : Expr}
    (hHead : head.Relaid (.list none (.symbol none "lambda" ::
      .list none (names.map (.symbol none)) :: inside))) :
    ∃ code : Lambda, code.formals = ⟨names, none⟩ ∧ List.Forall₂ Expr.Relaid code.body inside ∧
      head.keyword? = none ∧
      ∀ limit fuel env m, run limit (fuel + 1) env head m = closure code env m := by
  obtain ⟨l, l', operands, rfl, hOperands⟩ := Expr.exists_of_relaid_form hHead
  cases hOperands with
  | @cons formals _ _ _ hFormals hBody =>
      cases hBody with
      | nil => exact absurd rfl hInside
      | @cons e _ es _ he hes =>
          have hRead : Form.read? .lambda (formals :: e :: es) =
              some (.lambda ⟨⟨names, none⟩, e :: es⟩) := by
            rw [Form.read?, Form.readFormals?_names hNames hNodup hFormals]
            rfl
          refine ⟨⟨⟨names, none⟩, e :: es⟩, rfl, .cons he hes, rfl, fun limit fuel env m => ?_⟩
          exact congrFun (run_form (Expr.keyword?_symbol l' .lambda) hRead limit fuel env l) m

/-- The call computes the values of its operands and applies a procedure that was just made. -/
theorem run_appliedLambda (hNames : ∀ entry ∈ entries, Form.isBindable entry.1 = true)
    (hNodup : (entries.map Prod.fst).Nodup) (hInside : inside ≠ []) {call : Expr}
    (hCall : call.Relaid (.appliedLambda entries inside)) :
    ∃ (code : Lambda) (operands : List Expr), code.formals = ⟨entries.map Prod.fst, none⟩ ∧
      List.Forall₂ Expr.Relaid code.body inside ∧
      List.Forall₂ Expr.Relaid operands (entries.map Prod.snd) ∧
      ∀ limit fuel env m, run limit (fuel + 2) env call m =
        locate call.location (fun m => (each (run limit (fuel + 1)) env operands >>=
          applyProcedure limit (run limit (fuel + 1)) (.closure m.heap.nextId code env))
            { m with heap := { m.heap with nextId := m.heap.nextId + 1 } }) m := by
  have hBindable : ∀ name ∈ entries.map Prod.fst, Form.isBindable name = true := by
    intro name hName
    obtain ⟨entry, hEntry, rfl⟩ := List.mem_map.1 hName
    exact hNames entry hEntry
  cases hCall with
  | list hl hItems =>
      cases hItems with
      | @cons head _ operands _ hHead hOperands =>
          obtain ⟨code, hFormals, hBody, hKeyword, hRun⟩ :=
            run_lambda hBindable hNodup hInside hHead
          refine ⟨code, operands, hFormals, hBody, hOperands, fun limit fuel env m => ?_⟩
          rw [run, rules]
          refine congrArg (fun x => locate _ x m) (funext fun m => ?_)
          simp only [expression, combination, hKeyword]
          show EStateM.bind (run limit (fuel + 1) env head) _ m = _
          rw [EStateM.bind, hRun]
          rfl

/-- The `let` makes a frame, defines its names there and evaluates its body in it. -/
theorem run_letIn (hInside : inside ≠ []) {form : Expr}
    (hForm : form.Relaid (.letIn entries inside)) :
    ∃ bs inside' : List Expr, List.Forall₂ Expr.Relaid bs
        (entries.map fun entry => .list none [.symbol none entry.1, entry.2]) ∧
      List.Forall₂ Expr.Relaid inside' inside ∧
      ∀ limit fuel env m, run limit (fuel + 1) env form m =
        locate form.location (fun m =>
          (bindings (run limit fuel) env m.heap.frames.size form bs >>= fun _ =>
            body (run limit fuel) m.heap.frames.size inside')
              { m with heap := (m.heap.newChild env).2 }) m := by
  obtain ⟨l, l', operands, rfl, hOperands⟩ := Expr.exists_of_relaid_form hForm
  cases hOperands with
  | cons hBindings hBody =>
      cases hBindings with
      | @list l'' _ bs _ _ hBindings =>
          cases hBody with
          | nil => exact absurd rfl hInside
          | @cons e _ es _ he hes =>
              have hRead : Form.read? .letIn (.list l'' bs :: e :: es) =
                  some (.bind bs (e :: es)) := rfl
              refine ⟨bs, e :: es, hBindings, .cons he hes, fun limit fuel env m => ?_⟩
              exact congrFun (run_form (Expr.keyword?_symbol l' .letIn) hRead limit fuel env l) m

/-! ## Bindings and operands -/

/-- A binding of a `let` binds the name to a layout of the expression. -/
def Binds (C : Correspondence) (operand : String × Expr) (b : Expr) : Prop :=
  ∃ value, Form.binding? b = some (operand.1, value) ∧ operand.2.Alike C value

theorem exists_binds {C : Correspondence} (hC : C.Placeless) :
    ∀ {entries : List (String × Expr)} {operands bs : List Expr},
      (∀ entry ∈ entries, Form.isBindable entry.1 = true) →
      List.Forall₂ Expr.Relaid operands (entries.map Prod.snd) →
      List.Forall₂ Expr.Relaid bs
        (entries.map fun entry => .list none [.symbol none entry.1, entry.2]) →
      ∃ named : List (String × Expr), named.map Prod.fst = entries.map Prod.fst ∧
        named.map Prod.snd = operands ∧ List.Forall₂ (Binds C) named bs := by
  intro entries
  induction entries with
  | nil =>
      intro operands bs _ hOperands hBindings
      cases hOperands
      cases hBindings
      exact ⟨[], rfl, rfl, .nil⟩
  | cons entry entries ih =>
      intro operands bs hNames hOperands hBindings
      cases hOperands with
      | @cons operand _ operands _ hOperand hOperands =>
          cases hBindings with
          | @cons b _ bs _ hBinding hBindings =>
              obtain ⟨named, hFst, hSnd, hBinds⟩ :=
                ih (fun other hOther => hNames other (by simp [hOther])) hOperands hBindings
              have hName := hNames entry (by simp)
              have hRead : Form.binding? (.list none [.symbol none entry.1, entry.2]) =
                  some (entry.1, entry.2) := by
                rw [Form.binding?, Form.bindable?_symbol hName]
                rfl
              have hSame := Form.alike_binding? hBinding
              rw [hRead] at hSame
              generalize hx : Form.binding? b = x at hSame
              cases hSame with
              | @some found _ hFound =>
                  refine ⟨(entry.1, operand) :: named, by simp [hFst], by simp [hSnd],
                    .cons ⟨found.2, ?_, Expr.alike_of_relaid hC hOperand hFound.2⟩ hBinds⟩
                  rw [hx, ← hFound.1]

end Eval

/-! ## What may differ -/

/-- Places do not matter. The first run has given out one identity more than the second since
`first` came next, and may have more active procedure bodies. It has a frame for every frame of the
second but `inner`, for which `body` stands once it is made. -/
def Correspondence.oneAhead (first : Nat) (inner body : FrameId) : Correspondence where
  place _ _ := True
  name _ := True
  id a a' := a = a' ∧ a < first ∨ a = a' + 1 ∧ first ≤ a'
  lenient := True
  pair f f' := f' = inner → f = body
  left _ := True
  right f' := f' ≠ inner
  place_none := trivial
  place_or _ _ := trivial
  id_iff := by
    rintro a a' b b' ha hb
    omega

open Correspondence (oneAhead)

theorem Correspondence.oneAhead_placeless (first : Nat) (inner body : FrameId) :
    (oneAhead first inner body).Placeless :=
  ⟨fun _ _ => trivial, fun _ => trivial⟩

namespace Eval

variable {first : Nat} {inner body env : FrameId} {M : Matching} {limit : Option Nat} {fuel : Nat}

/-! ## Machines -/

theorem grows_machineOf {R : Regime} {α : Type} {good : Heap → α → Prop} {m : Machine}
    {r : EStateM.Result Stop Machine α} (h : R.Safe m good r) : R.Grows m (machineOf r) := by
  cases r with
  | ok a m' => exact h.1
  | error stop m' => exact h.1

theorem size_le_eachFrom (env : FrameId) (done : List Value) (es : List Expr) (m : Machine) :
    m.heap.frames.size ≤
      (machineOf (eachFrom (run limit fuel) env done es m)).heap.frames.size :=
  (grows_machineOf (Regime.safe_eachFrom (keeps_families limit fuel) es done m
    (ready_families env m) (fun _ _ => trivial)
    fun v _ => Value.all_of_forall (fun _ _ => trivial) v)).heap.size_le

theorem depth_body (env : FrameId) (es : List Expr) (m : Machine) :
    (machineOf (Eval.body (run limit fuel) env es m)).depth = m.depth := by
  have hSafe := Regime.safe_body (keeps_families limit fuel) es m (ready_families env m)
    (fun _ _ => trivial) fun _ => by
      simp [Regime.families, Error.bare, Cause.emptyBody, Cause.OfEvaluation, Cause.category]
  exact (grows_machineOf hSafe).depth

/-- A procedure body of the first run alone. -/
theorem agrees_nested_left {C : Correspondence} (hC : C.lenient) {α : Type}
    {good : Matching → α → α → Prop} {x x' : Eval α} {m m' : Machine} (hDepth : m'.depth ≤ m.depth)
    (hx : Agrees C M good (x (enter m)) (x' m'))
    (hLeft : (machineOf (x (enter m))).depth = m.depth + 1)
    (hRight : (machineOf (x' m')).depth = m'.depth) :
    Agrees C M good (nested limit x m) (x' m') := by
  unfold nested
  by_cases hAdmits : admits limit m.depth = true
  · rw [if_pos hAdmits]
    generalize x (enter m) = r, x' m' = r' at hx hLeft hRight
    have hLower : ∀ {n n' : Machine}, n.depth = m.depth + 1 → n'.depth = m'.depth →
        n'.depth ≤ (leave n).depth := by
      intro n n' hn hn'
      show n'.depth ≤ n.depth - 1
      omega
    cases hx with
    | ok hM hm ha => exact .ok hM ⟨hm.heap, .inr ⟨hC, hLower hLeft hRight⟩⟩ ha
    | error hM hm hStop => exact .error hM ⟨hm.heap, .inr ⟨hC, hLower hLeft hRight⟩⟩ hStop
    | refused hC hCause => exact .refused hC hCause
  · rw [if_neg hAdmits]
    exact .refused hC ⟨_, rfl⟩

/-! ## The frame of the `let` -/

/-- The frame of the `let` defines what the frame of the call is going to, and nothing else can be
done to it: no other frame leads to it. -/
structure Filled (C : Correspondence) (M : Matching) (inner env : FrameId) (b : Bindings)
    (h : Heap) : Prop where
  frame : ∃ b', h.frames[inner]? = some ⟨some env, b', false⟩ ∧ b.Alike C M b'
  holds : (Regime.confined (· < inner) (inner + 1)).Holds h

theorem Filled.lt_size {C : Correspondence} {b : Bindings} {h : Heap}
    (hFilled : Filled C M inner env b h) : inner < h.frames.size := by
  obtain ⟨b', hFrame, _⟩ := hFilled.frame
  exact (Array.getElem?_eq_some_iff.1 hFrame).1

theorem not_confined_inner (inner n : Nat) :
    ¬(Regime.confined (· < inner) (inner + 1)).frame n inner := by
  rintro (hLt | ⟨hLe, _⟩)
  · exact absurd hLt (Nat.lt_irrefl inner)
  · exact absurd hLe (Nat.not_succ_le_self inner)

/-- While the call has not come to its body, nothing stands for the frame of the `let`. -/
theorem not_matched {h h' : Heap} (hAlike : h.Alike (oneAhead first inner body) M h')
    (hInner : inner < h'.frames.size) (hBody : h.frames.size ≤ body) (f : FrameId) :
    ¬M f inner := by
  intro hf
  have hEq : f = body := hAlike.keeps.pair hf rfl
  have hFrame := hAlike.frame hf
  rw [Array.getElem?_eq_getElem hInner] at hFrame
  generalize hx : h.frames[f]? = x at hFrame
  cases hFrame with
  | some _ =>
      have hLt : f < h.frames.size := (Array.getElem?_eq_some_iff.1 hx).1
      exact absurd (Nat.lt_of_lt_of_le hLt hBody) (hEq ▸ Nat.lt_irrefl f)

/-- A value is computed for the `let` in the frame outside, and a name is bound to it. -/
theorem Filled.define {C : Correspondence} {b : Bindings} {m n : Machine}
    (hFilled : Filled C M inner env b m.heap) (hEnv : env < inner) {e : Expr} {v' : Value}
    (hRun : run limit fuel env e m = .ok v' n) {M' : Matching} (hM : M ≤ M') {v : Value}
    (hv : v.Alike C M' v') (name : String) :
    Filled C M' inner env (b.insert name v) (n.heap.define inner name v') := by
  have hReady : (Regime.confined (· < inner) (inner + 1)).Ready m env :=
    ⟨hFilled.holds, .inl hEnv, hFilled.lt_size, trivial⟩
  have hSafe := keeps_confined (· < inner) (inner + 1) limit fuel env e m hReady trivial
  rw [hRun] at hSafe
  obtain ⟨hGrows, hHolds, hFine⟩ := hSafe
  obtain ⟨b', hFrame, hb⟩ := hFilled.frame
  have hSame : n.heap.frames[inner]? = some ⟨some env, b', false⟩ :=
    (hGrows.untouched inner hFilled.lt_size (not_confined_inner inner _)).trans hFrame
  refine ⟨⟨b'.insert name v', ?_, (hb.mono hM).insert name hv⟩,
    hHolds.define inner hFine trivial⟩
  rw [Heap.define_eq_alter, Heap.getElem?_alter, if_pos rfl, hSame]
  rfl

/-- The values are computed, in both runs in the frame outside. What comes then, `next` and
`next'`, finds the frame of the `let` filled with the arguments of the call.

The induction is on the operands; `entries` are the names and arguments so far. -/
theorem agrees_operands {good : Matching → Value → Value → Prop} (hEnv : env < inner)
    (whole : Expr) {next : List Value → Eval Value} {next' : Eval Value}
    {named : List (String × Expr)} {bs : List Expr}
    (hBinds : List.Forall₂ (Binds (oneAhead first inner body)) named bs) :
    ∀ {M : Matching} (entries : List (String × Value)) {m m' : Machine}, M env env →
      m.Alike (oneAhead first inner body) M m' →
      Filled (oneAhead first inner body) M inner env (Bindings.empty.insertAll entries) m'.heap →
      body = (machineOf (eachFrom (run limit fuel) env (entries.map Prod.snd).reverse
        (named.map Prod.snd) m)).heap.frames.size →
      (∀ {M' : Matching} {entries' : List (String × Value)} {n n' : Machine}, M ≤ M' →
        n.Alike (oneAhead first inner body) M' n' →
        Filled (oneAhead first inner body) M' inner env (Bindings.empty.insertAll entries')
          n'.heap →
        entries'.map Prod.fst = entries.map Prod.fst ++ named.map Prod.fst →
        body = n.heap.frames.size →
        Agrees (oneAhead first inner body) M' good (next (entries'.map Prod.snd) n) (next' n')) →
      Agrees (oneAhead first inner body) M good
        ((eachFrom (run limit fuel) env (entries.map Prod.snd).reverse (named.map Prod.snd) >>=
          next) m)
        ((bindings (run limit fuel) env inner whole bs >>= fun _ => next') m') := by
  induction hBinds with
  | nil =>
      intro M entries m m' _ hm hFilled hBody hNext
      have hEnd := hNext (le_refl M) hm hFilled (by simp) hBody
      show Agrees _ M good (next (entries.map Prod.snd).reverse.reverse m) (next' m')
      rw [List.reverse_reverse]
      exact hEnd
  | @cons operand b named bs hBinding _ ih =>
      intro M entries m m' hM hm hFilled hBody hNext
      obtain ⟨name, e⟩ := operand
      obtain ⟨value, hRead, he⟩ := hBinding
      simp only [List.map_cons, eachFrom, bindings, hRead, bind_assoc]
      refine (consistent_run limit fuel hM he hm).bind_of_eq
        fun {M' v v' n n'} hLe hRun hRun' hn hv => ?_
      have hDone : ((entries ++ [(name, v)]).map Prod.snd).reverse =
          v :: (entries.map Prod.snd).reverse := by simp
      have hBody' : body = (machineOf (eachFrom (run limit fuel) env
          ((entries ++ [(name, v)]).map Prod.snd).reverse (named.map Prod.snd)
            n)).heap.frames.size := by
        rw [hDone, hBody]
        show (machineOf (EStateM.bind (run limit fuel env e) _ m)).heap.frames.size = _
        rw [EStateM.bind, hRun]
      have hDefined := hFilled.define hEnv hRun' hLe hv name
      rw [← Bindings.insertAll_concat] at hDefined
      have hInner : inner < n'.heap.frames.size := by
        have hSize := hDefined.lt_size
        rwa [Heap.define_eq_alter, Heap.size_alter] at hSize
      have hFree := not_matched hn.heap hInner (hBody' ▸ size_le_eachFrom env _ _ n)
      rw [← hDone]
      have hAltered := hn.heap.alter_right hFree fun bindings => bindings.insert name v'
      refine ih (entries ++ [(name, v)]) (hLe _ _ hM) ⟨hAltered, hn.depth⟩ hDefined hBody' ?_
      intro M'' entries' k k' hLe' hk hFilled' hFst
      refine hNext (hLe.trans hLe') hk hFilled' (hFst.trans ?_)
      simp

/-! ## The body -/

/-- A procedure without a rest parameter binds its parameters to its arguments. -/
theorem enterBody_of_fixed (self : Evaluator) {code : Lambda} {entries : List (String × Value)}
    (hFormals : code.formals = ⟨entries.map Prod.fst, none⟩) (env : FrameId) (m : Machine) :
    enterBody self code env (entries.map Prod.snd) m =
      Eval.body self m.heap.frames.size code.body
        ⟨(m.heap.push ⟨some env, Bindings.empty.insertAll entries, false⟩).2, m.depth⟩ := by
  have hZip : (entries.map Prod.fst).zip (entries.map Prod.snd) = entries := by
    simpa [List.unzip_eq_map] using List.zip_unzip entries
  have hHeap := m.heap.defineAll_push entries ⟨some env, .empty, false⟩
  have hEntries : bindArguments code.formals (entries.map Prod.snd) = pure entries := by
    rw [bindArguments_eq, hFormals, hZip]
  unfold enterBody
  rw [hEntries]
  show Eval.body self m.heap.frames.size code.body
    ⟨(m.heap.newChild env).2.defineAll m.heap.frames.size entries, m.depth⟩ = _
  rw [← hHeap]
  rfl

/-- The frame of the call is matched with the frame of the `let`. -/
theorem alike_entered {h h' : Heap} {b : Bindings}
    (hAlike : h.Alike (oneAhead first inner body) M h') (hEnv : M env env) (hLt : env < inner)
    (hFilled : Filled (oneAhead first inner body) M inner env b h')
    (hBody : body = h.frames.size) :
    (h.push ⟨some env, b, false⟩).2.Alike (oneAhead first inner body)
      (Heap.withPair M h.frames.size inner) h' := by
  have hInner := hFilled.lt_size
  have hFree := not_matched hAlike hInner (Nat.le_of_eq hBody.symm)
  -- All frames of the first heap are matched; were each matched with itself, so were `inner`.
  have hSettled : ∀ g g', M g g' → h.Settled g ∧ h'.Settled g' := by
    rcases hAlike.way with ⟨hSame, hSize⟩ | hSettled
    · obtain ⟨f', hf'⟩ := hAlike.keeps.left inner (hSize ▸ hInner) trivial
      exact absurd (hSame inner f' hf' ▸ hf') (hFree inner)
    · exact hSettled
  obtain ⟨b', hFrame, hb⟩ := hFilled.frame
  have hFrames : Frame.Alike (oneAhead first inner body) M ⟨some env, b, false⟩
      ⟨some env, b', false⟩ := ⟨.some hEnv, rfl, hb⟩
  refine hAlike.push_left hFrames hFrame hFree hSettled
    ⟨_, hFrame, fun parent hParent => ?_⟩ ⟨?_, fun k hEq => ?_, fun f hf _ => ?_, ?_⟩
  · cases hParent
    exact hLt
  · rintro f f' (hf | ⟨rfl, rfl⟩)
    · exact hAlike.keeps.pair hf
    · exact fun _ => hBody.symm
  · have hLe : inner < h'.frames.size + k := Nat.lt_of_lt_of_le hInner (Nat.le_add_right _ k)
    exact absurd hEq (Nat.ne_of_gt hLe)
  · rcases Nat.lt_succ_iff_lt_or_eq.1 hf with hf | rfl
    · obtain ⟨f', hf'⟩ := hAlike.keeps.left f hf trivial
      exact ⟨f', .inl hf'⟩
    · exact ⟨inner, .inr ⟨rfl, rfl⟩⟩
  · intro f' hf' hRight
    obtain ⟨f, hf⟩ := hAlike.keeps.right f' hf' hRight
    exact ⟨f, .inl hf⟩

/-- The procedure is applied to the arguments, and the body of the `let` is evaluated in the frame
that binds them. -/
theorem agrees_application {code : Lambda} {inside : List Expr} {entries : List (String × Value)}
    {m m' : Machine} (hEnv : M env env) (hLt : env < inner)
    (hm : m.Alike (oneAhead first inner body) M m')
    (hFilled : Filled (oneAhead first inner body) M inner env
      (Bindings.empty.insertAll entries) m'.heap)
    (hBody : body = m.heap.frames.size)
    (hFormals : code.formals = ⟨entries.map Prod.fst, none⟩)
    (hInside : Expr.AllAlike (oneAhead first inner body) code.body inside) (id : Nat) :
    Agrees (oneAhead first inner body) M
      (fun M v v' => v.Alike (oneAhead first inner body) M v' ∧ ∃ f, M f inner)
      (applyProcedure limit (run limit fuel) (.closure id code env) (entries.map Prod.snd) m)
      (Eval.body (run limit fuel) inner inside m') := by
  have hAccepts : (Procedure.closure id code env).formals.accepts
      (entries.map Prod.snd).length = true := by
    show code.formals.accepts _ = true
    rw [hFormals]
    simp [Formals.accepts]
  rw [applyProcedure, if_pos hAccepts]
  have hEnter := enterBody_of_fixed (run limit fuel) hFormals env (enter m)
  refine agrees_nested_left trivial hm.depth_le ?_ ?_ (depth_body inner inside m')
  · rw [hEnter]
    have hEntered := alike_entered hm.heap hEnv hLt hFilled hBody
    have hPair := Heap.le_withPair M m.heap.frames.size inner
    refine ((agrees_body (consistent_run limit fuel) hInside (.inr ⟨rfl, rfl⟩)
      ⟨hEntered, .inr ⟨trivial, Nat.le_succ_of_le hm.depth_le⟩⟩).imp fun hLe hv => ⟨hv, ?_⟩).weaken
        hPair
    exact ⟨m.heap.frames.size, hLe _ _ (.inr ⟨rfl, rfl⟩)⟩
  · rw [hEnter]
    exact depth_body _ _ _

/-! ## The two evaluations -/

/-- The call has made its procedure and the `let` its frame. -/
theorem alike_start {h : Heap} (hSound : h.Sound) (hNumbered : h.Numbered)
    (env : FrameId) (height height' : Nat) (body : FrameId) :
    Heap.Alike (oneAhead h.nextId h.frames.size body) (fun f f' => f = f' ∧ f < h.frames.size)
      { h.noteHeight height with nextId := h.nextId + 1 }
      ((h.noteHeight height').newChild env).2 := by
  have hSize : ((h.noteHeight height').newChild env).2.frames.size = h.frames.size + 1 :=
    Heap.size_push _ _
  refine hSound.alike_of_common ⟨fun _ => trivial, fun _ => trivial⟩ ?_ (fun _ _ => rfl)
    (fun f hf => ?_) (fun k => ?_) ⟨?_, fun k hEq => ?_, fun f hf _ => ?_, fun f' hf' hNe => ?_⟩
  · intro f frame name v w id hFrame hv hPart hId
    exact .inl ⟨rfl, hNumbered f frame name v w id hFrame hv hPart hId⟩
  · exact (Heap.getElem?_push _ _ f).trans (if_neg (Nat.ne_of_lt hf))
  · refine .inr ⟨?_, Nat.le_add_right _ k⟩
    show h.nextId + 1 + k = h.nextId + k + 1
    omega
  · rintro f _ ⟨rfl, hf⟩ hEq
    exact absurd hEq (Nat.ne_of_lt hf)
  · have hNe : h.frames.size + 1 + k ≠ h.frames.size := by omega
    exact absurd (hSize ▸ hEq) hNe
  · exact ⟨f, rfl, hf⟩
  · rw [hSize] at hf'
    have hOld : f' < h.frames.size := Nat.lt_of_le_of_ne (Nat.le_of_lt_succ hf') hNe
    exact ⟨f', rfl, hOld⟩

/-- The frame of the `let` is empty, and nothing leads to it. -/
theorem filled_start {h : Heap} (hSound : h.Sound) (hEnv : env < h.frames.size)
    (C : Correspondence) (M : Matching) (height : Nat) :
    Filled C M h.frames.size env .empty ((h.noteHeight height).newChild env).2 := by
  refine ⟨⟨.empty, ?_, fun _ _ => .none⟩, ?_⟩
  · exact (Heap.getElem?_push _ _ _).trans (if_pos rfl)
  · have hHolds : (Regime.confined (· < h.frames.size) (h.frames.size + 1)).Holds
        (h.noteHeight height) := by
      refine ⟨fun f frame hFrame _ name v hv => ?_, fun f frame parent hFrame _ hParent => ?_,
        fun _ _ _ _ _ _ _ => trivial⟩
      · have hf : f < h.frames.size := (Array.getElem?_eq_some_iff.1 hFrame).1
        exact Value.All.mono (fun _ _ hFits => .inl hFits.frame_lt)
          (hSound.bound f frame hFrame hf name v hv)
      · exact .inl (hSound.parent_lt_size ⟨frame, hFrame, hParent⟩)
    refine hHolds.push rfl fun parent hParent => ?_
    cases hParent
    exact .inl hEnv

/-- The two runs agree. -/
theorem agrees_let (limit : Option Nat) {m : Machine} (hSound : m.heap.Sound)
    (hNumbered : m.heap.Numbered) (hEnv : env < m.heap.frames.size)
    {entries : List (String × Expr)} {inside : List Expr}
    (hNames : ∀ entry ∈ entries, Form.isBindable entry.1 = true)
    (hNodup : (entries.map Prod.fst).Nodup) (hInside : inside ≠ []) {call form : Expr}
    (hCall : call.Relaid (.appliedLambda entries inside))
    (hForm : form.Relaid (.letIn entries inside)) (fuel : Nat) :
    ∃ body, Agrees (oneAhead m.heap.nextId m.heap.frames.size body)
      (fun f f' => f = f' ∧ f < m.heap.frames.size)
      (fun M v v' => v.Alike (oneAhead m.heap.nextId m.heap.frames.size body) M v' ∧
        ∃ f, M f m.heap.frames.size)
      (run limit (fuel + 2) env call (note call m))
      (run limit (fuel + 2) env form (note form m)) := by
  obtain ⟨code, operands, hFormals, hBody, hOperands, hRun⟩ :=
    run_appliedLambda hNames hNodup hInside hCall
  obtain ⟨bs, inside', hBindings, hInside', hRun'⟩ := run_letIn hInside hForm
  have hPlaceless := Correspondence.oneAhead_placeless m.heap.nextId m.heap.frames.size
  -- The next frame of the call, when it has its arguments, is the frame of its body.
  let made : Machine :=
    ⟨{ m.heap.noteHeight call.height with nextId := m.heap.nextId + 1 }, m.depth⟩
  generalize hEq : (machineOf (each (run limit (fuel + 1)) env operands made)).heap.frames.size =
    body
  obtain ⟨named, hFst, rfl, hBinds⟩ := exists_binds (hPlaceless body) hNames hOperands hBindings
  refine ⟨body, ?_⟩
  rw [hRun, hRun']
  refine agrees_locate trivial (agrees_operands hEnv form hBinds [] ⟨rfl, hEnv⟩
    ⟨alike_start hSound hNumbered env call.height form.height body, .inl rfl⟩
    (filled_start hSound hEnv _ _ form.height) hEq.symm ?_)
  intro M' args n n' hM hn hFilled hNames' hSize
  have hFormals' : code.formals = ⟨args.map Prod.fst, none⟩ := by
    rw [hFormals, hNames', hFst]
    rfl
  exact agrees_application (hM env env ⟨rfl, hEnv⟩) hEnv hn hFilled hSize hFormals'
    (Expr.allAlike_of_relaid (hPlaceless body) hBody hInside') m.heap.nextId

/-- `(let ((name value) …) body …)` is `((lambda (name …) body …) value …)`.

The names are different and can be bound, and the places in the two expressions may be any. Unless
the call exceeds the limit of active procedure bodies, there are the same results: the same value,
up to places in the bodies of procedures and up to the frames and identities that are given out in
the evaluation, or errors with the same cause. The heaps that are left behind are the same up to
that. Frames that there were before stand for themselves, and so do identities; of those given out
since, the call has one more, for its procedure. Every frame of the one heap stands for a frame of
the other, but where a value of the `let` has failed: there is no frame of the call then for the one
that the `let` has made, and nothing leads to that one. -/
theorem let_is_applied_lambda (limit : Nat) {env : FrameId} {m : Machine} (hSound : m.heap.Sound)
    (hNumbered : m.heap.Numbered) (hEnv : env < m.heap.frames.size)
    {entries : List (String × Expr)}
    (hNames : ∀ entry ∈ entries, Form.isBindable entry.1 = true)
    (hNodup : (entries.map Prod.fst).Nodup) {inside : List Expr} (hInside : inside ≠ [])
    {call form : Expr} (hCall : call.Relaid (.appliedLambda entries inside))
    (hForm : form.Relaid (.letIn entries inside))
    (hAdmitted : ∀ e most, (evaluate limit env call m).1 = .error e →
      e.cause ≠ .depthExceeded most) :
    ∃ (body : FrameId) (M : Matching),
      ResultRelaid (Value.Alike (oneAhead m.heap.nextId m.heap.frames.size body) M)
        (evaluate limit env call m).1 (evaluate limit env form m).1 ∧
      (evaluate limit env call m).2.heap.Alike
        (oneAhead m.heap.nextId m.heap.frames.size body) M (evaluate limit env form m).2.heap ∧
      (evaluate limit env call m).2.depth = (evaluate limit env form m).2.depth ∧
      (∀ f < m.heap.frames.size, M f f) ∧
      (∀ f < (evaluate limit env call m).2.heap.frames.size, ∃ f', M f f') ∧
      ∀ f' < (evaluate limit env form m).2.heap.frames.size, (∃ f, M f f') ∨
        f' = m.heap.frames.size ∧ ∃ e, (evaluate limit env form m).1 = .error e := by
  have hDefinite := definite_run_budget limit env
    (bodiesWithin_note call hSound.bodiesWithin) (Nat.le_max_right m.heap.tallest call.height)
  have hDefinite' := definite_run_budget limit env
    (bodiesWithin_note form hSound.bodiesWithin) (Nat.le_max_right m.heap.tallest form.height)
  obtain ⟨_, n, hn⟩ := Returns.of_definite hDefinite
  obtain ⟨_, n', hn'⟩ := Returns.of_definite hDefinite'
  obtain ⟨body, hAgrees⟩ := agrees_let (some limit) hSound hNumbered hEnv hNames hNodup hInside
    hCall hForm (max n n')
  rw [hn _ (Nat.le_add_right_of_le (Nat.le_max_left n n')),
    hn' _ (Nat.le_add_right_of_le (Nat.le_max_right n n'))] at hAgrees
  obtain ⟨M, hM, hResult, hMachine⟩ := hAgrees.outcome limit fun _ => hAdmitted
  refine ⟨body, M, hResult.mono (fun _ _ he => he.cause) (fun _ _ hv => hv.1), hMachine.heap, ?_,
    fun f hf => hM f f ⟨rfl, hf⟩, fun f hf => hMachine.heap.keeps.left f hf trivial,
    fun f' hf' => ?_⟩
  · exact (families_evaluate limit env call m).1.depth.trans
      (families_evaluate limit env form m).1.depth.symm
  · by_cases hInner : f' = m.heap.frames.size
    · change ExceptRel _ _ (evaluate limit env call m).1 (evaluate limit env form m).1 at hResult
      generalize (evaluate limit env call m).1 = x, (evaluate limit env form m).1 = x' at hResult
      cases hResult with
      | ok hv => exact .inl (hInner ▸ hv.2)
      | error _ => exact .inr ⟨hInner, _, rfl⟩
    · exact .inl (hMachine.heap.keeps.right f' hf' hInner)

end Eval

namespace World

/-- `(a (unit nil))` and `(f (lambda (y) (cons y y)))`. -/
def unitEntries : List (String × Expr) :=
  [("a", .list none [.symbol none "unit", .symbol none "nil"]),
    ("f", .list none [.symbol none "lambda", .list none [.symbol none "y"],
      .list none [.symbol none "cons", .symbol none "y", .symbol none "y"]])]

/-- `(set! a (f a))`, whose value is the new one. -/
def unitBody : List Expr :=
  [.list none [.symbol none "set!", .symbol none "a",
    .list none [.symbol none "f", .symbol none "a"]]]

open Eval in
/-- The values of the `let` call a procedure and make one, and the body calls it and assigns a name
that is bound by the `let`. Both evaluations have a value, and every frame of the one heap stands
for a frame of the other. -/
theorem unit_let_is_applied_lambda :
    (initial 5).Traces unitDefined ∧ unitDefined.heap.Sound ∧ unitDefined.heap.Numbered ∧
    (∃ v, (evaluate 5 1 (.appliedLambda unitEntries unitBody) ⟨unitDefined.heap, 0⟩).1 = .ok v ∧
      v.render = "((nil) nil)") ∧
    ∃ (body : FrameId) (M : Matching),
      ResultRelaid
        (Value.Alike (oneAhead unitDefined.heap.nextId unitDefined.heap.frames.size body) M)
        (evaluate 5 1 (.appliedLambda unitEntries unitBody) ⟨unitDefined.heap, 0⟩).1
        (evaluate 5 1 (.letIn unitEntries unitBody) ⟨unitDefined.heap, 0⟩).1 ∧
      ∀ f' < (evaluate 5 1 (.letIn unitEntries unitBody) ⟨unitDefined.heap, 0⟩).2.heap.frames.size,
        ∃ f, M f f' := by
  obtain ⟨hSound, hNumbered⟩ := traces_unitDefined.sound_numbered
  have hEnv : 1 < unitDefined.heap.frames.size := by decide
  have hValue : ∃ v, (evaluate 5 1 (.appliedLambda unitEntries unitBody)
      ⟨unitDefined.heap, 0⟩).1 = .ok v ∧ v.render = "((nil) nil)" := ⟨_, rfl, by decide +kernel⟩
  refine ⟨traces_unitDefined, hSound, hNumbered, hValue, ?_⟩
  obtain ⟨v, hv, _⟩ := hValue
  generalize unitDefined.heap = h at hSound hNumbered hEnv hv ⊢
  have hAdmitted : ∀ e most, (evaluate 5 1 (.appliedLambda unitEntries unitBody) ⟨h, 0⟩).1 =
      .error e → e.cause ≠ .depthExceeded most := by
    intro e most hError
    rw [hv] at hError
    cases hError
  have hInside : unitBody ≠ [] := List.cons_ne_nil _ _
  obtain ⟨body, M, hResult, _, _, _, _, hRight⟩ := let_is_applied_lambda 5 (m := ⟨h, 0⟩) hSound
    hNumbered hEnv (by decide) (by decide) hInside
    (Expr.alike_refl Correspondence.layout_transparent _)
    (Expr.alike_refl Correspondence.layout_transparent _) hAdmitted
  refine ⟨body, M, hResult, fun f' hf' => ?_⟩
  rcases hRight f' hf' with hMatched | ⟨_, e, he⟩
  · exact hMatched
  · rw [hv, he] at hResult
    cases hResult

end World

end MiniScheme
