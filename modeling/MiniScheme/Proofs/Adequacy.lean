import MiniScheme.Proofs.Moment

/-!
# Moments and results agree

The evaluator with fuel and the sequence of moments are two accounts of one evaluation. With
enough fuel the evaluator returns what the sequence of moments ends in. With too little it stops
because so many evaluations would have been active at once: the fuel is exactly a bound on
`Moment.calls`.

`Follows b s r ws` is the relation that is carried through the rules: from the moment `s`, with
at most `b` evaluations active at any time, the result `r` comes to what waits in `ws`; or, where
`r` says that the fuel was spent, more than `b` evaluations are active at some moment. Since both
halves are stated for every `ws`, one lemma for each rule suffices, and the lemmas compose.

## Main results

* `traces_run`: evaluation with fuel `n` follows the moments with at most `n` active evaluations.
* `returns_iff`: what evaluation returns is what the moments end in.
* `Returns.unique`: an evaluation returns one result.
-/

namespace MiniScheme.Eval

open Moment (pass ask after step resume unwind)

variable {limit : Option Nat} {b n : Nat} {self : Evaluator}

/-- A result that does not say that the fuel was spent. -/
def Definite {α : Type} : EStateM.Result Stop Machine α → Prop
  | .error .exhausted _ => False
  | _ => True

/-! ## Paths -/

/-- Steps lead from one moment to another, with at most `b` evaluations active all the way. -/
inductive Reaches (limit : Option Nat) (b : Nat) : Moment → Moment → Prop where
  | refl {s : Moment} (hCalls : s.calls ≤ b) : Reaches limit b s s
  | step {s t : Moment} (hCalls : s.calls ≤ b) (rest : Reaches limit b (s.step limit) t) :
      Reaches limit b s t

theorem Reaches.trans {s t u : Moment} (hst : Reaches limit b s t) (htu : Reaches limit b t u) :
    Reaches limit b s u := by
  induction hst with
  | refl _ => exact htu
  | step hCalls _ ih => exact .step hCalls (ih htu)

theorem Reaches.exists_after {s t : Moment} (h : Reaches limit b s t) :
    ∃ k, after limit k s = t ∧ ∀ j ≤ k, (after limit j s).calls ≤ b := by
  induction h with
  | refl hCalls =>
      refine ⟨0, rfl, fun j hj => ?_⟩
      rw [Nat.le_zero.1 hj]
      exact hCalls
  | step hCalls _ ih =>
      obtain ⟨k, hEnd, hAll⟩ := ih
      refine ⟨k + 1, hEnd, fun j hj => ?_⟩
      cases j with
      | zero => exact hCalls
      | succ j => exact hAll j (Nat.le_of_succ_le_succ hj)

/-- From the moment `s` the result `r` comes to `ws` with at most `b` active evaluations; if the
fuel was spent, there are more of them at some moment. -/
def Follows (limit : Option Nat) (b : Nat) (s : Moment) (r : EStateM.Result Stop Machine Value)
    (ws : List Waiting) : Prop :=
  match r with
  | .error .exhausted _ => ∃ k, b < (after limit k s).calls
  | r => Reaches limit b s (pass r ws)

section Follows

variable {s t : Moment} {r : EStateM.Result Stop Machine Value} {ws : List Waiting}

theorem follows_of_definite (hr : Definite r) :
    Follows limit b s r ws ↔ Reaches limit b s (pass r ws) := by
  cases r with
  | ok v m => exact Iff.rfl
  | error stop m =>
      cases stop with
      | error e => exact Iff.rfl
      | exhausted => exact absurd hr id

theorem Follows.of_reaches (hst : Reaches limit b s t) (h : Follows limit b t r ws) :
    Follows limit b s r ws := by
  by_cases hr : Definite r
  · rw [follows_of_definite hr] at h ⊢
    exact hst.trans h
  · obtain ⟨j, hEnd, _⟩ := hst.exists_after
    cases r with
    | ok v m => exact absurd trivial hr
    | error stop m =>
        cases stop with
        | error e => exact absurd trivial hr
        | exhausted =>
            obtain ⟨k, hk⟩ := h
            refine ⟨j + k, ?_⟩
            rw [Moment.after_add, hEnd]
            exact hk

theorem Follows.of_step (hCalls : s.calls ≤ b) (h : Follows limit b (s.step limit) r ws) :
    Follows limit b s r ws := by
  cases r with
  | ok v m => exact .step hCalls h
  | error stop m =>
      cases stop with
      | error e => exact .step hCalls h
      | exhausted =>
          obtain ⟨k, hk⟩ := h
          exact ⟨k + 1, hk⟩

theorem follows_pass (hr : Definite r) (hCalls : activeCalls ws ≤ b) :
    Follows limit b (pass r ws) r ws := by
  rw [follows_of_definite hr]
  refine .refl ?_
  cases r <;> exact hCalls

theorem follows_value (v : Value) (m : Machine) (hCalls : activeCalls ws ≤ b) :
    Follows limit b ⟨.value v, m, ws⟩ (.ok v m) ws :=
  .refl hCalls

theorem follows_stop (e : Error) (m : Machine) (hCalls : activeCalls ws ≤ b) :
    Follows limit b ⟨.stop (.error e), m, ws⟩ (.error (.error e) m) ws :=
  .refl hCalls

end Follows

/-! ## Waiting for an expression -/

/-- Something that waits and is neither an evaluation nor a procedure body: it only keeps what is
to be done next, and a stop passes it by. -/
def Waiting.isPlain : Waiting → Bool
  | .evaluation _ => false
  | .body => false
  | _ => true

theorem unwind_of_isPlain {w : Waiting} (hw : w.isPlain = true) (stop : Stop) (m : Machine)
    (ws : List Waiting) : unwind stop m w ws = ⟨.stop stop, m, ws⟩ := by
  cases w <;> first | rfl | cases hw

theorem activeCalls_cons_of_isPlain {w : Waiting} (hw : w.isPlain = true) (ws : List Waiting) :
    activeCalls (w :: ws) = activeCalls ws := by
  cases w <;> first | rfl | cases hw

/-- The evaluator agrees with the moments, with at most `n` evaluations active on top of those
that wait. -/
def Traces (limit : Option Nat) (n : Nat) (self : Evaluator) : Prop :=
  ∀ env e m ws, Follows limit (activeCalls ws + n) (ask env e m ws) (self env e m) ws

/-- An expression is evaluated, and something waits for its value. -/
theorem Traces.bind (hself : Traces limit n self) {env : FrameId} {e : Expr} {m : Machine}
    {w : Waiting} {ws : List Waiting} {f : Value → Eval Value} (hw : w.isPlain = true)
    (hf : ∀ v m', Follows limit (activeCalls ws + n) (resume v m' w ws) (f v m') ws) :
    Follows limit (activeCalls ws + n) (ask env e m (w :: ws)) ((self env e >>= f) m) ws := by
  have hx := hself env e m (w :: ws)
  rw [activeCalls_cons_of_isPlain hw] at hx
  have hCalls : activeCalls (w :: ws) ≤ activeCalls ws + n := by
    rw [activeCalls_cons_of_isPlain hw]
    exact Nat.le_add_right _ _
  show Follows limit _ _ (EStateM.bind (self env e) f m) ws
  unfold EStateM.bind
  cases hEnd : self env e m with
  | ok v m' =>
      rw [hEnd] at hx
      exact Follows.of_reaches hx (.of_step hCalls (hf v m'))
  | error stop m' =>
      rw [hEnd] at hx
      cases stop with
      | exhausted => exact hx
      | error e' =>
          refine Follows.of_reaches hx (.of_step hCalls ?_)
          show Follows limit _ (unwind (.error e') m' w ws) _ ws
          rw [unwind_of_isPlain hw]
          exact follows_stop e' m' (Nat.le_add_right _ _)

/-! ## Operations -/

theorem definite_ofExcept {α : Type} (x : Except Cause α) (m : Machine) :
    Definite (ofExcept x m) := by
  cases x <;> trivial

theorem definite_symbol (env : FrameId) (name : String) (m : Machine) :
    Definite (symbol env name m) := by
  unfold symbol
  split
  · trivial
  · split
    · trivial
    · split
      · trivial
      · exact definite_ofExcept _ m

theorem definite_delete (env : FrameId) (name : String) (m : Machine) :
    Definite (delete env name m) := by
  unfold delete
  split <;> trivial

theorem definite_assigned (env : FrameId) (name : String) (v : Value) (m : Machine) :
    Definite (assigned env name v m) := by
  show Definite (EStateM.bind (set env name v) (fun _ => pure v) m)
  unfold EStateM.bind set
  cases m.heap.set env name v <;> trivial

theorem definite_callBuiltin (b : Builtin) (args : List Value) (m : Machine) :
    Definite (callBuiltin b args m) := by
  unfold callBuiltin
  split <;> trivial

/-! ## Several expressions -/

section Sequences

variable {ws : List Waiting} (hself : Traces limit n self)
include hself

theorem follows_sequence {env : FrameId} (es : List Expr) :
    ∀ m, Follows limit (activeCalls ws + n) (Moment.sequence env es m ws)
      (body self env es m) ws := by
  induction es with
  | nil => intro m; exact follows_stop _ m (Nat.le_add_right _ _)
  | cons e es ih =>
      intro m
      cases es with
      | nil => exact hself env e m ws
      | cons e' es => exact hself.bind rfl fun _ m' => ih m'

theorem follows_conjunction {env : FrameId} (es : List Expr) :
    ∀ m, Follows limit (activeCalls ws + n) (Moment.conjunction env es m ws)
      (conjunction self env es m) ws := by
  induction es with
  | nil => intro m; exact follows_value _ m (Nat.le_add_right _ _)
  | cons e es ih =>
      intro m
      refine hself.bind rfl fun v m' => ?_
      simp only [resume]
      split
      · exact follows_value _ m' (Nat.le_add_right _ _)
      · exact ih m'

theorem follows_disjunction {env : FrameId} (es : List Expr) :
    ∀ m, Follows limit (activeCalls ws + n) (Moment.disjunction env es m ws)
      (disjunction self env es m) ws := by
  induction es with
  | nil => intro m; exact follows_value _ m (Nat.le_add_right _ _)
  | cons e es ih =>
      intro m
      refine hself.bind rfl fun v m' => ?_
      simp only [resume]
      split
      · exact follows_value _ m' (Nat.le_add_right _ _)
      · exact ih m'

theorem follows_bindings {env inner : FrameId} {whole : Expr} {inside : List Expr}
    (es : List Expr) :
    ∀ m, Follows limit (activeCalls ws + n) (Moment.bindings env inner whole es inside m ws)
      ((bindings self env inner whole es >>= fun _ => body self inner inside) m) ws := by
  induction es with
  | nil => intro m; exact follows_sequence hself inside m
  | cons e es ih =>
      intro m
      cases hBinding : Form.binding? e with
      | none =>
          simp only [Moment.bindings, bindings, hBinding]
          exact follows_stop _ m (Nat.le_add_right _ _)
      | some entry =>
          obtain ⟨name, value⟩ := entry
          simp only [Moment.bindings, bindings, hBinding, bind_assoc]
          exact hself.bind rfl fun v m' => ih { m' with heap := m'.heap.define inner name v }

end Sequences

/-! ## Calls -/

theorem enterBody_eq (self : Evaluator) (code : Lambda) (frame : FrameId) (args : List Value) :
    enterBody self code frame args =
      bodyFrame code frame args >>= fun inner => body self inner code.body := by
  simp [enterBody, bodyFrame, bind_assoc]

theorem enterBody_of_bodyFrame (self : Evaluator) {code : Lambda} {frame inner : FrameId}
    {args : List Value} {m m' : Machine} (hFrame : bodyFrame code frame args m = .ok inner m') :
    enterBody self code frame args m = body self inner code.body m' := by
  rw [enterBody_eq]
  show EStateM.bind _ _ _ = _
  simp only [EStateM.bind, hFrame]

theorem bodyFrame_eq_ok (code : Lambda) (frame : FrameId) (args : List Value) (m : Machine) :
    ∃ inner m', bodyFrame code frame args m = .ok inner m' := by
  cases hRest : code.formals.rest with
  | none => exact ⟨_, _, by simp only [bodyFrame, bindArguments, hRest]; rfl⟩
  | some rest => exact ⟨_, _, by simp only [bodyFrame, bindArguments, hRest]; rfl⟩

/-- A body that is active hands its result on and is active no longer. -/
theorem Follows.nested {s : Moment} {x : Eval Value} {m : Machine} {ws : List Waiting}
    (hAdmits : admits limit m.depth = true) (hCalls : activeCalls ws ≤ b)
    (h : Follows limit b s (x (enter m)) (.body :: ws)) :
    Follows limit b s (Eval.nested limit x m) ws := by
  unfold Eval.nested
  rw [if_pos hAdmits]
  cases hEnd : x (enter m) with
  | ok v m' =>
      rw [hEnd] at h
      exact Follows.of_reaches h (.of_step hCalls (follows_value v _ hCalls))
  | error stop m' =>
      rw [hEnd] at h
      cases stop with
      | exhausted => exact h
      | error e => exact Follows.of_reaches h (.of_step hCalls (follows_stop e _ hCalls))

theorem follows_application (hself : Traces limit n self) (p : Procedure) (args : List Value)
    (m : Machine) (ws : List Waiting) :
    Follows limit (activeCalls ws + n) (Moment.application limit p args m ws)
      (applyProcedure limit self p args m) ws := by
  have hCalls : activeCalls ws ≤ activeCalls ws + n := Nat.le_add_right _ _
  unfold Moment.application applyProcedure
  split
  · cases p with
    | builtin b => exact follows_pass (definite_callBuiltin b args m) hCalls
    | closure id code frame =>
        by_cases hAdmits : admits limit m.depth = true
        · -- The body becomes active, then its frame is made, then its expressions follow.
          simp only [hAdmits, if_true]
          refine Follows.nested hAdmits hCalls (.of_step hCalls ?_)
          obtain ⟨inner, m', hFrame⟩ := bodyFrame_eq_ok code frame args (enter m)
          have hBody := enterBody_of_bodyFrame self hFrame
          simp only [step, Moment.entry, hFrame, hBody]
          have hRest : Follows limit (activeCalls (.body :: ws) + n)
              (Moment.sequence inner code.body m' (.body :: ws)) (body self inner code.body m')
              (.body :: ws) := follows_sequence hself code.body m'
          exact hRest
        · simp only [hAdmits, nested]
          exact follows_stop _ m hCalls
  · exact follows_stop _ m hCalls

/-- What is done with the collected values. -/
def finish (limit : Option Nat) (self : Evaluator) : Purpose → List Value → Eval Value
  | .call p, vs => applyProcedure limit self p vs
  | .list, vs => chain vs .nil

theorem follows_collect (hself : Traces limit n self) {env : FrameId} {purpose : Purpose}
    {ws : List Waiting} (es : List Expr) :
    ∀ done m, Follows limit (activeCalls ws + n) (Moment.collect env purpose done es m ws)
      ((eachFrom self env done es >>= finish limit self purpose) m) ws := by
  induction es with
  | nil =>
      intro done m
      cases purpose with
      | call p =>
          exact .of_step (Nat.le_add_right _ _) (follows_application hself p done.reverse m ws)
      | list => exact follows_value _ _ (Nat.le_add_right _ _)
  | cons e es ih =>
      intro done m
      simp only [Moment.collect, eachFrom, bind_assoc]
      exact hself.bind rfl fun v m' => ih (v :: done) m'

theorem follows_call (hself : Traces limit n self) (env : FrameId) (head : Expr)
    (operands : List Expr) (m : Machine) (ws : List Waiting) :
    Follows limit (activeCalls ws + n)
      (ask env head m (.head env head.location operands :: ws))
      (call limit self env head operands m) ws := by
  unfold call
  refine hself.bind rfl fun v m' => ?_
  cases v with
  | procedure p => exact follows_collect hself operands [] m'
  | _ => exact follows_stop _ m' (Nat.le_add_right _ _)

/-! ## Special forms and expressions -/

theorem follows_form (hself : Traces limit n self) (env : FrameId) (whole : Expr) (parts : Form)
    (m : Machine) (ws : List Waiting) :
    Follows limit (activeCalls ws + n) (Moment.form env whole parts m ws)
      (form self env whole parts m) ws := by
  have hCalls : activeCalls ws ≤ activeCalls ws + n := Nat.le_add_right _ _
  cases parts with
  | define name value => exact hself.bind rfl fun v m' => follows_value _ _ hCalls
  | procedure name code => exact follows_value _ _ hCalls
  | lambda code => exact follows_value _ _ hCalls
  | branch test consequent alternative =>
      refine hself.bind rfl fun v m' => ?_
      simp only [resume]
      split
      · exact hself env consequent m' ws
      · exact hself env alternative m' ws
  | sequence es => exact follows_sequence hself es m
  | conjunction es => exact follows_conjunction hself es m
  | disjunction es => exact follows_disjunction hself es m
  | bind es inside => exact follows_bindings hself es _
  | set name value =>
      exact hself.bind rfl fun v m' => follows_pass (definite_assigned env name v m') hCalls
  | delete name => exact follows_pass (definite_delete env name m) hCalls
  | pair car cdr =>
      refine hself.bind rfl fun a m' => ?_
      exact hself.bind rfl fun d m'' => follows_value _ _ hCalls
  | list es =>
      show Follows limit _ (Moment.collect env .list [] es m ws) _ ws
      exact follows_collect hself es [] m

theorem follows_expression (hself : Traces limit n self) (env : FrameId) (e : Expr) (m : Machine)
    (ws : List Waiting) :
    Follows limit (activeCalls ws + n) (Moment.expression env e m ws)
      (expression limit self env e m) ws := by
  have hCalls : activeCalls ws ≤ activeCalls ws + n := Nat.le_add_right _ _
  cases e with
  | number l k => exact follows_value _ m hCalls
  | symbol l name => exact follows_pass (definite_symbol env name m) hCalls
  | list l es =>
      cases es with
      | nil => exact follows_stop _ m hCalls
      | cons head operands =>
          cases hKeyword : head.keyword? with
          | none =>
              simp only [Moment.expression, expression, combination, hKeyword]
              exact follows_call hself env head operands m ws
          | some keyword =>
              cases hRead : Form.read? keyword operands with
              | none =>
                  simp only [Moment.expression, expression, combination, hKeyword, hRead]
                  exact follows_stop _ m hCalls
              | some parts =>
                  simp only [Moment.expression, expression, combination, hKeyword, hRead]
                  exact follows_form hself env _ parts m ws

/-- An evaluation that is active gives an error its place and is active no longer. -/
theorem Follows.locate {s : Moment} {x : Eval Value} {m : Machine} {location : Option Location}
    {ws : List Waiting} (hCalls : activeCalls (.evaluation location :: ws) ≤ b)
    (h : Follows limit b s (x m) (.evaluation location :: ws)) :
    Follows limit b s (Eval.locate location x m) ws := by
  have hCalls' : activeCalls ws ≤ b := Nat.le_trans (by simp [activeCalls]) hCalls
  unfold Eval.locate
  cases hEnd : x m with
  | ok v m' =>
      rw [hEnd] at h
      exact Follows.of_reaches h (.of_step hCalls (follows_value v m' hCalls'))
  | error stop m' =>
      rw [hEnd] at h
      cases stop with
      | exhausted => exact h
      | error e => exact Follows.of_reaches h (.of_step hCalls (follows_stop _ m' hCalls'))

/-! ## The evaluator -/

/-- One application of the rules makes one more evaluation active. -/
theorem traces_rules (hself : Traces limit n self) : Traces limit (n + 1) (rules limit self) := by
  intro env e m ws
  have hCount : activeCalls ws + (n + 1) = activeCalls (.evaluation e.location :: ws) + n := by
    simp [activeCalls]
    omega
  have hCalls : activeCalls (.evaluation e.location :: ws) ≤ activeCalls ws + (n + 1) := by
    omega
  refine Follows.of_step hCalls (Follows.locate hCalls ?_)
  rw [hCount]
  exact follows_expression hself env e m _

/-- Evaluation with fuel `n` goes through the moments, with at most `n` evaluations active at once.
It is exhausted only where one more would be. -/
theorem traces_run (limit : Option Nat) (n : Nat) : Traces limit n (run limit n) := by
  induction n with
  | zero =>
      intro env e m ws
      exact ⟨0, by simp [after, ask, Moment.calls, activeCalls]⟩
  | succ n ih => exact traces_rules ih

/-! ## Results -/

/-- Evaluation returns the result: it is definite, and every sufficient amount of fuel leads to
it. -/
def Returns (limit : Option Nat) (env : FrameId) (e : Expr) (m : Machine)
    (r : EStateM.Result Stop Machine Value) : Prop :=
  Definite r ∧ ∃ fuel, ∀ more ≥ fuel, run limit more env e m = r

/-- There is one result, because two amounts of fuel that suffice have a common greater one. -/
theorem Returns.unique {env : FrameId} {e : Expr} {m : Machine}
    {r r' : EStateM.Result Stop Machine Value} (h : Returns limit env e m r)
    (h' : Returns limit env e m r') : r = r' := by
  obtain ⟨_, fuel, hFuel⟩ := h
  obtain ⟨_, fuel', hFuel'⟩ := h'
  rw [← hFuel (max fuel fuel') (Nat.le_max_left _ _),
    ← hFuel' (max fuel fuel') (Nat.le_max_right _ _)]

theorem pass_injective {r r' : EStateM.Result Stop Machine Value} {ws : List Waiting}
    (h : pass r ws = pass r' ws) : r = r' := by
  cases r <;> cases r' <;> simp_all [Moment.pass]

/-- The moments end in one result. -/
theorem final_unique {s : Moment} {r r' : EStateM.Result Stop Machine Value} {j k : Nat}
    (hj : after limit j s = pass r []) (hk : after limit k s = pass r' []) : r = r' := by
  apply @pass_injective r r' []
  rw [← hj, ← hk]
  rcases Nat.le_total j k with hLe | hLe
  · obtain ⟨i, rfl⟩ := Nat.exists_eq_add_of_le hLe
    rw [Moment.after_add, hj, Moment.Final.after_eq ⟨_, rfl⟩]
  · obtain ⟨i, rfl⟩ := Nat.exists_eq_add_of_le hLe
    rw [Moment.after_add limit k i, hk, Moment.Final.after_eq ⟨_, rfl⟩]

/-- If a definite result follows, the moments end in it, with at most so many evaluations active at
any of them. -/
theorem Follows.ends {s : Moment} {r : EStateM.Result Stop Machine Value} (hr : Definite r)
    (h : Follows limit b s r []) :
    (∃ k, after limit k s = pass r []) ∧ ∀ k, (after limit k s).calls ≤ b := by
  rw [follows_of_definite hr] at h
  obtain ⟨k, hEnd, hCalls⟩ := h.exists_after
  refine ⟨⟨k, hEnd⟩, fun j => ?_⟩
  rcases Nat.le_total j k with hj | hj
  · exact hCalls j hj
  · -- The evaluation is over, and nothing waits.
    obtain ⟨i, rfl⟩ := Nat.exists_eq_add_of_le hj
    rw [Moment.after_add, hEnd, Moment.Final.after_eq ⟨_, rfl⟩]
    cases r <;> exact Nat.zero_le _

/-- A bound on the active evaluations of every moment is fuel that is not spent. -/
theorem Follows.definite {s : Moment} {r : EStateM.Result Stop Machine Value}
    (h : Follows limit b s r []) (hCalls : ∀ k, (after limit k s).calls ≤ b) : Definite r := by
  cases r with
  | ok v m' => trivial
  | error stop m' =>
      cases stop with
      | error e' => trivial
      | exhausted =>
          obtain ⟨k, hk⟩ := h
          exact absurd (hCalls k) (Nat.not_le.2 hk)

theorem follows_run (limit : Option Nat) (fuel : Nat) (env : FrameId) (e : Expr) (m : Machine) :
    Follows limit fuel (.start env e m) (run limit fuel env e m) [] := by
  have hBound : activeCalls [] + fuel = fuel := by simp [activeCalls]
  have hTrace := traces_run limit fuel env e m []
  rw [hBound] at hTrace
  exact hTrace

/-- A definite result with some fuel: the moments end in it, with at most so many evaluations
active at any of them. -/
theorem calls_le_of_definite {env : FrameId} {e : Expr} {m : Machine} {fuel : Nat}
    (h : Definite (run limit fuel env e m)) :
    (∃ k, after limit k (.start env e m) = pass (run limit fuel env e m) []) ∧
      ∀ k, (after limit k (.start env e m)).calls ≤ fuel :=
  (follows_run limit fuel env e m).ends h

/-- Finitely many moments have a common bound on the active evaluations. -/
theorem exists_calls_le (limit : Option Nat) (s : Moment) (k : Nat) :
    ∃ b, ∀ j ≤ k, (after limit j s).calls ≤ b := by
  induction k with
  | zero => exact ⟨s.calls, fun j hj => by rw [Nat.le_zero.1 hj]; exact Nat.le_refl _⟩
  | succ k ih =>
      obtain ⟨b, hb⟩ := ih
      refine ⟨max b (after limit (k + 1) s).calls, fun j hj => ?_⟩
      rcases Nat.lt_or_eq_of_le hj with hj | rfl
      · exact Nat.le_trans (hb j (Nat.le_of_lt_succ hj)) (Nat.le_max_left _ _)
      · exact Nat.le_max_right _ _

/-- Fuel that bounds the active evaluations of every moment is not spent. -/
theorem definite_of_calls_le {env : FrameId} {e : Expr} {m : Machine} {fuel : Nat}
    (h : ∀ k, (after limit k (.start env e m)).calls ≤ fuel) :
    Definite (run limit fuel env e m) :=
  (follows_run limit fuel env e m).definite h

/-- Evaluation returns exactly what the moments end in. -/
theorem returns_iff {env : FrameId} {e : Expr} {m : Machine}
    {r : EStateM.Result Stop Machine Value} (hr : Definite r) :
    Returns limit env e m r ↔ ∃ k, after limit k (.start env e m) = pass r [] := by
  constructor
  · rintro ⟨_, fuel, hFuel⟩
    have hRun := hFuel fuel (Nat.le_refl _)
    have hDefinite : Definite (run limit fuel env e m) := hRun ▸ hr
    obtain ⟨hEnd, _⟩ := calls_le_of_definite hDefinite
    rw [hRun] at hEnd
    exact hEnd
  · rintro ⟨k, hEnd⟩
    obtain ⟨b, hb⟩ := exists_calls_le limit (.start env e m) k
    have hAll : ∀ j, (after limit j (.start env e m)).calls ≤ b := by
      intro j
      rcases Nat.le_total j k with hj | hj
      · exact hb j hj
      · obtain ⟨i, rfl⟩ := Nat.exists_eq_add_of_le hj
        rw [Moment.after_add, hEnd, Moment.Final.after_eq ⟨_, rfl⟩, ← hEnd]
        exact hb k (Nat.le_refl _)
    refine ⟨hr, b, fun fuel hFuel => ?_⟩
    have hDefinite : Definite (run limit fuel env e m) :=
      definite_of_calls_le fun j => Nat.le_trans (hAll j) hFuel
    obtain ⟨⟨k', hEnd'⟩, _⟩ := calls_le_of_definite hDefinite
    exact final_unique hEnd' hEnd

/-- The application of a procedure follows from the moment at which it is to be applied. -/
theorem follows_applyProcedure (limit : Option Nat) (fuel : Nat) (p : Procedure)
    (args : List Value) (m : Machine) :
    Follows limit fuel ⟨.application p args, m, []⟩
      (applyProcedure limit (run limit fuel) p args m) [] := by
  have hBound : activeCalls [] + fuel = fuel := by simp [activeCalls]
  have hApplied := follows_application (traces_run limit fuel) p args m []
  rw [hBound] at hApplied
  exact .of_step (Nat.zero_le _) hApplied

/-- An application that some fuel suffices for has the same result with more. -/
theorem applyProcedure_eq_of_le {limit : Option Nat} {fuel more : Nat} (hLe : fuel ≤ more)
    {p : Procedure} {args : List Value} {m : Machine}
    (h : Definite (applyProcedure limit (run limit fuel) p args m)) :
    applyProcedure limit (run limit more) p args m =
      applyProcedure limit (run limit fuel) p args m := by
  obtain ⟨⟨k, hEnd⟩, hCalls⟩ := (follows_applyProcedure limit fuel p args m).ends h
  have hFollows := follows_applyProcedure limit more p args m
  have hDefinite := hFollows.definite fun j => Nat.le_trans (hCalls j) hLe
  obtain ⟨⟨k', hEnd'⟩, _⟩ := hFollows.ends hDefinite
  exact final_unique hEnd' hEnd

/-- A definite result with some fuel is what evaluation returns. -/
theorem Returns.of_definite {env : FrameId} {e : Expr} {m : Machine} {fuel : Nat}
    (h : Definite (run limit fuel env e m)) :
    Returns limit env e m (run limit fuel env e m) :=
  (returns_iff h).2 (calls_le_of_definite h).1

end MiniScheme.Eval
