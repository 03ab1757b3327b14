import MiniScheme.Proofs.ActiveBodies
import MiniScheme.Proofs.Correspondence.Sessions
import MiniScheme.Proofs.Histories

/-!
# The counter of active bodies survives every exit

An evaluation may leave through an error from any depth, and the error of the depth limit is only
one of them. Whatever the way out, the counter is then what it was at the start, and under way it
was never lower than that and never above the limit.

The first is read off what a step can do to the counter: it is the number at the start plus the
number of bodies that wait (`Moment.CountedFrom`), and at the end none waits. The second holds
because a body is admitted only below the limit.

For a session it follows that its interpreter never changes at all: every request finds the counter
at zero, whatever failed before. Nothing is then left for an outcome to depend on but the heap. Of
the heap, only the bindings in frames that something leads to matter, up to the choice of frames and
identities: this is `Session.agree_step`.

## Main results

* `Moment.CountedFrom.after`: the counter during an evaluation or an application.
* `Moment.restores_start`, `Moment.restores_application`: its bounds, and its value at the end.
* `World.Steps.interpreter_eq`: the interpreter after any history of requests.
* `counter_survives_every_exit`: all of it together.
-/

namespace MiniScheme

namespace Eval

open Moment (after start pass)

namespace Moment

/-! ## Moments -/

/-- The counter is `base` and the number of active bodies. -/
def CountedFrom (base : Nat) (s : Moment) : Prop := s.machine.depth = base + s.bodies

variable {base : Nat} {s : Moment}

/-- Each step counts the bodies that it makes active and those that it gives up. -/
theorem CountedFrom.step (hs : s.CountedFrom base) (limit : Option Nat) :
    (Moment.step limit s).CountedFrom base := by
  have hDepth : s.machine.depth = base + activeBodies s.waiting := hs
  by_cases h : s.Enters
  · by_cases hAdmits : admits limit s.machine.depth = true
    · obtain ⟨code, frame, args, hStep⟩ := h.step_of_admits hAdmits
      rw [hStep]
      show s.machine.depth + 1 = base + activeBodies (.body :: s.waiting)
      rw [activeBodies_body]
      omega
    · rw [h.step_of_not_admits hAdmits]
      exact hs
  · rw [step_eq_of_not_enters h]
    rcases step_of_not_enters h with hSteady | ⟨ws, hWaiting, hMachine, hRest⟩
    · show (Moment.step none s).machine.depth = base + (Moment.step none s).bodies
      rw [hSteady.depth, hSteady.bodies]
      exact hDepth
    · show (Moment.step none s).machine.depth = base + activeBodies (Moment.step none s).waiting
      rw [hWaiting, activeBodies_body] at hDepth
      rw [hMachine, hRest]
      show s.machine.depth - 1 = base + activeBodies ws
      omega

/-- At every later moment, under any limit, the counter is the number at the start and the active
bodies. -/
theorem CountedFrom.after (hs : s.CountedFrom base) (limit : Option Nat) (k : Nat) :
    (Moment.after limit k s).CountedFrom base := by
  induction k with
  | zero => exact hs
  | succ k ih =>
      rw [after_succ]
      exact ih.step limit

/-- A body is admitted below the limit only, so no step leads above it. -/
theorem depth_step_le {limit : Nat} (hs : s.machine.depth ≤ limit) :
    (Moment.step (some limit) s).machine.depth ≤ limit := by
  by_cases h : s.Enters
  · by_cases hAdmits : admits (some limit) s.machine.depth = true
    · obtain ⟨code, frame, args, hStep⟩ := h.step_of_admits hAdmits
      have hLt : s.machine.depth < limit := by simpa [admits] using hAdmits
      rw [hStep]
      exact hLt
    · rw [h.step_of_not_admits hAdmits]
      exact hs
  · rw [step_eq_of_not_enters h]
    rcases step_of_not_enters h with hSteady | ⟨ws, _, hMachine, _⟩
    · rw [hSteady.depth]
      exact hs
    · rw [hMachine]
      exact Nat.le_trans (Nat.sub_le _ _) hs

theorem depth_after_le {limit : Nat} (hs : s.machine.depth ≤ limit) (k : Nat) :
    (Moment.after (some limit) k s).machine.depth ≤ limit := by
  induction k with
  | zero => exact hs
  | succ k ih =>
      rw [after_succ]
      exact depth_step_le ih

/-- From the moment on, the counter is never lower than it is and never above the limit, and at the
end it is what it is now. -/
structure Restores (limit : Nat) (s : Moment) : Prop where
  ge : ∀ k, s.machine.depth ≤ (Moment.after (some limit) k s).machine.depth
  le : ∀ k, (Moment.after (some limit) k s).machine.depth ≤ limit
  ends : ∃ k r, Moment.after (some limit) k s = pass r [] ∧
    (machineOf r).depth = s.machine.depth

/-- With no active body at the start there is none at the end. -/
theorem restores_of_ends {limit : Nat} (hBodies : s.bodies = 0) (hs : s.machine.depth ≤ limit)
    {k : Nat} {r : EStateM.Result Stop Machine Value}
    (hEnd : Moment.after (some limit) k s = pass r []) : s.Restores limit := by
  have hStart : s.CountedFrom s.machine.depth := by
    show s.machine.depth = s.machine.depth + s.bodies
    rw [hBodies, Nat.add_zero]
  refine ⟨fun k => ?_, depth_after_le hs, k, r, hEnd, ?_⟩
  · rw [hStart.after (some limit) k]
    exact Nat.le_add_right _ _
  · have hFinal := hStart.after (some limit) k
    rw [hEnd] at hFinal
    cases r <;> exact hFinal

/-- An evaluation that starts within the limit stays within it and gives the counter back. -/
theorem restores_start {limit : Nat} (env : FrameId) (e : Expr) {m : Machine}
    (hm : m.depth ≤ limit) : (start env e m).Restores limit := by
  obtain ⟨r, hReturns⟩ := exists_returns limit env e m
  obtain ⟨k, hEnd⟩ := (returns_iff hReturns.1).1 hReturns
  exact restores_of_ends rfl hm hEnd

/-- So does an application. Its arguments may hold procedures that the heap knows nothing of, so the
height that bounds its fuel is a bound for them, too. -/
theorem restores_application {limit : Nat} (p : Procedure) (args : List Value) {m : Machine}
    (hm : m.depth ≤ limit) : Restores limit ⟨.application p args, m, []⟩ := by
  obtain ⟨height, hBodies⟩ := m.heap.exists_bodiesWithin
  obtain ⟨height', hValues⟩ := exists_bound_of_forall_mem
    (p := fun n (v : Value) => v.BodiesWithin n) (fun hLe h => h.mono hLe) (.procedure p :: args)
    fun v _ => v.exists_bodiesWithin
  have hSafe := heights_apply limit (hBodies.mono (Nat.le_max_left height height'))
    fun v hv => (hValues v hv).mono (Nat.le_max_right height height')
  obtain ⟨⟨k, hEnd⟩, _⟩ := (follows_applyProcedure _ _ _ _ _).ends (definite_of_heights hSafe)
  exact restores_of_ends rfl hm hEnd

end Moment

end Eval

/-! ## Interpreters -/

namespace Interpreter.State

/-- An evaluation leaves the interpreter as it was, its counter included. -/
theorem interpreter_evalExpr (s : State) (env : FrameId) (e : Expr) :
    (s.evalExpr env e).2.interpreter = s.interpreter := by
  have hDepth := (Eval.families_evaluate s.interpreter.limit env e s.machine).1.depth
  exact congrArg (fun depth => { s.interpreter with depth := depth }) hDepth

theorem interpreter_apply (s : State) (p : Procedure) (args : List Value) :
    (s.apply p args).2.interpreter = s.interpreter := by
  have hDepth := (Eval.families_apply s.interpreter.limit p args s.machine).depth
  exact congrArg (fun depth => { s.interpreter with depth := depth }) hDepth

theorem interpreter_evalRead (s : State) (env : FrameId) (x : Except Error Expr) :
    (s.evalRead env x).2.interpreter = s.interpreter := by
  cases x with
  | error e => rfl
  | ok e => exact s.interpreter_evalExpr env e

theorem interpreter_evalForms (items : List (Except Error Expr)) :
    ∀ (s : State) (last : Option Value),
      (s.evalForms last items).2.interpreter = s.interpreter := by
  induction items with
  | nil => exact fun s last => rfl
  | cons x items ih =>
      intro s last
      have hFirst := s.interpreter_evalRead s.interpreter.global x
      unfold evalForms
      generalize s.evalRead s.interpreter.global x = r at hFirst
      obtain ⟨result, t⟩ := r
      cases result with
      | error e => exact hFirst
      | ok v => exact (ih t (some v)).trans hFirst

theorem interpreter_program (s : State) (source : String) :
    (s.program source).2.interpreter = s.interpreter := by
  unfold program
  dsimp only
  split
  · rfl
  · split
    · rfl
    · exact interpreter_evalForms _ s none

theorem interpreter_respond (s : State) (source : String) :
    (s.respond source).2.interpreter = s.interpreter := by
  rw [snd_respond]
  exact s.interpreter_program source

theorem interpreter_evalFile (s : State) (content : FileContent) :
    (s.evalFile content).2.interpreter = s.interpreter := by
  unfold evalFile
  split
  · rfl
  · exact s.interpreter_evalRead _ _

end Interpreter.State

namespace Session

open Interpreter (State)

theorem interpreter_evalEach (sources : List String) :
    ∀ (state : State) (env : FrameId),
      (evalEach state env sources).2.interpreter = state.interpreter := by
  induction sources with
  | nil => exact fun state env => rfl
  | cons source sources ih =>
      intro state env
      have hFirst := state.interpreter_evalRead env (Expr.ofSource source)
      unfold evalEach State.evalIn
      generalize state.evalRead env (Expr.ofSource source) = r at hFirst
      obtain ⟨result, t⟩ := r
      cases result with
      | error e => exact hFirst
      | ok v =>
          have hRest := (ih t env).trans hFirst
          dsimp only
          generalize evalEach t env sources = q at hRest
          obtain ⟨results, u⟩ := q
          cases results <;> exact hRest

theorem interpreter_applyIn (state : State) (env : FrameId) (source : String)
    (args : List String) : (applyIn state env source args).2.interpreter = state.interpreter := by
  have hFirst := state.interpreter_evalRead env (Expr.ofSource source)
  unfold applyIn State.evalIn
  generalize state.evalRead env (Expr.ofSource source) = r at hFirst
  obtain ⟨result, t⟩ := r
  cases result with
  | error e => exact hFirst
  | ok v =>
      have hRest := (interpreter_evalEach args t env).trans hFirst
      dsimp only
      generalize evalEach t env args = q at hRest
      obtain ⟨results, u⟩ := q
      cases results with
      | error e => exact hRest
      | ok vs =>
          cases v with
          | procedure p => exact (u.interpreter_apply p vs).trans hRest
          | _ => exact hRest

/-- A value is computed, and what is done with it leaves the interpreter alone. -/
theorem interpreter_withValue (s : Session) (source : String)
    {next : Value → Session → Reply × Session}
    (hNext : ∀ v t, (next v t).2.state.interpreter = t.state.interpreter) :
    (s.withValue source next).2.state.interpreter = s.state.interpreter := by
  have hEval := s.state.interpreter_evalRead s.state.interpreter.global (Expr.ofSource source)
  unfold withValue State.eval State.evalIn
  generalize s.state.evalRead s.state.interpreter.global (Expr.ofSource source) = r at hEval
  obtain ⟨result, t⟩ := r
  cases result with
  | error e => exact hEval
  | ok v => exact (hNext v (s.withState t)).trans hEval

theorem interpreter_assign (s : Session) (env : FrameId) (name : String) (v : Value) :
    (s.assign env name v).2.state.interpreter = s.state.interpreter := by
  unfold assign
  split <;> rfl

/-- A command leaves the interpreter as it was. -/
theorem interpreter_step (s : Session) (c : Command) :
    (s.step c).2.state.interpreter = s.state.interpreter := by
  cases c with
  | eval source => exact s.state.interpreter_evalRead _ _
  | program source => exact s.state.interpreter_program source
  | input source => exact s.state.interpreter_respond source
  | file content => exact s.state.interpreter_evalFile content
  | evalIn env source => exact s.state.interpreter_evalRead env _
  | define env name source => exact s.interpreter_withValue source fun _ _ => rfl
  | set env name source =>
      exact s.interpreter_withValue source fun v t => t.interpreter_assign env name v
  | apply env source args => exact interpreter_applyIn s.state env source args
  | get env name =>
      simp only [step]
      split <;> rfl
  | delete env name =>
      simp only [step]
      split <;> rfl
  | _ => rfl

theorem interpreter_serve (s : Session) (r : Request) :
    (s.serve r).2.state.interpreter = s.state.interpreter := by
  cases r with
  | command c => exact s.interpreter_step c
  | evaluate env e => exact s.state.interpreter_evalExpr env e
  | apply p args => exact s.state.interpreter_apply p args
  | define env name v => rfl
  | set env name v => exact s.interpreter_assign env name v

end Session

/-- No history of requests changes the interpreter. -/
theorem World.Steps.interpreter_eq {w w' : World} (h : w.Steps w') :
    w'.session.state.interpreter = w.session.state.interpreter := by
  induction h with
  | refl => rfl
  | @serve w' r _ _ ih => exact (w'.session.interpreter_serve r).trans ih

/-! ## Outcomes depend on the bindings only -/

/-- The frames in use match, and matching frames hold the same bindings, up to the choice of
identities. -/
structure Session.SameBindings (C : Correspondence) (M : Matching) (s s' : Session) : Prop where
  global : M s.state.interpreter.global s'.state.interpreter.global
  frames : List.Forall₂ M s.frames.toList s'.frames.toList
  heap : s.state.heap.Alike C M s'.state.heap

/-- Commands with matching frames in worlds that were reached from the beginning. Whatever was asked
for before, and failed or not, plays no role. -/
theorem World.Steps.agree_step {limit : Nat} {w w' : World} (hw : (World.initial limit).Steps w)
    (hw' : (World.initial limit).Steps w') {C : Correspondence} (hC : C.Plain) {M : Matching}
    (hSame : w.session.SameBindings C M w'.session) (c : Command) (rename : FrameId → FrameId)
    (hc : ∀ f ∈ c.frames, M f (rename f)) (hFrames : ∀ f ∈ c.frames, f < w.heap.frames.size) :
    ∃ M', M ≤ M' ∧
      (w.session.step c).1.Alike C M' (w'.session.step (c.onFrames rename)).1 ∧
      (w.session.step c).2.SameBindings C M' (w'.session.step (c.onFrames rename)).2 := by
  have hSound := (hw.sound (World.sound_initial limit)).1.state
  have hSound' := (hw'.sound (World.sound_initial limit)).1.state
  have hInterpreter := hw.interpreter_eq.trans hw'.interpreter_eq.symm
  have hAlike : w.session.Alike C M w'.session :=
    ⟨hSame.global, congrArg Interpreter.limit hInterpreter,
      ⟨hSame.heap, .inl (congrArg Interpreter.depth hInterpreter)⟩, hSame.frames⟩
  obtain ⟨M', hM, hReply, hAfter⟩ :=
    Session.agree_step hC hAlike hSound hSound' c rename hc hFrames
  exact ⟨M', hM, hReply, hAfter.global, hAfter.frames, hAfter.machine.heap⟩

open Eval Eval.Moment in
/-- The counter of active procedure bodies, under a limit.

* After an evaluation or the application of a procedure, from any machine whose counter is not above
  the limit, the counter is what it was, whether there is a value or an error. At every moment in
  between it is at least that and at most the limit. These are the moments of `evaluate` and
  `apply`, where the heap's bound on the height of bodies is a true one.
* A body that is refused changes nothing.
* After every history of requests to a new interpreter the counter is zero, and the limit the one
  that was given.
* So the outcome of a command depends on the bindings only: in two worlds that were reached in any
  way, and hold the same bindings up to the choice of frames and identities, the command has the
  same answer, and leaves the same bindings behind. -/
theorem counter_survives_every_exit (limit : Nat) :
    (∀ (env : FrameId) (e : Expr) (m : Machine), m.depth ≤ limit →
      (evaluate limit env e m).2.depth = m.depth ∧ (start env e m).Restores limit ∧
      (m.heap.BodiesWithin m.heap.tallest →
        ∃ k, after (some limit) k (start env e (note e m)) = ended (evaluate limit env e m))) ∧
    (∀ (p : Procedure) (args : List Value) (m : Machine), m.depth ≤ limit →
      (apply limit p args m).2.depth = m.depth ∧ Restores limit ⟨.application p args, m, []⟩ ∧
      (m.heap.Bounds (.procedure p :: args) →
        ∃ k, after (some limit) k ⟨.application p args, m, []⟩ = ended (apply limit p args m))) ∧
    (∀ (body : Eval Value) (m : Machine), ¬admits (some limit) m.depth = true →
      nested (some limit) body m = .error (.error (.bare (.depthExceeded limit))) m) ∧
    (∀ w, (World.initial limit).Steps w →
      w.session.state.interpreter.depth = 0 ∧ w.session.state.interpreter.limit = limit) ∧
    ∀ w w', (World.initial limit).Steps w → (World.initial limit).Steps w' →
      ∀ (id : Nat → Nat → Prop)
        (id_iff : ∀ {a a' b b'}, id a a' → id b b' → (a = b ↔ a' = b')) (M : Matching),
      w.session.SameBindings (.renaming id id_iff) M w'.session →
      ∀ (c : Command) (rename : FrameId → FrameId), w.Allows (.command c) →
        (∀ f ∈ c.frames, M f (rename f)) →
        ∃ M', M ≤ M' ∧
          (w.session.step c).1.Alike (.renaming id id_iff) M'
            (w'.session.step (c.onFrames rename)).1 ∧
          (w.session.step c).2.SameBindings (.renaming id id_iff) M'
            (w'.session.step (c.onFrames rename)).2 := by
  refine ⟨fun env e m hm => ?_, fun p args m hm => ?_, fun body m hRefused => ?_, fun w hw => ?_,
    fun w w' hw hw' id id_iff M hSame c rename hAllows hc => ?_⟩
  · exact ⟨(families_evaluate limit env e m).1.depth, restores_start env e hm,
      evaluate_is_over limit env e⟩
  · exact ⟨(families_apply limit p args m).depth, restores_application p args hm,
      apply_is_over limit⟩
  · unfold nested
    rw [if_neg hRefused]
    rfl
  · rw [hw.interpreter_eq]
    exact ⟨rfl, rfl⟩
  · exact hw.agree_step hw' (Correspondence.renaming_plain id id_iff) hSame c rename hc
      hAllows.frames

/-! ## A session with and without a failure -/

namespace World

/-- A procedure that calls itself for ever is defined under a limit of one. -/
def loopDefined : World :=
  (initial 1).serve (.evaluate 1 (.list none [.symbol none "define",
    .list none [.symbol none "loop", .symbol none "x"],
    .list none [.symbol none "loop", .symbol none "x"]]))

/-- Then it is called. -/
def loopCalled : World := loopDefined.serve (.evaluate 1 Eval.loopCall)

theorem steps_loopDefined : (initial 1).Steps loopDefined := by
  refine .serve .refl ⟨fun f hf => ?_, by simp [Request.values]⟩
  rw [List.mem_singleton.1 hf]
  decide

theorem steps_loopCalled : (initial 1).Steps loopCalled := by
  refine .serve steps_loopDefined ⟨fun f hf => ?_, by simp [Request.values]⟩
  rw [List.mem_singleton.1 hf]
  decide

theorem sameBindings_loopCalled : loopCalled.session.SameBindings (.renaming Eq Eq.congr)
    (fun f f' => f = f' ∧ f < 2) loopDefined.session := by
  have hSound := (steps_loopDefined.sound (sound_initial 1)).1.state.heap
  refine ⟨⟨rfl, by decide⟩, .cons ⟨rfl, by decide⟩ .nil, ?_⟩
  refine hSound.alike_of_common ⟨fun _ => rfl, fun _ => trivial⟩ (fun _ _ _ _ _ _ _ _ _ _ => rfl)
    (fun (f : Nat) hf => ?_) (fun _ _ => rfl) (fun _ => rfl)
    ⟨fun _ => trivial, fun _ => trivial, nofun, nofun⟩
  have hCases : f = 0 ∨ f = 1 := by
    have hLt : f < 2 := hf
    omega
  rcases hCases with rfl | rfl <;> rfl

/-- The endless recursion has met the limit, with one body active, and the counter is zero again.
Called a second time, it fails in the same way as it does where it was never called before. -/
theorem loopCalled_again :
    (∃ e, (loopDefined.session.serve (.evaluate 1 Eval.loopCall)).1 = .error e ∧
      e.cause = .depthExceeded 1) ∧
    (Eval.evaluate 1 1 Eval.loopCall ⟨loopDefined.heap, 1⟩).2.depth = 1 ∧
    loopCalled.session.state.interpreter.depth = 0 ∧
    loopCalled.session.SameBindings (.renaming Eq Eq.congr) (fun f f' => f = f' ∧ f < 2)
      loopDefined.session ∧
    loopCalled.Allows (.command (.input "(loop nil)")) ∧
    ∃ M, (loopCalled.session.step (.input "(loop nil)")).1.Alike (.renaming Eq Eq.congr) M
      (loopDefined.session.step (.input "(loop nil)")).1 := by
  obtain ⟨hEvaluate, _, _, hHistory, hOutcome⟩ := counter_survives_every_exit 1
  have hAllows : loopCalled.Allows (.command (.input "(loop nil)")) :=
    ⟨by simp [Request.frames, Command.frames], by simp [Request.values]⟩
  obtain ⟨M, _, hReply, _⟩ := hOutcome loopCalled loopDefined steps_loopCalled steps_loopDefined
    Eq Eq.congr _ sameBindings_loopCalled (.input "(loop nil)") id hAllows
    (by simp [Command.frames])
  exact ⟨⟨_, rfl, rfl⟩, (hEvaluate 1 Eval.loopCall ⟨loopDefined.heap, 1⟩ (Nat.le_refl 1)).1,
    (hHistory loopCalled steps_loopCalled).1, sameBindings_loopCalled, hAllows, M, hReply⟩

end World

end MiniScheme
