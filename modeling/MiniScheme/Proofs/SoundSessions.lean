import MiniScheme.Session
import MiniScheme.Proofs.Segments
import MiniScheme.Proofs.Store

/-!
# Commands keep the heap sound

Every operation of the interpreter and every command of a session extends the heap, leaves it
sound, and answers with a value that may occur or an error that may be, whether it fails or not
(`Interpreter.State.Yields`, `Session.Served`). A command is made of evaluations and of operations
on the heap, so this follows from what is known of those. New here is reading: whatever a text is,
the error of reading it does not speak of an empty body.

## Main results

* `Interpreter.State.yields_program`: what the forms of a text do.
* `Session.served_step`: what one command does.
-/

namespace MiniScheme

/-! ## Reading -/

/-- The text may be no expression, but the error does not speak of an empty body. -/
def Legible {α : Type} (x : Except Error α) : Prop :=
  ∀ e, x = .error e → e.cause ≠ Cause.emptyBody

namespace Expr

theorem legible_error {α : Type} {e : Error} (h : e.cause ≠ Cause.emptyBody) :
    Legible (.error e : Except Error α) :=
  fun _ hEq => by cases hEq; exact h

theorem legible_ok {α : Type} (a : α) : Legible (.ok a : Except Error α) := nofun

theorem legible_of_mem_forms {tokens : List Token} {item : Except Error Expr}
    (hItem : item ∈ forms tokens) : Legible item := by
  rintro error rfl
  rcases cause_of_mem_forms hItem with hCause | hCause
  · simp [hCause, Cause.emptyBody]
  · simp [hCause, Cause.emptyBody]

theorem legible_validate (tokens : List Token) : Legible (validate tokens) := by
  cases tokens with
  | nil => exact legible_error (by simp [Error.bare, Cause.emptyBody])
  | cons first rest =>
      unfold validate
      dsimp only
      split
      · exact legible_error (by simp [Cause.emptyBody])
      · split
        · exact legible_error (by simp [Error.bare, Cause.emptyBody])
        · split
          · exact legible_error (by simp [Error.bare, Cause.emptyBody])
          · exact legible_ok ()

theorem legible_ofSource (source : String) : Legible (ofSource source) := by
  unfold ofSource parse
  cases hValid : validate (Token.scan source) with
  | error e => exact legible_error (legible_validate _ e hValid)
  | ok _ =>
      cases hForms : forms (Token.scan source) with
      | nil => exact legible_error (by simp [Error.bare, Cause.emptyBody])
      | cons item items =>
          have hMem : item ∈ forms (Token.scan source) := by
            rw [hForms]
            exact List.mem_cons_self
          exact legible_of_mem_forms hMem

end Expr

theorem FileContent.legible_text (content : FileContent) : Legible (FileContent.text content) := by
  unfold FileContent.text
  split
  · exact Expr.legible_error (by simp [Error.bare, Cause.emptyBody])
  · split
    · exact Expr.legible_ok _
    · exact Expr.legible_error (by simp [Error.bare, Cause.emptyBody])

/-! ## The interpreter -/

namespace Interpreter.State

/-- The heap is sound, and the global frame exists. -/
structure Sound (s : State) : Prop where
  heap : s.heap.Sound
  global_lt : s.interpreter.global < s.heap.frames.size

/-- The outcome of an operation of the interpreter. -/
structure Yields {α : Type} (s : State) (good : Heap → α → Prop) (next : Except Error α × State) :
    Prop where
  heap : s.heap.Yields good next.1 next.2.heap
  global_eq : next.2.interpreter.global = s.interpreter.global

variable {s : State} {α : Type} {good : Heap → α → Prop}

theorem Yields.sound {next : Except Error α × State} (h : s.Yields good next) (hs : s.Sound) :
    next.2.Sound := by
  refine ⟨h.heap.sound, ?_⟩
  rw [h.global_eq]
  exact h.heap.extension.lt_size hs.global_lt

theorem Yields.trans {β : Type} {good' : Heap → β → Prop} {first : Except Error β × State}
    {next : Except Error α × State} (hFirst : s.Yields good' first)
    (hNext : first.2.Yields good next) : s.Yields good next :=
  ⟨.trans hFirst.heap.extension hNext.heap, hNext.global_eq.trans hFirst.global_eq⟩

/-- The error of a first part is the error of the whole. -/
theorem Yields.failed {β : Type} {good' : Heap → β → Prop} {e : Error} {s' : State}
    (h : s.Yields good' (.error e, s')) : s.Yields good (.error e, s') :=
  ⟨Heap.yields_error h.heap.extension h.heap.sound (h.heap.error e rfl), h.global_eq⟩

/-- An operation that fails before it does anything. -/
theorem yields_error {e : Error} (hs : s.Sound) (he : e.cause ≠ Cause.emptyBody) :
    s.Yields good (.error e, s) :=
  ⟨Heap.yields_error (.refl _) hs.heap he, rfl⟩

theorem yields_evalExpr (hs : s.Sound) {env : FrameId} (hEnv : env < s.heap.frames.size)
    (e : Expr) : s.Yields Heap.Admits (s.evalExpr env e) :=
  ⟨hs.heap.yields_evaluate (m := s.machine) s.interpreter.limit hEnv e, rfl⟩

theorem yields_apply (hs : s.Sound) {p : Procedure} (hp : s.heap.Admits (.procedure p))
    {args : List Value} (hArgs : ∀ v ∈ args, s.heap.Admits v) :
    s.Yields Heap.Admits (s.apply p args) :=
  ⟨hs.heap.yields_apply (m := s.machine) s.interpreter.limit hp hArgs, rfl⟩

theorem yields_evalRead (hs : s.Sound) {env : FrameId} (hEnv : env < s.heap.frames.size)
    {x : Except Error Expr} (hx : Legible x) : s.Yields Heap.Admits (s.evalRead env x) := by
  cases x with
  | error e => exact yields_error hs (hx e rfl)
  | ok e => exact yields_evalExpr hs hEnv e

theorem yields_evalIn (hs : s.Sound) {env : FrameId} (hEnv : env < s.heap.frames.size)
    (source : String) : s.Yields Heap.Admits (s.evalIn env source) :=
  yields_evalRead hs hEnv (Expr.legible_ofSource source)

theorem yields_eval (hs : s.Sound) (source : String) : s.Yields Heap.Admits (s.eval source) :=
  yields_evalIn hs hs.global_lt source

/-- A program may have no value; if it has one, it may occur. -/
def AdmitsLast (h : Heap) (last : Option Value) : Prop := ∀ v, last = some v → h.Admits v

theorem yields_evalForms (items : List (Except Error Expr)) (hItems : ∀ x ∈ items, Legible x) :
    ∀ (s : State) (last : Option Value), s.Sound → AdmitsLast s.heap last →
      s.Yields AdmitsLast (s.evalForms last items) := by
  induction items with
  | nil =>
      intro s last hs hLast
      exact ⟨Heap.yields_ok (.refl _) hs.heap hLast, rfl⟩
  | cons x items ih =>
      intro s last hs hLast
      have hFirst := yields_evalRead hs hs.global_lt (hItems x (by simp))
      have hSound := hFirst.sound hs
      cases hRead : s.evalRead s.interpreter.global x with
      | mk result s' =>
          rw [hRead] at hFirst hSound
          cases result with
          | error e =>
              simp only [evalForms, hRead]
              exact hFirst.failed
          | ok v =>
              simp only [evalForms, hRead]
              have hv : AdmitsLast s'.heap (some v) := by
                intro w hw
                cases hw
                exact hFirst.heap.ok v rfl
              exact hFirst.trans (ih (fun y hy => hItems y (by simp [hy])) s' (some v) hSound hv)

/-- The forms of a text leave a sound heap behind, and the heap admits the last of their values. -/
theorem yields_program (hs : s.Sound) (source : String) :
    s.Yields AdmitsLast (s.program source) := by
  unfold program
  dsimp only
  split
  · exact ⟨Heap.yields_ok (.refl _) hs.heap nofun, rfl⟩
  · split
    · next e hValid => exact yields_error hs (Expr.legible_validate _ e hValid)
    · exact yields_evalForms _ (fun _ => Expr.legible_of_mem_forms) s none hs nofun

/-- The answer to an input is the text of a program's result. -/
theorem snd_respond (s : State) (source : String) :
    (s.respond source).2 = (s.program source).2 := by
  unfold respond
  split <;> next hProgram => rw [hProgram]

theorem yields_evalFile (hs : s.Sound) (content : FileContent) :
    s.Yields Heap.Admits (s.evalFile content) := by
  unfold evalFile
  split
  · next e hText => exact yields_error hs (FileContent.legible_text content e hText)
  · exact yields_eval hs _

end Interpreter.State

/-! ## Sessions -/

/-- A reply that may be given while the heap is `h`: a value that may occur, and no error about
an empty body. -/
def Reply.Sound (h : Heap) : Reply → Prop
  | .value v => h.Admits v
  | .error e => e.cause ≠ Cause.emptyBody
  | _ => True

/-- The frames that a command names. -/
def Command.frames : Command → List FrameId
  | .evaluateFile env _ => [env]
  | .newChild parent => [parent]
  | .evalIn env _ => [env]
  | .get env _ => [env]
  | .lookup env _ => [env]
  | .define env _ _ => [env]
  | .set env _ _ => [env]
  | .delete env _ => [env]
  | .apply env _ _ => [env]
  | _ => []

namespace Session

open Interpreter (State)

/-- What a request does: the heap is extended, the interpreter is sound again, and the reply is
one that may be given. -/
structure Served (s : Session) (next : Reply × Session) : Prop where
  extension : s.state.heap.Extends next.2.state.heap
  sound : next.2.state.Sound
  reply : next.1.Sound next.2.state.heap

variable {s : Session}

/-- A reply that leaves the session as it was. -/
theorem served_same (hs : s.state.Sound) {reply : Reply} (hReply : reply.Sound s.state.heap) :
    s.Served (reply, s) :=
  ⟨.refl _, hs, hReply⟩

/-- A reply for which the heap was changed. -/
theorem served_withHeap (hs : s.state.Sound) {reply : Reply} {h : Heap}
    (hExtends : s.state.heap.Extends h) (hSound : h.Sound) (hReply : reply.Sound h) :
    s.Served (reply, s.withHeap h) :=
  ⟨hExtends, ⟨hSound, hExtends.lt_size hs.global_lt⟩, hReply⟩

/-- A frame that was just made gets a position. -/
theorem served_adopt (hs : s.state.Sound) {next : FrameId × Heap}
    (hExtends : s.state.heap.Extends next.2) (hSound : next.2.Sound) : s.Served (s.adopt next) :=
  ⟨hExtends, ⟨hSound, hExtends.lt_size hs.global_lt⟩, trivial⟩

theorem sound_ofResult {h h' : Heap} {result : Except Error Value}
    (hYields : h.Yields Heap.Admits result h') : (Reply.ofResult result).Sound h' := by
  cases result with
  | ok v => exact hYields.ok v rfl
  | error e => exact hYields.error e rfl

theorem served_replying (hs : s.state.Sound) {next : Except Error Value × State}
    (hNext : s.state.Yields Heap.Admits next) : s.Served (s.replying next) :=
  ⟨hNext.heap.extension, hNext.sound hs, sound_ofResult hNext.heap⟩

theorem served_program (hs : s.state.Sound) (source : String) :
    s.Served (s.step (.program source)) := by
  have hNext := State.yields_program hs source
  refine ⟨hNext.heap.extension, hNext.sound hs, ?_⟩
  show (Reply.ofProgram (s.state.program source).1).Sound _
  cases hResult : (s.state.program source).1 with
  | error e => exact hNext.heap.error e hResult
  | ok last =>
      cases last with
      | none => trivial
      | some v => exact hNext.heap.ok (some v) hResult v rfl

theorem served_input (hs : s.state.Sound) (source : String) :
    s.Served (s.step (.input source)) := by
  have hNext := State.yields_program hs source
  have hSound := hNext.sound hs
  have hState := s.state.snd_respond source
  refine ⟨?_, ?_, trivial⟩
  · show s.state.heap.Extends (s.state.respond source).2.heap
    rw [hState]
    exact hNext.heap.extension
  · show (s.state.respond source).2.Sound
    rw [hState]
    exact hSound

theorem served_evaluateFile (hs : s.state.Sound) {env : FrameId}
    (hEnv : env < s.state.heap.frames.size) (content : FileContent) :
    s.Served (s.step (.evaluateFile env content)) := by
  have hState : State.Sound ⟨.ofFrame env defaultLimit, s.state.heap⟩ := ⟨hs.heap, hEnv⟩
  have hNext := State.yields_evalFile hState content
  exact served_withHeap hs hNext.heap.extension hNext.heap.sound (sound_ofResult hNext.heap)

theorem served_get (hs : s.state.Sound) {env : FrameId} (hEnv : env < s.state.heap.frames.size)
    (name : String) : s.Served (s.step (.get env name)) := by
  cases hGet : s.state.heap.get? env name with
  | none =>
      simp only [step, hGet]
      exact served_same hs trivial
  | some v =>
      simp only [step, hGet]
      exact served_same hs (Regime.Holds.fine_of_get? hs.heap hEnv hGet)

theorem served_lookup (hs : s.state.Sound) {env : FrameId}
    (hEnv : env < s.state.heap.frames.size) (name : String) :
    s.Served (s.step (.lookup env name)) := by
  cases hGet : s.state.heap.get? env name with
  | none =>
      simp only [step, Heap.lookup, hGet]
      have hCause : (Error.bare (.unboundSymbol name)).cause ≠ Cause.emptyBody := by
        simp [Error.bare, Cause.emptyBody]
      exact served_same hs hCause
  | some v =>
      simp only [step, Heap.lookup, hGet]
      exact served_same hs (Regime.Holds.fine_of_get? hs.heap hEnv hGet)

theorem served_delete (hs : s.state.Sound) {env : FrameId}
    (hEnv : env < s.state.heap.frames.size) (name : String) :
    s.Served (s.step (.delete env name)) := by
  cases hDelete : s.state.heap.delete env name with
  | ok result =>
      obtain ⟨v, h⟩ := result
      simp only [step, hDelete]
      obtain ⟨⟨frame, hFrame, hv⟩, rfl⟩ := Heap.delete_eq_ok hDelete
      have hExtends := s.state.heap.extends_alter env fun bindings => bindings.erase name
      have hAdmits : s.state.heap.Admits v := hs.heap.bound env frame hFrame hEnv name v hv
      exact served_withHeap hs hExtends (Regime.Holds.erase hs.heap env name)
        (hAdmits.extend hExtends)
  | error cause =>
      simp only [step, hDelete]
      refine served_same hs ?_
      unfold Heap.delete at hDelete
      split at hDelete
      · cases hDelete
        simp [Reply.Sound, Error.bare, Cause.emptyBody]
      · cases hDelete

theorem served_define (hs : s.state.Sound) (env : FrameId) (name : String) {v : Value}
    (hv : s.state.heap.Admits v) :
    s.Served (.done, s.withHeap (s.state.heap.define env name v)) :=
  served_withHeap hs (s.state.heap.extends_define env name v) (hs.heap.define env name hv) trivial

/-- Gives a name that is bound a new value. -/
def assign (s : Session) (env : FrameId) (name : String) (v : Value) : Reply × Session :=
  match s.state.heap.set env name v with
  | .ok heap => (.done, s.withHeap heap)
  | .error cause => (.error (.bare cause), s)

theorem served_assign (hs : s.state.Sound) (env : FrameId) (name : String) {v : Value}
    (hv : s.state.heap.Admits v) : s.Served (s.assign env name v) := by
  unfold assign Heap.set
  cases s.state.heap.home? env name with
  | none => exact served_same hs (by simp [Reply.Sound, Error.bare, Cause.emptyBody])
  | some g => exact served_define hs g name hv

/-- A value is computed, and then something is done with it. -/
theorem served_withValue (hs : s.state.Sound) (source : String)
    {next : Value → Session → Reply × Session}
    (hNext : ∀ (v : Value) (s' : Session), s'.state.Sound → s'.state.heap.Admits v →
      s'.Served (next v s')) :
    s.Served (s.withValue source next) := by
  have hEval := State.yields_eval hs source
  have hSound := hEval.sound hs
  unfold withValue
  cases hResult : s.state.eval source with
  | mk result state =>
      rw [hResult] at hEval hSound
      cases result with
      | error e => exact ⟨hEval.heap.extension, hSound, hEval.heap.error e rfl⟩
      | ok v =>
          have hServed := hNext v (s.withState state) hSound (hEval.heap.ok v rfl)
          exact ⟨hEval.heap.extension.trans hServed.extension, hServed.sound, hServed.reply⟩

/-- Values that may occur. -/
def AdmitsAll (h : Heap) (vs : List Value) : Prop := ∀ v ∈ vs, h.Admits v

theorem yields_evalEach (sources : List String) :
    ∀ {state : State} {env : FrameId}, state.Sound → env < state.heap.frames.size →
      state.Yields AdmitsAll (evalEach state env sources) := by
  induction sources with
  | nil =>
      intro state env hs _
      exact ⟨Heap.yields_ok (.refl _) hs.heap (by simp [AdmitsAll]), rfl⟩
  | cons source sources ih =>
      intro state env hs hEnv
      have hFirst := State.yields_evalIn hs hEnv source
      have hSound := hFirst.sound hs
      unfold evalEach
      cases hEval : state.evalIn env source with
      | mk result state₁ =>
          rw [hEval] at hFirst hSound
          cases result with
          | error e => exact hFirst.failed
          | ok v =>
              have hRest := ih hSound (hFirst.heap.extension.lt_size hEnv)
              have hSound' := hRest.sound hSound
              have hBoth := hFirst.trans hRest
              cases hEach : evalEach state₁ env sources with
              | mk results state₂ =>
                  simp only [hEach]
                  rw [hEach] at hRest hSound' hBoth
                  cases results with
                  | error e => exact hBoth.failed
                  | ok vs =>
                      refine ⟨Heap.yields_ok hBoth.heap.extension hSound'.heap ?_,
                        hBoth.global_eq⟩
                      intro w hw
                      rcases List.mem_cons.1 hw with rfl | hw
                      · exact (hFirst.heap.ok w rfl).extend hRest.heap.extension
                      · exact hRest.heap.ok vs rfl w hw

theorem yields_applyIn {state : State} (hs : state.Sound) {env : FrameId}
    (hEnv : env < state.heap.frames.size) (source : String) (args : List String) :
    state.Yields Heap.Admits (applyIn state env source args) := by
  have hFirst := State.yields_evalIn hs hEnv source
  have hSound := hFirst.sound hs
  unfold applyIn
  cases hEval : state.evalIn env source with
  | mk result state₁ =>
      rw [hEval] at hFirst hSound
      cases result with
      | error e => exact hFirst.failed
      | ok v =>
          have hRest := yields_evalEach args hSound (hFirst.heap.extension.lt_size hEnv)
          have hSound' := hRest.sound hSound
          have hBoth := hFirst.trans hRest
          cases hEach : evalEach state₁ env args with
          | mk results state₂ =>
              simp only [hEach]
              rw [hEach] at hRest hSound' hBoth
              cases results with
              | error e => exact hBoth.failed
              | ok vs =>
                  have hv : state₂.heap.Admits v :=
                    (hFirst.heap.ok v rfl).extend hRest.heap.extension
                  cases v with
                  | procedure p =>
                      exact hBoth.trans (State.yields_apply hSound' hv (hRest.heap.ok vs rfl))
                  | _ =>
                      exact ⟨Heap.yields_ok hBoth.heap.extension hSound'.heap hv, hBoth.global_eq⟩

/-- Every command that names frames that exist. -/
theorem served_step (hs : s.state.Sound) {c : Command}
    (hFrames : ∀ f ∈ c.frames, f < s.state.heap.frames.size) : s.Served (s.step c) := by
  cases c with
  | eval source => exact served_replying hs (State.yields_eval hs source)
  | program source => exact served_program hs source
  | input source => exact served_input hs source
  | file content => exact served_replying hs (State.yields_evalFile hs content)
  | evaluateFile env content =>
      exact served_evaluateFile hs (hFrames env (by simp [Command.frames])) content
  | newRoot => exact served_adopt hs (s.state.heap.extends_push _) hs.heap.newRoot
  | newGlobal => exact served_adopt hs s.state.heap.extends_newGlobal hs.heap.newGlobal
  | newChild parent =>
      have hParent := hFrames parent (by simp [Command.frames])
      exact served_adopt hs (s.state.heap.extends_push _) (hs.heap.newChild hParent)
  | evalIn env source =>
      have hEnv := hFrames env (by simp [Command.frames])
      exact served_replying hs (State.yields_evalIn hs hEnv source)
  | get env name => exact served_get hs (hFrames env (by simp [Command.frames])) name
  | lookup env name => exact served_lookup hs (hFrames env (by simp [Command.frames])) name
  | define env name source =>
      exact served_withValue hs source fun v s' hs' hv => served_define hs' env name hv
  | set env name source =>
      exact served_withValue hs source fun v s' hs' hv => served_assign hs' env name hv
  | delete env name => exact served_delete hs (hFrames env (by simp [Command.frames])) name
  | apply env source args =>
      have hEnv := hFrames env (by simp [Command.frames])
      exact served_replying hs (yields_applyIn hs hEnv source args)

end Session

end MiniScheme
