import MiniScheme.Proofs.SoundSessions

/-!
# What holds after any history of requests

A caller of the interpreter holds frames and values, and may ask for anything in any order: the
commands of a session, and beside them the operations that take an expression or a value as such.
Requests that fail count like any other.

Where the values come from that a request hands over is an assumption (`World.Allows`): the frames
that a request names exist, and every procedure in its values was handed out before. Numbers,
booleans and pairs may be made up. A procedure that the caller has put together out of code and a
frame is left out: its body could be empty, and its frame need not be one of the heap.

A `World` is a session together with the values that it has handed out. One request keeps a world
sound (`World.Sound.serve`), and by induction a whole history does (`World.Steps.sound`).

## Main results

* `World.Steps.sound`: every history keeps a world sound, and its heap only grows.
* `heap_sound_after_every_history`: what that means for frames, procedures, names and errors.
-/

namespace MiniScheme

/-! ## Requests -/

/-- What a caller can ask for: a command, or an operation on an expression or a value it has. -/
inductive Request where
  | command (command : Command)
  /-- Evaluate an expression in a frame. -/
  | evaluate (env : FrameId) (e : Expr)
  /-- Apply a procedure to arguments. -/
  | apply (p : Procedure) (args : List Value)
  /-- Bind a name in a frame. -/
  | define (env : FrameId) (name : String) (value : Value)
  /-- Give a name that is bound a new value. -/
  | set (env : FrameId) (name : String) (value : Value)

namespace Request

/-- The frames that a request names. -/
def frames : Request → List FrameId
  | .command c => c.frames
  | .evaluate env _ => [env]
  | .apply _ _ => []
  | .define env _ _ => [env]
  | .set env _ _ => [env]

/-- The values that a request hands over. -/
def values : Request → List Value
  | .apply p args => .procedure p :: args
  | .define _ _ v => [v]
  | .set _ _ v => [v]
  | _ => []

end Request

/-- Carries out a request. -/
def Session.serve (s : Session) : Request → Reply × Session
  | .command c => s.step c
  | .evaluate env e => s.replying (s.state.evalExpr env e)
  | .apply p args => s.replying (s.state.apply p args)
  | .define env name v => (.done, s.withHeap (s.state.heap.define env name v))
  | .set env name v => s.assign env name v

theorem Session.served_serve {s : Session} (hs : s.state.Sound) {r : Request}
    (hFrames : ∀ f ∈ r.frames, f < s.state.heap.frames.size)
    (hValues : ∀ v ∈ r.values, s.state.heap.Admits v) : s.Served (s.serve r) := by
  cases r with
  | command c => exact served_step hs hFrames
  | evaluate env e =>
      have hEnv := hFrames env (by simp [Request.frames])
      exact served_replying hs (Interpreter.State.yields_evalExpr hs hEnv e)
  | apply p args =>
      have hp := hValues (.procedure p) (by simp [Request.values])
      have hArgs : ∀ v ∈ args, s.state.heap.Admits v := by
        intro v hv
        exact hValues v (by simp [Request.values, hv])
      exact served_replying hs (Interpreter.State.yields_apply hs hp hArgs)
  | define env name v => exact served_define hs env name (hValues v (by simp [Request.values]))
  | set env name v => exact served_assign hs env name (hValues v (by simp [Request.values]))

/-! ## Histories -/

/-- The values in a reply. -/
def Reply.values : Reply → List Value
  | .value v => [v]
  | _ => []

/-- A session and the values it has handed out. -/
structure World where
  session : Session
  given : List Value

namespace World

/-- A new interpreter, which has handed nothing out. -/
def initial (limit : Nat) : World := ⟨.initial limit, []⟩

/-- The heap that the session works on. -/
def heap (w : World) : Heap := w.session.state.heap

/-- The world after a request. -/
def serve (w : World) (r : Request) : World :=
  ⟨(w.session.serve r).2, (w.session.serve r).1.values ++ w.given⟩

/-- What is assumed of a request: its frames exist, and the procedures in its values come from the
session, which has handed them out. -/
structure Allows (w : World) (r : Request) : Prop where
  frames : ∀ f ∈ r.frames, f < w.heap.frames.size
  values : ∀ v ∈ r.values, ∀ code f, v.Occurs code f → ∃ u ∈ w.given, u.Occurs code f

/-- Requests lead from one world to another. -/
inductive Steps (w : World) : World → Prop where
  | refl : Steps w w
  | serve {w' : World} {r : Request} (before : Steps w w') (hAllows : w'.Allows r) :
      Steps w (w'.serve r)

/-- The interpreter is sound, and what was handed out may occur. -/
structure Sound (w : World) : Prop where
  state : w.session.state.Sound
  given : ∀ v ∈ w.given, w.heap.Admits v

theorem sound_initial (limit : Nat) : (initial limit).Sound :=
  ⟨⟨Heap.sound_empty.newGlobal, Heap.lt_size_push _ _⟩, by simp [initial]⟩

/-- What is handed over was handed out, so it may occur. -/
theorem Sound.admits {w : World} (hw : w.Sound) {r : Request} (hAllows : w.Allows r) :
    ∀ v ∈ r.values, w.heap.Admits v := by
  intro v hv
  refine Value.all_iff_occurs.2 fun code f hOccurs => ?_
  obtain ⟨u, hu, hOccurs'⟩ := hAllows.values v hv code f hOccurs
  exact Value.all_iff_occurs.1 (hw.given u hu) code f hOccurs'

theorem Sound.served {w : World} (hw : w.Sound) {r : Request} (hAllows : w.Allows r) :
    w.session.Served (w.session.serve r) :=
  Session.served_serve hw.state hAllows.frames (hw.admits hAllows)

/-- One request keeps a world sound. -/
theorem Sound.serve {w : World} (hw : w.Sound) {r : Request} (hAllows : w.Allows r) :
    (w.serve r).Sound := by
  have hServed := hw.served hAllows
  refine ⟨hServed.sound, fun v hv => ?_⟩
  rcases List.mem_append.1 hv with hReply | hOld
  · have hSound := hServed.reply
    cases hEq : (w.session.serve r).1 with
    | value u =>
        rw [hEq] at hReply hSound
        obtain rfl : v = u := by simpa [Reply.values] using hReply
        exact hSound
    | _ =>
        rw [hEq] at hReply
        simp [Reply.values] at hReply
  · exact (hw.given v hOld).extend hServed.extension

/-- Every history keeps a world sound, and its heap only grows. -/
theorem Steps.sound {w w' : World} (h : w.Steps w') (hw : w.Sound) :
    w'.Sound ∧ w.heap.Extends w'.heap := by
  induction h with
  | refl => exact ⟨hw, .refl _⟩
  | serve before hAllows ih =>
      obtain ⟨hSound, hExtends⟩ := ih
      exact ⟨hSound.serve hAllows, hExtends.trans (hSound.served hAllows).extension⟩

end World

/-- After any history of requests to a new interpreter:

* parents exist, and no frame is above itself;
* later requests change neither the parent of a frame nor whether it has the built-in procedures;
* every procedure that occurs in a frame or was handed out keeps a frame that exists, and has a
  body and parameters of different names, none of them reserved;
* the heap's bound on the height of bodies is a true one, so evaluation has enough fuel;
* the frames in which a name is looked for are the whole way to a root, through frames that exist;
* no request is answered with an error about an empty body, and neither does a program end with
  one whose result is only shown. -/
theorem heap_sound_after_every_history (limit : Nat) (w : World)
    (hw : (World.initial limit).Steps w) :
    (∀ parent f, w.heap.IsParent parent f → parent < w.heap.frames.size) ∧
    (∀ f, ¬ Relation.TransGen w.heap.IsParent f f) ∧
    (∀ w', w.Steps w' → ∀ (f : FrameId) (frame : Frame), w.heap.frames[f]? = some frame →
      ∃ frame' : Frame, w'.heap.frames[f]? = some frame' ∧ frame'.parent = frame.parent ∧
        frame'.hasBuiltins = frame.hasBuiltins) ∧
    (∀ v, (v ∈ w.given ∨ ∃ (f : FrameId) (frame : Frame) (name : String),
        w.heap.frames[f]? = some frame ∧ frame.bindings.get? name = some v) →
      ∀ code f, v.Occurs code f → f < w.heap.frames.size ∧ code.body ≠ [] ∧
        code.formals.names.Nodup ∧ ∀ name ∈ code.formals.names, name ∉ ["#t", "#f", "nil", "."]) ∧
    w.heap.BodiesWithin w.heap.tallest ∧
    (∀ f < w.heap.frames.size, w.heap.Path f (w.heap.chain f)) ∧
    (∀ r, w.Allows r → ∀ e, (w.session.serve r).1 = .error e →
      e.cause ≠ .malformedForm "empty body") ∧
    (∀ source e, (w.session.state.program source).1 = .error e →
      e.cause ≠ .malformedForm "empty body") := by
  obtain ⟨hSound, _⟩ := hw.sound (World.sound_initial limit)
  have hHeap : w.heap.Sound := hSound.state.heap
  refine ⟨fun parent f => hHeap.parent_lt_size, hHeap.not_transGen_isParent, ?_, ?_,
    hHeap.bodiesWithin, ?_, ?_, ?_⟩
  · intro w' hLater f frame hFrame
    exact (hLater.sound hSound).2.grows.frame f frame hFrame
  · intro v hv code f hOccurs
    have hAdmits : w.heap.Admits v := by
      rcases hv with hGiven | ⟨g, frame, name, hFrame, hGet⟩
      · exact hSound.given v hGiven
      · have hg : g < w.heap.frames.size := (Array.getElem?_eq_some_iff.1 hFrame).1
        exact hHeap.bound g frame hFrame hg name v hGet
    have hFits := Value.all_iff_occurs.1 hAdmits code f hOccurs
    refine ⟨hFits.frame_lt, hFits.wellFormed.body_ne_nil, hFits.wellFormed.nodup, ?_⟩
    intro name hName
    have hBindable := hFits.wellFormed.bindable name hName
    simpa [Form.isBindable, Form.reserved] using hBindable
  · exact fun f hf => hHeap.path_chain hf
  · intro r hAllows e hError
    have hReply := (hSound.served hAllows).reply
    rw [hError] at hReply
    exact hReply
  · exact fun source e hError =>
      (Interpreter.State.yields_program hSound.state source).heap.error e hError

namespace World

/-- The code of the identity procedure. -/
def identityCode : Lambda := ⟨⟨["x"], none⟩, [.symbol none "x"]⟩

/-- The identity procedure, as it is first made in the global frame. -/
def identity : Procedure := .closure 0 identityCode 1

/-- The expression `(lambda (x) x)` is evaluated, its value is bound to a name in the global
frame, and it is applied to itself. -/
def identityHistory : World :=
  (((initial 5).serve (.evaluate 1 (.list none
    [.symbol none "lambda", .list none [.symbol none "x"], .symbol none "x"]))).serve
      (.define 1 "id" (.procedure identity))).serve (.apply identity [.procedure identity])

theorem steps_identityHistory : (initial 5).Steps identityHistory := by
  refine .serve (.serve (.serve .refl ⟨?_, ?_⟩) ⟨?_, ?_⟩) ⟨?_, ?_⟩
  · intro f hf
    rw [List.mem_singleton.1 hf]
    decide
  · simp [Request.values]
  · intro f hf
    rw [List.mem_singleton.1 hf]
    decide
  · intro v hv code f hOccurs
    rw [List.mem_singleton.1 hv] at hOccurs
    exact ⟨.procedure identity, List.mem_singleton_self _, hOccurs⟩
  · simp [Request.frames]
  · intro v hv code f hOccurs
    have hEq : v = .procedure identity := by simpa [Request.values] using hv
    rw [hEq] at hOccurs
    exact ⟨.procedure identity, List.mem_singleton_self _, hOccurs⟩

/-- The history makes three frames: the root, the global frame, and that of a procedure body. A
request that fails after it, the evaluation of `()`, fails for another reason than an empty
body. -/
theorem identityHistory_is_sound :
    (initial 5).Steps identityHistory ∧ identityHistory.heap.chain 2 = [2, 1, 0] ∧
    identityHistory.heap.Path 2 [2, 1, 0] ∧ Value.procedure identity ∈ identityHistory.given ∧
    1 < identityHistory.heap.frames.size ∧ identityCode.body ≠ [] ∧
    identityHistory.heap.IsParent 1 2 ∧
    ∃ e, (identityHistory.session.serve (.evaluate 1 (.list none []))).1 = .error e ∧
      e.cause ≠ .malformedForm "empty body" := by
  obtain ⟨_, _, _, hProcedures, _, hPath, hReplies, _⟩ :=
    heap_sound_after_every_history 5 identityHistory steps_identityHistory
  have hChain : identityHistory.heap.chain 2 = [2, 1, 0] := rfl
  have hTwo : 2 < identityHistory.heap.frames.size := by decide
  have hGiven : Value.procedure identity ∈ identityHistory.given := List.mem_cons_self
  have hIdentity := hProcedures (.procedure identity) (.inl hGiven) identityCode 1 .procedure
  have hAllows : identityHistory.Allows (.evaluate 1 (.list none [])) := by
    constructor
    · intro f hf
      rw [List.mem_singleton.1 hf]
      decide
    · simp [Request.values]
  refine ⟨steps_identityHistory, hChain, hChain ▸ hPath 2 hTwo, hGiven, hIdentity.1,
    hIdentity.2.1, ⟨_, rfl, rfl⟩, ⟨.emptyCall, none⟩, rfl, ?_⟩
  exact hReplies _ hAllows _ rfl

end World

end MiniScheme
