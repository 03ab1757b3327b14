import MiniScheme.Interpreter

/-!
# Sessions

A session is an interpreter and a list of frames that can be referred to by their position; the
first one is the interpreter's global frame. A command does one thing to the session and gives
one reply. An error is a reply like any other: the session goes on.
-/

namespace MiniScheme

/-- An interpreter's state and the frames that have a position. -/
structure Session where
  state : Interpreter.State
  frames : Array FrameId

/-- What can be asked of a session. Frames are given as such, not by their position. -/
inductive Command where
  /-- Evaluate the first expression of a text. -/
  | eval (source : String)
  /-- Evaluate all forms of a text. -/
  | program (source : String)
  /-- Evaluate one input of an interactive session. -/
  | input (source : String)
  /-- Evaluate the first expression of a file. -/
  | file (content : FileContent)
  /-- Evaluate the first expression of a file in a frame, with an interpreter of its own. -/
  | evaluateFile (env : FrameId) (content : FileContent)
  /-- Make a frame with the built-in procedures. -/
  | newRoot
  /-- Make an empty frame below a new root. -/
  | newGlobal
  /-- Make an empty frame below a given one. -/
  | newChild (parent : FrameId)
  /-- Evaluate the first expression of a text in a frame. -/
  | evalIn (env : FrameId) (source : String)
  /-- The value of a name, if it has one. -/
  | get (env : FrameId) (name : String)
  /-- The value of a name. -/
  | lookup (env : FrameId) (name : String)
  /-- Bind a name in a frame to the global value of a text. -/
  | define (env : FrameId) (name source : String)
  /-- Give a name that is bound a new value, the global value of a text. -/
  | set (env : FrameId) (name source : String)
  /-- Remove a definition of a frame. -/
  | delete (env : FrameId) (name : String)
  /-- Apply the value of a text to the values of others, all evaluated in a frame. -/
  | apply (env : FrameId) (source : String) (args : List String)

/-- What a command answers. -/
inductive Reply where
  | value (value : Value)
  | nothing
  | output (text : Option String)
  | frame (position : Nat)
  | done
  | error (error : Error)

namespace Reply

/-- The reply to an evaluation. -/
def ofResult : Except Error Value → Reply
  | .ok v => .value v
  | .error e => .error e

/-- The reply to a program, which may have no value. -/
def ofProgram : Except Error (Option Value) → Reply
  | .ok (some v) => .value v
  | .ok none => .nothing
  | .error e => .error e

end Reply

namespace Session

open Interpreter (State)

/-- A session with a new interpreter. -/
def initial (limit : Nat) : Session :=
  let state := State.initial limit
  ⟨state, #[state.interpreter.global]⟩

/-- The session with another interpreter state. -/
def withState (s : Session) (state : State) : Session := { s with state }

/-- The session with another heap. -/
def withHeap (s : Session) (heap : Heap) : Session := { s with state := { s.state with heap } }

/-- A session whose interpreter has just produced a reply. -/
def replying (s : Session) (next : Except Error Value × State) : Reply × Session :=
  (.ofResult next.1, s.withState next.2)

/-- Gives a new frame the next position. -/
def adopt (s : Session) (next : FrameId × Heap) : Reply × Session :=
  (.frame s.frames.size, { s.withHeap next.2 with frames := s.frames.push next.1 })

/-- The values of several texts, evaluated in a frame from left to right. -/
def evalEach (state : State) (env : FrameId) : List String → Except Error (List Value) × State
  | [] => (.ok [], state)
  | source :: sources =>
      match state.evalIn env source with
      | (.error e, state) => (.error e, state)
      | (.ok v, state) =>
          match evalEach state env sources with
          | (.error e, state) => (.error e, state)
          | (.ok vs, state) => (.ok (v :: vs), state)

/-- Evaluates a text and the texts of its arguments and applies the first value to the others; a
value that is not a procedure is left as it is. -/
def applyIn (state : State) (env : FrameId) (source : String) (args : List String) :
    Except Error Value × State :=
  match state.evalIn env source with
  | (.error e, state) => (.error e, state)
  | (.ok v, state) =>
      match evalEach state env args with
      | (.error e, state) => (.error e, state)
      | (.ok vs, state) =>
          match v with
          | .procedure p => state.apply p vs
          | v => (.ok v, state)

/-- Evaluates a text in the global frame and goes on with its value. -/
def withValue (s : Session) (source : String) (next : Value → Session → Reply × Session) :
    Reply × Session :=
  match s.state.eval source with
  | (.error e, state) => (.error e, s.withState state)
  | (.ok v, state) => next v (s.withState state)

/-- Carries out a command. -/
def step (s : Session) : Command → Reply × Session
  | .eval source => s.replying (s.state.eval source)
  | .program source =>
      let next := s.state.program source
      (.ofProgram next.1, s.withState next.2)
  | .input source =>
      let next := s.state.respond source
      (.output next.1, s.withState next.2)
  | .file content => s.replying (s.state.evalFile content)
  | .evaluateFile env content =>
      let next := Interpreter.evaluateFile s.state.heap env content
      (.ofResult next.1, s.withHeap next.2)
  | .newRoot => s.adopt s.state.heap.newRoot
  | .newGlobal => s.adopt s.state.heap.newGlobal
  | .newChild parent => s.adopt (s.state.heap.newChild parent)
  | .evalIn env source => s.replying (s.state.evalIn env source)
  | .get env name =>
      match s.state.heap.get? env name with
      | some v => (.value v, s)
      | none => (.nothing, s)
  | .lookup env name =>
      (.ofResult ((s.state.heap.lookup env name).mapError Error.bare), s)
  | .define env name source =>
      s.withValue source fun v s => (.done, s.withHeap (s.state.heap.define env name v))
  | .set env name source =>
      s.withValue source fun v s =>
        match s.state.heap.set env name v with
        | .ok heap => (.done, s.withHeap heap)
        | .error cause => (.error (.bare cause), s)
  | .delete env name =>
      match s.state.heap.delete env name with
      | .ok (v, heap) => (.value v, s.withHeap heap)
      | .error cause => (.error (.bare cause), s)
  | .apply env source args => s.replying (applyIn s.state env source args)

end Session

end MiniScheme
