import MiniScheme.Proofs.Confinement
import MiniScheme.Proofs.Correspondence.States
import MiniScheme.Proofs.SoundSessions

/-!
# Sessions that hold the same bindings

Two sessions hold the same bindings if their heaps are alike, up to the choice of frames and
identities. Then a command, given to both with matching frames, has the same answer, and leaves the
same bindings behind. What else there is in the heaps makes no difference: frames that nothing
leads to any more, and how many identities were given out.

## Main results

* `Session.agree_step`: a command to alike sessions.
-/

namespace MiniScheme

/-- Frames and identities are renamed, and nothing else differs. -/
def Correspondence.renaming (id : Nat → Nat → Prop)
    (id_iff : ∀ {a a' b b'}, id a a' → id b b' → (a = b ↔ a' = b')) : Correspondence :=
  { Correspondence.identity with id := id, id_iff := id_iff }

/-- Errors and reading are the same on both sides. -/
structure Correspondence.Plain (C : Correspondence) : Prop extends C.Transparent where
  place_eq : ∀ {l l'}, C.place l l' → l = l'
  even : ¬C.lenient

theorem Correspondence.renaming_plain (id : Nat → Nat → Prop)
    (id_iff : ∀ {a a' b b'}, id a a' → id b b' → (a = b ↔ a' = b')) :
    (Correspondence.renaming id id_iff).Plain :=
  ⟨⟨fun _ => rfl, fun _ => trivial⟩, fun hl => hl, fun h => h⟩

variable {C : Correspondence} {M M' : Matching}

theorem Error.alike_refl (hC : C.Transparent) (e : Error) : e.Alike C e := ⟨rfl, hC.place _⟩

theorem Heap.Alike.lt_size_iff {h h' : Heap} (hAlike : h.Alike C M h') {f f' : FrameId}
    (hM : M f f') : f < h.frames.size ↔ f' < h'.frames.size := by
  have hFrame := hAlike.frame hM
  have hNone : h.frames[f]? = none ↔ h'.frames[f']? = none := by
    generalize h.frames[f]? = x, h'.frames[f']? = x' at hFrame
    cases hFrame <;> simp
  rw [Array.getElem?_eq_none_iff, Array.getElem?_eq_none_iff] at hNone
  rw [← Nat.not_le, ← Nat.not_le, hNone]

/-- In a sound heap the bound is true for the values that may occur, too. -/
theorem Heap.Sound.bounds {h : Heap} (hSound : h.Sound) {vs : List Value}
    (hvs : ∀ v ∈ vs, h.Admits v) : h.Bounds vs :=
  ⟨hSound.bodiesWithin, fun v hv => Value.All.mono (fun _ _ hFits => hFits.within) (hvs v hv)⟩

/-! ## Commands and replies -/

/-- The command with other frames. -/
def Command.onFrames (rename : FrameId → FrameId) : Command → Command
  | .evaluateFile env content => .evaluateFile (rename env) content
  | .newChild parent => .newChild (rename parent)
  | .evalIn env source => .evalIn (rename env) source
  | .get env name => .get (rename env) name
  | .lookup env name => .lookup (rename env) name
  | .define env name source => .define (rename env) name source
  | .set env name source => .set (rename env) name source
  | .delete env name => .delete (rename env) name
  | .apply env source args => .apply (rename env) source args
  | command => command

/-- The same reply, with an alike value if there is one. -/
inductive Reply.Alike (C : Correspondence) (M : Matching) : Reply → Reply → Prop where
  | value {v v' : Value} (hv : v.Alike C M v') : Alike C M (.value v) (.value v')
  | nothing : Alike C M .nothing .nothing
  | output (text : Option String) : Alike C M (.output text) (.output text)
  | frame (position : Nat) : Alike C M (.frame position) (.frame position)
  | done : Alike C M .done .done
  | error (e : Error) : Alike C M (.error e) (.error e)

theorem Reply.alike_ofResult (hC : C.Plain) {x x' : Except Error Value}
    (h : ExceptRel (Error.Alike C) (Value.Alike C M) x x') :
    (Reply.ofResult x).Alike C M (Reply.ofResult x') := by
  cases h with
  | ok hv => exact .value hv
  | error he =>
      rw [he.eq hC.place_eq]
      exact .error _

theorem Reply.alike_ofProgram (hC : C.Plain) {x x' : Except Error (Option Value)}
    (h : ExceptRel (Error.Alike C) (Option.Rel (Value.Alike C M)) x x') :
    (Reply.ofProgram x).Alike C M (Reply.ofProgram x') := by
  cases h with
  | ok hLast =>
      cases hLast with
      | none => exact .nothing
      | some hv => exact .value hv
  | error he =>
      rw [he.eq hC.place_eq]
      exact .error _

namespace Session

open Interpreter (State)

/-! ## Alike sessions -/

/-- Sessions with matching frames, the same limit and alike machines. -/
structure Alike (C : Correspondence) (M : Matching) (s s' : Session) : Prop where
  global : M s.state.interpreter.global s'.state.interpreter.global
  limit : s.state.interpreter.limit = s'.state.interpreter.limit
  machine : s.state.machine.Alike C M s'.state.machine
  frames : List.Forall₂ M s.frames.toList s'.frames.toList

/-- The same reply, and alike sessions. -/
def Agree (C : Correspondence) (M : Matching) (r r' : Reply × Session) : Prop :=
  ∃ M', M ≤ M' ∧ r.1.Alike C M' r'.1 ∧ r.2.Alike C M' r'.2

variable {s s' : Session}

theorem Agree.weaken {r r' : Reply × Session} (hM : M ≤ M') (h : Agree C M' r r') :
    Agree C M r r' := by
  obtain ⟨M'', hM', hReply, hSession⟩ := h
  exact ⟨M'', hM.trans hM', hReply, hSession⟩

/-- The bounds of sound heaps are true ones. -/
theorem Alike.state (h : s.Alike C M s') (hs : s.state.Sound) (hs' : s'.state.Sound) :
    s.state.Alike C M s'.state :=
  ⟨h.global, h.limit, h.machine, .inr ⟨hs.heap.bodiesWithin, hs'.heap.bodiesWithin⟩⟩

theorem Alike.withState (h : s.Alike C M s') (hM : M ≤ M') {t t' : State}
    (ht : t.Alike C M' t') : (s.withState t).Alike C M' (s'.withState t') :=
  ⟨ht.global, ht.limit, ht.machine, h.frames.imp fun _ _ => hM _ _⟩

theorem Alike.withHeap (h : s.Alike C M s') (hM : M ≤ M') {g g' : Heap}
    (hg : g.Alike C M' g') : (s.withHeap g).Alike C M' (s'.withHeap g') :=
  ⟨hM _ _ h.global, h.limit, ⟨hg, h.machine.depth⟩, h.frames.imp fun _ _ => hM _ _⟩

theorem agree_same (h : s.Alike C M s') {reply reply' : Reply} (hReply : reply.Alike C M reply') :
    Agree C M (reply, s) (reply', s') :=
  ⟨M, le_refl M, hReply, h⟩

theorem agree_withHeap (h : s.Alike C M s') {reply reply' : Reply}
    (hReply : reply.Alike C M reply') {g g' : Heap} (hg : g.Alike C M g') :
    Agree C M (reply, s.withHeap g) (reply', s'.withHeap g') :=
  ⟨M, le_refl M, hReply, h.withHeap (le_refl M) hg⟩

/-- New frames that are matched get the same position. -/
theorem agree_adopt (h : s.Alike C M s') (hM : M ≤ M') {next next' : FrameId × Heap}
    (hFrame : M' next.1 next'.1) (hHeap : next.2.Alike C M' next'.2) :
    Agree C M (s.adopt next) (s'.adopt next') := by
  have hSize : s.frames.size = s'.frames.size := by
    simpa using h.frames.length_eq
  have hFrames : List.Forall₂ M' (s.frames.push next.1).toList (s'.frames.push next'.1).toList := by
    rw [Array.toList_push, Array.toList_push]
    exact List.rel_append (h.frames.imp fun _ _ => hM _ _) (.cons hFrame .nil)
  refine ⟨M', hM, ?_, hM _ _ h.global, h.limit, ⟨hHeap, h.machine.depth⟩, hFrames⟩
  show (Reply.frame s.frames.size).Alike C M' (.frame s'.frames.size)
  rw [hSize]
  exact .frame _

section Commands

variable (hC : C.Plain)
include hC

theorem agree_replying (h : s.Alike C M s') {next next' : Except Error Value × State}
    (hNext : State.Agree C M (Value.Alike C) next next') :
    Agree C M (s.replying next) (s'.replying next') := by
  obtain ⟨M', hM, hResult, hState⟩ := hNext
  exact ⟨M', hM, Reply.alike_ofResult hC hResult, h.withState hM hState⟩

/-! ## Texts -/

theorem agree_evalIn {t t' : State} (ht : t.Alike C M t') {env env' : FrameId} (hEnv : M env env')
    (source : String) :
    State.Agree C M (Value.Alike C) (t.evalIn env source) (t'.evalIn env' source) :=
  State.agree_evalRead hC.even ht hEnv (readAlike_refl hC.toTransparent _)

theorem agree_program {t t' : State} (ht : t.Alike C M t') (source : String) :
    State.Agree C M (fun M => Option.Rel (Value.Alike C M)) (t.program source)
      (t'.program source) := by
  refine State.agree_program hC.even ht rfl ?_ ?_
  · cases Expr.validate (Token.scan source) with
    | error e => exact .error (e.alike_refl hC.toTransparent)
    | ok _ => exact .ok trivial
  · exact List.forall₂_same.2 fun x _ => readAlike_refl hC.toTransparent x

theorem agree_evalFile {t t' : State} (ht : t.Alike C M t') (content : FileContent) :
    State.Agree C M (Value.Alike C) (t.evalFile content) (t'.evalFile content) := by
  unfold State.evalFile
  cases FileContent.text content with
  | error e => exact State.agree_same ht (.error (e.alike_refl hC.toTransparent))
  | ok source => exact agree_evalIn hC ht ht.global source

/-- What is shown of a program is the same. -/
theorem agree_respond {t t' : State} (ht : t.Alike C M t') (source : String) :
    (t.respond source).1 = (t'.respond source).1 ∧
      ∃ M', M ≤ M' ∧ (t.respond source).2.Alike C M' (t'.respond source).2 := by
  have hProgram := agree_program hC ht source
  unfold State.respond
  generalize t.program source = r, t'.program source = r' at hProgram
  obtain ⟨result, u⟩ := r
  obtain ⟨result', u'⟩ := r'
  obtain ⟨M', hM, hResult, hu⟩ := hProgram
  cases hResult with
  | ok hLast =>
      cases hLast with
      | none => exact ⟨rfl, M', hM, hu⟩
      | some hv =>
          refine ⟨?_, M', hM, hu⟩
          dsimp only
          rw [hv.render_eq]
  | error he =>
      refine ⟨?_, M', hM, hu⟩
      dsimp only
      rw [he.eq hC.place_eq]

/-- A value is computed, and then something is done with it. -/
theorem agree_withValue (h : s.Alike C M s') (hs : s.state.Sound) (hs' : s'.state.Sound)
    (source : String) {next next' : Value → Session → Reply × Session}
    (hNext : ∀ {M' : Matching} {v v' : Value} {t t' : Session}, M ≤ M' → v.Alike C M' v' →
      t.Alike C M' t' → Agree C M' (next v t) (next' v' t')) :
    Agree C M (s.withValue source next) (s'.withValue source next') := by
  have hState := h.state hs hs'
  have hEval : State.Agree C M (Value.Alike C) (s.state.eval source) (s'.state.eval source) :=
    agree_evalIn hC hState hState.global source
  unfold withValue
  generalize s.state.eval source = r, s'.state.eval source = r' at hEval
  obtain ⟨result, t⟩ := r
  obtain ⟨result', t'⟩ := r'
  obtain ⟨M', hM, hResult, ht⟩ := hEval
  cases hResult with
  | ok hv => exact (hNext hM hv (h.withState hM ht)).weaken hM
  | error he =>
      rw [he.eq hC.place_eq]
      exact ⟨M', hM, .error _, h.withState hM ht⟩

/-! ## Applications -/

theorem agree_evalEach (sources : List String) :
    ∀ {M : Matching} {t t' : State} {env env' : FrameId}, t.Alike C M t' → M env env' →
      State.Agree C M (Value.AllAlike C) (evalEach t env sources) (evalEach t' env' sources) := by
  induction sources with
  | nil =>
      intro M t t' env env' ht _
      exact State.agree_same ht (.ok .nil)
  | cons source sources ih =>
      intro M t t' env env' ht hEnv
      have hFirst := agree_evalIn hC ht hEnv source
      unfold evalEach
      generalize t.evalIn env source = r, t'.evalIn env' source = r' at hFirst
      obtain ⟨result, u⟩ := r
      obtain ⟨result', u'⟩ := r'
      obtain ⟨M₁, hM₁, hResult, hu⟩ := hFirst
      cases hResult with
      | error he => exact ⟨M₁, hM₁, .error he, hu⟩
      | ok hv =>
          have hRest := ih hu (hM₁ _ _ hEnv)
          dsimp only
          generalize evalEach u env sources = r, evalEach u' env' sources = r' at hRest
          obtain ⟨results, w⟩ := r
          obtain ⟨results', w'⟩ := r'
          obtain ⟨M₂, hM₂, hResults, hw⟩ := hRest
          cases hResults with
          | error he => exact ⟨M₂, hM₁.trans hM₂, .error he, hw⟩
          | ok hvs => exact ⟨M₂, hM₁.trans hM₂, .ok (.cons (hv.mono hM₂) hvs), hw⟩

omit hC in
/-- Where an application starts from, the heap's bound is true for procedure and arguments. -/
theorem bounds_of_evalEach {t u w : State} {env : FrameId} (ht : t.Sound)
    (hEnv : env < t.heap.frames.size) {source : String} {args : List String} {v : Value}
    {vs : List Value} (hFirst : t.evalIn env source = (.ok v, u))
    (hRest : evalEach u env args = (.ok vs, w)) : w.heap.Bounds (v :: vs) := by
  have hYields := State.yields_evalIn ht hEnv source
  have hSound := hYields.sound ht
  rw [hFirst] at hYields hSound
  have hYields' := yields_evalEach args hSound (hYields.heap.extension.lt_size hEnv)
  have hSound' := hYields'.sound hSound
  rw [hRest] at hYields' hSound'
  refine hSound'.heap.bounds fun x hx => ?_
  rcases List.mem_cons.1 hx with rfl | hx
  · exact (hYields.heap.ok x rfl).extend hYields'.heap.extension
  · exact hYields'.heap.ok vs rfl x hx

theorem agree_applyIn {t t' : State} (h : t.Alike C M t') (ht : t.Sound) (ht' : t'.Sound)
    {env env' : FrameId} (hEnv : M env env') (hLt : env < t.heap.frames.size) (source : String)
    (args : List String) :
    State.Agree C M (Value.Alike C) (applyIn t env source args) (applyIn t' env' source args) := by
  have hLt' : env' < t'.heap.frames.size := (h.machine.heap.lt_size_iff hEnv).1 hLt
  have hFirst := agree_evalIn hC h hEnv source
  unfold applyIn
  generalize hr : t.evalIn env source = r, hr' : t'.evalIn env' source = r' at hFirst
  obtain ⟨result, u⟩ := r
  obtain ⟨result', u'⟩ := r'
  obtain ⟨M₁, hM₁, hResult, hu⟩ := hFirst
  cases hResult with
  | error he => exact ⟨M₁, hM₁, .error he, hu⟩
  | @ok v v' hv =>
      have hRest := agree_evalEach hC args hu (hM₁ _ _ hEnv)
      dsimp only
      generalize hq : evalEach u env args = q, hq' : evalEach u' env' args = q' at hRest
      obtain ⟨results, w⟩ := q
      obtain ⟨results', w'⟩ := q'
      obtain ⟨M₂, hM₂, hResults, hw⟩ := hRest
      have hM := hM₁.trans hM₂
      cases hResults with
      | error he => exact ⟨M₂, hM, .error he, hw⟩
      | @ok vs vs' hvs =>
          have hBounds := bounds_of_evalEach ht hLt hr hq
          have hBounds' := bounds_of_evalEach ht' hLt' hr' hq'
          have hValue := hv.mono hM₂
          cases hv with
          | procedure hp =>
              exact (State.agree_apply hC.even hw (hp.mono hM₂) hvs
                (.inr ⟨hBounds, hBounds'⟩)).weaken hM
          | _ => exact ⟨M₂, hM, .ok hValue, hw⟩

/-! ## Definitions -/

theorem agree_assign (h : s.Alike C M s') {env env' : FrameId} (hEnv : M env env') (name : String)
    {v v' : Value} (hv : v.Alike C M v') :
    Agree C M (s.assign env name v) (s'.assign env' name v') := by
  have hSet : ExceptRel Eq (Heap.Alike C M) (s.state.heap.set env name v)
      (s'.state.heap.set env' name v') := h.machine.heap.set hEnv (hC.name name) hv
  unfold assign
  generalize s.state.heap.set env name v = x, s'.state.heap.set env' name v' = x' at hSet
  cases hSet with
  | ok hHeap => exact agree_withHeap h .done hHeap
  | error hCause =>
      rw [hCause]
      exact agree_same h (.error _)

theorem agree_delete (h : s.Alike C M s') {env env' : FrameId} (hEnv : M env env')
    (name : String) :
    Agree C M (s.step (.delete env name)) (s'.step (.delete env' name)) := by
  have hDelete : ExceptRel Eq (fun r r' => r.1.Alike C M r'.1 ∧ r.2.Alike C M r'.2)
      (s.state.heap.delete env name) (s'.state.heap.delete env' name) :=
    h.machine.heap.delete hEnv (hC.name name)
  simp only [step]
  generalize s.state.heap.delete env name = x, s'.state.heap.delete env' name = x' at hDelete
  cases hDelete with
  | @ok r r' hr =>
      obtain ⟨v, g⟩ := r
      obtain ⟨v', g'⟩ := r'
      exact agree_withHeap h (.value hr.1) hr.2
  | error hCause =>
      rw [hCause]
      exact agree_same h (.error _)

theorem agree_get (h : s.Alike C M s') {env env' : FrameId} (hEnv : M env env') (name : String) :
    Agree C M (s.step (.get env name)) (s'.step (.get env' name)) := by
  have hGet : Option.Rel (Value.Alike C M) (s.state.heap.get? env name)
      (s'.state.heap.get? env' name) := h.machine.heap.get? hEnv (hC.name name)
  simp only [step]
  generalize s.state.heap.get? env name = x, s'.state.heap.get? env' name = x' at hGet
  cases hGet with
  | none => exact agree_same h .nothing
  | some hv => exact agree_same h (.value hv)

theorem agree_lookup (h : s.Alike C M s') {env env' : FrameId} (hEnv : M env env')
    (name : String) :
    Agree C M (s.step (.lookup env name)) (s'.step (.lookup env' name)) := by
  have hLookup : ExceptRel Eq (Value.Alike C M) (s.state.heap.lookup env name)
      (s'.state.heap.lookup env' name) := h.machine.heap.lookup hEnv (hC.name name)
  simp only [step]
  generalize s.state.heap.lookup env name = x, s'.state.heap.lookup env' name = x' at hLookup
  cases hLookup with
  | ok hv => exact agree_same h (.value hv)
  | error hCause =>
      rw [hCause]
      exact agree_same h (.error _)

/-- A command, with matching frames, has the same answer in alike sessions, and leaves them
alike. -/
theorem agree_step (h : s.Alike C M s') (hs : s.state.Sound) (hs' : s'.state.Sound)
    (c : Command) (rename : FrameId → FrameId) (hc : ∀ f ∈ c.frames, M f (rename f))
    (hFrames : ∀ f ∈ c.frames, f < s.state.heap.frames.size) :
    Agree C M (s.step c) (s'.step (c.onFrames rename)) := by
  have hState := h.state hs hs'
  cases c with
  | eval source => exact agree_replying hC h (agree_evalIn hC hState hState.global source)
  | program source =>
      obtain ⟨M', hM, hResult, hAfter⟩ := agree_program hC hState source
      exact ⟨M', hM, Reply.alike_ofProgram hC hResult, h.withState hM hAfter⟩
  | input source =>
      obtain ⟨hText, M', hM, hAfter⟩ := agree_respond hC hState source
      refine ⟨M', hM, ?_, h.withState hM hAfter⟩
      show (Reply.output (s.state.respond source).1).Alike C M' (.output _)
      rw [hText]
      exact .output _
  | file content => exact agree_replying hC h (agree_evalFile hC hState content)
  | evaluateFile env content =>
      have hEnv := hc env (by simp [Command.frames])
      have hOwn : State.Alike C M ⟨.ofFrame env defaultLimit, s.state.heap⟩
          ⟨.ofFrame (rename env) defaultLimit, s'.state.heap⟩ :=
        ⟨hEnv, rfl, ⟨h.machine.heap, .inl rfl⟩, hState.bounds⟩
      obtain ⟨M', hM, hResult, hAfter⟩ := agree_evalFile hC hOwn content
      exact ⟨M', hM, Reply.alike_ofResult hC hResult, h.withHeap hM hAfter.machine.heap⟩
  | newRoot =>
      exact agree_adopt h (Heap.le_withPair _ _ _) (.inr ⟨rfl, rfl⟩) h.machine.heap.newRoot
  | newGlobal =>
      have hRoot := h.machine.heap.newRoot
      exact agree_adopt h ((Heap.le_withPair _ _ _).trans (Heap.le_withPair _ _ _))
        (.inr ⟨rfl, rfl⟩) (hRoot.newChild (.inr ⟨rfl, rfl⟩))
  | newChild parent =>
      have hParent := hc parent (by simp [Command.frames])
      exact agree_adopt h (Heap.le_withPair _ _ _) (.inr ⟨rfl, rfl⟩)
        (h.machine.heap.newChild hParent)
  | evalIn env source =>
      have hEnv := hc env (by simp [Command.frames])
      exact agree_replying hC h (agree_evalIn hC hState hEnv source)
  | get env name => exact agree_get hC h (hc env (by simp [Command.frames])) name
  | lookup env name => exact agree_lookup hC h (hc env (by simp [Command.frames])) name
  | define env name source =>
      have hEnv := hc env (by simp [Command.frames])
      refine agree_withValue hC h hs hs' source fun hM hv ht => ?_
      exact agree_withHeap ht .done (ht.machine.heap.define (hM _ _ hEnv) name hv)
  | set env name source =>
      have hEnv := hc env (by simp [Command.frames])
      refine agree_withValue hC h hs hs' source fun hM hv ht => ?_
      exact agree_assign hC ht (hM _ _ hEnv) name hv
  | delete env name => exact agree_delete hC h (hc env (by simp [Command.frames])) name
  | apply env source args =>
      have hEnv := hc env (by simp [Command.frames])
      have hLt := hFrames env (by simp [Command.frames])
      exact agree_replying hC h (agree_applyIn hC hState hs hs' hEnv hLt source args)

end Commands

end Session

end MiniScheme
