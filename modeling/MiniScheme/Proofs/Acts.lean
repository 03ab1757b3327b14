import MiniScheme.Proofs.Histories
import MiniScheme.Proofs.Ledger

/-!
# Histories, act by act

Whatever a caller asks for, what happens to the heap is always one of a few things: an expression
is evaluated or a procedure applied, a name is bound, looked for or unbound, a frame is made. These
are the acts (`Act`), and every request is a sequence of them (`Session.acts_serve`). What each act
keeps is therefore kept by every history.

It is used here for identities. For these, more is assumed of the values that a request hands over
than for the soundness of a heap (`World.Permits`): not only the procedures but also the pairs in
them were handed out before. Pairs that the caller has built are left out, because the session does
not know of their identities and would give them out a second time. Along a history of such requests
there is a ledger in which everything is entered, what was handed out included.

## Main results

* `Session.acts_serve`: a request is a sequence of acts.
* `World.Traces.standing`: every history of that kind keeps all identities accounted for.
* `World.Traces.sound_numbered`: what that means for the heap.
-/

namespace MiniScheme

/-! ## Acts -/

/-- A heap, and the values that are at hand beside it. -/
structure Scene where
  heap : Heap
  values : List Value

/-- One thing that is done to a heap. -/
inductive Act : Scene → Scene → Prop where
  | evaluate {h : Heap} {vs : List Value} {env : FrameId} (hEnv : env < h.frames.size) (e : Expr)
      (limit depth : Nat) :
      Act ⟨h, vs⟩ ⟨(Eval.evaluate limit env e ⟨h, depth⟩).2.heap,
        (Reply.ofResult (Eval.evaluate limit env e ⟨h, depth⟩).1).values ++ vs⟩
  | apply {h : Heap} {vs : List Value} {p : Procedure} {args : List Value}
      (hValues : ∀ v ∈ Value.procedure p :: args, v ∈ vs) (limit depth : Nat) :
      Act ⟨h, vs⟩ ⟨(Eval.apply limit p args ⟨h, depth⟩).2.heap,
        (Reply.ofResult (Eval.apply limit p args ⟨h, depth⟩).1).values ++ vs⟩
  | define {h : Heap} {vs : List Value} {v : Value} (hv : v ∈ vs) (f : FrameId) (name : String) :
      Act ⟨h, vs⟩ ⟨h.define f name v, vs⟩
  | erase {h : Heap} {vs : List Value} (f : FrameId) (name : String) :
      Act ⟨h, vs⟩ ⟨h.alter f fun bindings => bindings.erase name, vs⟩
  | look {h : Heap} {vs : List Value} {f : FrameId} {frame : Frame} {name : String} {v : Value}
      (hFrame : h.frames[f]? = some frame) (hv : frame.get? name = some v) :
      Act ⟨h, vs⟩ ⟨h, v :: vs⟩
  | newRoot {h : Heap} {vs : List Value} : Act ⟨h, vs⟩ ⟨h.newRoot.2, vs⟩
  | newChild {h : Heap} {vs : List Value} {parent : FrameId} (hParent : parent < h.frames.size) :
      Act ⟨h, vs⟩ ⟨(h.newChild parent).2, vs⟩
  /-- Values are put aside. -/
  | forget {h : Heap} {vs vs' : List Value} (hSubset : ∀ v ∈ vs', v ∈ vs) : Act ⟨h, vs⟩ ⟨h, vs'⟩

/-- Acts lead from one scene to another. -/
abbrev Acts : Scene → Scene → Prop := Relation.ReflTransGen Act

/-! ## The interpreter -/

namespace Interpreter.State

variable {s : State}

theorem acts_evalRead {env : FrameId} (hEnv : env < s.heap.frames.size) (x : Except Error Expr)
    (vs : List Value) :
    Acts ⟨s.heap, vs⟩ ⟨(s.evalRead env x).2.heap,
      (Reply.ofResult (s.evalRead env x).1).values ++ vs⟩ := by
  cases x with
  | error e => exact .refl
  | ok e => exact .single (.evaluate hEnv e s.interpreter.limit s.interpreter.depth)

theorem acts_evalForms (items : List (Except Error Expr)) (hItems : ∀ x ∈ items, Legible x) :
    ∀ (s : State) (last : Option Value) (vs : List Value), s.Sound →
      (∀ v, last = some v → v ∈ vs) →
      Acts ⟨s.heap, vs⟩ ⟨(s.evalForms last items).2.heap,
        (Reply.ofProgram (s.evalForms last items).1).values ++ vs⟩ := by
  induction items with
  | nil =>
      intro s last vs _ hLast
      cases last with
      | none => exact .refl
      | some v =>
          refine .single (.forget fun w hw => ?_)
          rcases List.mem_cons.1 hw with rfl | hw
          · exact hLast w rfl
          · exact hw
  | cons x items ih =>
      intro s last vs hs _
      have hFirst := acts_evalRead hs.global_lt x vs
      have hSound := (yields_evalRead hs hs.global_lt (hItems x (by simp))).sound hs
      cases hRead : s.evalRead s.interpreter.global x with
      | mk result s' =>
          rw [hRead] at hFirst hSound
          simp only [evalForms, hRead]
          cases result with
          | error e => exact hFirst
          | ok v =>
              refine hFirst.trans ((ih (fun y hy => hItems y (by simp [hy])) s' (some v) (v :: vs)
                hSound fun w hw => ?_).trans (.single (.forget fun w hw => ?_)))
              · cases hw
                exact List.mem_cons_self
              · simp only [List.mem_append, List.mem_cons] at hw ⊢
                tauto

theorem acts_program (hs : s.Sound) (source : String) (vs : List Value) :
    Acts ⟨s.heap, vs⟩ ⟨(s.program source).2.heap,
      (Reply.ofProgram (s.program source).1).values ++ vs⟩ := by
  unfold program
  dsimp only
  split
  · exact .refl
  · split
    · exact .refl
    · exact acts_evalForms _ (fun _ => Expr.legible_of_mem_forms) s none vs hs nofun

theorem acts_evalFile (hs : s.Sound) (content : FileContent) (vs : List Value) :
    Acts ⟨s.heap, vs⟩ ⟨(s.evalFile content).2.heap,
      (Reply.ofResult (s.evalFile content).1).values ++ vs⟩ := by
  unfold evalFile
  split
  · exact .refl
  · exact acts_evalRead hs.global_lt _ vs

end Interpreter.State

/-! ## Sessions -/

namespace Session

open Interpreter (State)

variable {s : Session} {vs : List Value}

theorem acts_evalEach (sources : List String) :
    ∀ {state : State} {env : FrameId} (vs : List Value), state.Sound →
      env < state.heap.frames.size →
      Acts ⟨state.heap, vs⟩ ⟨(evalEach state env sources).2.heap,
        (evalEach state env sources).1.toOption.getD [] ++ vs⟩ := by
  induction sources with
  | nil => exact fun _ _ _ => .refl
  | cons source sources ih =>
      intro state env vs hs hEnv
      have hFirst := State.acts_evalRead hEnv (Expr.ofSource source) vs
      have hYields := State.yields_evalIn hs hEnv source
      unfold evalEach State.evalIn
      unfold State.evalIn at hYields
      cases hEval : state.evalRead env (Expr.ofSource source) with
      | mk result state₁ =>
          rw [hEval] at hFirst hYields
          cases result with
          | error e => exact hFirst
          | ok v =>
              have hRest := ih (v :: vs) (hYields.sound hs)
                (hYields.heap.extension.lt_size hEnv)
              cases hEach : evalEach state₁ env sources with
              | mk results state₂ =>
                  simp only [hEach]
                  rw [hEach] at hRest
                  refine hFirst.trans (hRest.trans ?_)
                  cases results with
                  | error e => exact .single (.forget fun w hw => List.mem_cons_of_mem v hw)
                  | ok ws =>
                      refine .single (.forget fun w hw => ?_)
                      simp only [Except.toOption, Option.getD_some, List.mem_append,
                        List.mem_cons] at hw ⊢
                      tauto

theorem acts_applyIn {state : State} (hs : state.Sound) {env : FrameId}
    (hEnv : env < state.heap.frames.size) (source : String) (args : List String)
    (vs : List Value) :
    Acts ⟨state.heap, vs⟩ ⟨(applyIn state env source args).2.heap,
      (Reply.ofResult (applyIn state env source args).1).values ++ vs⟩ := by
  have hFirst := State.acts_evalRead hEnv (Expr.ofSource source) vs
  have hYields := State.yields_evalIn hs hEnv source
  unfold applyIn State.evalIn
  unfold State.evalIn at hYields
  cases hEval : state.evalRead env (Expr.ofSource source) with
  | mk result state₁ =>
      rw [hEval] at hFirst hYields
      cases result with
      | error e => exact hFirst
      | ok v =>
          have hRest := acts_evalEach args (v :: vs) (hYields.sound hs)
            (hYields.heap.extension.lt_size hEnv)
          cases hEach : evalEach state₁ env args with
          | mk results state₂ =>
              simp only [hEach]
              rw [hEach] at hRest
              refine hFirst.trans (hRest.trans ?_)
              cases results with
              | error e => exact .single (.forget fun w hw => List.mem_cons_of_mem v hw)
              | ok ws =>
                  cases v with
                  | procedure p =>
                      have hValues : ∀ w ∈ Value.procedure p :: ws,
                          w ∈ ws ++ Value.procedure p :: vs := by
                        intro w hw
                        simp only [List.mem_append, List.mem_cons] at hw ⊢
                        tauto
                      refine .head (.apply hValues state₂.interpreter.limit
                        state₂.interpreter.depth) (.single (.forget fun w hw => ?_))
                      simp only [List.mem_append, List.mem_cons] at hw ⊢
                      exact hw.imp id fun hw => .inr (.inr hw)
                  | _ =>
                      refine .single (.forget fun w hw => ?_)
                      simp only [Reply.ofResult, Reply.values, List.mem_append, List.mem_cons]
                        at hw ⊢
                      tauto

theorem acts_adopt {next : FrameId × Heap} (h : Acts ⟨s.state.heap, vs⟩ ⟨next.2, vs⟩) :
    Acts ⟨s.state.heap, vs⟩ ⟨(s.adopt next).2.state.heap, (s.adopt next).1.values ++ vs⟩ := h

theorem acts_assign (env : FrameId) (name : String) {v : Value} (hv : v ∈ vs) :
    Acts ⟨s.state.heap, vs⟩
      ⟨(s.assign env name v).2.state.heap, (s.assign env name v).1.values ++ vs⟩ := by
  unfold assign Heap.set
  cases s.state.heap.home? env name with
  | none => exact .refl
  | some g => exact .single (.define hv g name)

/-- A value is computed, and then something is done with it. -/
theorem acts_withValue (hs : s.state.Sound) (source : String)
    {next : Value → Session → Reply × Session}
    (hNext : ∀ (v : Value) (s' : Session), Acts ⟨s'.state.heap, v :: vs⟩
      ⟨(next v s').2.state.heap, (next v s').1.values ++ v :: vs⟩) :
    Acts ⟨s.state.heap, vs⟩ ⟨(s.withValue source next).2.state.heap,
      (s.withValue source next).1.values ++ vs⟩ := by
  have hFirst := State.acts_evalRead hs.global_lt (Expr.ofSource source) vs
  unfold withValue State.eval State.evalIn
  cases hEval : s.state.evalRead s.state.interpreter.global (Expr.ofSource source) with
  | mk result state =>
      rw [hEval] at hFirst
      cases result with
      | error e => exact hFirst
      | ok v =>
          refine hFirst.trans ((hNext v (s.withState state)).trans
            (.single (.forget fun w hw => ?_)))
          simp only [List.mem_append, List.mem_cons] at hw ⊢
          tauto

/-- The value of a name is found in some frame. -/
theorem acts_of_get? {h : Heap} {env : FrameId} {name : String} {v : Value}
    (hGet : h.get? env name = some v) : Acts ⟨h, vs⟩ ⟨h, v :: vs⟩ := by
  obtain ⟨g, _, hLocal⟩ := Option.bind_eq_some_iff.1 hGet
  obtain ⟨frame, hFrame, hv⟩ := Option.bind_eq_some_iff.1 hLocal
  exact .single (.look hFrame hv)

theorem acts_get (env : FrameId) (name : String) :
    Acts ⟨s.state.heap, vs⟩ ⟨(s.step (.get env name)).2.state.heap,
      (s.step (.get env name)).1.values ++ vs⟩ := by
  cases hGet : s.state.heap.get? env name with
  | none =>
      simp only [step, hGet]
      exact .refl
  | some v =>
      simp only [step, hGet]
      exact acts_of_get? hGet

theorem acts_lookup (env : FrameId) (name : String) :
    Acts ⟨s.state.heap, vs⟩ ⟨(s.step (.lookup env name)).2.state.heap,
      (s.step (.lookup env name)).1.values ++ vs⟩ := by
  cases hGet : s.state.heap.get? env name with
  | none =>
      simp only [step, Heap.lookup, hGet]
      exact .refl
  | some v =>
      simp only [step, Heap.lookup, hGet]
      exact acts_of_get? hGet

theorem acts_delete (env : FrameId) (name : String) :
    Acts ⟨s.state.heap, vs⟩ ⟨(s.step (.delete env name)).2.state.heap,
      (s.step (.delete env name)).1.values ++ vs⟩ := by
  cases hDelete : s.state.heap.delete env name with
  | error cause =>
      simp only [step, hDelete]
      exact .refl
  | ok result =>
      obtain ⟨v, h⟩ := result
      simp only [step, hDelete]
      obtain ⟨⟨frame, hFrame, hv⟩, rfl⟩ := Heap.delete_eq_ok hDelete
      have hGet : frame.get? name = some v := by rw [Frame.get?, hv]
      exact .head (.look hFrame hGet) (.single (.erase env name))

/-- Every command that names frames that exist. -/
theorem acts_step (hs : s.state.Sound) {c : Command}
    (hFrames : ∀ f ∈ c.frames, f < s.state.heap.frames.size) :
    Acts ⟨s.state.heap, vs⟩ ⟨(s.step c).2.state.heap, (s.step c).1.values ++ vs⟩ := by
  cases c with
  | eval source => exact State.acts_evalRead hs.global_lt (Expr.ofSource source) vs
  | program source => exact State.acts_program hs source vs
  | input source =>
      refine (State.acts_program hs source vs).trans (.single ?_)
      have hHeap : (s.step (.input source)).2.state.heap = (s.state.program source).2.heap :=
        congrArg State.heap (s.state.snd_respond source)
      rw [hHeap]
      exact .forget fun v hv => List.mem_append_right _ hv
  | file content => exact State.acts_evalFile hs content vs
  | evaluateFile env content =>
      have hEnv := hFrames env (by simp [Command.frames])
      exact State.acts_evalFile (s := ⟨.ofFrame env defaultLimit, s.state.heap⟩)
        ⟨hs.heap, hEnv⟩ content vs
  | newRoot => exact acts_adopt (.single .newRoot)
  | newGlobal =>
      exact acts_adopt (.head .newRoot (.single (.newChild (Heap.lt_size_push _ _))))
  | newChild parent =>
      have hParent := hFrames parent (by simp [Command.frames])
      exact acts_adopt (.single (.newChild hParent))
  | evalIn env source =>
      exact State.acts_evalRead (hFrames env (by simp [Command.frames])) (Expr.ofSource source) vs
  | get env name => exact acts_get env name
  | lookup env name => exact acts_lookup env name
  | define env name source =>
      exact acts_withValue hs source fun v s' =>
        .single (.define List.mem_cons_self env name)
  | set env name source =>
      exact acts_withValue hs source fun v s' =>
        acts_assign (s := s') env name List.mem_cons_self
  | delete env name => exact acts_delete env name
  | apply env source args =>
      exact acts_applyIn hs (hFrames env (by simp [Command.frames])) source args vs

/-- Every request that names frames that exist, with the values at hand that it hands over. -/
theorem acts_serve (hs : s.state.Sound) {r : Request}
    (hFrames : ∀ f ∈ r.frames, f < s.state.heap.frames.size) (hValues : ∀ v ∈ r.values, v ∈ vs) :
    Acts ⟨s.state.heap, vs⟩ ⟨(s.serve r).2.state.heap, (s.serve r).1.values ++ vs⟩ := by
  cases r with
  | command c => exact acts_step hs hFrames
  | evaluate env e =>
      exact .single (.evaluate (hFrames env (by simp [Request.frames])) e
        s.state.interpreter.limit s.state.interpreter.depth)
  | apply p args =>
      exact .single (.apply hValues s.state.interpreter.limit s.state.interpreter.depth)
  | define env name v => exact .single (.define (hValues v (by simp [Request.values])) env name)
  | set env name v => exact acts_assign env name (hValues v (by simp [Request.values]))

end Session

/-! ## Identities -/

/-- The heap is sound and the values may occur, and all of them are entered. -/
structure Scene.Standing (σ : Ledger) (x : Scene) : Prop where
  sound : x.heap.Sound
  admits : ∀ v ∈ x.values, x.heap.Admits v
  heap : x.heap.Entered σ
  values : ∀ v ∈ x.values, v.Entered σ

namespace Scene.Standing

variable {σ : Ledger} {x y : Scene}

/-- What an evaluation or an application leaves behind. -/
theorem of_outcome {h : Heap} {vs : List Value} (hx : Standing σ ⟨h, vs⟩)
    {result : Except Error Value} {h' : Heap} (hYields : h.Yields Heap.Admits result h')
    (hEntered : ∃ σ' : Ledger, σ.Grows σ' ∧ h'.Entered σ' ∧ ∀ v, result = .ok v → v.Entered σ') :
    ∃ σ' : Ledger, σ.Grows σ' ∧ Standing σ' ⟨h', (Reply.ofResult result).values ++ vs⟩ := by
  obtain ⟨σ', hGrows, hHeap, hResult⟩ := hEntered
  have hValue : ∀ v ∈ (Reply.ofResult result).values, result = .ok v := by
    intro v hv
    cases result with
    | ok w =>
        rw [List.mem_singleton.1 hv]
    | error e => cases hv
  refine ⟨σ', hGrows, hYields.sound, fun v hv => ?_, hHeap, fun v hv => ?_⟩
  · rcases List.mem_append.1 hv with hv | hv
    · exact hYields.ok v (hValue v hv)
    · exact (hx.admits v hv).extend hYields.extension
  · rcases List.mem_append.1 hv with hv | hv
    · exact hResult v (hValue v hv)
    · exact (hx.values v hv).grow hGrows

/-- One act keeps everything entered, in a ledger that may have grown. -/
theorem act (hx : x.Standing σ) (h : Act x y) : ∃ σ' : Ledger, σ.Grows σ' ∧ y.Standing σ' := by
  have hAdmits : ∀ {h' : Heap}, x.heap.Extends h' → ∀ v ∈ x.values, h'.Admits v :=
    fun hExtends v hv => (hx.admits v hv).extend hExtends
  cases h with
  | @evaluate h vs env hEnv e limit depth =>
      exact hx.of_outcome (hx.sound.yields_evaluate (m := ⟨h, depth⟩) limit hEnv e)
        (Eval.entered_evaluate (m := ⟨h, depth⟩) limit env e hx.heap hx.sound.bodiesWithin)
  | @apply h vs p args hValues limit depth =>
      have hAdmitted : ∀ v ∈ Value.procedure p :: args, h.Admits v :=
        fun v hv => hx.admits v (hValues v hv)
      obtain ⟨hp, hArgs⟩ := List.forall_mem_cons.1 hAdmitted
      have hBounds : h.Bounds (.procedure p :: args) :=
        ⟨hx.sound.bodiesWithin, fun v hv =>
          Value.All.mono (fun _ _ hFits => hFits.within) (hAdmitted v hv)⟩
      exact hx.of_outcome (hx.sound.yields_apply (m := ⟨h, depth⟩) limit hp hArgs)
        (Eval.entered_apply (m := ⟨h, depth⟩) limit hx.heap hBounds
          fun v hv => hx.values v (hValues v hv))
  | @define h vs v hv f name =>
      exact ⟨σ, .refl σ, hx.sound.define f name (hx.admits v hv),
        hAdmits (h.extends_define f name v), hx.heap.define f name (hx.values v hv), hx.values⟩
  | @erase h vs f name =>
      exact ⟨σ, .refl σ, Regime.Holds.erase hx.sound f name,
        hAdmits (h.extends_alter f fun bindings => bindings.erase name),
        hx.heap.erase f name, hx.values⟩
  | @look h vs f frame name v hFrame hv =>
      have hf : f < h.frames.size := (Array.getElem?_eq_some_iff.1 hFrame).1
      exact ⟨σ, .refl σ, hx.sound,
        List.forall_mem_cons.2 ⟨Regime.Holds.fine_of_frame hx.sound hf hFrame hv, hx.admits⟩,
        hx.heap, List.forall_mem_cons.2 ⟨hx.heap.of_frame hFrame hv, hx.values⟩⟩
  | @newRoot h vs =>
      exact ⟨σ, .refl σ, hx.sound.newRoot, hAdmits (h.extends_push _), hx.heap.push rfl,
        hx.values⟩
  | @newChild h vs parent hParent =>
      exact ⟨σ, .refl σ, hx.sound.newChild hParent, hAdmits (h.extends_push _), hx.heap.push rfl,
        hx.values⟩
  | forget hSubset =>
      exact ⟨σ, .refl σ, hx.sound, fun v hv => hx.admits v (hSubset v hv), hx.heap,
        fun v hv => hx.values v (hSubset v hv)⟩

theorem acts (hx : x.Standing σ) (h : Acts x y) : ∃ σ' : Ledger, σ.Grows σ' ∧ y.Standing σ' := by
  induction h with
  | refl => exact ⟨σ, .refl σ, hx⟩
  | tail _ hAct ih =>
      obtain ⟨σ₁, hGrows, hStanding⟩ := ih
      obtain ⟨σ₂, hGrows', hStanding'⟩ := hStanding.act hAct
      exact ⟨σ₂, hGrows.trans hGrows', hStanding'⟩

end Scene.Standing

/-! ## Histories -/

namespace World

variable {w w' : World}

/-- What is assumed of a request where identities matter: its frames exist, and the pairs and
procedures in its values come from the session, which has handed them out. -/
structure Permits (w : World) (r : Request) : Prop where
  frames : ∀ f ∈ r.frames, f < w.heap.frames.size
  values : ∀ v ∈ r.values, ∀ (u : Value) (id : Nat), u.Part v → u.identity? = some id →
    ∃ x ∈ w.given, u.Part x

theorem Permits.allows {r : Request} (h : w.Permits r) : w.Allows r := by
  refine ⟨h.frames, fun v hv code f hOccurs => ?_⟩
  obtain ⟨id, hPart⟩ := hOccurs.exists_part
  obtain ⟨x, hx, hPart'⟩ := h.values v hv _ id hPart rfl
  exact ⟨x, hx, Value.Occurs.procedure.of_part hPart'⟩

/-- Requests of that kind lead from one world to another. -/
inductive Traces (w : World) : World → Prop where
  | refl : Traces w w
  | serve {w' : World} {r : Request} (before : Traces w w') (hPermits : w'.Permits r) :
      Traces w (w'.serve r)

/-- The heap and what was handed out. -/
def scene (w : World) : Scene := ⟨w.heap, w.given⟩

theorem standing_initial (limit : Nat) : (initial limit).scene.Standing fun _ => none := by
  have hHeap : (initial limit).heap.Entered fun _ => none := by
    have hEmpty : Heap.empty.Entered fun _ => none := by
      refine ⟨nofun, fun f frame name v hFrame => ?_⟩
      simp [Heap.empty] at hFrame
    exact (hEmpty.push rfl).push rfl
  exact ⟨(sound_initial limit).state.heap, by simp [scene, initial], hHeap,
    by simp [scene, initial]⟩

/-- One request keeps everything entered, in a ledger that may have grown. -/
theorem standing_serve {σ : Ledger} (hw : w.Sound) (hScene : w.scene.Standing σ) {r : Request}
    (hPermits : w.Permits r) : ∃ σ' : Ledger, σ.Grows σ' ∧ (w.serve r).scene.Standing σ' := by
  have hValues : ∀ v ∈ r.values, v.Entered σ := by
    intro v hv u id hPart hId
    obtain ⟨x, hx, hPart'⟩ := hPermits.values v hv u id hPart hId
    exact hScene.values x hx u id hPart' hId
  have hAll : Scene.Standing σ ⟨w.heap, r.values ++ w.given⟩ :=
    ⟨hScene.sound, List.forall_mem_append.2 ⟨hw.admits hPermits.allows, hScene.admits⟩,
      hScene.heap, List.forall_mem_append.2 ⟨hValues, hScene.values⟩⟩
  have hKnown : ∀ v ∈ r.values, v ∈ r.values ++ w.given :=
    fun v hv => List.mem_append_left _ hv
  have hServe := Session.acts_serve hw.state hPermits.frames hKnown
  refine hAll.acts (hServe.trans (.single (.forget fun v hv => ?_)))
  rcases List.mem_append.1 hv with hv | hv
  · exact List.mem_append_left _ hv
  · exact List.mem_append_right _ (List.mem_append_right _ hv)

/-- Every history keeps everything entered. -/
theorem Traces.standing {σ : Ledger} (h : w.Traces w') (hw : w.Sound)
    (hScene : w.scene.Standing σ) :
    w'.Sound ∧ ∃ σ' : Ledger, σ.Grows σ' ∧ w'.scene.Standing σ' := by
  induction h with
  | refl => exact ⟨hw, σ, .refl σ, hScene⟩
  | serve _ hPermits ih =>
      obtain ⟨hSound, σ₁, hGrows, hStanding⟩ := ih
      obtain ⟨σ₂, hGrows', hStanding'⟩ := standing_serve hSound hStanding hPermits
      exact ⟨hSound.serve hPermits.allows, σ₂, hGrows.trans hGrows', hStanding'⟩

/-- After any history of a new interpreter the heap is sound, and the identities in it are among
those that were given out. -/
theorem Traces.sound_numbered {limit : Nat} (h : (initial limit).Traces w) :
    w.heap.Sound ∧ w.heap.Numbered := by
  obtain ⟨_, σ, _, hScene⟩ := h.standing (sound_initial limit) (standing_initial limit)
  exact ⟨hScene.sound, hScene.heap.numbered⟩

/-- The history of one definition: `(define (unit x) (cons x nil))`. -/
def unitDefined : World :=
  (initial 5).serve (.evaluate 1 (.list none [.symbol none "define",
    .list none [.symbol none "unit", .symbol none "x"],
    .list none [.symbol none "cons", .symbol none "x", .symbol none "nil"]]))

theorem traces_unitDefined : (initial 5).Traces unitDefined := by
  refine .serve .refl ⟨fun f hf => ?_, by simp [Request.values]⟩
  rw [List.mem_singleton.1 hf]
  decide

end World

end MiniScheme
