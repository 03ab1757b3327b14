import MiniScheme.Proofs.Correspondence.Evaluate

/-!
# Evaluation is confined to the frames it can reach

Frames are passed around inside procedures, so what an evaluation can come to is not only the way
from its frame to the root: it is all that can be reached through parents and through procedures
that lie in definitions (`Heap.Reaches`). New frames come to this while it runs, and assignments,
results and calls move frames from one place to another; but nothing leads out of these frames.

That no other frame is changed, and that no procedure keeps another one, is a regime. That no other
frame has an influence takes two evaluations, under the correspondence that lets nothing differ:
the frames that match are those that can be reached, each with itself, and all that are still to
come. The latter are there so that the matching can have grown into nothing but equality.

## Main results

* `Eval.confined_evaluate`: what an evaluation can change.
* `Eval.agreeOn_evaluate`: what an evaluation depends on.
* `Interpreter.State.evaluation_is_confined`: both, and what follows for two frames that have no
  frame in reach together.
-/

namespace MiniScheme

/-! ## Reachable frames -/

/-- The frames that evaluation can come to from frame `env`: that frame itself, parents of such
frames, and frames that procedures in their definitions keep, also inside pairs. -/
inductive Heap.Reaches (h : Heap) (env : FrameId) : FrameId → Prop where
  | start : Reaches h env env
  | parent {f parent : FrameId} {frame : Frame} (hf : Reaches h env f)
      (hFrame : h.frames[f]? = some frame) (hParent : frame.parent = some parent) :
      Reaches h env parent
  | captured {f g : FrameId} {frame : Frame} {name : String} {v : Value} {code : Lambda}
      (hf : Reaches h env f) (hFrame : h.frames[f]? = some frame)
      (hv : frame.bindings.get? name = some v) (hOccurs : v.Occurs code g) : Reaches h env g

namespace Heap

variable {h h' : Heap} {env : FrameId}

/-- What is reachable depends on the reachable frames only. -/
theorem Reaches.of_eq (hSame : ∀ f, h.Reaches env f → h'.frames[f]? = h.frames[f]?) {f : FrameId}
    (hf : h.Reaches env f) : h'.Reaches env f := by
  induction hf with
  | start => exact .start
  | parent hf hFrame hParent ih => exact .parent ih ((hSame _ hf).trans hFrame) hParent
  | captured hf hFrame hv hOccurs ih =>
      exact .captured ih ((hSame _ hf).trans hFrame) hv hOccurs

theorem reaches_iff (hSame : ∀ f, h.Reaches env f → h'.frames[f]? = h.frames[f]?) (f : FrameId) :
    h'.Reaches env f ↔ h.Reaches env f := by
  refine ⟨fun hf => ?_, fun hf => hf.of_eq hSame⟩
  induction hf with
  | start => exact .start
  | parent _ hFrame hParent ih => exact .parent ih ((hSame _ ih).symm.trans hFrame) hParent
  | captured _ hFrame hv hOccurs ih =>
      exact .captured ih ((hSame _ ih).symm.trans hFrame) hv hOccurs

end Heap

/-! ## What an evaluation can change -/

namespace Regime

/-- Evaluation stays within the given frames and those it makes itself, which come behind the first
`size` ones. -/
def confined (within : FrameId → Prop) (size : Nat) : Regime where
  base := size
  closure n _ f := within f ∨ size ≤ f ∧ f < n
  frame n f := within f ∨ size ≤ f ∧ f < n
  link f parent := within parent ∨ size ≤ parent ∧ parent < f
  stop _ := True
  closure_mono hLe h := h.imp_right fun hNew => ⟨hNew.1, Nat.lt_of_lt_of_le hNew.2 hLe⟩
  frame_mono hLe h := h.imp_right fun hNew => ⟨hNew.1, Nat.lt_of_lt_of_le hNew.2 hLe⟩
  frame_of_lt hLt h := h.imp_right fun hNew => ⟨hNew.1, hLt⟩
  frame_child hBase _ := .inr ⟨hBase, Nat.lt_succ_self _⟩
  link_child h := h
  frame_parent hLt _ h := h.imp_right fun hNew => ⟨hNew.1, Nat.lt_trans hNew.2 hLt⟩
  frame_closure h := h
  stop_locate _ _ _ := trivial
  stop_body _ _ := trivial

theorem confined_holds (h : Heap) (env : FrameId) :
    (confined (h.Reaches env) h.frames.size).Holds h := by
  have hOld : ∀ {f}, (confined (h.Reaches env) h.frames.size).frame h.frames.size f →
      h.Reaches env f := by
    rintro f (hf | ⟨hLe, hLt⟩)
    · exact hf
    · exact absurd hLe (Nat.not_le.2 hLt)
  constructor
  · intro f frame hFrame hf name v hv
    rw [Value.all_iff_occurs]
    exact fun code g hOccurs => .inl (.captured (hOld hf) hFrame hv hOccurs)
  · intro f frame parent hFrame hf hParent
    exact .inl (.parent (hOld hf) hFrame hParent)
  · exact fun _ _ _ _ _ _ _ => trivial

/-- Under a regime only frames that may be used are reachable from one. -/
theorem Holds.frame_of_reaches {R : Regime} {h : Heap} (hHolds : R.Holds h) {env f : FrameId}
    (hEnv : R.frame h.frames.size env) (hf : h.Reaches env f) : R.frame h.frames.size f := by
  induction hf with
  | start => exact hEnv
  | @parent f parent frame _ hFrame hParent ih =>
      have hLt : f < h.frames.size := (Array.getElem?_eq_some_iff.1 hFrame).1
      exact R.frame_parent hLt ih (hHolds.linked f frame parent hFrame ih hParent)
  | @captured f g frame name v code _ hFrame hv hOccurs ih =>
      have hFine := hHolds.bound f frame hFrame ih name v hv
      exact R.frame_closure (Value.all_iff_occurs.1 hFine code g hOccurs)

end Regime

namespace Eval

theorem keeps_confined (within : FrameId → Prop) (size : Nat) (limit : Option Nat) (fuel : Nat) :
    (Regime.confined within size).Keeps (fun _ _ => True) (run limit fuel) := by
  have hPass : (Regime.confined within size).Passes limit (fun _ _ => True) (fun _ _ => True) :=
    { operand := fun _ _ => trivial
      element := fun _ _ => trivial
      body := fun _ _ _ _ => trivial
      code := fun _ _ _ _ hEnv => hEnv
      name := fun _ _ _ _ => trivial
      raised := fun _ _ => trivial }
  exact @Regime.keeps_run (Regime.confined within size) limit (fun _ _ _ => True)
    (fun _ _ _ => trivial) (fun _ => hPass) fuel

/-- Evaluation stays within the frames that are reachable and those it makes. -/
theorem confined_evaluate (limit : Nat) (env : FrameId) (e : Expr) (m : Machine) :
    let R := Regime.confined (m.heap.Reaches env) m.heap.frames.size
    R.Grows (note e m) (evaluate limit env e m).2 ∧ R.Holds (evaluate limit env e m).2.heap ∧
      ∀ v, (evaluate limit env e m).1 = .ok v → R.Fine (evaluate limit env e m).2.heap v := by
  intro R
  have hReady : R.Ready (note e m) env :=
    ⟨(Regime.confined_holds m.heap env).noteHeight e.height, .inl .start, Nat.le_refl _, trivial⟩
  have hSafe := keeps_confined (m.heap.Reaches env) m.heap.frames.size (some limit)
    (budget limit (note e m).depth (note e m).heap.tallest) env e (note e m) hReady trivial
  obtain ⟨hGrows, hHolds⟩ := hSafe.outcome limit
  exact ⟨hGrows, hHolds, fun v hv => hSafe.good_of_outcome hv⟩

end Eval

/-! ## What an evaluation depends on -/

/-- Nothing differs but frames that are not matched. -/
def Correspondence.identity : Correspondence where
  place := Eq
  name _ := True
  id := Eq
  place_none := rfl
  place_or hl hk := by rw [hl, hk]
  id_iff := Eq.congr

open Correspondence (identity)

theorem Correspondence.identity_transparent : identity.Transparent :=
  ⟨fun _ => rfl, fun _ => trivial⟩

theorem Correspondence.identity_strict : identity.Strict := ⟨fun hl => hl, fun hId => hId⟩

/-- Frames with the same parent, the same built-in procedures and the same definitions. -/
structure Frame.Same (frame frame' : Frame) : Prop where
  parent : frame.parent = frame'.parent
  hasBuiltins : frame.hasBuiltins = frame'.hasBuiltins
  get?_eq : ∀ name, frame.bindings.get? name = frame'.bindings.get? name

theorem Frame.same_of_alike {M : Matching} (hM : M ≤ Eq) {frame frame' : Frame}
    (h : frame.Alike identity M frame') : frame.Same frame' :=
  ⟨eq_of_optionRel hM h.parent, h.hasBuiltins, fun name =>
    eq_of_optionRel (fun _ _ => Value.Alike.eq Correspondence.identity_strict hM)
      (h.bindings name trivial)⟩

/-- Heaps that agree on some frames, and on which frame and identity come next. The bounds on the
height of bodies decide no more than the fuel of evaluation. -/
structure Heap.AgreeOn (within : FrameId → Prop) (h h' : Heap) : Prop where
  frame : ∀ f, within f → Option.Rel Frame.Same h.frames[f]? h'.frames[f]?
  size_eq : h.frames.size = h'.frames.size
  nextId_eq : h.nextId = h'.nextId
  bounds : h.BoundsAgree h'

namespace Heap

variable {h h' : Heap}

theorem AgreeOn.mono {p q : FrameId → Prop} (hAgree : h.AgreeOn p h') (hqp : ∀ f, q f → p f) :
    h.AgreeOn q h' :=
  ⟨fun f hf => hAgree.frame f (hqp f hf), hAgree.size_eq, hAgree.nextId_eq, hAgree.bounds⟩

/-- Reachable frames, and all that come behind the first `size` ones, match themselves. -/
def itself (h : Heap) (env : FrameId) (size : Nat) : Matching := fun f f' =>
  f = f' ∧ (h.Reaches env f ∨ size ≤ f)

theorem AgreeOn.alike {env : FrameId} (hAgree : h.AgreeOn (h.Reaches env) h') :
    h.Alike identity (h.itself env h.frames.size) h' where
  frame := by
    rintro f _ ⟨rfl, hf | hNew⟩
    · have hFrame := hAgree.frame f hf
      generalize hx : h.frames[f]? = x, h'.frames[f]? = x' at hFrame
      cases hFrame with
      | none => exact .none
      | @some frame frame' hSame =>
          refine .some ⟨?_, hSame.hasBuiltins, fun name _ => ?_⟩
          · rw [← hSame.parent]
            cases hParent : frame.parent with
            | none => exact .none
            | some parent => exact .some ⟨rfl, .inl (.parent hf hx hParent)⟩
          · rw [← hSame.get?_eq]
            cases hv : frame.bindings.get? name with
            | none => exact .none
            | some v =>
                refine .some (Value.alike_refl Correspondence.identity_transparent
                  (fun _ _ _ _ => rfl) ?_)
                rw [Value.all_iff_occurs]
                exact fun code g hOccurs => ⟨rfl, .inl (.captured hf hx hv hOccurs)⟩
    · rw [Array.getElem?_eq_none hNew, Array.getElem?_eq_none (hAgree.size_eq ▸ hNew)]
      exact .none
  one_to_one := by
    rintro f _ g _ ⟨rfl, _⟩ ⟨rfl, _⟩
    exact Iff.rfl
  way := .inl ⟨fun _ _ hf => hf.1, hAgree.size_eq⟩
  id k := congrArg (· + k) hAgree.nextId_eq
  keeps := ⟨fun _ => trivial, fun _ => trivial, nofun, nofun⟩

/-- A matching that has more to come cannot have become something else than equality. -/
theorem Alike.le_eq {C : Correspondence} {M : Matching} {size : Nat}
    (hM : ∀ f, size ≤ f → M f f) (hAlike : h.Alike C M h') :
    M ≤ Eq ∧ h.frames.size = h'.frames.size := by
  rcases hAlike.way with hSame | hSettled
  · exact hSame
  · -- A frame that does not exist yet would be settled.
    obtain ⟨⟨frame, hFrame, _⟩, _⟩ :=
      hSettled _ _ (hM (max size h.frames.size) (Nat.le_max_left _ _))
    rw [Array.getElem?_eq_none (Nat.le_max_right _ _)] at hFrame
    cases hFrame

end Heap

namespace Eval

/-- Evaluations in heaps that agree on what is reachable have the same result, and leave heaps that
agree on that and on all new frames. -/
theorem agreeOn_evaluate (limit : Nat) (env : FrameId) (e : Expr) {m m' : Machine}
    (hAgree : m.heap.AgreeOn (m.heap.Reaches env) m'.heap) (hDepth : m.depth = m'.depth) :
    (evaluate limit env e m).1 = (evaluate limit env e m').1 ∧
      (evaluate limit env e m).2.heap.AgreeOn
        (fun f => m.heap.Reaches env f ∨ m.heap.frames.size ≤ f)
        (evaluate limit env e m').2.heap ∧
      (evaluate limit env e m).2.depth = (evaluate limit env e m').2.depth := by
  have hEnv : m.heap.itself env m.heap.frames.size env env := ⟨rfl, .inl .start⟩
  have he := Expr.alike_refl Correspondence.identity_transparent e
  obtain ⟨M, hM, hResult, hMachine⟩ :=
    agrees_evaluate id limit hEnv he ⟨hAgree.alike, .inl hDepth⟩ hAgree.bounds
  obtain ⟨hEq, hSize⟩ := hMachine.heap.le_eq fun f hf => hM f f ⟨rfl, .inr hf⟩
  have hBounds := boundsAgree_evaluate limit env env (e := e) rfl hAgree.bounds
  refine ⟨?_, ⟨fun f hf => ?_, hSize, hMachine.heap.id 0, hBounds⟩, hMachine.depth_eq id⟩
  · exact hResult.eq (fun _ _ => Error.Alike.eq Correspondence.identity_strict.place) fun _ _ =>
      Value.Alike.eq Correspondence.identity_strict hEq
  · exact optionRel_mono (fun _ _ => Frame.same_of_alike hEq)
      (hMachine.heap.frame (hM f f ⟨rfl, hf⟩))

end Eval

/-! ## Evaluation by an interpreter -/

namespace Interpreter.State

/-- States in which evaluation starts alike, as far as some frames are concerned. -/
structure AgreeOn (within : FrameId → Prop) (s s' : State) : Prop where
  limit_eq : s.interpreter.limit = s'.interpreter.limit
  depth_eq : s.interpreter.depth = s'.interpreter.depth
  heap : s.heap.AgreeOn within s'.heap

/-- Evaluation is confined to the frames that can be reached from the frame it takes place in, and
to those it makes: whether it ends with a value or an error,

* all other frames are as they were;
* the procedures in the result keep frames of that kind, and so do those in the definitions of
  frames of that kind, so that no others can be reached afterwards;
* in a state that agrees on the frames that can be reached, and on the frame and identity that come
  next, the result is the same, and the states that are left agree again;
* what can be reached from a frame that has none of these frames in reach is the same as before,
  and the two remain apart. -/
theorem evaluation_is_confined (s : State) (env : FrameId) (e : Expr) :
    let r := s.evalExpr env e
    let known : FrameId → Prop := fun f =>
      s.heap.Reaches env f ∨ s.heap.frames.size ≤ f ∧ f < r.2.heap.frames.size
    (∀ f, f < s.heap.frames.size → ¬s.heap.Reaches env f →
      r.2.heap.frames[f]? = s.heap.frames[f]?) ∧
    (∀ v, r.1 = .ok v → ∀ code f, v.Occurs code f → known f) ∧
    (∀ g frame name v, known g → r.2.heap.frames[g]? = some frame →
      frame.bindings.get? name = some v → ∀ code f, v.Occurs code f → known f) ∧
    (∀ f, r.2.heap.Reaches env f → known f) ∧
    (∀ s' : State, s.AgreeOn (s.heap.Reaches env) s' →
      (s'.evalExpr env e).1 = r.1 ∧ r.2.AgreeOn known (s'.evalExpr env e).2) ∧
    (∀ other, (∀ f, s.heap.Reaches other f → f < s.heap.frames.size ∧ ¬s.heap.Reaches env f) →
      (∀ f, s.heap.Reaches other f → r.2.heap.frames[f]? = s.heap.frames[f]?) ∧
      (∀ f, r.2.heap.Reaches other f ↔ s.heap.Reaches other f) ∧
      ∀ f, r.2.heap.Reaches other f → f < r.2.heap.frames.size ∧ ¬r.2.heap.Reaches env f) := by
  intro r known
  obtain ⟨hGrows, hHolds, hValue⟩ :=
    Eval.confined_evaluate s.interpreter.limit env e s.machine
  have hUntouched : ∀ f, f < s.heap.frames.size → ¬s.heap.Reaches env f →
      r.2.heap.frames[f]? = s.heap.frames[f]? := by
    intro f hf hNot
    refine hGrows.untouched f hf ?_
    rintro (hReached | ⟨hLe, _⟩)
    · exact hNot hReached
    · exact absurd hf (Nat.not_lt.2 hLe)
  have hReach : ∀ f, r.2.heap.Reaches env f → known f :=
    fun f hf => hHolds.frame_of_reaches (.inl .start) hf
  refine ⟨hUntouched, ?_, ?_, hReach, ?_, ?_⟩
  · exact fun v hv => Value.all_iff_occurs.1 (hValue v hv)
  · exact fun g frame name v hg hFrame hv =>
      Value.all_iff_occurs.1 (hHolds.bound g frame hFrame hg name v hv)
  · rintro s' ⟨hLimit, hDepth, hHeap⟩
    obtain ⟨hResult, hAfter, hDepth'⟩ :=
      @Eval.agreeOn_evaluate s.interpreter.limit env e s.machine s'.machine hHeap hDepth
    unfold evalExpr
    rw [← hLimit]
    refine ⟨hResult.symm, hLimit, hDepth', hAfter.mono fun f hf => ?_⟩
    exact hf.imp_right fun hNew => hNew.1
  · intro other hOther
    have hSame : ∀ f, s.heap.Reaches other f → r.2.heap.frames[f]? = s.heap.frames[f]? :=
      fun f hf => hUntouched f (hOther f hf).1 (hOther f hf).2
    refine ⟨hSame, Heap.reaches_iff hSame, fun f hf => ?_⟩
    rw [Heap.reaches_iff hSame] at hf
    obtain ⟨hLt, hNot⟩ := hOther f hf
    refine ⟨Nat.lt_of_lt_of_le hLt hGrows.heap.size_le, fun hReached => ?_⟩
    rcases hReach f hReached with hOld | ⟨hLe, _⟩
    · exact hNot hOld
    · exact absurd hLt (Nat.not_lt.2 hLe)

/-- Two global frames, 1 and 3, each below a root of its own. -/
def twoGlobals : Heap := Heap.empty.newGlobal.2.newGlobal.2

theorem frame_twoGlobals {f : Nat} {frame : Frame} (hFrame : twoGlobals.frames[f]? = some frame) :
    frame.bindings = .empty ∧
      ∀ parent : Nat, frame.parent = some parent → f = 1 ∧ parent = 0 ∨ f = 3 ∧ parent = 2 := by
  rcases f with _ | _ | _ | _ | f
  · cases hFrame
    exact ⟨rfl, nofun⟩
  · cases hFrame
    exact ⟨rfl, fun parent hParent => .inl ⟨rfl, (Option.some.inj hParent).symm⟩⟩
  · cases hFrame
    exact ⟨rfl, nofun⟩
  · cases hFrame
    exact ⟨rfl, fun parent hParent => .inr ⟨rfl, (Option.some.inj hParent).symm⟩⟩
  · cases hFrame

/-- From each of the two, only its own root can be reached. -/
theorem reaches_twoGlobals {env f : Nat} (hf : twoGlobals.Reaches env f) :
    f = env ∨ env = 1 ∧ f = 0 ∨ env = 3 ∧ f = 2 := by
  induction hf with
  | start => exact .inl rfl
  | parent _ hFrame hParent ih =>
      have hUp := (frame_twoGlobals hFrame).2 _ hParent
      omega
  | captured _ hFrame hv _ _ =>
      rw [(frame_twoGlobals hFrame).1] at hv
      cases hv

/-- An assignment to a built-in name from one of two global frames. The other one keeps the built-in
procedure, and what it defines is without influence. -/
theorem assignment_to_builtin_is_confined :
    let s : State := ⟨.ofFrame 1 defaultLimit, twoGlobals⟩
    let s' : State := ⟨.ofFrame 3 defaultLimit, twoGlobals.define 3 "x" .nil⟩
    let e : Expr := .list none [.symbol none "set!", .symbol none "+", .number none (.integer 1)]
    let r := s.evalExpr 1 e
    s.AgreeOn (s.heap.Reaches 1) s' ∧
      (∀ f, s.heap.Reaches 3 f → f < s.heap.frames.size ∧ ¬s.heap.Reaches 1 f) ∧
      r.2.heap.get? 1 "+" = some (.number (.integer 1)) ∧
      r.2.heap.get? 3 "+" = some (.procedure (.builtin .add)) ∧
      (s'.evalExpr 1 e).1 = r.1 ∧
      ∀ f, r.2.heap.Reaches 3 f → r.2.heap.frames[f]? = s.heap.frames[f]? := by
  intro s s' e r
  have hSeparate : ∀ f, s.heap.Reaches 3 f → f < s.heap.frames.size ∧ ¬s.heap.Reaches 1 f := by
    intro (f : Nat) hf
    have hSecond := reaches_twoGlobals hf
    refine ⟨?_, fun hf' => ?_⟩
    · show f < 4
      omega
    · have hFirst := reaches_twoGlobals hf'
      omega
  have hAgree : s.AgreeOn (s.heap.Reaches 1) s' := by
    refine ⟨rfl, rfl, ⟨fun (f : Nat) hf => ?_, rfl, rfl, .inl rfl⟩⟩
    have hFirst := reaches_twoGlobals hf
    have hNe : 3 ≠ f := by omega
    show Option.Rel Frame.Same twoGlobals.frames[f]? (twoGlobals.define 3 "x" .nil).frames[f]?
    rw [Heap.define_eq_alter, Heap.getElem?_alter, if_neg hNe]
    exact optionRel_refl (fun _ => ⟨rfl, rfl, fun _ => rfl⟩) _
  obtain ⟨_, _, _, _, hDepends, hOthers⟩ := evaluation_is_confined s 1 e
  obtain ⟨hSame, hReaches, _⟩ := hOthers 3 hSeparate
  exact ⟨hAgree, hSeparate, rfl, rfl, (hDepends s' hAgree).1, fun f hf =>
    hSame f ((hReaches f).1 hf)⟩

end Interpreter.State

end MiniScheme
