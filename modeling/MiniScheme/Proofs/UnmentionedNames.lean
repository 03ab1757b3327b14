import MiniScheme.Proofs.Confinement

/-!
# Names that are not mentioned

A name that occurs neither in an expression nor in any procedure of the heap is never looked up,
and never given a value. So whether it is bound, and to what, has no influence, wherever on the way
to the root the binding sits; and evaluation leaves all of its bindings as they are.

These are two facts of different kinds. That the name is not given a value is about one evaluation:
it is a regime, in which the name is not assignable and in which procedures do not mention it. That
it has no influence takes two evaluations, under the correspondence that looks at all names but this
one. Together they say of the heaps that are left how they differ: by what they differed before.

## Main results

* `Eval.unmentioned_evaluate`: the definitions of a name that is not mentioned are kept.
* `Eval.differOnlyAt_evaluate`: they do not matter.
* `Interpreter.State.unmentioned_bindings_have_no_influence`: both, for an interpreter.
-/

namespace MiniScheme

namespace Expr

variable {name : String} {l : Option Location}

theorem not_mentions_number (n : Number) : ¬(Expr.number l n).Mentions name := by
  intro h
  cases h

theorem mentions_symbol_iff {other : String} :
    (Expr.symbol l other).Mentions name ↔ other = name := by
  constructor
  · intro h
    cases h
    rfl
  · rintro rfl
    exact .symbol

theorem mentions_list_iff {es : List Expr} :
    (Expr.list l es).Mentions name ↔ ∃ e ∈ es, e.Mentions name := by
  constructor
  · intro h
    cases h with
    | list he hMentions => exact ⟨_, he, hMentions⟩
  · rintro ⟨e, he, hMentions⟩
    exact .list he hMentions

end Expr

/-- The name is a parameter, or occurs in the body. -/
def Lambda.Mentions (name : String) (code : Lambda) : Prop :=
  name ∈ code.formals.names ∨ ∃ e ∈ code.body, e.Mentions name

/-- A procedure that lies in a definition, also inside pairs, mentions the name. -/
def Heap.Mentions (h : Heap) (name : String) : Prop :=
  ∃ f other v code g, h.defined? f other = some v ∧ v.Occurs code g ∧ code.Mentions name

theorem Heap.defined?_of_frame {h : Heap} {f : FrameId} {frame : Frame}
    (hFrame : h.frames[f]? = some frame) (name : String) :
    h.defined? f name = frame.bindings.get? name := by
  rw [defined?, hFrame]
  rfl

theorem Heap.defined?_of_size_le {h : Heap} {f : FrameId} (hf : h.frames.size ≤ f)
    (name : String) : h.defined? f name = none := by
  rw [defined?, Array.getElem?_eq_none hf]
  rfl

variable {x : String}

/-! ## The name is not given a value -/

/-- No procedure mentions the name, and it is not given a value. -/
def Regime.unmentioned (x : String) : Regime where
  closure _ code _ := ¬code.Mentions x
  frame _ _ := True
  link _ _ := True
  stop _ := True
  assignable name := name ≠ x
  closure_mono _ h := h
  frame_mono _ h := h
  frame_of_lt _ h := h
  frame_child _ h := h
  link_child h := h
  frame_parent _ h _ := h
  frame_closure _ := trivial
  stop_locate _ _ _ := trivial
  stop_body _ _ := trivial
  assignable_new hCode hName hEq := hCode (.inl (hEq ▸ hName))

theorem Regime.unmentioned_holds_iff {h : Heap} :
    (Regime.unmentioned x).Holds h ↔ ¬h.Mentions x := by
  constructor
  · rintro hHolds ⟨f, name, v, code, g, hv, hOccurs, hCode⟩
    obtain ⟨frame, hFrame, hGet⟩ := Option.bind_eq_some_iff.1 hv
    have hFine := hHolds.bound f frame hFrame trivial name v hGet
    exact Value.all_iff_occurs.1 hFine code g hOccurs hCode
  · intro hx
    refine ⟨fun f frame hFrame _ name v hv => Value.all_iff_occurs.2 fun code g hOccurs hCode => ?_,
      fun _ _ _ _ _ _ => trivial, fun _ _ _ _ _ _ _ => trivial⟩
    have hDefined := (Heap.defined?_of_frame hFrame name).trans hv
    exact hx ⟨f, name, v, code, g, hDefined, hOccurs, hCode⟩

namespace Eval

theorem keeps_unmentioned (x : String) (limit : Option Nat) (fuel : Nat) :
    (Regime.unmentioned x).Keeps (fun _ e => ¬e.Mentions x) (run limit fuel) := by
  have hItem : ∀ {l : Option Location} {es : List Expr} {e : Expr},
      ¬(Expr.list l es).Mentions x → e ∈ es → ¬e.Mentions x :=
    fun hList he hMentions => hList (.list he hMentions)
  have hPass : (Regime.unmentioned x).Passes limit (fun _ e => ¬e.Mentions x)
      (fun _ e => ¬e.Mentions x) := by
    constructor
    case operand => exact hItem
    case element => exact hItem
    case body => exact fun _ _ hCode he hMentions => hCode (.inr ⟨_, he, hMentions⟩)
    case code =>
      rintro d l es n code env hList _ hBody hFormals _ (hName | ⟨e, he, hMentions⟩)
      · exact hList (hFormals x hName)
      · exact hItem hList (hBody e he) hMentions
    case name => exact fun _ _ _ _ => trivial
    case raised => exact fun _ _ => trivial
    case write => exact fun _ _ _ => trivial
    case assignable => exact fun he hMentions hEq => he (hEq ▸ hMentions)
  exact @Regime.keeps_run (Regime.unmentioned x) limit (fun _ _ e => ¬e.Mentions x)
    (fun _ _ _ => trivial) (fun _ => hPass) fuel

/-- Evaluation leaves the definitions of a name that is not mentioned as they are, in all frames,
and makes no procedure that mentions it. -/
theorem unmentioned_evaluate (limit : Nat) (env : FrameId) {e : Expr} (he : ¬e.Mentions x)
    {m : Machine} (hm : ¬m.heap.Mentions x) :
    (∀ f, (evaluate limit env e m).2.heap.defined? f x = m.heap.defined? f x) ∧
      ¬(evaluate limit env e m).2.heap.Mentions x := by
  have hHolds := (Regime.unmentioned_holds_iff.2 hm).noteHeight e.height
  have hSafe := keeps_unmentioned x (some limit)
    (budget limit (note e m).depth (note e m).heap.tallest) env e (note e m)
    ⟨hHolds, trivial, Nat.zero_le _, trivial⟩ he
  obtain ⟨hGrows, hAfter⟩ := hSafe.outcome limit
  exact ⟨fun f => hGrows.defined f x fun hNe => hNe rfl, Regime.unmentioned_holds_iff.1 hAfter⟩

end Eval

/-! ## The name has no influence -/

/-- Nothing differs but bindings of the name. -/
def Correspondence.except (x : String) : Correspondence where
  __ := identity
  name name := name ≠ x

theorem Correspondence.except_strict : (Correspondence.except x).Strict :=
  ⟨fun hl => hl, fun hId => hId⟩

theorem Expr.alike_except {e : Expr} (he : ¬e.Mentions x) : e.Alike (.except x) e := by
  induction e using Expr.induction with
  | number l n => exact .number rfl n
  | symbol l name => exact .symbol rfl fun hEq => he (Expr.mentions_symbol_iff.2 hEq)
  | list l es ih =>
      refine .list rfl (List.forall₂_same.2 fun e hMem => ih e hMem fun hMentions => ?_)
      exact he (.list hMem hMentions)

theorem Value.alike_except {v : Value} (hv : v.All fun code _ => ¬code.Mentions x) :
    v.Alike (.except x) Eq v := by
  refine Value.alike_self (fun _ _ _ _ => rfl) (hv.mono fun code f hCode => ⟨fun e he => ?_, rfl⟩)
  exact Expr.alike_except fun hMentions => hCode (.inr ⟨e, he, hMentions⟩)

/-- Frames that are the same but for what they define. -/
structure Frame.SameShape (frame frame' : Frame) : Prop where
  parent : frame.parent = frame'.parent
  hasBuiltins : frame.hasBuiltins = frame'.hasBuiltins

/-- Heaps that differ in nothing but whether and how some frames define the name. The bounds on the
height of bodies decide no more than the fuel of evaluation. -/
structure Heap.DifferOnlyAt (x : String) (among : FrameId → Prop) (h h' : Heap) : Prop where
  frame : ∀ f : FrameId, Option.Rel Frame.SameShape h.frames[f]? h'.frames[f]?
  defined : ∀ f name, h.defined? f name ≠ h'.defined? f name → name = x ∧ among f
  size_eq : h.frames.size = h'.frames.size
  nextId_eq : h.nextId = h'.nextId
  bounds : h.BoundsAgree h'

namespace Heap

variable {among : FrameId → Prop} {h h' : Heap}

theorem DifferOnlyAt.alike (hDiffer : h.DifferOnlyAt x among h') (hx : ¬h.Mentions x) :
    h.Alike (.except x) Eq h' where
  frame := by
    rintro f _ rfl
    have hFrame := hDiffer.frame f
    have hDefined := hDiffer.defined f
    generalize hFound : h.frames[f]? = found, hFound' : h'.frames[f]? = found' at hFrame
    cases hFrame with
    | none => exact .none
    | @some frame frame' hShape =>
        refine .some ⟨?_, hShape.hasBuiltins, fun name hName => ?_⟩
        · rw [hShape.parent]
          exact optionRel_refl (fun _ => rfl) _
        · have hSame : h.defined? f name = h'.defined? f name :=
            not_not.1 fun hNe => hName (hDefined name hNe).1
          rw [defined?_of_frame hFound, defined?_of_frame hFound'] at hSame
          rw [← hSame]
          cases hv : frame.bindings.get? name with
          | none => exact .none
          | some v =>
              have hHolds := Regime.unmentioned_holds_iff.2 hx
              exact .some (Value.alike_except (hHolds.bound f frame hFound trivial name v hv))
  one_to_one := by
    rintro f _ g _ rfl rfl
    exact Iff.rfl
  way := .inl ⟨fun _ _ hf => hf, hDiffer.size_eq⟩
  id k := congrArg (· + k) hDiffer.nextId_eq
  keeps := ⟨fun _ => trivial, fun _ => trivial, fun _ _ => False.elim, fun _ _ => False.elim⟩

/-- A definition of the name makes no other difference. -/
theorem differOnlyAt_define (h : Heap) (f : FrameId) (x : String) (v : Value) :
    h.DifferOnlyAt x (fun g => g = f) (h.define f x v) where
  frame g := by
    rw [define_eq_alter, getElem?_alter]
    split
    · cases h.frames[g]? with
      | none => exact .none
      | some frame => exact .some ⟨rfl, rfl⟩
    · exact optionRel_refl (fun _ => ⟨rfl, rfl⟩) _
  defined g name hNe := by
    by_contra hOther
    refine hNe ?_
    unfold defined?
    rw [define_eq_alter, getElem?_alter]
    split
    · next hg =>
        have hName : name ≠ x := fun hName => hOther ⟨hName, hg.symm⟩
        cases h.frames[g]? with
        | none => rfl
        | some frame =>
            show frame.bindings.get? name = (frame.bindings.insert x v).get? name
            rw [Bindings.get?_insert, if_neg hName]
    · rfl
  size_eq := by rw [define_eq_alter, size_alter]
  nextId_eq := rfl
  bounds := .inl rfl

/-- Alike heaps define every other name the same. -/
theorem Alike.defined?_eq {M : Matching} (hAlike : h.Alike (.except x) M h') (hM : M = Eq)
    (f : FrameId) {name : String} (hName : name ≠ x) : h.defined? f name = h'.defined? f name := by
  subst hM
  have hFrame := hAlike.frame (rfl : f = f)
  unfold defined?
  generalize h.frames[f]? = found, h'.frames[f]? = found' at hFrame
  cases hFrame with
  | none => rfl
  | some hFrame =>
      exact eq_of_optionRel (fun _ _ => Value.Alike.eq Correspondence.except_strict le_rfl)
        (hFrame.bindings name hName)

end Heap

namespace Eval

/-- Evaluations in heaps that differ only in bindings of a name that is not mentioned have the same
result, and leave heaps that differ in the same way. -/
theorem differOnlyAt_evaluate (limit : Nat) (env : FrameId) {e : Expr} (he : ¬e.Mentions x)
    {among : FrameId → Prop} {m m' : Machine} (hDiffer : m.heap.DifferOnlyAt x among m'.heap)
    (hDepth : m.depth = m'.depth) (hm : ¬m.heap.Mentions x) (hm' : ¬m'.heap.Mentions x) :
    (evaluate limit env e m).1 = (evaluate limit env e m').1 ∧
      (evaluate limit env e m).2.heap.DifferOnlyAt x (fun f => among f ∧ f < m.heap.frames.size)
        (evaluate limit env e m').2.heap ∧
      (evaluate limit env e m).2.depth = (evaluate limit env e m').2.depth := by
  obtain ⟨M, hM, hResult, hMachine⟩ := agrees_evaluate id limit (rfl : env = env)
    (Expr.alike_except he) ⟨hDiffer.alike hm, .inl hDepth⟩ hDiffer.bounds
  obtain ⟨hLe, hSize⟩ := hMachine.heap.le_eq fun f (_ : 0 ≤ f) => hM f f rfl
  obtain rfl : M = Eq := le_antisymm hLe hM
  have hKept := (unmentioned_evaluate limit env he hm).1
  have hKept' := (unmentioned_evaluate limit env he hm').1
  refine ⟨?_, ⟨fun f => ?_, fun f name hNe => ?_, hSize, hMachine.heap.id 0, ?_⟩,
    hMachine.depth_eq id⟩
  · exact hResult.eq (fun _ _ => Error.Alike.eq Correspondence.except_strict.place) fun _ _ =>
      Value.Alike.eq Correspondence.except_strict le_rfl
  · exact optionRel_mono (fun _ _ hFrame => ⟨eq_of_optionRel (fun _ _ h => h) hFrame.parent,
      hFrame.hasBuiltins⟩) (hMachine.heap.frame rfl)
  · -- Another name is defined the same; this one is defined as it was, and not in a new frame.
    obtain rfl : name = x := by
      by_contra hName
      exact hNe (hMachine.heap.defined?_eq rfl f hName)
    rw [hKept, hKept'] at hNe
    refine ⟨rfl, (hDiffer.defined f name hNe).2, Nat.lt_of_not_le fun hf => hNe ?_⟩
    rw [Heap.defined?_of_size_le hf, Heap.defined?_of_size_le (hDiffer.size_eq ▸ hf)]
  · exact boundsAgree_evaluate limit env env rfl hDiffer.bounds

end Eval

/-! ## Evaluation by an interpreter -/

namespace Interpreter.State

/-- States that differ in nothing but whether and how some frames define the name. -/
structure DifferOnlyAt (x : String) (among : FrameId → Prop) (s s' : State) : Prop where
  interpreter_eq : s.interpreter = s'.interpreter
  heap : s.heap.DifferOnlyAt x among s'.heap

/-- Bindings of a name that is not mentioned have no influence. Let two states differ in nothing but
whether and how some frames define the name, and let it occur neither in an expression nor as a
parameter or in the body of a procedure of either state. Then the evaluation of the expression in
any frame gives the same value or the same error in both, and

* leaves states that differ in nothing but whether and how those frames, and no new ones, define the
  name;
* leaves each state with the definitions of the name that it had, and with no procedure that
  mentions it, so that the same holds of what is evaluated next. -/
theorem unmentioned_bindings_have_no_influence {x : String} {among : FrameId → Prop} {s s' : State}
    (hDiffer : s.DifferOnlyAt x among s') (hs : ¬s.heap.Mentions x) (hs' : ¬s'.heap.Mentions x)
    (env : FrameId) {e : Expr} (he : ¬e.Mentions x) :
    let r := s.evalExpr env e
    let r' := s'.evalExpr env e
    r.1 = r'.1 ∧
    r.2.DifferOnlyAt x (fun f => among f ∧ f < s.heap.frames.size) r'.2 ∧
    (∀ f, r.2.heap.defined? f x = s.heap.defined? f x) ∧
    (∀ f, r'.2.heap.defined? f x = s'.heap.defined? f x) ∧
    ¬r.2.heap.Mentions x ∧ ¬r'.2.heap.Mentions x := by
  obtain ⟨interpreter, heap⟩ := s
  obtain ⟨interpreter', heap'⟩ := s'
  obtain ⟨hInterpreter, hHeap⟩ := hDiffer
  obtain rfl : interpreter = interpreter' := hInterpreter
  let m : Machine := ⟨heap, interpreter.depth⟩
  let m' : Machine := ⟨heap', interpreter.depth⟩
  have hMachines : m.heap.DifferOnlyAt x among m'.heap := hHeap
  obtain ⟨hResult, hAfter, hDepth⟩ :=
    Eval.differOnlyAt_evaluate interpreter.limit env he hMachines rfl hs hs'
  obtain ⟨hKept, hMentions⟩ := Eval.unmentioned_evaluate interpreter.limit env he (m := m) hs
  obtain ⟨hKept', hMentions'⟩ := Eval.unmentioned_evaluate interpreter.limit env he (m := m') hs'
  refine ⟨hResult, ⟨?_, hAfter⟩, hKept, hKept', hMentions, hMentions'⟩
  exact congrArg (fun depth => { interpreter with depth := depth }) hDepth

/-- A definition in the global frame, of which a procedure that is called from there knows
nothing. -/
theorem secret_has_no_influence :
    let s : State := .initial defaultLimit
    let s' : State := ⟨s.interpreter, s.heap.define 1 "secret" (.boolean true)⟩
    let code : Expr := .list none [.symbol none "lambda", .list none [.symbol none "n"],
      .list none [.symbol none "+", .symbol none "n", .number none (.integer 1)]]
    let e : Expr := .list none [code, .number none (.integer 41)]
    (s.evalExpr 1 e).1 = .ok (.number (.integer 42)) ∧
      (s'.evalExpr 1 e).1 = .ok (.number (.integer 42)) ∧
      (s.evalExpr 1 e).2.heap.defined? 1 "secret" = none ∧
      (s'.evalExpr 1 e).2.heap.defined? 1 "secret" = some (.boolean true) ∧
      (s.evalExpr 1 e).2.DifferOnlyAt "secret" (fun f => f = 1 ∧ f < 2) (s'.evalExpr 1 e).2 := by
  intro s s' code e
  have hs := Regime.holds_newGlobal (.unmentioned "secret") trivial
  have hs' : (Regime.unmentioned "secret").Holds s'.heap := hs.define 1 trivial trivial
  have hDiffer : s.DifferOnlyAt "secret" (fun f => f = 1) s' :=
    ⟨rfl, s.heap.differOnlyAt_define 1 "secret" (.boolean true)⟩
  have he : ¬e.Mentions "secret" := by
    simp [e, code, Expr.mentions_list_iff, Expr.mentions_symbol_iff, Expr.not_mentions_number]
  obtain ⟨hResult, hAfter, hKept, hKept', _⟩ := unmentioned_bindings_have_no_influence hDiffer
    (Regime.unmentioned_holds_iff.1 hs) (Regime.unmentioned_holds_iff.1 hs') 1 he
  have hValue : (s.evalExpr 1 e).1 = .ok (.number (.integer 42)) := rfl
  exact ⟨hValue, hResult ▸ hValue, hKept 1, hKept' 1, hAfter⟩

end Interpreter.State

end MiniScheme
