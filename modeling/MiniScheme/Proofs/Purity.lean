import MiniScheme.Proofs.Acts
import MiniScheme.Proofs.Confinement
import MiniScheme.Proofs.Correspondence.States
import MiniScheme.Proofs.Nodes

/-!
# Programs without assignments

A program that has no `define`, `set!` and `del` anywhere, neither in the expression nor in a body
that lies in the heap, changes no frame that there was before. Procedures that it makes have no
assignments either, and the names that calls and `let` define are in frames that were just made:
this is the regime `Regime.assignmentFree`.

So what the expression sees is there unchanged when it is evaluated again. The second run goes the
way of the first, but its frames and identities come later. `shift` gives the renaming: what was
there before the first run stays, and of what is new the first one becomes the first one of the
second run, and so on.

## Main results

* `Eval.frames_kept`: frames that there were before stay as they are.
* `Eval.rerun_renamed`: a run from a heap that has the old frames and more.
* `Eval.assignment_free_evaluation_is_pure`: both, for an evaluation and its repetition.
-/

namespace MiniScheme

/-! ## Frames that stay as they are -/

/-- No node is a `define`, a `set!` or a `del`. -/
def Expr.AssignmentFree (e : Expr) : Prop :=
  e.AllNodes fun x => ∀ keyword operands, x.HasKeyword keyword operands → ¬keyword.Assigns

theorem Expr.assignmentFree_symbol (l : Option Location) (name : String) :
    (Expr.symbol l name).AssignmentFree := by
  refine Expr.allNodes_symbol_iff.2 fun keyword operands h => ?_
  cases h

theorem Expr.assignmentFree_list_iff {l : Option Location} {head : Expr} {operands : List Expr} :
    (Expr.list l (head :: operands)).AssignmentFree ↔
      (∀ keyword ∈ head.keyword?, ¬keyword.Assigns) ∧
        ∀ e ∈ head :: operands, e.AssignmentFree := by
  refine Expr.allNodes_list_iff.trans (and_congr_left' ?_)
  constructor
  · exact fun h keyword hHead => h keyword operands (.list hHead)
  · intro h keyword others hForm
    cases hForm with
    | list hHead => exact h keyword hHead

/-- Bodies have no assignments, and the first `size` frames are not written to. -/
def Regime.assignmentFree (size : Nat) : Regime where
  base := size
  closure _ code _ := ∀ e ∈ code.body, e.AssignmentFree
  frame _ _ := True
  link _ _ := True
  stop _ := True
  writable f := size ≤ f
  closure_mono _ h := h
  frame_mono _ h := h
  frame_of_lt _ h := h
  frame_child _ h := h
  link_child h := h
  frame_parent _ h _ := h
  frame_closure _ := trivial
  stop_locate _ _ _ := trivial
  stop_body _ _ := trivial
  writable_new h := h

namespace Eval

theorem keeps_assignmentFree (size : Nat) (limit : Option Nat) (fuel : Nat) :
    (Regime.assignmentFree size).Keeps (fun _ e => e.AssignmentFree) (run limit fuel) := by
  have hPass : (Regime.assignmentFree size).Passes limit (fun _ e => e.AssignmentFree)
      (fun _ e => e.AssignmentFree) := by
    constructor
    case operand => exact fun hList he => hList.item he
    case element => exact fun hList he => hList.item he
    case body => exact fun _ _ hCode he => hCode _ he
    case code => exact fun hList _ hMem _ _ e he => hList.item (hMem e he)
    case name => exact fun _ _ _ _ => trivial
    case raised => exact fun _ _ => trivial
    case write => exact fun he hForm hAssigns => absurd hAssigns (he.root _ _ hForm)
    case assignable => exact fun _ _ => trivial
  exact @Regime.keeps_run (Regime.assignmentFree size) limit (fun _ _ e => e.AssignmentFree)
    (fun _ _ _ => trivial) (fun _ => hPass) fuel

/-- Frames that there were before stay as they are, whatever the outcome. -/
theorem frames_kept (limit : Nat) (env : FrameId) {e : Expr} (he : e.AssignmentFree) {m : Machine}
    (hBodies : ∀ b, m.heap.HasBody b → b.AssignmentFree) :
    ∀ f < m.heap.frames.size,
      (evaluate limit env e m).2.heap.frames[f]? = m.heap.frames[f]? := by
  have hHolds : (Regime.assignmentFree m.heap.frames.size).Holds m.heap :=
    ⟨fun f frame hFrame _ name v hv => Heap.all_of_hasBody hBodies hFrame hv,
      fun _ _ _ _ _ _ => trivial, fun _ _ _ _ _ _ _ => trivial⟩
  have hSafe := keeps_assignmentFree m.heap.frames.size (some limit)
    (budget limit (note e m).depth (note e m).heap.tallest) env e (note e m)
    ⟨hHolds.noteHeight e.height, trivial, Nat.le_refl _, trivial⟩ he
  intro f hf
  refine (hSafe.outcome limit).1.kept f hf fun hOpen => ?_
  exact absurd hOpen.2 (Nat.not_le_of_lt hf)

end Eval

/-! ## What comes later -/

/-- Numbers below `first` stay, and those from there on become the ones from `next` on. -/
def shift (first next n : Nat) : Nat := if n < first then n else n + (next - first)

theorem shift_of_lt {first n : Nat} (h : n < first) (next : Nat) : shift first next n = n :=
  if_pos h

theorem shift_add {first next : Nat} (h : first ≤ next) (k : Nat) :
    shift first next (first + k) = next + k := by
  unfold shift
  rw [if_neg (by omega)]
  omega

theorem shift_eq_iff (first next a b : Nat) : shift first next a = shift first next b ↔ a = b := by
  unfold shift
  by_cases ha : a < first
  · by_cases hb : b < first
    · rw [if_pos ha, if_pos hb]
    · rw [if_pos ha, if_neg hb]
      omega
  · by_cases hb : b < first
    · rw [if_neg ha, if_pos hb]
      omega
    · rw [if_neg ha, if_neg hb]
      omega

/-- Identities and frames of the second run come later, by the renamings. -/
def Correspondence.shifted (first next size size' : Nat) : Correspondence where
  __ := identity
  id a a' := a' = shift first next a
  pair f f' := f' = shift size size' f
  left _ := True
  id_iff ha hb := by rw [ha, hb, shift_eq_iff]

open Correspondence (shifted)

/-- The frame has the parent and the definitions of the other, renamed. -/
structure Frame.Renamed (ids frames : Nat → Nat) (frame frame' : Frame) : Prop where
  parent : frame'.parent = frame.parent.map frames
  hasBuiltins : frame'.hasBuiltins = frame.hasBuiltins
  get?_eq : ∀ name,
    frame'.bindings.get? name = (frame.bindings.get? name).map (Value.rename ids frames)

theorem eq_map_of_optionRel {α β : Type} {R : α → β → Prop} {g : α → β}
    (hR : ∀ a b, R a b → b = g a) {x : Option α} {y : Option β} (h : Option.Rel R x y) :
    y = x.map g := by
  cases h with
  | none => rfl
  | some h => rw [hR _ _ h, Option.map_some]

namespace Eval

variable {first next size size' : Nat} {M : Matching}

theorem eq_rename_of_alike (hM : ∀ f f', M f f' → f' = shift size size' f) {v v' : Value}
    (h : v.Alike (shifted first next size size') M v') :
    v' = v.rename (shift first next) (shift size size') :=
  h.eq_rename (fun hl => hl) (fun hId => hId) hM

theorem renamed_of_alike (hM : ∀ f f', M f f' → f' = shift size size' f) {frame frame' : Frame}
    (h : frame.Alike (shifted first next size size') M frame') :
    frame.Renamed (shift first next) (shift size size') frame' := by
  constructor
  · exact eq_map_of_optionRel hM h.parent
  · exact h.hasBuiltins.symm
  · intro name
    refine eq_map_of_optionRel (fun v v' hv => ?_) (h.bindings name trivial)
    exact eq_rename_of_alike hM hv

/-- A machine whose heap has the frames of another one and perhaps more. -/
structure Later (m m' : Machine) : Prop where
  frame : ∀ f < m.heap.frames.size, m'.heap.frames[f]? = m.heap.frames[f]?
  size_le : m.heap.frames.size ≤ m'.heap.frames.size
  nextId_le : m.heap.nextId ≤ m'.heap.nextId
  depth : m'.depth = m.depth

theorem Later.alike {m m' : Machine} (h : Later m m') (hSound : m.heap.Sound)
    (hNumbered : m.heap.Numbered) :
    m.Alike (shifted m.heap.nextId m'.heap.nextId m.heap.frames.size m'.heap.frames.size)
      (fun f f' => f = f' ∧ f < m.heap.frames.size) m' := by
  refine ⟨?_, .inl h.depth.symm⟩
  refine hSound.alike_of_common ⟨fun _ => rfl, fun _ => trivial⟩ ?_ (fun _ _ => rfl) h.frame
    (fun k => (shift_add h.nextId_le k).symm) ⟨?_, fun k => (shift_add h.size_le k).symm, ?_, ?_⟩
  · intro f frame name v w id hFrame hv hPart hId
    exact (shift_of_lt (hNumbered f frame name v w id hFrame hv hPart hId) _).symm
  · rintro f _ ⟨rfl, hf⟩
    exact (shift_of_lt hf _).symm
  · exact fun f hf _ => ⟨f, rfl, hf⟩
  · exact fun _ _ hRight => hRight.elim

/-- An outcome is another one, renamed: it has the same error or the renamed value, and the heap has
as many frames and identities as the renaming gives it, and the renamed frames. -/
structure OutcomeRenamed (ids frames : Nat → Nat) (r r' : Except Error Value × Machine) : Prop where
  result : r'.1 = r.1.map (Value.rename ids frames)
  text : r'.1.map Value.render = r.1.map Value.render
  nextId : r'.2.heap.nextId = ids r.2.heap.nextId
  size : r'.2.heap.frames.size = frames r.2.heap.frames.size
  frame : ∀ (f : FrameId) (frame : Frame), r.2.heap.frames[f]? = some frame →
    ∃ frame', r'.2.heap.frames[frames f]? = some frame' ∧ frame.Renamed ids frames frame'

/-- The outcome of an evaluation from a later machine is that from the earlier one, renamed. -/
theorem rerun_renamed (limit : Nat) {env : FrameId} (e : Expr) {m m' : Machine} (h : Later m m')
    (hSound : m.heap.Sound) (hNumbered : m.heap.Numbered) (hEnv : env < m.heap.frames.size)
    (hBodies : m'.heap.BodiesWithin m'.heap.tallest) :
    OutcomeRenamed (shift m.heap.nextId m'.heap.nextId)
      (shift m.heap.frames.size m'.heap.frames.size)
      (evaluate limit env e m) (evaluate limit env e m') := by
  obtain ⟨M, _, hResult, hMachine⟩ := agrees_evaluate (fun hLenient => hLenient) limit
    (M := fun f f' => f = f' ∧ f < m.heap.frames.size) ⟨rfl, hEnv⟩
    (Expr.alike_refl ⟨fun _ => rfl, fun _ => trivial⟩ e) (h.alike hSound hNumbered)
    (.inr ⟨hSound.bodiesWithin, hBodies⟩)
  have hM : ∀ f f', M f f' → f' = shift m.heap.frames.size m'.heap.frames.size f :=
    fun f f' => hMachine.heap.keeps.pair
  generalize evaluate limit env e m = r, evaluate limit env e m' = r' at hResult hMachine
  refine ⟨?_, ?_, hMachine.heap.id 0, hMachine.heap.keeps.next 0, fun f frame hFrame => ?_⟩
  · generalize r.1 = x, r'.1 = x' at hResult
    cases hResult with
    | ok hv => exact congrArg Except.ok (eq_rename_of_alike hM hv)
    | error he => exact congrArg Except.error (he.eq fun hl => hl).symm
  · generalize r.1 = x, r'.1 = x' at hResult
    cases hResult with
    | ok hv => exact congrArg Except.ok hv.render_eq.symm
    | error he => exact congrArg Except.error (he.eq fun hl => hl).symm
  · have hf : f < r.2.heap.frames.size := (Array.getElem?_eq_some_iff.1 hFrame).1
    obtain ⟨f', hMatch⟩ := hMachine.heap.keeps.left f hf trivial
    have hAlike := hMachine.heap.frame hMatch
    rw [hM f f' hMatch, hFrame] at hAlike
    generalize r'.2.heap.frames[shift m.heap.frames.size m'.heap.frames.size f]? = y at hAlike ⊢
    cases hAlike with
    | some hAlike => exact ⟨_, rfl, renamed_of_alike hM hAlike⟩

/-- Let neither the expression nor a body in the heap have an assignment. An evaluation leaves every
frame as it was, whether it has a value or fails. Evaluating the expression again, in the same
frame, has the same outcome up to the frames and identities that each evaluation makes: the same
error at the same place, or the same value, with the same text. -/
theorem assignment_free_evaluation_is_pure (limit : Nat) {env : FrameId} {e : Expr}
    (he : e.AssignmentFree) {m : Machine} (hSound : m.heap.Sound) (hNumbered : m.heap.Numbered)
    (hEnv : env < m.heap.frames.size) (hBodies : ∀ b, m.heap.HasBody b → b.AssignmentFree) :
    let r := evaluate limit env e m
    let r' := evaluate limit env e r.2
    (∀ f < m.heap.frames.size, r.2.heap.frames[f]? = m.heap.frames[f]?) ∧
    OutcomeRenamed (shift m.heap.nextId r.2.heap.nextId)
      (shift m.heap.frames.size r.2.heap.frames.size) r r' := by
  intro r r'
  have hKept := frames_kept limit env he hBodies
  have hGrows := (families_evaluate limit env e m).1
  have hLater : Later m r.2 := ⟨hKept, hGrows.heap.size_le, hGrows.heap.nextId_le, hGrows.depth⟩
  have hBounds := bodiesWithin_evaluate limit env e hSound.bodiesWithin
  exact ⟨hKept, rerun_renamed limit e hLater hSound hNumbered hEnv hBounds⟩

end Eval

namespace World

/-- `(cons (unit nil) (lambda (y) y))`. -/
def unitAndIdentity : Expr :=
  .list none [.symbol none "cons", .list none [.symbol none "unit", .symbol none "nil"],
    .list none [.symbol none "lambda", .list none [.symbol none "y"], .symbol none "y"]]

theorem assignmentFree_unitAndIdentity : unitAndIdentity.AssignmentFree := by
  simp only [unitAndIdentity, Expr.assignmentFree_list_iff, Expr.assignmentFree_symbol,
    List.forall_mem_cons, List.not_mem_nil, false_imp_iff, implies_true]
  decide

/-- The procedure `(lambda (x) (cons x nil))`. -/
def unit : Value :=
  .procedure (.closure 0 ⟨⟨["x"], none⟩,
    [.list none [.symbol none "cons", .symbol none "x", .symbol none "nil"]]⟩ 1)

theorem assignmentFree_unitDefined : ∀ b, unitDefined.heap.HasBody b → b.AssignmentFree := by
  have hGlobal := (Regime.assignmentFree 0).holds_newGlobal trivial
  have hUnit : (Regime.assignmentFree 0).Fine (Heap.empty.newGlobal.2.noteHeight 3) unit := by
    intro e he
    rw [List.mem_singleton.1 he]
    simp only [Expr.assignmentFree_list_iff, Expr.assignmentFree_symbol, List.forall_mem_cons,
      List.not_mem_nil, false_imp_iff, implies_true]
    decide
  have hHeap : unitDefined.heap =
      { (Heap.empty.newGlobal.2.noteHeight 3).define 1 "unit" unit with nextId := 1 } := rfl
  have hHolds : (Regime.assignmentFree 0).Holds unitDefined.heap :=
    hHeap ▸ ((hGlobal.noteHeight 3).define 1 hUnit trivial).nextId 1
  exact hHolds.forall_hasBody (fun _ _ => trivial) fun h => h

open Eval in
/-- The value holds a pair and a procedure that the evaluation makes, and a list that a call makes.
Evaluated again, it has the same text. -/
theorem unitAndIdentity_is_pure :
    unitAndIdentity.AssignmentFree ∧ unitDefined.heap.Sound ∧ unitDefined.heap.Numbered ∧
    (∀ b, unitDefined.heap.HasBody b → b.AssignmentFree) ∧
    (∃ v, (evaluate 5 1 unitAndIdentity ⟨unitDefined.heap, 0⟩).1 = .ok v ∧
      v.render = "((nil) . <procedure (lambda (y))>)") ∧
    OutcomeRenamed (shift unitDefined.heap.nextId
        (evaluate 5 1 unitAndIdentity ⟨unitDefined.heap, 0⟩).2.heap.nextId)
      (shift unitDefined.heap.frames.size
        (evaluate 5 1 unitAndIdentity ⟨unitDefined.heap, 0⟩).2.heap.frames.size)
      (evaluate 5 1 unitAndIdentity ⟨unitDefined.heap, 0⟩)
      (evaluate 5 1 unitAndIdentity (evaluate 5 1 unitAndIdentity ⟨unitDefined.heap, 0⟩).2) := by
  obtain ⟨hSound, hNumbered⟩ := traces_unitDefined.sound_numbered
  have hEnv : 1 < unitDefined.heap.frames.size := by decide
  have hBodies := assignmentFree_unitDefined
  refine ⟨assignmentFree_unitAndIdentity, hSound, hNumbered, hBodies, ⟨_, rfl, by decide +kernel⟩,
    ?_⟩
  generalize unitDefined.heap = h at hSound hNumbered hEnv hBodies ⊢
  exact (assignment_free_evaluation_is_pure 5 (m := ⟨h, 0⟩) assignmentFree_unitAndIdentity hSound
    hNumbered hEnv hBodies).2

end World

end MiniScheme
