import MiniScheme.Proofs.PrintedExpr
import MiniScheme.Proofs.SoundSessions

/-!
# The names that programs define

Names come into a frame in five ways: by `define` of a name or of a procedure, as a parameter of a
procedure that is called, in a binding of a `let`, and by `set!`. The first four take a symbol of
the program, which is an atom that does not denote a number, and refuse the literals and the dot.
`set!` makes no such check: it only gives a name that a frame binds already a new value. It is also
the only one that reaches the root, because no expression of a program is evaluated there; so in the
root it meets the names of the built-in procedures and no others.

All this is a regime (`Regime.hygiene`), whose scope leaves the root out. What evaluation does to an
interpreter's state then carries over to the forms of a text, and to any sequence of texts.

## Main results

* `Regime.keeps_hygiene`: evaluation keeps the regime if the expression can be written.
* `Interpreter.State.Clean.program`: all forms of a text.
* `Session.binding_hygiene_of_texts`: what holds after any sequence of texts.
-/

namespace MiniScheme

/-! ## Names -/

/-- The name is an atom that is read as a symbol, and it has no fixed meaning. -/
structure Expr.IsName (name : String) : Prop where
  symbol : Number.ofChars? name.toList = none
  bindable : Form.isBindable name = true

theorem Expr.IsName.ofAtom_eq {name : String} (h : IsName name) (l : Option Location) :
    ofAtom l name = .symbol l name := by
  rw [ofAtom, h.symbol]

theorem Expr.IsName.not_mem_reserved {name : String} (h : IsName name) :
    name ∉ Form.reserved := by
  simpa [Form.isBindable] using h.bindable

theorem Expr.Readable.symbol_of_mentions {e : Expr} {name : String} (h : e.Readable)
    (hName : e.Mentions name) : Number.ofChars? name.toList = none := by
  cases h.of_mentions hName with
  | symbol _ _ hSymbol => exact hSymbol

theorem Builtin.isName (b : Builtin) : Expr.IsName b.name := by
  cases b with
  | compare comparison => cases comparison <;> exact ⟨by decide, by decide⟩
  | _ => exact ⟨by decide, by decide⟩

/-! ## The regime -/

/-- Procedures have names as parameters and bodies that can be written; frames define names, and the
root only names of built-in procedures. -/
def Regime.hygiene : Regime where
  base := 1
  closure _ code _ :=
    (∀ name ∈ code.formals.names, Expr.IsName name) ∧ ∀ e ∈ code.body, e.Readable
  frame _ _ := True
  link _ _ := True
  stop _ := True
  scope f := f ≠ 0
  name f name := Expr.IsName name ∧ (f = 0 → ∃ b : Builtin, b.name = name)
  closure_mono _ h := h
  frame_mono _ h := h
  frame_of_lt _ h := h
  frame_child _ h := h
  link_child h := h
  frame_parent _ h _ := h
  frame_closure _ := trivial
  stop_locate _ _ h := h
  stop_body _ _ := trivial
  scope_new h := Nat.ne_of_gt h
  name_new hCode hf hName := ⟨hCode.1 _ hName, fun hRoot => absurd hRoot (Nat.ne_of_gt hf)⟩
  name_builtin b := ⟨b.isName, fun _ => ⟨b, rfl⟩⟩

/-- Evaluation keeps the regime if the expression can be written. -/
theorem Regime.keeps_hygiene (limit : Option Nat) (fuel : Nat) :
    Regime.hygiene.Keeps (fun _ e => e.Readable) (Eval.run limit fuel) := by
  have hItem : ∀ {l : Option Location} {es : List Expr} {e : Expr},
      (Expr.list l es).Readable → e ∈ es → e.Readable := by
    intro l es e hList he
    cases hList with
    | list _ hItems => exact hItems e he
  have hPass : Regime.hygiene.Passes limit (fun _ e => e.Readable) (fun _ e => e.Readable) := by
    constructor
    case operand => exact fun hList he => hItem hList he
    case element => exact fun hList he => hItem hList he
    case body => exact fun _ _ hCode he => hCode.2 _ he
    case code =>
      intro d l es n code env hList hCode hMem hNames _
      refine ⟨fun name hName => ?_, fun e he => hItem hList (hMem e he)⟩
      exact ⟨hList.symbol_of_mentions (hNames name hName), hCode.bindable name hName⟩
    case name =>
      intro d e name env he hName hBindable hEnv
      exact ⟨⟨he.symbol_of_mentions hName, hBindable⟩, fun hRoot => absurd hRoot hEnv⟩
    case raised => exact fun _ _ => trivial
    case write => exact fun _ _ _ => trivial
    case assignable => exact fun _ _ => trivial
  exact @Regime.keeps_run Regime.hygiene limit (fun _ _ e => e.Readable) (fun _ _ _ => trivial)
    (fun _ => hPass) fuel

theorem Eval.hygiene_evaluate (limit : Nat) {env : FrameId} {e : Expr} {m : Machine}
    (hm : Regime.hygiene.Holds m.heap) (hSize : 0 < m.heap.frames.size) (hEnv : env ≠ 0)
    (he : e.Readable) :
    Regime.hygiene.Grows (note e m) (evaluate limit env e m).2 ∧
      Regime.hygiene.Holds (evaluate limit env e m).2.heap :=
  (Regime.keeps_hygiene (some limit) _ env e (note e m)
    ⟨hm.noteHeight e.height, trivial, hSize, hEnv⟩ he).outcome limit

/-! ## One root -/

namespace Heap

variable {h : Heap}

/-- The first frame is the only one without a parent, and the only one with the built-in
procedures. -/
structure OneRoot (h : Heap) : Prop where
  size_pos : 0 < h.frames.size
  parent : ∀ (f : FrameId) (frame : Frame), h.frames[f]? = some frame →
    (frame.parent = none ↔ f = 0)
  hasBuiltins : ∀ (f : FrameId) (frame : Frame), h.frames[f]? = some frame →
    (frame.hasBuiltins = true ↔ f = 0)

/-- Old frames stay as they are in this respect, and new ones are no roots. -/
theorem OneRoot.grow {R : Regime} {m m' : Machine} (hRoot : m.heap.OneRoot)
    (hGrows : R.Grows m m') : m'.heap.OneRoot := by
  have hFrames : ∀ (f : FrameId) (frame : Frame), m'.heap.frames[f]? = some frame →
      (frame.parent = none ↔ f = 0) ∧ (frame.hasBuiltins = true ↔ f = 0) := by
    intro f frame hFrame
    cases hOld : m.heap.frames[f]? with
    | some old =>
        obtain ⟨frame', hFrame', hParent, hBuiltins⟩ := hGrows.heap.frame f old hOld
        obtain rfl : frame = frame' := Option.some.inj (hFrame.symm.trans hFrame')
        rw [hParent, hBuiltins]
        exact ⟨hRoot.parent f old hOld, hRoot.hasBuiltins f old hOld⟩
    | none =>
        have hSize : m.heap.frames.size ≤ f := Array.getElem?_eq_none_iff.1 hOld
        have hNe : f ≠ 0 := Nat.ne_of_gt (Nat.lt_of_lt_of_le hRoot.size_pos hSize)
        obtain ⟨hParent, hBuiltins⟩ := hGrows.fresh f frame hSize hFrame
        refine ⟨iff_of_false (fun hNone => ?_) hNe, iff_of_false (fun hTrue => ?_) hNe⟩
        · rw [hNone] at hParent
          cases hParent
        · rw [hBuiltins] at hTrue
          cases hTrue
  exact ⟨Nat.lt_of_lt_of_le hRoot.size_pos hGrows.heap.size_le,
    fun f frame hFrame => (hFrames f frame hFrame).1,
    fun f frame hFrame => (hFrames f frame hFrame).2⟩

/-- A way ends with a frame that has no parent. -/
theorem Path.exists_root {f : FrameId} {fs : List FrameId} (hPath : h.Path f fs) :
    ∃ g ∈ fs, ∃ frame : Frame, h.frames[g]? = some frame ∧ frame.parent = none := by
  induction hPath with
  | @root f frame hFrame hParent => exact ⟨f, List.mem_singleton_self f, frame, hFrame, hParent⟩
  | child _ _ ih =>
      obtain ⟨g, hg, hRoot⟩ := ih
      exact ⟨g, List.mem_cons_of_mem _ hg, hRoot⟩

theorem exists_get?_of_mem_chain {f g : FrameId} {name : String} (hg : g ∈ h.chain f)
    (hLocal : (h.local? g name).isSome = true) : ∃ v, h.get? f name = some v := by
  cases hHome : h.home? f name with
  | none =>
      unfold home? at hHome
      exact absurd hLocal (List.find?_eq_none.1 hHome g hg)
  | some g' =>
      obtain ⟨v, hv⟩ := exists_local?_of_home? hHome
      exact ⟨v, by rw [get?, hHome]; exact hv⟩

/-- The built-in procedures are bound as seen from every frame. -/
theorem OneRoot.exists_get?_builtin (hRoot : h.OneRoot) (hSound : h.Sound) {f : FrameId}
    (hf : f < h.frames.size) (b : Builtin) : ∃ v, h.get? f b.name = some v := by
  obtain ⟨g, hg, frame, hFrame, hParent⟩ := (hSound.path_chain hf).exists_root
  have hBuiltins : frame.hasBuiltins = true :=
    (hRoot.hasBuiltins g frame hFrame).2 ((hRoot.parent g frame hFrame).1 hParent)
  refine exists_get?_of_mem_chain hg ?_
  rw [local?, hFrame]
  show (frame.get? b.name).isSome = true
  unfold Frame.get?
  cases frame.bindings.get? b.name with
  | some v => rfl
  | none => simp [hBuiltins, Builtin.ofName?_name]

end Heap

/-! ## Texts -/

namespace Interpreter.State

variable {s : State}

/-- The frames of the interpreter define names only, and the root, which is not the global frame,
those of built-in procedures. -/
structure Clean (s : State) : Prop where
  sound : s.Sound
  names : Regime.hygiene.Holds s.heap
  oneRoot : s.heap.OneRoot
  global_ne : s.interpreter.global ≠ 0

theorem clean_initial (limit : Nat) : (State.initial limit).Clean := by
  have hEmpty : Regime.hygiene.Holds Heap.empty :=
    ⟨by simp [Heap.empty], by simp [Heap.empty], by simp [Heap.empty]⟩
  have hRoot : Regime.hygiene.Holds Heap.empty.newRoot.2 := hEmpty.push rfl fun _ _ => trivial
  have hGlobal : Regime.hygiene.Holds Heap.empty.newGlobal.2 := hRoot.push rfl fun _ _ => trivial
  have hFrames : ∀ (f : Nat) (frame : Frame),
      Heap.empty.newGlobal.2.frames[f]? = some frame →
      f = 0 ∧ frame = ⟨none, .empty, true⟩ ∨ f = 1 ∧ frame = ⟨some 0, .empty, false⟩ := by
    intro f frame hFrame
    have hLt : f < 2 := (Array.getElem?_eq_some_iff.1 hFrame).1
    have hCases : f = 0 ∨ f = 1 := by omega
    rcases hCases with rfl | rfl
    · exact .inl ⟨rfl, (Option.some.inj hFrame).symm⟩
    · exact .inr ⟨rfl, (Option.some.inj hFrame).symm⟩
  have hOneRoot : Heap.empty.newGlobal.2.OneRoot := by
    refine ⟨by decide, fun f frame hFrame => ?_, fun f frame hFrame => ?_⟩
    · rcases hFrames f frame hFrame with ⟨rfl, rfl⟩ | ⟨rfl, rfl⟩ <;> simp
    · rcases hFrames f frame hFrame with ⟨rfl, rfl⟩ | ⟨rfl, rfl⟩ <;> simp
  have hGlobalNe : Heap.empty.newGlobal.1 ≠ 0 := by decide
  exact ⟨⟨Heap.sound_empty.newGlobal, Heap.lt_size_push _ _⟩, hGlobal, hOneRoot, hGlobalNe⟩

theorem Clean.evalExpr (hs : s.Clean) {e : Expr} (he : e.Readable) :
    (s.evalExpr s.interpreter.global e).2.Clean := by
  obtain ⟨hGrows, hNames⟩ := Eval.hygiene_evaluate s.interpreter.limit
    (m := s.machine) hs.names hs.oneRoot.size_pos hs.global_ne he
  have hNoted : (Eval.note e s.machine).heap.OneRoot :=
    ⟨hs.oneRoot.size_pos, hs.oneRoot.parent, hs.oneRoot.hasBuiltins⟩
  exact ⟨(yields_evalExpr hs.sound hs.sound.global_lt e).sound hs.sound, hNames,
    hNoted.grow hGrows, hs.global_ne⟩

/-- What was read from a text, if it is an expression, can be written. -/
def FromText (x : Except Error Expr) : Prop := ∀ e, x = .ok e → e.Readable

theorem Clean.evalRead (hs : s.Clean) {x : Except Error Expr} (hx : FromText x) :
    (s.evalRead s.interpreter.global x).2.Clean := by
  cases x with
  | error error => exact hs
  | ok e => exact hs.evalExpr (hx e rfl)

theorem Clean.eval (hs : s.Clean) (source : String) : (s.eval source).2.Clean :=
  hs.evalRead fun _ => Expr.readable_of_ofSource

theorem Clean.evalForms (items : List (Except Error Expr)) (hItems : ∀ x ∈ items, FromText x) :
    ∀ (s : State) (last : Option Value), s.Clean → (s.evalForms last items).2.Clean := by
  induction items with
  | nil => exact fun s last hs => hs
  | cons x items ih =>
      intro s last hs
      have hFirst := hs.evalRead (hItems x List.mem_cons_self)
      cases hRead : s.evalRead s.interpreter.global x with
      | mk result s' =>
          rw [hRead] at hFirst
          cases result with
          | error e =>
              simp only [State.evalForms, hRead]
              exact hFirst
          | ok v =>
              simp only [State.evalForms, hRead]
              exact ih (fun y hy => hItems y (List.mem_cons_of_mem _ hy)) s' (some v) hFirst

/-- All forms of a text, up to the one that fails. -/
theorem Clean.program (hs : s.Clean) (source : String) : (s.program source).2.Clean := by
  unfold State.program
  dsimp only
  split
  · exact hs
  · split
    · exact hs
    · refine Clean.evalForms _ (fun x hx e hEq => ?_) s none hs
      exact Expr.readable_of_mem_forms (hEq ▸ hx)

theorem Clean.evalFile (hs : s.Clean) (content : FileContent) : (s.evalFile content).2.Clean := by
  unfold State.evalFile
  split
  · exact hs
  · exact hs.eval _

/-- Whatever a name resolves to, it is a name. -/
theorem Clean.isName_of_get? (hs : s.Clean) {f : FrameId} {name : String} {v : Value}
    (hGet : s.heap.get? f name = some v) : Expr.IsName name := by
  obtain ⟨g, hHome, _⟩ := Option.bind_eq_some_iff.1 hGet
  exact (hs.names.name_of_home? trivial hHome).1

theorem evalExpr_symbol (s : State) (f : FrameId) (l : Option Location) (name : String) :
    (s.evalExpr f (.symbol l name)).1 = (Eval.outcome s.interpreter.limit
      (Eval.locate l (Eval.symbol f name)) (Eval.note (.symbol l name) s.machine)).1 := by
  have hPos : 0 < Eval.budget s.interpreter.limit s.interpreter.depth
      (s.heap.noteHeight (Expr.symbol l name).height).tallest :=
    Nat.mul_pos (Nat.succ_pos _) (Nat.lt_of_lt_of_le (Expr.height_pos _) (Nat.le_max_right _ _))
  obtain ⟨fuel, hFuel⟩ := Nat.exists_eq_succ_of_ne_zero (Nat.ne_of_gt hPos)
  show (Eval.outcome s.interpreter.limit (Eval.run (some s.interpreter.limit) (Eval.budget
    s.interpreter.limit s.interpreter.depth (s.heap.noteHeight _).tallest) f _) _).1 = _
  rw [hFuel]
  rfl

/-- A name that is bound has its value, if it has no fixed meaning. -/
theorem evalExpr_of_get? {f : FrameId} {name : String} {v : Value} (hName : Expr.IsName name)
    (hGet : s.heap.get? f name = some v) (l : Option Location) :
    (s.evalExpr f (.symbol l name)).1 = .ok v := by
  have hNames := hName.not_mem_reserved
  simp only [Form.reserved, List.mem_cons, not_or] at hNames
  have hNoted : (Eval.note (.symbol l name) s.machine).heap.get? f name = some v :=
    (s.heap.get?_noteHeight _ f name).trans hGet
  have hSymbol : Eval.symbol f name (Eval.note (.symbol l name) s.machine) =
      .ok v (Eval.note (.symbol l name) s.machine) := by
    rw [Eval.symbol, if_neg hNames.1, if_neg hNames.2.1, if_neg hNames.2.2.1, Eval.lookup,
      Heap.lookup, hNoted]
    rfl
  rw [evalExpr_symbol, Eval.outcome, Eval.locate, hSymbol]

theorem Clean.get?_eq_none (hs : s.Clean) (f : FrameId) {name : String}
    (hName : name ∈ Form.reserved) : s.heap.get? f name = none := by
  cases hGet : s.heap.get? f name with
  | none => rfl
  | some v => exact absurd hName (hs.isName_of_get? hGet).not_mem_reserved

/-- The dot has no value, and the error says so. -/
theorem Clean.evalExpr_dot (hs : s.Clean) (f : FrameId) (l : Option Location) :
    (s.evalExpr f (.symbol l ".")).1 = .error ⟨.unboundSymbol ".", l⟩ := by
  have hNoted : (Eval.note (.symbol l ".") s.machine).heap.get? f "." = none :=
    (s.heap.get?_noteHeight _ f ".").trans (hs.get?_eq_none f (by simp [Form.reserved]))
  have hSymbol : Eval.symbol f "." (Eval.note (.symbol l ".") s.machine) =
      .error (.error (.bare (.unboundSymbol "."))) (Eval.note (.symbol l ".") s.machine) := by
    rw [Eval.symbol, if_neg (by decide), if_neg (by decide), if_neg (by decide), Eval.lookup,
      Heap.lookup, hNoted]
    rfl
  rw [evalExpr_symbol, Eval.outcome, Eval.locate, hSymbol]
  rfl

end Interpreter.State

/-! ## Sessions -/

/-- The command runs a text or a file in the global frame. -/
def Command.IsText : Command → Prop
  | .eval _ | .program _ | .input _ | .file _ => True
  | _ => False

namespace Session

open Interpreter (State)

/-- The session after commands that are carried out in order, whether they fail or not. -/
def after (s : Session) (cs : List Command) : Session :=
  cs.foldl (fun s c => (s.step c).2) s

theorem clean_step {s : Session} (hs : s.state.Clean) {c : Command} (hc : c.IsText) :
    (s.step c).2.state.Clean := by
  cases c with
  | eval source => exact hs.eval source
  | program source => exact hs.program source
  | input source =>
      show (s.state.respond source).2.Clean
      rw [State.snd_respond]
      exact hs.program source
  | file content => exact hs.evalFile content
  | _ => cases hc

theorem clean_after (cs : List Command) :
    ∀ s : Session, s.state.Clean → (∀ c ∈ cs, c.IsText) → (s.after cs).state.Clean := by
  induction cs with
  | nil => exact fun s hs _ => hs
  | cons c cs ih =>
      intro s hs hcs
      exact ih _ (clean_step hs (hcs c List.mem_cons_self))
        fun c' hc' => hcs c' (List.mem_cons_of_mem _ hc')

/-- After any sequence of texts and files that a new interpreter has run in its global frame,
failing or not:

* every name that a frame defines is an atom that is read as a symbol, and none of the literals or
  the dot; if the frame is the root, it is the name of a built-in procedure;
* the names of the built-in procedures are bound as seen from every frame, and the literals and the
  dot as seen from none;
* so, in every frame, the literals denote what they always do, the dot has no value, and the name of
  every built-in procedure has one. -/
theorem binding_hygiene_of_texts (limit : Nat) (cs : List Command) (hTexts : ∀ c ∈ cs, c.IsText) :
    let s := ((initial limit).after cs).state
    (∀ (f : FrameId) (frame : Frame) (name : String) (v : Value), s.heap.frames[f]? = some frame →
      frame.bindings.get? name = some v →
        (∀ l, Expr.ofAtom l name = .symbol l name) ∧ name ∉ ["#t", "#f", "nil", "."] ∧
        (frame.hasBuiltins = true → ∃ b : Builtin, b.name = name)) ∧
    (∀ f < s.heap.frames.size, ∀ b : Builtin, ∃ v, s.heap.get? f b.name = some v) ∧
    (∀ f, ∀ name ∈ ["#t", "#f", "nil", "."], s.heap.get? f name = none) ∧
    (∀ f l, (s.evalExpr f (.symbol l "#t")).1 = .ok (.boolean true) ∧
      (s.evalExpr f (.symbol l "#f")).1 = .ok (.boolean false) ∧
      (s.evalExpr f (.symbol l "nil")).1 = .ok .nil ∧
      (s.evalExpr f (.symbol l ".")).1 = .error ⟨.unboundSymbol ".", l⟩) ∧
    ∀ f < s.heap.frames.size, ∀ l, ∀ b : Builtin,
      ∃ v, (s.evalExpr f (.symbol l b.name)).1 = .ok v := by
  intro s
  have hs : s.Clean := clean_after cs _ (State.clean_initial limit) hTexts
  have hBuiltin : ∀ f < s.heap.frames.size, ∀ b : Builtin, ∃ v, s.heap.get? f b.name = some v :=
    fun f hf => hs.oneRoot.exists_get?_builtin hs.sound.heap hf
  refine ⟨fun f frame name v hFrame hv => ?_, hBuiltin, fun f name => hs.get?_eq_none f,
    fun f l => ⟨?_, ?_, ?_, hs.evalExpr_dot f l⟩, fun f hf l b => ?_⟩
  · obtain ⟨hName, hRoot⟩ := hs.names.named f frame name v hFrame trivial hv
    exact ⟨hName.ofAtom_eq, hName.not_mem_reserved,
      fun hBuiltins => hRoot ((hs.oneRoot.hasBuiltins f frame hFrame).1 hBuiltins)⟩
  · rw [State.evalExpr_symbol]
    rfl
  · rw [State.evalExpr_symbol]
    rfl
  · rw [State.evalExpr_symbol]
    rfl
  · obtain ⟨v, hv⟩ := hBuiltin f hf b
    exact ⟨v, State.evalExpr_of_get? b.isName hv l⟩

/-- A program that gives `+` a new value, defines a procedure and fails at the definition of a
literal, and a file that is not there. -/
def hostileTexts : List Command :=
  [.program "(set! + 3) (define (f . args) (let ((y args)) y)) (define #t 1)",
    .input "(f 1 2)", .file (.error .notFound)]

/-- The root then defines `+`, which is the name of a built-in procedure, and the frame of `f`
defines its parameter. All the same, `+` has a value and `#t` is true. -/
theorem binding_hygiene_of_hostileTexts :
    (∀ c ∈ hostileTexts, c.IsText) ∧ ∃ s, ((initial 9).after hostileTexts).state = s ∧
    (∃ root v, s.heap.frames[0]? = some root ∧ root.hasBuiltins = true ∧
      root.bindings.get? "+" = some v ∧ ∃ b : Builtin, b.name = "+") ∧
    (∃ frame v, s.heap.frames[2]? = some frame ∧ frame.bindings.get? "args" = some v ∧
      ∀ l, Expr.ofAtom l "args" = .symbol l "args") ∧
    (∃ v, s.heap.get? 3 Builtin.add.name = some v) ∧
    (s.evalExpr 3 (.symbol none "#t")).1 = .ok (.boolean true) := by
  have hTexts : ∀ c ∈ hostileTexts, c.IsText := by
    intro c hc
    simp only [hostileTexts, List.mem_cons, List.not_mem_nil, or_false] at hc
    rcases hc with rfl | rfl | rfl <;> trivial
  have hRoot : (((initial 9).after hostileTexts).state.heap.frames[0]?.map fun frame =>
      (frame.hasBuiltins, (frame.bindings.get? "+").isSome)) = some (true, true) := by
    decide +kernel
  have hFrame : (((initial 9).after hostileTexts).state.heap.frames[2]?.map fun frame =>
      (frame.bindings.get? "args").isSome) = some true := by
    decide +kernel
  have hSize : 3 < ((initial 9).after hostileTexts).state.heap.frames.size := by decide +kernel
  have hHygiene := binding_hygiene_of_texts 9 hostileTexts hTexts
  refine ⟨hTexts, _, rfl, ?_⟩
  generalize ((initial 9).after hostileTexts).state = s at hRoot hFrame hSize hHygiene ⊢
  obtain ⟨hNames, hBuiltins, -, hLiterals, -⟩ := hHygiene
  obtain ⟨root, hRoot, hDefines⟩ := Option.map_eq_some_iff.1 hRoot
  obtain ⟨hHas, hPlus⟩ := Prod.mk.inj hDefines
  obtain ⟨v, hv⟩ := Option.isSome_iff_exists.1 hPlus
  obtain ⟨frame, hFrame, hArgs⟩ := Option.map_eq_some_iff.1 hFrame
  obtain ⟨w, hw⟩ := Option.isSome_iff_exists.1 hArgs
  exact ⟨⟨root, v, hRoot, hHas, hv, (hNames 0 root "+" v hRoot hv).2.2 hHas⟩,
    ⟨frame, w, hFrame, hw, (hNames 2 frame "args" w hFrame hw).1⟩, hBuiltins 3 hSize .add,
    (hLiterals 3 none).1⟩

end Session

end MiniScheme
