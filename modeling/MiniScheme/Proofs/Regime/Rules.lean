import MiniScheme.Proofs.Regime

/-!
# The rules of evaluation respect every regime

Each rule of evaluation asks the evaluator it is given for the values of expressions inside the
expression at hand, or inside the body of a procedure that is called. `Regime.Passes` says what
has to hold of these for the rules to keep a regime, of the names that the expression mentions, and
of the errors that it raises. Which expressions may be asked for may depend on the number of active
procedure bodies, so that a bound on the depth of recursion can be carried along.

An error that an expression raises has no place until the rule for the expression is at its end.
`Regime.StopAt` is the condition in between.

## Main results

* `Regime.safe_applyProcedure`: a call keeps the regime.
* `Regime.keeps_rules`: one application of the rules.
* `Regime.keeps_run`: evaluation with any amount of fuel.
-/

namespace MiniScheme.Regime

open Eval

variable {R : Regime} {stop : Stop → Prop} {limit : Option Nat} {self : Evaluator}
  {outer inner : Nat → Expr → Prop}

/-! ## Evaluators that keep a regime -/

/-- A machine and a frame from which evaluation may start. -/
structure Ready (R : Regime) (m : Machine) (env : FrameId) : Prop where
  holds : R.Holds m.heap
  frame : R.frame m.heap.frames.size env
  base_le : R.base ≤ m.heap.frames.size
  scope : R.scope env

theorem Ready.grow {m m' : Machine} {env : FrameId} (h : R.Ready m env) (hGrows : R.Grows m m')
    (hHolds : R.Holds m'.heap) : R.Ready m' env :=
  ⟨hHolds, R.frame_mono hGrows.heap.size_le h.frame,
    Nat.le_trans h.base_le hGrows.heap.size_le, h.scope⟩

/-- Evaluating an expression that may be asked for keeps the regime, and ends in one of the given
ways if it has no value. -/
def EndsAll (R : Regime) (stop : Stop → Prop) (asked : Nat → Expr → Prop) (self : Evaluator) :
    Prop :=
  ∀ env e m, R.Ready m env → asked m.depth e → R.Ends stop m R.Fine (self env e m)

/-- Evaluating an expression that may be asked for keeps the regime. -/
abbrev Keeps (R : Regime) (asked : Nat → Expr → Prop) (self : Evaluator) : Prop :=
  R.EndsAll R.stop asked self

theorem EndsAll.mono {stop stop' : Stop → Prop} {asked : Nat → Expr → Prop}
    (h : R.EndsAll stop asked self) (hStop : ∀ s, stop s → stop' s) : R.EndsAll stop' asked self :=
  fun env e m hm he => (h env e m hm he).mono hStop

/-- With so many active bodies all of the expressions may be asked for. -/
def AllAsked (asked : Nat → Expr → Prop) (depth : Nat) (es : List Expr) : Prop :=
  ∀ e ∈ es, asked depth e

theorem AllAsked.grow {asked : Nat → Expr → Prop} {m m' : Machine} {es : List Expr}
    (h : AllAsked asked m.depth es) (hGrows : R.Grows m m') : AllAsked asked m'.depth es := by
  rw [hGrows.depth]
  exact h

/-- Where the `outer` expressions may be evaluated by the rules, the `inner` ones may be asked
for. -/
structure Passes (R : Regime) (limit : Option Nat) (outer inner : Nat → Expr → Prop) : Prop where
  operand : ∀ {d l es e}, outer d (.list l es) → e ∈ es → inner d e
  element : ∀ {d l es e}, inner d (.list l es) → e ∈ es → inner d e
  body : ∀ {d l es n code f e}, outer d (.list l es) → admits limit d = true →
    R.closure n code f → e ∈ code.body → inner (d + 1) e
  code : ∀ {d l es n code env}, outer d (.list l es) → code.WellFormed →
    (∀ e ∈ code.body, e ∈ es) → (∀ name ∈ code.formals.names, (Expr.list l es).Mentions name) →
    R.frame n env → R.closure n code env
  name : ∀ {d e name env}, outer d e → e.Mentions name → Form.isBindable name = true →
    R.scope env → R.name env name
  raised : ∀ {d e error}, outer d e → error.RaisedAt e → R.stop (.error error)
  write : ∀ {d e keyword operands f}, outer d e → e.HasKeyword keyword operands → keyword.Assigns →
    R.writable f := by intros; trivial
  assignable : ∀ {d e name}, outer d e → e.Mentions name → R.assignable name := by intros; trivial

/-- How a rule may end for the expression: with an end that the regime allows, or with an error that
the expression raises and that has no place yet. -/
def StopAt (R : Regime) (e : Expr) (s : Stop) : Prop :=
  R.stop s ∨ ∃ cause : Cause, s = .error (.bare cause) ∧ cause.RaisedBy e

theorem EndsAll.stopAt {asked : Nat → Expr → Prop} (h : R.Keeps asked self) (e : Expr) :
    R.EndsAll (R.StopAt e) asked self :=
  h.mono fun _ => .inl

/-! ## Several expressions -/

section Sequences

variable {env : FrameId} (hself : R.EndsAll stop inner self)
include hself

theorem safe_eachFrom (es : List Expr) :
    ∀ (done : List Value) (m : Machine), R.Ready m env → AllAsked inner m.depth es →
      R.AllFine m.heap done → R.Ends stop m R.AllFine (eachFrom self env done es m) := by
  induction es with
  | nil =>
      intro done m hm _ hDone
      exact safe_pure hm.holds fun v hv => hDone v (List.mem_reverse.1 hv)
  | cons e es ih =>
      intro done m hm hes hDone
      refine (hself env e m hm (hes e (by simp))).bind fun v m' hGrows hHolds hv => ?_
      refine ih (v :: done) m' (hm.grow hGrows hHolds) ?_ ?_
      · exact AllAsked.grow (fun e' he' => hes e' (by simp [he'])) hGrows
      · intro w hw
        rcases List.mem_cons.1 hw with rfl | hw
        · exact hv
        · exact (hDone w hw).grow hGrows.heap

theorem safe_each {es : List Expr} {m : Machine} (hm : R.Ready m env)
    (hes : AllAsked inner m.depth es) : R.Ends stop m R.AllFine (each self env es m) :=
  safe_eachFrom hself es [] m hm hes (by simp [AllFine])

theorem safe_body (es : List Expr) :
    ∀ m : Machine, R.Ready m env → AllAsked inner m.depth es →
      (es = [] → stop (.error (.bare Cause.emptyBody))) →
      R.Ends stop m R.Fine (body self env es m) := by
  induction es with
  | nil => intro m hm _ hStop; exact ⟨.refl m, hm.holds, hStop rfl⟩
  | cons e es ih =>
      intro m hm hes _
      cases es with
      | nil => exact hself env e m hm (hes e (by simp))
      | cons e' es =>
          refine (hself env e m hm (hes e (by simp))).bind fun v m' hGrows hHolds _ => ?_
          refine ih m' (hm.grow hGrows hHolds) ?_ (by simp)
          exact AllAsked.grow (fun e'' he'' => hes e'' (by simp [he''])) hGrows

/-- Expressions are evaluated until the value of one passes a test. -/
theorem safe_scan {scan : List Expr → Eval Value} {test : Value → Bool} {b b' : Bool}
    (hNil : scan [] = pure (.boolean b))
    (hCons : ∀ e es, scan (e :: es) =
      self env e >>= fun v => if test v then pure (.boolean b') else scan es)
    (es : List Expr) :
    ∀ m : Machine, R.Ready m env → AllAsked inner m.depth es →
      R.Ends stop m R.Fine (scan es m) := by
  induction es with
  | nil =>
      intro m hm _
      rw [hNil]
      exact safe_pure hm.holds trivial
  | cons e es ih =>
      intro m hm hes
      rw [hCons]
      refine (hself env e m hm (hes e (by simp))).bind fun v m' hGrows hHolds _ => ?_
      split
      · exact safe_pure hHolds trivial
      · refine ih m' (hm.grow hGrows hHolds) ?_
        exact AllAsked.grow (fun e' he' => hes e' (by simp [he'])) hGrows

theorem safe_conjunction {es : List Expr} {m : Machine} (hm : R.Ready m env)
    (hes : AllAsked inner m.depth es) : R.Ends stop m R.Fine (conjunction self env es m) :=
  safe_scan hself rfl (fun _ _ => rfl) es m hm hes

theorem safe_disjunction {es : List Expr} {m : Machine} (hm : R.Ready m env)
    (hes : AllAsked inner m.depth es) : R.Ends stop m R.Fine (disjunction self env es m) :=
  safe_scan hself rfl (fun _ _ => rfl) es m hm hes

theorem safe_bindings (hPass : R.Passes limit outer inner) {innerEnv : FrameId} {whole : Expr}
    (hWhole : stop (.error (.bare (.malformedForm whole.render)))) (es : List Expr)
    (hNames : ∀ e ∈ es, ∀ name, e.Mentions name → Form.isBindable name = true →
      R.name innerEnv name ∧ R.assignable name) :
    ∀ m : Machine, R.Ready m env → R.Open m.heap innerEnv →
      AllAsked inner m.depth es → R.Ends stop m Any (bindings self env innerEnv whole es m) := by
  induction es with
  | nil => intro m hm _ _; exact safe_pure hm.holds trivial
  | cons e es ih =>
      intro m hm hInner hes
      cases hBinding : Form.binding? e with
      | none =>
          simp only [bindings, hBinding]
          exact safe_fail hm.holds hWhole
      | some entry =>
          obtain ⟨name, value⟩ := entry
          simp only [bindings, hBinding]
          obtain ⟨hBindable, hMentions⟩ := Form.introduced_of_binding? hBinding
          obtain ⟨hName, hAssignable⟩ := hNames e (by simp) name hMentions hBindable
          obtain ⟨l, items, rfl, hValue⟩ := Form.mem_of_binding? hBinding
          have hAsked : inner m.depth value :=
            hPass.element (hes (.list l items) (by simp)) hValue
          refine (hself env value m hm hAsked).bind fun v m' hGrows hHolds hv => ?_
          have hInner' := hInner.grow hGrows.heap
          refine (safe_define hHolds hInner' hName hAssignable hv).bind
            fun _ m'' hGrows' hHolds' _ => ?_
          refine ih (fun e' he' => hNames e' (by simp [he'])) m''
            (hm.grow (hGrows.trans hGrows') hHolds') (hInner'.grow hGrows'.heap) ?_
          exact AllAsked.grow (fun e' he' => hes e' (by simp [he'])) (hGrows.trans hGrows')

end Sequences

/-! ## Calls -/

theorem safe_bindArguments {formals : Formals} {args : List Value} {m : Machine}
    (hm : R.Holds m.heap) (hArgs : R.AllFine m.heap args) :
    R.Ends stop m (fun h entries => R.EntriesFine h entries ∧ ∀ entry ∈ entries,
      entry.1 ∈ formals.names) (bindArguments formals args m) := by
  have hFixed : ∀ entry ∈ formals.fixed.zip args, R.Fine m.heap entry.2 :=
    fun entry hEntry => hArgs entry.2 (List.of_mem_zip hEntry).2
  have hNames : ∀ entry ∈ formals.fixed.zip args, entry.1 ∈ formals.names :=
    fun entry hEntry => List.mem_append_left _ (List.of_mem_zip hEntry).1
  cases hRest : formals.rest with
  | none =>
      simp only [bindArguments_eq, hRest]
      exact safe_pure hm ⟨hFixed, hNames⟩
  | some rest =>
      simp only [bindArguments_eq, hRest]
      have hOthers : R.AllFine m.heap (args.drop formals.fixed.length) :=
        fun v hv => hArgs v (List.mem_of_mem_drop hv)
      refine (safe_chain hm hOthers).bind fun others m' hGrows hHolds hFine => ?_
      refine safe_pure hHolds ⟨fun entry hEntry => ?_, fun entry hEntry => ?_⟩
      · rcases List.mem_append.1 hEntry with hEntry | hEntry
        · exact (hFixed entry hEntry).grow hGrows.heap
        · obtain rfl : entry = (rest, others) := by simpa using hEntry
          exact hFine
      · rcases List.mem_append.1 hEntry with hEntry | hEntry
        · exact hNames entry hEntry
        · obtain rfl : entry = (rest, others) := by simpa using hEntry
          simp [Formals.names, hRest]

/-- A call keeps the regime, if the expressions of the body may be asked for with one more active
body. -/
theorem safe_applyProcedure (hself : R.EndsAll stop inner self) {p : Procedure} {args : List Value}
    {m : Machine} (hm : R.Holds m.heap) (hBase : R.base ≤ m.heap.frames.size)
    (hp : p.All (R.closure m.heap.frames.size)) (hArgs : R.AllFine m.heap args)
    (hBody : ∀ n code f, R.closure n code f → admits limit m.depth = true →
      AllAsked inner (m.depth + 1) code.body)
    (hStop : ∀ s, R.stop s → stop s)
    (hCall : ∀ cause : Cause, cause.OfCall → stop (.error (.bare cause))) :
    R.Ends stop m R.Fine (applyProcedure limit self p args m) := by
  unfold applyProcedure
  split
  · cases p with
    | builtin b => exact safe_callBuiltin hm hArgs fun cause hCause => hCall cause (.inl hCause)
    | closure id code f =>
        refine safe_nested hm (fun most => hCall _ (.inr ⟨most, rfl⟩)) fun hAdmits => ?_
        unfold enterBody
        refine (safe_newChild (m := enter m) hm hBase (R.frame_closure hp)).bind
          fun child m₁ hGrows₁ hHolds₁ hChild => ?_
        have hNew := hChild.2
        refine (safe_bindArguments hHolds₁ (AllFine.grow hArgs hGrows₁.heap)).bind
          fun entries m₂ hGrows₂ hHolds₂ hEntries => ?_
        obtain ⟨hEntries, hParameters⟩ := hEntries
        have hNames : ∀ entry ∈ entries, R.name child entry.1 ∧ R.assignable entry.1 :=
          fun entry hEntry => ⟨R.name_new hp hNew (hParameters entry hEntry),
            R.assignable_new hp (hParameters entry hEntry)⟩
        have hChild₂ := hChild.isOpen.grow hGrows₂.heap
        refine (safe_defineAll hHolds₂ hChild₂ hNames hEntries).bind
          fun _ m₃ hGrows₃ hHolds₃ _ => ?_
        have hGrows := hGrows₁.trans (hGrows₂.trans hGrows₃)
        refine safe_body hself code.body m₃ ⟨hHolds₃, ?_, ?_, R.scope_new hNew⟩ ?_
          fun hNil => hStop _ (R.stop_body hp hNil)
        · exact (hChild₂.grow hGrows₃.heap).1
        · exact Nat.le_trans hBase hGrows.heap.size_le
        · exact AllAsked.grow (m := enter m) (hBody _ code f hp hAdmits) hGrows
  · exact safe_fail hm (hCall _ (.inl (.inr ⟨_, _, rfl⟩)))

theorem safe_callee {location : Option Location} {v : Value} {m : Machine} (hm : R.Holds m.heap)
    (hv : R.Fine m.heap v) (hStop : ∀ text, stop (.error ⟨.notCallable text, location⟩)) :
    R.Ends stop m (fun h p => p.All (R.closure h.frames.size)) (callee location v m) := by
  cases v with
  | procedure p => exact safe_pure hm hv
  | _ => exact ⟨.refl m, hm, hStop _⟩

theorem safe_call (hPass : R.Passes limit outer inner) (hself : R.Keeps inner self)
    {env : FrameId} {l : Option Location} {head : Expr} {operands : List Expr} {m : Machine}
    (hm : R.Ready m env) (hOuter : outer m.depth (.list l (head :: operands)))
    (hHead : head.keyword? = none) :
    R.Ends (R.StopAt (.list l (head :: operands))) m R.Fine
      (call limit self env head operands m) := by
  replace hself := hself.stopAt (.list l (head :: operands))
  have hCall : (Expr.list l (head :: operands)).IsCall head := .list hHead
  unfold call
  refine (hself env head m hm (hPass.operand hOuter (by simp))).bind
    fun v m₁ hGrows₁ hHolds₁ hv => ?_
  refine (safe_callee hHolds₁ hv fun text => .inl (hPass.raised hOuter (.head hCall text))).bind
    fun p m₂ hGrows₂ hHolds₂ hp => ?_
  have hGrows₁₂ := hGrows₁.trans hGrows₂
  have hOperands : AllAsked inner m₂.depth operands :=
    AllAsked.grow (fun e he => hPass.operand hOuter (by simp [he])) hGrows₁₂
  refine (safe_each hself (hm.grow hGrows₁₂ hHolds₂) hOperands).bind
    fun args m₃ hGrows₃ hHolds₃ hArgs => ?_
  have hGrows := hGrows₁₂.trans hGrows₃
  have hDepth : m₃.depth = m.depth := hGrows.depth
  have hBase := Nat.le_trans hm.base_le hGrows.heap.size_le
  refine safe_applyProcedure hself hHolds₃ hBase ?_ hArgs ?_ (fun _ => .inl)
    fun cause hCause => .inr ⟨cause, rfl, hCause.raisedBy hCall⟩
  · cases p with
    | builtin b => trivial
    | closure id code f => exact R.closure_mono hGrows₃.heap.size_le hp
  · intro n code f hCode hAdmits e he
    rw [hDepth] at hAdmits ⊢
    exact hPass.body hOuter hAdmits hCode he

/-! ## Special forms -/

theorem safe_form (hPass : R.Passes limit outer inner) (hself : R.Keeps inner self)
    {env : FrameId} {l : Option Location} {head : Expr} {operands : List Expr} {m : Machine}
    {keyword : Keyword} {parts : Form} (hm : R.Ready m env)
    (hOuter : outer m.depth (.list l (head :: operands)))
    (hHead : head.keyword? = some keyword) (hRead : Form.Reads keyword operands parts) :
    R.Ends (R.StopAt (.list l (head :: operands))) m R.Fine
      (form self env (.list l (head :: operands)) parts m) := by
  replace hself := hself.stopAt (.list l (head :: operands))
  have hParts := hRead.within
  have hIntroduces := hRead.introduces
  have hForm : (Expr.list l (head :: operands)).HasKeyword keyword operands := .list hHead
  have hOpen : ∀ {h : Heap}, R.frame h.frames.size env → keyword.Assigns → R.Open h env :=
    fun hFrame hAssigns => ⟨hFrame, hPass.write hOuter hForm hAssigns⟩
  have hAsked : ∀ e ∈ operands, inner m.depth e := fun e he =>
    hPass.operand hOuter (by simp [he])
  have hMentions : ∀ {name : String}, (∃ e ∈ operands, e.Mentions name) →
      (Expr.list l (head :: operands)).Mentions name := fun ⟨_, he, hName⟩ =>
    .list (List.mem_cons_of_mem _ he) hName
  have hName : ∀ {name : String}, Form.Introduced operands name → R.name env name :=
    fun hName => hPass.name hOuter (hMentions hName.2) hName.1 hm.scope
  have hAssignable : ∀ {name : String}, (∃ e ∈ operands, e.Mentions name) → R.assignable name :=
    fun hName => hPass.assignable hOuter (hMentions hName)
  have hMake : ∀ {code : Lambda}, code.WellFormed → (∀ e ∈ code.body, e ∈ operands) →
      (∀ name ∈ code.formals.names, ∃ e ∈ operands, e.Mentions name) →
      R.closure m.heap.frames.size code env := fun hCode hMem hFormals =>
    hPass.code hOuter hCode (fun e he => List.mem_cons_of_mem _ (hMem e he))
      (fun name h => hMentions (hFormals name h)) hm.frame
  cases hRead with
  | @define _ value =>
      refine (hself env value m hm (hAsked value hParts)).bind fun v m₁ hGrows₁ hHolds₁ hv => ?_
      have hEnv₁ := hOpen (R.frame_mono hGrows₁.heap.size_le hm.frame) (.inl rfl)
      refine (safe_define hHolds₁ hEnv₁ (hName hIntroduces) (hAssignable hIntroduces.2) hv).bind
        fun _ m₂ hGrows₂ hHolds₂ _ => ?_
      exact safe_pure hHolds₂ (hv.grow hGrows₂.heap)
  | procedure =>
      refine (safe_closure hm.holds (hMake hParts.1 hParts.2 hIntroduces.2)).bind
        fun v m₁ hGrows₁ hHolds₁ hv => ?_
      have hEnv₁ := hOpen (R.frame_mono hGrows₁.heap.size_le hm.frame) (.inl rfl)
      refine (safe_define hHolds₁ hEnv₁ (hName hIntroduces.1) (hAssignable hIntroduces.1.2) hv).bind
        fun _ m₂ hGrows₂ hHolds₂ _ => ?_
      exact safe_pure hHolds₂ (hv.grow hGrows₂.heap)
  | lambda => exact safe_closure hm.holds (hMake hParts.1 hParts.2 hIntroduces)
  | @branch test consequent alternative =>
      refine (hself env test m hm (hAsked test hParts.1)).bind fun v m₁ hGrows₁ hHolds₁ _ => ?_
      have hReady := hm.grow hGrows₁ hHolds₁
      split
      · exact hself env consequent m₁ hReady (hGrows₁.depth ▸ hAsked consequent hParts.2.1)
      · exact hself env alternative m₁ hReady (hGrows₁.depth ▸ hAsked alternative hParts.2.2)
  | sequence =>
      exact safe_body hself _ m hm (fun e he => hAsked e (hParts.2 e he))
        fun hNil => absurd hNil hParts.1
  | conjunction =>
      exact safe_conjunction hself hm fun e he => hAsked e (hParts e he)
  | disjunction =>
      exact safe_disjunction hself hm fun e he => hAsked e (hParts e he)
  | @bind l' es inside first =>
      obtain ⟨_, hInside, hMem⟩ := hParts
      have hList : .list l' es ∈ Expr.list l' es :: first :: inside := List.mem_cons_self
      refine (safe_newChild hm.holds hm.base_le hm.frame).bind
        fun child m₁ hGrows₁ hHolds₁ hChild => ?_
      have hNew := hChild.2
      have hText : R.StopAt (.list l (head :: .list l' es :: first :: inside))
          (.error (.bare (.malformedForm
            (Expr.list l (head :: .list l' es :: first :: inside)).render))) :=
        .inr ⟨_, rfl, ⟨_, _, hForm⟩, rfl⟩
      have hBindings : AllAsked inner m.depth es := fun e he =>
        hPass.element (hAsked _ hList) he
      have hNames : ∀ e ∈ es, ∀ name, e.Mentions name → Form.isBindable name = true →
          R.name child name ∧ R.assignable name := fun e he name hIn hBindable =>
        ⟨hPass.name hOuter (hMentions ⟨_, hList, .list he hIn⟩) hBindable (R.scope_new hNew),
          hAssignable ⟨_, hList, .list he hIn⟩⟩
      have hReady := hm.grow hGrows₁ hHolds₁
      refine (safe_bindings hself hPass hText es hNames m₁ hReady hChild.isOpen
        (hBindings.grow hGrows₁)).bind fun _ m₂ hGrows₂ hHolds₂ _ => ?_
      have hReady₂ : R.Ready m₂ child :=
        ⟨hHolds₂, R.frame_mono hGrows₂.heap.size_le hChild.1, (hReady.grow hGrows₂ hHolds₂).base_le,
          R.scope_new hNew⟩
      refine safe_body hself (first :: inside) m₂ hReady₂ ?_ fun hNil => absurd hNil hInside
      exact AllAsked.grow (fun e he => hAsked e (hMem e he)) (hGrows₁.trans hGrows₂)
  | @set target value name hTarget =>
      have hUnbound : (Cause.unboundSymbol name).RaisedBy (.list l [head, target, value]) :=
        .inr ⟨target, _, hForm, (Option.filter_eq_some_iff.1 hTarget).1⟩
      have hWrite : ∀ f, R.writable f := fun f => hPass.write hOuter hForm (.inr (.inl rfl))
      refine (hself env value m hm (hAsked value hParts)).bind fun v m₁ hGrows₁ hHolds₁ hv => ?_
      have hEnv₁ := R.frame_mono hGrows₁.heap.size_le hm.frame
      have hTargetName := hAssignable ⟨target, by simp, Form.mentions_of_bindable? hTarget⟩
      refine (safe_set hHolds₁ hEnv₁ hWrite hTargetName hv (.inr ⟨_, rfl, hUnbound⟩)).bind
        fun _ m₂ hGrows₂ hHolds₂ _ => ?_
      exact safe_pure hHolds₂ (hv.grow hGrows₂.heap)
  | @delete target name hTarget =>
      have hMissing : (Cause.notLocallyBound name).RaisedBy (.list l [head, target]) :=
        ⟨target, hForm, (Option.filter_eq_some_iff.1 hTarget).1⟩
      have hTargetName := hAssignable ⟨target, by simp, Form.mentions_of_bindable? hTarget⟩
      exact safe_delete hm.holds (hOpen hm.frame (.inr (.inr rfl))) hTargetName
        (.inr ⟨_, rfl, hMissing⟩)
  | @pair car cdr =>
      refine (hself env car m hm (hAsked car hParts.1)).bind fun a m₁ hGrows₁ hHolds₁ ha => ?_
      refine (hself env cdr m₁ (hm.grow hGrows₁ hHolds₁)
        (hGrows₁.depth ▸ hAsked cdr hParts.2)).bind fun d m₂ hGrows₂ hHolds₂ hd => ?_
      exact safe_cons hHolds₂ (ha.grow hGrows₂.heap) hd
  | list =>
      refine (safe_each hself hm fun e he => hAsked e (hParts e he)).bind
        fun vs m₁ _ hHolds₁ hvs => ?_
      exact safe_chain hHolds₁ hvs

/-! ## Expressions -/

theorem safe_symbol {env : FrameId} {m : Machine} (name : String) (hm : R.Ready m env)
    (hUnbound : stop (.error (.bare (.unboundSymbol name)))) :
    R.Ends stop m R.Fine (symbol env name m) := by
  unfold symbol
  split
  · exact safe_pure hm.holds trivial
  · split
    · exact safe_pure hm.holds trivial
    · split
      · exact safe_pure hm.holds trivial
      · exact safe_lookup hm.holds hm.frame hUnbound

theorem safe_expression (hPass : R.Passes limit outer inner) (hself : R.Keeps inner self)
    {env : FrameId} {e : Expr} {m : Machine} (hm : R.Ready m env) (hOuter : outer m.depth e) :
    R.Ends (R.StopAt e) m R.Fine (expression limit self env e m) := by
  cases e with
  | number l n => exact safe_pure hm.holds trivial
  | symbol l name => exact safe_symbol name hm (.inr ⟨_, rfl, .inl rfl⟩)
  | list l es =>
      cases es with
      | nil => exact safe_fail hm.holds (.inr ⟨_, rfl, l, rfl⟩)
      | cons head operands =>
          show R.Ends _ m R.Fine
            (combination limit self env (.list l (head :: operands)) head operands m)
          cases hKeyword : head.keyword? with
          | none =>
              simp only [combination, hKeyword]
              exact safe_call hPass hself hm hOuter hKeyword
          | some keyword =>
              cases hRead : Form.read? keyword operands with
              | none =>
                  simp only [combination, hKeyword, hRead]
                  exact safe_fail hm.holds (.inr ⟨_, rfl, ⟨_, _, .list hKeyword⟩, rfl⟩)
              | some parts =>
                  simp only [combination, hKeyword, hRead]
                  exact safe_form hPass hself hm hOuter hKeyword (Form.reads_of_read? hRead)

/-- The rules keep a regime if the evaluator they are given does: an error without a place is one
that the expression raises, and is given the place of the expression. -/
theorem keeps_rules (hPass : R.Passes limit outer inner) (hself : R.Keeps inner self) :
    R.Keeps outer (rules limit self) := by
  intro env e m hm hOuter
  refine safe_locate (safe_expression hPass hself hm hOuter) (fun error hError => ?_) fun h => ?_
  · rcases hError with hStop | ⟨cause, hBare, hRaised⟩
    · exact R.stop_locate error e.location hStop
    · cases hBare
      exact hPass.raised hOuter (.itself hRaised)
  · rcases h with hStop | ⟨cause, hBare, _⟩
    · exact hStop
    · cases hBare

/-- Evaluation keeps a regime. The expressions that may be asked for depend on the fuel that is
left; without fuel there are none, or running out of it is a way to end. -/
theorem keeps_run {asked : Nat → Nat → Expr → Prop}
    (hZero : ∀ d e, asked 0 d e → R.stop .exhausted)
    (hPass : ∀ fuel, R.Passes limit (asked (fuel + 1)) (asked fuel)) (fuel : Nat) :
    R.Keeps (asked fuel) (run limit fuel) := by
  induction fuel with
  | zero =>
      intro env e m hm hAsked
      exact ⟨.refl m, hm.holds, hZero m.depth e hAsked⟩
  | succ fuel ih => exact keeps_rules (hPass fuel) ih

end MiniScheme.Regime
