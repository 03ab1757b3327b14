import MiniScheme.Proofs.Termination

/-!
# What identities were given to

A pair or a procedure gets an identity when it is made, and keeps it wherever it goes. No identity
is given out twice. So at any time there is a ledger of the identities that were given out and of
what each was given to, and every pair and every procedure that lies in a frame, in a value at hand
or in what waits, is the one that the ledger has for its identity.

The ledger is nowhere kept. It is what an evaluation leaves behind in the mind of an observer: it
grows by an entry with each new pair and each new procedure, and one step of an evaluation keeps
everything entered in a ledger that has grown (`Moment.Entered.step`). By induction, so does a whole
evaluation or application.

In particular, the identities that occur are among those that were given out.

## Main results

* `Builtin.entered_apply`: what built-in procedures return.
* `Eval.Moment.Entered.after`: any number of steps.
* `Eval.entered_evaluate`, `Eval.entered_apply`: evaluations and applications.
-/

namespace MiniScheme

/-! ## Ledgers -/

/-- What each identity was given to, if it was given out. -/
abbrev Ledger := Nat → Option Value

namespace Ledger

variable {σ σ' σ'' : Ledger} {next id : Nat} {v : Value}

/-- The entries of one ledger are in the other. -/
def Grows (σ σ' : Ledger) : Prop := ∀ id v, σ id = some v → σ' id = some v

theorem Grows.refl (σ : Ledger) : σ.Grows σ := fun _ _ h => h

theorem Grows.trans (h : σ.Grows σ') (h' : σ'.Grows σ'') : σ.Grows σ'' :=
  fun id v hEntry => h' id v (h id v hEntry)

/-- Only identities before `next` were given out. -/
def Before (σ : Ledger) (next : Nat) : Prop := ∀ id v, σ id = some v → id < next

theorem Before.eq_none (h : σ.Before next) (hId : next ≤ id) : σ id = none := by
  cases hEntry : σ id with
  | none => rfl
  | some v => exact absurd (h id v hEntry) (Nat.not_lt_of_le hId)

theorem Before.mono {next' : Nat} (h : σ.Before next) (hLe : next ≤ next') : σ.Before next' :=
  fun id v hEntry => Nat.lt_of_lt_of_le (h id v hEntry) hLe

/-- The ledger with one more entry. -/
def enter (σ : Ledger) (id : Nat) (v : Value) : Ledger :=
  fun other => if other = id then some v else σ other

theorem enter_self (σ : Ledger) (id : Nat) (v : Value) : σ.enter id v id = some v :=
  if_pos rfl

theorem grows_enter (h : σ id = none) (v : Value) : σ.Grows (σ.enter id v) := by
  intro other w hEntry
  have hNe : other ≠ id := by
    rintro rfl
    rw [h] at hEntry
    cases hEntry
  rw [enter, if_neg hNe, hEntry]

end Ledger

/-! ## Values -/

namespace Value

variable {σ σ' : Ledger} {v w : Value}

/-- Everything in the value that has an identity is what the identity was given to. -/
def Entered (σ : Ledger) (v : Value) : Prop :=
  ∀ (w : Value) (id : Nat), w.Part v → w.identity? = some id → σ id = some w

theorem Entered.grow (h : v.Entered σ) (hGrows : σ.Grows σ') : v.Entered σ' :=
  fun w id hPart hId => hGrows id w (h w id hPart hId)

theorem Entered.part (h : v.Entered σ) (hPart : w.Part v) : w.Entered σ :=
  fun u id hu => h u id (hu.trans hPart)

/-- A value without an identity has no parts either. -/
theorem entered_of_identity?_eq_none (h : v.identity? = none) : v.Entered σ := by
  intro w id hPart hId
  cases hPart with
  | whole =>
      rw [h] at hId
      cases hId
  | car _ => cases h
  | cdr _ => cases h

theorem entered_pair {id : Nat} {car cdr : Value} (hId : σ id = some (.pair id car cdr))
    (hCar : car.Entered σ) (hCdr : cdr.Entered σ) : (Value.pair id car cdr).Entered σ := by
  intro w id' hPart hEq
  cases hPart with
  | whole =>
      cases hEq
      exact hId
  | car hPart => exact hCar w id' hPart hEq
  | cdr hPart => exact hCdr w id' hPart hEq

theorem entered_closure {id : Nat} {code : Lambda} {f : FrameId}
    (hId : σ id = some (.procedure (.closure id code f))) :
    (Value.procedure (.closure id code f)).Entered σ := by
  intro w id' hPart hEq
  cases hPart with
  | whole =>
      cases hEq
      exact hId

/-- The pairs of a new list are entered from its end on, each with its own identity. -/
theorem entered_chain (vs : List Value) (hvs : ∀ v ∈ vs, v.Entered σ) :
    ∀ {id : Nat}, σ.Before id → ∃ σ' : Ledger, σ.Grows σ' ∧ σ'.Before (id + vs.length) ∧
      (∀ other < id, σ' other = σ other) ∧ (chain id vs .nil).Entered σ' := by
  induction vs with
  | nil =>
      intro id hBefore
      exact ⟨σ, .refl σ, hBefore, fun _ _ => rfl, entered_of_identity?_eq_none rfl⟩
  | cons v vs ih =>
      intro id hBefore
      obtain ⟨σ₁, hGrows, hBefore₁, hSame, hRest⟩ :=
        ih (fun w hw => hvs w (List.mem_cons_of_mem _ hw)) (hBefore.mono (Nat.le_succ id))
      have hFree : σ₁ id = none :=
        (hSame id (Nat.lt_succ_self id)).trans (hBefore.eq_none (Nat.le_refl id))
      let list : Value := .pair id v (chain (id + 1) vs .nil)
      have hEnter : σ₁.Grows (σ₁.enter id list) := Ledger.grows_enter hFree list
      refine ⟨σ₁.enter id list, hGrows.trans hEnter, fun other w hEntry => ?_,
        fun other hLt => ?_, ?_⟩
      · by_cases hOther : other = id
        · subst hOther
          exact Nat.lt_add_of_pos_right (Nat.succ_pos _)
        · rw [Ledger.enter, if_neg hOther] at hEntry
          have hLt := hBefore₁ other w hEntry
          rw [List.length_cons]
          omega
      · rw [Ledger.enter, if_neg (Nat.ne_of_lt hLt)]
        exact hSame other (Nat.lt_succ_of_lt hLt)
      · exact entered_pair (σ₁.enter_self id list)
          ((hvs v List.mem_cons_self).grow (hGrows.trans hEnter)) (hRest.grow hEnter)

end Value

/-- A built-in procedure returns what is entered already, or a list that is entered now. -/
theorem Builtin.entered_apply {b : Builtin} {args : List Value} {id id' : Nat} {v : Value}
    {σ : Ledger} (hArgs : ∀ w ∈ args, w.Entered σ) (hBefore : σ.Before id)
    (h : b.apply args id = .ok (v, id')) :
    ∃ σ' : Ledger, σ.Grows σ' ∧ σ'.Before id' ∧ v.Entered σ' := by
  cases origin_of_apply h with
  | number n => exact ⟨σ, .refl σ, hBefore, Value.entered_of_identity?_eq_none rfl⟩
  | boolean b => exact ⟨σ, .refl σ, hBefore, Value.entered_of_identity?_eq_none rfl⟩
  | part hw hPart => exact ⟨σ, .refl σ, hBefore, (hArgs _ hw).part hPart⟩
  | @list vs hvs =>
      have hItems : ∀ v ∈ vs, v.Entered σ := by
        intro v hv
        obtain ⟨w, hw, hPart⟩ := hvs v hv
        exact (hArgs w hw).part hPart
      obtain ⟨σ', hGrows, hBefore', _, hList⟩ := Value.entered_chain vs hItems hBefore
      exact ⟨σ', hGrows, hBefore', hList⟩

/-! ## Heaps -/

/-- What the frames define is entered, and nothing has been given an identity that is still to be
given out. -/
structure Heap.Entered (σ : Ledger) (h : Heap) : Prop where
  before : σ.Before h.nextId
  frame : ∀ (f : FrameId) (frame : Frame) (name : String) (v : Value), h.frames[f]? = some frame →
    frame.bindings.get? name = some v → v.Entered σ

namespace Heap

variable {h : Heap} {σ σ' : Ledger}

theorem Entered.grow (hEntered : h.Entered σ) (hGrows : σ.Grows σ') {next : Nat}
    (hBefore : σ'.Before next) : Heap.Entered σ' { h with nextId := next } :=
  ⟨hBefore, fun f frame name v hFrame hv => (hEntered.frame f frame name v hFrame hv).grow hGrows⟩

theorem Entered.alter (hEntered : h.Entered σ) (f : FrameId) {change : Bindings → Bindings}
    (hChange : ∀ bindings : Bindings, (∀ name v, bindings.get? name = some v → v.Entered σ) →
      ∀ name v, (change bindings).get? name = some v → v.Entered σ) :
    (h.alter f change).Entered σ := by
  refine ⟨hEntered.before, fun g frame' name v hFrame' hv => ?_⟩
  obtain ⟨frame, hFrame, _, _, hBindings⟩ := exists_of_getElem?_alter hFrame'
  have hOld := fun name v => hEntered.frame g frame name v hFrame
  rcases hBindings with ⟨_, hEq⟩ | hEq
  · exact hChange frame.bindings hOld name v (hEq ▸ hv)
  · exact hOld name v (hEq ▸ hv)

theorem Entered.define (hEntered : h.Entered σ) (f : FrameId) (name : String) {v : Value}
    (hv : v.Entered σ) : (h.define f name v).Entered σ := by
  rw [define_eq_alter]
  refine hEntered.alter f fun bindings hBindings other w hw => ?_
  rw [Bindings.get?_insert] at hw
  split at hw
  · cases hw; exact hv
  · exact hBindings other w hw

theorem Entered.erase (hEntered : h.Entered σ) (f : FrameId) (name : String) :
    (h.alter f fun bindings => bindings.erase name).Entered σ := by
  refine hEntered.alter f fun bindings hBindings other w hw => ?_
  rw [Bindings.get?_erase] at hw
  split at hw
  · cases hw
  · exact hBindings other w hw

theorem Entered.push (hEntered : h.Entered σ) {frame : Frame}
    (hBindings : frame.bindings = .empty) : (h.push frame).2.Entered σ := by
  refine ⟨hEntered.before, fun f frame' name v hFrame' hv => ?_⟩
  rw [getElem?_push] at hFrame'
  split at hFrame'
  · cases hFrame'
    rw [hBindings] at hv
    cases hv
  · exact hEntered.frame f frame' name v hFrame' hv

theorem Entered.defineAll {entries : List (String × Value)} (f : FrameId) :
    ∀ {h : Heap}, h.Entered σ → (∀ entry ∈ entries, entry.2.Entered σ) →
      (h.defineAll f entries).Entered σ := by
  induction entries with
  | nil => exact fun hEntered _ => hEntered
  | cons entry entries ih =>
      intro h hEntered hEntries
      exact ih (hEntered.define f entry.1 (hEntries entry List.mem_cons_self))
        fun other hOther => hEntries other (List.mem_cons_of_mem _ hOther)

theorem Entered.of_frame (hEntered : h.Entered σ) {f : FrameId} {frame : Frame}
    (hFrame : h.frames[f]? = some frame) {name : String} {v : Value}
    (hv : frame.get? name = some v) : v.Entered σ := by
  rcases Frame.get?_eq_some hv with hDefined | ⟨b, _, _, rfl⟩
  · exact hEntered.frame f frame name v hFrame hDefined
  · exact Value.entered_of_identity?_eq_none rfl

/-- The identities of what the frames define are among those that were given out. -/
def Numbered (h : Heap) : Prop :=
  ∀ (f : FrameId) (frame : Frame) (name : String) (v w : Value) (id : Nat),
    h.frames[f]? = some frame → frame.bindings.get? name = some v → w.Part v →
      w.identity? = some id → id < h.nextId

theorem Entered.numbered (hEntered : h.Entered σ) : h.Numbered :=
  fun f frame name v w id hFrame hv hPart hId =>
    hEntered.before id w (hEntered.frame f frame name v hFrame hv w id hPart hId)

theorem Entered.of_get? (hEntered : h.Entered σ) {f : FrameId} {name : String} {v : Value}
    (hv : h.get? f name = some v) : v.Entered σ := by
  obtain ⟨g, _, hLocal⟩ := Option.bind_eq_some_iff.1 hv
  obtain ⟨frame, hFrame, hGet⟩ := Option.bind_eq_some_iff.1 hLocal
  exact hEntered.of_frame hFrame hGet

end Heap

namespace Eval

variable {σ : Ledger} {m : Machine}

/-! ## Operations -/

/-- The outcome of an operation: the heap and the result are entered in a ledger that may have
grown. -/
def OutcomeEntered (σ : Ledger) {α : Type} (good : Ledger → α → Prop) :
    EStateM.Result Stop Machine α → Prop
  | .ok a m => ∃ σ' : Ledger, σ.Grows σ' ∧ m.heap.Entered σ' ∧ good σ' a
  | .error _ m => ∃ σ' : Ledger, σ.Grows σ' ∧ m.heap.Entered σ'

/-- Values that are entered. -/
abbrev ValueEntered : Ledger → Value → Prop := fun σ v => v.Entered σ

theorem OutcomeEntered.bind {α β : Type} {good : Ledger → α → Prop} {good' : Ledger → β → Prop}
    {x : Eval α} {f : α → Eval β} (hx : OutcomeEntered σ good (x m))
    (hf : ∀ {σ' : Ledger} {a : α} {n : Machine}, σ.Grows σ' → n.heap.Entered σ' → good σ' a →
      OutcomeEntered σ' good' (f a n)) : OutcomeEntered σ good' ((x >>= f) m) := by
  show OutcomeEntered σ good' (EStateM.bind x f m)
  unfold EStateM.bind
  cases hEnd : x m with
  | error stop n => rw [hEnd] at hx; exact hx
  | ok a n =>
      rw [hEnd] at hx
      obtain ⟨σ₁, hGrows, hn, ha⟩ := hx
      have hNext := hf hGrows hn ha
      show OutcomeEntered σ good' (f a n)
      cases hEnd' : f a n with
      | ok b n' =>
          rw [hEnd'] at hNext
          obtain ⟨σ₂, hGrows', hn', hb⟩ := hNext
          exact ⟨σ₂, hGrows.trans hGrows', hn', hb⟩
      | error stop n' =>
          rw [hEnd'] at hNext
          obtain ⟨σ₂, hGrows', hn'⟩ := hNext
          exact ⟨σ₂, hGrows.trans hGrows', hn'⟩

section Operations

variable (hm : m.heap.Entered σ)
include hm

theorem enters_pure {α : Type} {good : Ledger → α → Prop} {a : α} (ha : good σ a) :
    OutcomeEntered σ good ((pure a : Eval α) m) :=
  ⟨σ, .refl σ, hm, ha⟩

theorem enters_fail {α : Type} {good : Ledger → α → Prop} (cause : Cause) :
    OutcomeEntered σ good (fail cause m : EStateM.Result Stop Machine α) :=
  ⟨σ, .refl σ, hm⟩

/-- Something new is entered under the next identity. -/
theorem exists_entered (make : Nat → Value) :
    ∃ σ' : Ledger, σ.Grows σ' ∧
      Heap.Entered σ' { m.heap with nextId := m.heap.nextId + 1 } ∧
      σ' m.heap.nextId = some (make m.heap.nextId) := by
  have hFree : σ m.heap.nextId = none := hm.before.eq_none (Nat.le_refl _)
  have hGrows := Ledger.grows_enter hFree (make m.heap.nextId)
  refine ⟨_, hGrows, hm.grow hGrows fun id v hEntry => ?_, σ.enter_self _ _⟩
  by_cases hId : id = m.heap.nextId
  · rw [hId]
    exact Nat.lt_succ_self _
  · rw [Ledger.enter, if_neg hId] at hEntry
    exact Nat.lt_succ_of_lt (hm.before id v hEntry)

theorem enters_cons {car cdr : Value} (hCar : car.Entered σ) (hCdr : cdr.Entered σ) :
    OutcomeEntered σ ValueEntered (cons car cdr m) := by
  obtain ⟨σ', hGrows, hHeap, hId⟩ := exists_entered hm fun id => .pair id car cdr
  exact ⟨σ', hGrows, hHeap, Value.entered_pair hId (hCar.grow hGrows) (hCdr.grow hGrows)⟩

theorem enters_closure (code : Lambda) (env : FrameId) :
    OutcomeEntered σ ValueEntered (closure code env m) := by
  obtain ⟨σ', hGrows, hHeap, hId⟩ := exists_entered hm fun id => .procedure (.closure id code env)
  exact ⟨σ', hGrows, hHeap, Value.entered_closure hId⟩

theorem enters_chain {items : List Value} (hItems : ∀ v ∈ items, v.Entered σ) :
    OutcomeEntered σ ValueEntered (chain items .nil m) := by
  obtain ⟨σ', hGrows, hBefore, _, hList⟩ := Value.entered_chain items hItems hm.before
  exact ⟨σ', hGrows, hm.grow hGrows hBefore, hList⟩

theorem enters_defined (env : FrameId) (name : String) {v : Value} (hv : v.Entered σ) :
    OutcomeEntered σ ValueEntered (defined env name v m) :=
  ⟨σ, .refl σ, hm.define env name hv, hv⟩

theorem enters_assigned (env : FrameId) (name : String) {v : Value} (hv : v.Entered σ) :
    OutcomeEntered σ ValueEntered (assigned env name v m) := by
  have hSet : OutcomeEntered σ (fun _ _ => True) (set env name v m) := by
    unfold Eval.set Heap.set
    cases m.heap.home? env name with
    | none => exact enters_fail hm _
    | some g => exact ⟨σ, .refl σ, hm.define g name hv, trivial⟩
  exact hSet.bind fun hGrows hn _ => enters_pure hn (hv.grow hGrows)

theorem enters_delete (env : FrameId) (name : String) :
    OutcomeEntered σ ValueEntered (delete env name m) := by
  unfold delete
  split
  · next v heap hDelete =>
      obtain ⟨⟨frame, hFrame, hv⟩, rfl⟩ := Heap.delete_eq_ok hDelete
      exact ⟨σ, .refl σ, hm.erase env name, hm.frame env frame name v hFrame hv⟩
  · exact enters_fail hm _

theorem enters_symbol (env : FrameId) (name : String) :
    OutcomeEntered σ ValueEntered (symbol env name m) := by
  have hPlain : ∀ {v : Value}, v.identity? = none →
      OutcomeEntered σ ValueEntered ((pure v : Eval Value) m) := fun hv =>
    enters_pure hm (Value.entered_of_identity?_eq_none hv)
  unfold symbol
  split
  · exact hPlain rfl
  · split
    · exact hPlain rfl
    · split
      · exact hPlain rfl
      · unfold lookup Heap.lookup
        cases hGet : m.heap.get? env name with
        | none => exact enters_fail hm _
        | some v => exact enters_pure hm (hm.of_get? hGet)

theorem enters_callBuiltin (b : Builtin) {args : List Value} (hArgs : ∀ v ∈ args, v.Entered σ) :
    OutcomeEntered σ ValueEntered (callBuiltin b args m) := by
  unfold callBuiltin
  split
  · next v id hApply =>
      obtain ⟨σ', hGrows, hBefore, hv⟩ := Builtin.entered_apply hArgs hm.before hApply
      exact ⟨σ', hGrows, hm.grow hGrows hBefore, hv⟩
  · exact enters_fail hm _

theorem enters_bindArguments (formals : Formals) {args : List Value}
    (hArgs : ∀ v ∈ args, v.Entered σ) :
    OutcomeEntered σ (fun σ entries => ∀ entry ∈ entries, entry.2.Entered σ)
      (bindArguments formals args m) := by
  have hFixed : ∀ entry ∈ formals.fixed.zip args, entry.2.Entered σ :=
    fun entry hEntry => hArgs entry.2 (List.of_mem_zip hEntry).2
  rw [bindArguments_eq]
  cases formals.rest with
  | none => exact enters_pure hm hFixed
  | some rest =>
      have hOthers : ∀ v ∈ args.drop formals.fixed.length, v.Entered σ :=
        fun v hv => hArgs v (List.mem_of_mem_drop hv)
      refine (enters_chain hm hOthers).bind fun {_ others _} hGrows hn hList => ?_
      refine enters_pure hn fun entry hEntry => ?_
      rcases List.mem_append.1 hEntry with hEntry | hEntry
      · exact (hFixed entry hEntry).grow hGrows
      · obtain rfl : entry = (rest, others) := by simpa using hEntry
        exact hList

theorem enters_bodyFrame (code : Lambda) (frame : FrameId) {args : List Value}
    (hArgs : ∀ v ∈ args, v.Entered σ) :
    OutcomeEntered σ (fun _ _ => True) (bodyFrame code frame args m) := by
  have hChild : OutcomeEntered σ (fun _ _ => True) (newChild frame m) :=
    ⟨σ, .refl σ, hm.push rfl, trivial⟩
  refine hChild.bind fun {_ inner _} hGrows hn _ => ?_
  refine (enters_bindArguments hn code.formals fun v hv => (hArgs v hv).grow hGrows).bind
    fun {σ' entries n'} _ hn' hEntries => ?_
  exact ⟨σ', .refl σ', hn'.defineAll inner hEntries, trivial⟩

end Operations

/-! ## Moments -/

/-- The values at hand are entered. -/
def Focus.Entered (σ : Ledger) : Focus → Prop
  | .application p args => (Value.procedure p).Entered σ ∧ ∀ v ∈ args, v.Entered σ
  | .entry _ _ args => ∀ v ∈ args, v.Entered σ
  | .value v => v.Entered σ
  | _ => True

/-- The procedure that is going to be called, if any, is entered. -/
def Purpose.Entered (σ : Ledger) : Purpose → Prop
  | .call p => (Value.procedure p).Entered σ
  | .list => True

/-- The values that wait are entered. -/
def Waiting.Entered (σ : Ledger) : Waiting → Prop
  | .collection _ purpose done _ => purpose.Entered σ ∧ ∀ v ∈ done, v.Entered σ
  | .cdr a => a.Entered σ
  | _ => True

theorem Waiting.Entered.grow {w : Waiting} {σ' : Ledger} (h : w.Entered σ)
    (hGrows : σ.Grows σ') : w.Entered σ' := by
  cases w with
  | collection env purpose done rest =>
      refine ⟨?_, fun v hv => (h.2 v hv).grow hGrows⟩
      cases purpose with
      | call p => exact Value.Entered.grow h.1 hGrows
      | list => trivial
  | cdr a => exact Value.Entered.grow h hGrows
  | _ => trivial

namespace Moment

/-- Everything in the moment is entered. -/
structure Entered (σ : Ledger) (s : Moment) : Prop where
  heap : s.machine.heap.Entered σ
  focus : s.focus.Entered σ
  waiting : ∀ w ∈ s.waiting, w.Entered σ

/-- Everything in the moment is entered in a ledger that may have grown. -/
def Extends (σ : Ledger) (s : Moment) : Prop := ∃ σ' : Ledger, σ.Grows σ' ∧ s.Entered σ'

theorem Entered.extends {s : Moment} (h : s.Entered σ) : s.Extends σ := ⟨σ, .refl σ, h⟩

section Steps

variable {ws : List Waiting} (hws : ∀ w ∈ ws, w.Entered σ)
include hws

/-- The result of an operation goes to what waits. -/
theorem extends_pass {r : EStateM.Result Stop Machine Value} (h : OutcomeEntered σ ValueEntered r) :
    (pass r ws).Extends σ := by
  cases r with
  | ok v m =>
      obtain ⟨σ', hGrows, hHeap, hv⟩ := h
      exact ⟨σ', hGrows, hHeap, hv, fun w hw => (hws w hw).grow hGrows⟩
  | error stop m =>
      obtain ⟨σ', hGrows, hHeap⟩ := h
      exact ⟨σ', hGrows, hHeap, trivial, fun w hw => (hws w hw).grow hGrows⟩

variable (hm : m.heap.Entered σ)
include hm

theorem extends_value {v : Value} (hv : v.Entered σ) : Extends σ ⟨.value v, m, ws⟩ :=
  Entered.extends ⟨hm, hv, hws⟩

theorem extends_stop (stop : Stop) : Extends σ ⟨.stop stop, m, ws⟩ :=
  Entered.extends ⟨hm, trivial, hws⟩

theorem extends_ask (env : FrameId) (e : Expr) : (ask env e m ws).Extends σ :=
  Entered.extends ⟨hm, trivial, List.forall_mem_cons.2 ⟨trivial, hws⟩⟩

/-- An expression is asked for, and something waits for its value. -/
theorem extends_ask_cons (env : FrameId) (e : Expr) {w : Waiting} (hw : w.Entered σ) :
    (ask env e m (w :: ws)).Extends σ :=
  extends_ask (List.forall_mem_cons.2 ⟨hw, hws⟩) hm env e

theorem extends_collect (env : FrameId) {p : Purpose} (hPurpose : p.Entered σ)
    {done : List Value} (hDone : ∀ v ∈ done, v.Entered σ) (es : List Expr) :
    (collect env p done es m ws).Extends σ := by
  have hArgs : ∀ v ∈ done.reverse, v.Entered σ := fun v hv => hDone v (List.mem_reverse.1 hv)
  cases es with
  | cons e es => exact extends_ask_cons hws hm env e ⟨hPurpose, hDone⟩
  | nil =>
      cases p with
      | call p => exact Entered.extends ⟨hm, ⟨hPurpose, hArgs⟩, hws⟩
      | list => exact extends_pass hws (enters_chain hm hArgs)

theorem extends_sequence (env : FrameId) (es : List Expr) :
    (sequence env es m ws).Extends σ := by
  cases es with
  | nil => exact extends_pass hws (enters_fail hm _)
  | cons e es =>
      cases es with
      | nil => exact extends_ask hws hm env e
      | cons e' es => exact extends_ask_cons hws hm env e trivial

theorem extends_conjunction (env : FrameId) (es : List Expr) :
    (conjunction env es m ws).Extends σ := by
  cases es with
  | nil => exact extends_value hws hm (Value.entered_of_identity?_eq_none rfl)
  | cons e es => exact extends_ask_cons hws hm env e trivial

theorem extends_disjunction (env : FrameId) (es : List Expr) :
    (disjunction env es m ws).Extends σ := by
  cases es with
  | nil => exact extends_value hws hm (Value.entered_of_identity?_eq_none rfl)
  | cons e es => exact extends_ask_cons hws hm env e trivial

theorem extends_bindings (env inner : FrameId) (whole : Expr) (es inside : List Expr) :
    (bindings env inner whole es inside m ws).Extends σ := by
  cases es with
  | nil => exact extends_sequence hws hm inner inside
  | cons e es =>
      simp only [bindings]
      split
      · exact extends_pass hws (enters_fail hm _)
      · exact extends_ask_cons hws hm env _ (w := .binding ..) trivial

theorem extends_form (env : FrameId) (whole : Expr) (parts : Form) :
    (form env whole parts m ws).Extends σ := by
  cases parts with
  | define name value => exact extends_ask_cons hws hm env value trivial
  | procedure name code =>
      exact extends_pass hws ((enters_closure hm code env).bind
        fun _ hn hv => enters_defined hn env name hv)
  | lambda code => exact extends_pass hws (enters_closure hm code env)
  | branch test consequent alternative => exact extends_ask_cons hws hm env test trivial
  | sequence es => exact extends_sequence hws hm env es
  | conjunction es => exact extends_conjunction hws hm env es
  | disjunction es => exact extends_disjunction hws hm env es
  | bind es inside => exact extends_bindings hws (hm.push rfl) env _ whole es inside
  | set name value => exact extends_ask_cons hws hm env value trivial
  | delete name => exact extends_pass hws (enters_delete hm env name)
  | pair car cdr => exact extends_ask_cons hws hm env car trivial
  | list es => exact extends_collect hws hm env (p := .list) trivial (by simp) es

theorem extends_expression (env : FrameId) (e : Expr) : (expression env e m ws).Extends σ := by
  cases e with
  | number l n => exact extends_value hws hm (Value.entered_of_identity?_eq_none rfl)
  | symbol l name => exact extends_pass hws (enters_symbol hm env name)
  | list l es =>
      cases es with
      | nil => exact extends_pass hws (enters_fail hm _)
      | cons head operands =>
          simp only [expression]
          split
          · exact extends_ask_cons hws hm env head (w := .head ..) trivial
          · split
            · exact extends_pass hws (enters_fail hm _)
            · exact extends_form hws hm env _ _

theorem extends_application (limit : Option Nat) {p : Procedure} {args : List Value}
    (hArgs : ∀ v ∈ args, v.Entered σ) : (application limit p args m ws).Extends σ := by
  unfold application
  split
  · split
    · exact extends_pass hws (enters_callBuiltin hm _ hArgs)
    · split
      · exact Entered.extends ⟨hm, hArgs, List.forall_mem_cons.2 ⟨trivial, hws⟩⟩
      · exact extends_pass hws (enters_fail hm _)
  · exact extends_pass hws (enters_fail hm _)

theorem extends_entry (code : Lambda) (frame : FrameId) {args : List Value}
    (hArgs : ∀ v ∈ args, v.Entered σ) : (entry code frame args m ws).Extends σ := by
  have hFrame := enters_bodyFrame hm code frame hArgs
  unfold entry
  cases hEnd : bodyFrame code frame args m with
  | ok inner m' =>
      rw [hEnd] at hFrame
      obtain ⟨σ', hGrows, hHeap, _⟩ := hFrame
      obtain ⟨σ'', hGrows', hNext⟩ := extends_sequence
        (fun w hw => (hws w hw).grow hGrows) hHeap inner code.body
      exact ⟨σ'', hGrows.trans hGrows', hNext⟩
  | error stop m' =>
      rw [hEnd] at hFrame
      obtain ⟨σ', hGrows, hHeap⟩ := hFrame
      exact ⟨σ', hGrows, hHeap, trivial, fun w hw => (hws w hw).grow hGrows⟩

theorem extends_resume {v : Value} (hv : v.Entered σ) {w : Waiting} (hw : w.Entered σ) :
    (resume v m w ws).Extends σ := by
  have hBoolean : ∀ b : Bool, (Value.boolean b).Entered σ := fun b =>
    Value.entered_of_identity?_eq_none rfl
  cases w with
  | evaluation location => exact extends_value hws hm hv
  | body => exact Entered.extends ⟨hm, hv, hws⟩
  | head env location operands =>
      cases v with
      | procedure p => exact extends_collect hws hm env (p := .call p) hv (by simp) operands
      | _ => exact extends_stop hws hm _
  | collection env purpose done rest =>
      exact extends_collect hws hm env hw.1 (List.forall_mem_cons.2 ⟨hv, hw.2⟩) rest
  | sequence env rest => exact extends_sequence hws hm env rest
  | define env name => exact extends_pass hws (enters_defined hm env name hv)
  | branch env consequent alternative =>
      simp only [resume]
      split
      · exact extends_ask hws hm env consequent
      · exact extends_ask hws hm env alternative
  | conjunction env rest =>
      simp only [resume]
      split
      · exact extends_value hws hm (hBoolean false)
      · exact extends_conjunction hws hm env rest
  | disjunction env rest =>
      simp only [resume]
      split
      · exact extends_value hws hm (hBoolean true)
      · exact extends_disjunction hws hm env rest
  | binding env inner whole name rest inside =>
      exact extends_bindings hws (hm.define inner name hv) env inner whole rest inside
  | set env name => exact extends_pass hws (enters_assigned hm env name hv)
  | car env cdr => exact extends_ask_cons hws hm env cdr hv
  | cdr car => exact extends_pass hws (enters_cons hm hw hv)

theorem extends_unwind (stop : Stop) (w : Waiting) : (unwind stop m w ws).Extends σ := by
  cases w with
  | body => exact Entered.extends ⟨hm, trivial, hws⟩
  | _ => exact extends_stop hws hm _

end Steps

/-- One step keeps everything entered. -/
theorem Entered.step {s : Moment} (h : s.Entered σ) (limit : Option Nat) :
    (Moment.step limit s).Extends σ := by
  obtain ⟨focus, m, ws⟩ := s
  obtain ⟨hm, hFocus, hws⟩ := h
  cases focus with
  | expression env e => exact extends_expression hws hm env e
  | application p args => exact extends_application hws hm limit hFocus.2
  | entry code frame args => exact extends_entry hws hm code frame hFocus
  | value v =>
      cases ws with
      | nil => exact extends_value hws hm hFocus
      | cons w ws =>
          obtain ⟨hw, hws⟩ := List.forall_mem_cons.1 hws
          exact extends_resume hws hm hFocus hw
  | stop stop =>
      cases ws with
      | nil => exact extends_stop hws hm stop
      | cons w ws => exact extends_unwind (List.forall_mem_cons.1 hws).2 hm stop w

/-- After any number of steps everything is entered in a ledger that may have grown. -/
theorem Entered.after {s : Moment} (h : s.Entered σ) (limit : Option Nat) (k : Nat) :
    (Moment.after limit k s).Extends σ := by
  induction k with
  | zero => exact h.extends
  | succ k ih =>
      rw [after_succ]
      obtain ⟨σ', hGrows, hs⟩ := ih
      obtain ⟨σ'', hGrows', hNext⟩ := hs.step limit
      exact ⟨σ'', hGrows.trans hGrows', hNext⟩

/-- What an evaluation that is over leaves behind. -/
theorem Extends.of_ended {outcome : Except Error Value × Machine}
    (h : (ended outcome).Extends σ) :
    ∃ σ' : Ledger, σ.Grows σ' ∧ outcome.2.heap.Entered σ' ∧
      ∀ v, outcome.1 = .ok v → v.Entered σ' := by
  obtain ⟨result, m⟩ := outcome
  obtain ⟨σ', hGrows, hEntered⟩ := h
  cases result with
  | ok v => exact ⟨σ', hGrows, hEntered.heap, fun w hw => by cases hw; exact hEntered.focus⟩
  | error e => exact ⟨σ', hGrows, hEntered.heap, nofun⟩

end Moment

/-! ## Evaluations -/

/-- The heap and the value that an evaluation leaves behind are entered in a ledger that may have
grown. -/
theorem entered_evaluate (limit : Nat) (env : FrameId) (e : Expr) (hm : m.heap.Entered σ)
    (hBodies : m.heap.BodiesWithin m.heap.tallest) :
    ∃ σ' : Ledger, σ.Grows σ' ∧ (evaluate limit env e m).2.heap.Entered σ' ∧
      ∀ v, (evaluate limit env e m).1 = .ok v → v.Entered σ' := by
  have hStart : (Moment.start env e (note e m)).Entered σ :=
    ⟨⟨hm.before, hm.frame⟩, trivial, List.forall_mem_cons.2 ⟨trivial, by simp⟩⟩
  obtain ⟨k, hOver⟩ := evaluate_is_over limit env e hBodies
  exact Moment.Extends.of_ended (hOver ▸ hStart.after (some limit) k)

/-- The same for the application of a procedure to arguments that are entered. -/
theorem entered_apply (limit : Nat) {p : Procedure} {args : List Value} (hm : m.heap.Entered σ)
    (hBounds : m.heap.Bounds (.procedure p :: args))
    (hValues : ∀ v ∈ Value.procedure p :: args, v.Entered σ) :
    ∃ σ' : Ledger, σ.Grows σ' ∧ (apply limit p args m).2.heap.Entered σ' ∧
      ∀ v, (apply limit p args m).1 = .ok v → v.Entered σ' := by
  have hStart : Moment.Entered σ ⟨.application p args, m, []⟩ :=
    ⟨hm, List.forall_mem_cons.1 hValues, by simp⟩
  obtain ⟨k, hOver⟩ := apply_is_over limit hBounds
  exact Moment.Extends.of_ended (hOver ▸ hStart.after (some limit) k)

end Eval

end MiniScheme
