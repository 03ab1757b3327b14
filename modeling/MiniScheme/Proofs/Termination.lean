import MiniScheme.Proofs.Adequacy
import MiniScheme.Proofs.Regime.Rules

/-!
# Evaluation ends

With a limit on the number of active procedure bodies every evaluation ends, although programs may
recurse through names, through themselves and through each other. What decreases is a pair: how
many bodies may still become active, and the height of the expression at hand. An operand is lower
than the list it stands in. A body may be as high as any, but then one more is active.

For that the bodies have to be bounded to begin with, and to stay so. Every procedure that
evaluation makes has a body that is part of an expression under evaluation, so a bound `H` on the
height of that expression and of the bodies that lie in the heap is kept: this is the regime
`Regime.heights H`. A heap is finite and thus has such a bound.

Fuel bounds the number of evaluations that are active at once (`traces_run`), so the same measure
says how many they are: for each body that may become active, and for the expression at the start,
at most `H`.

## Main results

* `Heap.exists_bodiesWithin`: the bodies of a heap have a greatest height.
* `Eval.definite_run`: the measure suffices as fuel.
* `Eval.exists_returns`: evaluation under a limit returns something.
* `Eval.evaluate_is_over`, `Eval.apply_is_over`: the outcome of `evaluate` and of `apply` is what
  their moments end in.
* `Eval.evaluation_ends`: every evaluation returns a value or an error, and how many evaluations
  are active at once.
-/

namespace MiniScheme

/-! ## The height of bodies -/

/-- No expression of the body is higher than that. -/
def Lambda.Within (height : Nat) (code : Lambda) : Prop :=
  ∀ e ∈ code.body, e.height ≤ height

theorem Lambda.Within.mono {height height' : Nat} (hLe : height ≤ height') {code : Lambda}
    (h : code.Within height) : code.Within height' :=
  fun e he => Nat.le_trans (h e he) hLe

/-- No procedure in the value has a higher body. -/
def Value.BodiesWithin (height : Nat) (v : Value) : Prop :=
  v.All fun code _ => code.Within height

/-- No procedure in the definitions of any frame has a higher body. -/
def Heap.BodiesWithin (height : Nat) (h : Heap) : Prop :=
  ∀ (f : FrameId) (frame : Frame), h.frames[f]? = some frame →
    frame.All fun code _ => code.Within height

theorem Value.BodiesWithin.mono {height height' : Nat} (hLe : height ≤ height') {v : Value}
    (h : v.BodiesWithin height) : v.BodiesWithin height' :=
  Value.All.mono (fun _ _ => Lambda.Within.mono hLe) h

theorem Heap.BodiesWithin.mono {height height' : Nat} (hLe : height ≤ height') {h : Heap}
    (hBodies : h.BodiesWithin height) : h.BodiesWithin height' :=
  fun f frame hFrame name v hv => Value.BodiesWithin.mono hLe (hBodies f frame hFrame name v hv)

/-- Bounds for the members of a list have a common one. -/
theorem exists_bound_of_forall_mem {α : Type} {p : Nat → α → Prop}
    (hMono : ∀ {n n' : Nat} {a : α}, n ≤ n' → p n a → p n' a) (as : List α)
    (h : ∀ a ∈ as, ∃ n, p n a) : ∃ n, ∀ a ∈ as, p n a := by
  induction as with
  | nil => exact ⟨0, by simp⟩
  | cons a as ih =>
      obtain ⟨n, hn⟩ := h a (by simp)
      obtain ⟨n', hn'⟩ := ih fun b hb => h b (by simp [hb])
      refine ⟨max n n', fun b hb => ?_⟩
      rcases List.mem_cons.1 hb with rfl | hb
      · exact hMono (Nat.le_max_left _ _) hn
      · exact hMono (Nat.le_max_right _ _) (hn' b hb)

theorem Value.exists_bodiesWithin (v : Value) : ∃ height, v.BodiesWithin height := by
  induction v with
  | number n => exact ⟨0, trivial⟩
  | boolean b => exact ⟨0, trivial⟩
  | nil => exact ⟨0, trivial⟩
  | pair id car cdr hCar hCdr =>
      obtain ⟨n, hn⟩ := hCar
      obtain ⟨n', hn'⟩ := hCdr
      exact ⟨max n n', hn.mono (Nat.le_max_left _ _), hn'.mono (Nat.le_max_right _ _)⟩
  | procedure p =>
      cases p with
      | builtin b => exact ⟨0, trivial⟩
      | closure id code f => exact ⟨Expr.heightItems code.body, fun e => Expr.height_le_heightItems⟩

theorem Bindings.exists_mem_of_get? {b : Bindings} {name : String} {v : Value}
    (h : b.get? name = some v) : ∃ key, (key, v) ∈ b.entries := by
  obtain ⟨entries⟩ := b
  unfold Bindings.get? at h
  induction entries with
  | nil => simp at h
  | cons entry entries ih =>
      obtain ⟨key, w⟩ := entry
      rw [List.lookup_cons] at h
      split at h
      · cases h
        exact ⟨key, by simp⟩
      · obtain ⟨key', hMem⟩ := ih h
        exact ⟨key', by simp [hMem]⟩

theorem Frame.exists_bodiesWithin (frame : Frame) :
    ∃ height, frame.All fun code _ => code.Within height := by
  obtain ⟨height, hAll⟩ := exists_bound_of_forall_mem
    (p := fun n (entry : String × Value) => entry.2.BodiesWithin n)
    (fun hLe h => h.mono hLe) frame.bindings.entries fun entry _ => entry.2.exists_bodiesWithin
  refine ⟨height, fun name v hv => ?_⟩
  obtain ⟨key, hMem⟩ := Bindings.exists_mem_of_get? hv
  exact hAll (key, v) hMem

/-- The bodies of a heap have a greatest height. -/
theorem Heap.exists_bodiesWithin (h : Heap) : ∃ height, h.BodiesWithin height := by
  obtain ⟨height, hAll⟩ := exists_bound_of_forall_mem
    (p := fun n (frame : Frame) => frame.All fun code _ => code.Within n)
    (fun hLe hFrame name v hv => Value.BodiesWithin.mono hLe (hFrame name v hv))
    h.frames.toList fun frame _ => frame.exists_bodiesWithin
  refine ⟨height, fun f frame hFrame => hAll frame ?_⟩
  exact Array.mem_toList_iff.2 (Array.mem_of_getElem? hFrame)

/-- The bound that the heap keeps is true for its frames and for the given values. -/
structure Heap.Bounds (h : Heap) (vs : List Value) : Prop where
  frames : h.BodiesWithin h.tallest
  values : ∀ v ∈ vs, v.BodiesWithin h.tallest

/-! ## The regime -/

/-- Bodies are at most so high, and the fuel is not spent. -/
def Regime.heights (height : Nat) : Regime where
  closure _ code _ := code.Within height
  frame _ _ := True
  link _ _ := True
  stop stop := stop ≠ .exhausted
  closure_mono _ h := h
  frame_mono _ h := h
  frame_of_lt _ h := h
  frame_child _ h := h
  link_child h := h
  frame_parent _ h _ := h
  frame_closure _ := trivial
  stop_locate _ _ _ := by simp
  stop_body _ _ := by simp

theorem Regime.heights_holds_iff {height : Nat} {h : Heap} :
    (Regime.heights height).Holds h ↔ h.BodiesWithin height :=
  ⟨fun hHolds f frame hFrame => hHolds.bound f frame hFrame trivial,
    fun hBodies => ⟨fun f frame hFrame _ => hBodies f frame hFrame, fun _ _ _ _ _ _ => trivial,
      fun _ _ _ _ _ _ _ => trivial⟩⟩

namespace Eval

open Moment (after start pass)

variable {limit : Nat}

/-- The fuel suffices for the expression, which is not too high, and for a body for each of those
that may still become active. -/
def Affords (limit height fuel depth : Nat) (e : Expr) : Prop :=
  e.height ≤ height ∧ (limit - depth) * height + e.height ≤ fuel

theorem Affords.item {height fuel depth : Nat} {l : Option Location} {es : List Expr} {e : Expr}
    (h : Affords limit height (fuel + 1) depth (.list l es)) (he : e ∈ es) :
    Affords limit height fuel depth e := by
  have hLower := Expr.height_le_heightItems he
  obtain ⟨hHeight, hFuel⟩ := h
  rw [Expr.height] at hHeight hFuel
  constructor <;> omega

/-- One more active body: the fuel that was kept for it is enough. -/
theorem Affords.body {height fuel depth : Nat} {e e' : Expr}
    (h : Affords limit height (fuel + 1) depth e) (hDepth : depth < limit)
    (he' : e'.height ≤ height) : Affords limit height fuel (depth + 1) e' := by
  have hPos := e.height_pos
  obtain ⟨_, hFuel⟩ := h
  have hLeft : (limit - depth) * height = (limit - (depth + 1)) * height + height := by
    rw [show limit - depth = limit - (depth + 1) + 1 by omega, Nat.add_one_mul]
  refine ⟨he', ?_⟩
  omega

theorem passes_heights (limit height fuel : Nat) :
    (Regime.heights height).Passes (some limit) (Affords limit height (fuel + 1))
      (Affords limit height fuel) where
  operand h he := h.item he
  element h he := Affords.item ⟨h.1, Nat.le_succ_of_le h.2⟩ he
  body h hAdmits hCode he := h.body (by simpa [admits] using hAdmits) (hCode _ he)
  code h _ hMem _ _ := by
    intro e he
    exact (h.item (hMem e he)).1
  name _ _ _ _ := trivial
  raised _ _ := by simp [Regime.heights]

theorem keeps_heights (limit height fuel : Nat) :
    (Regime.heights height).Keeps (Affords limit height fuel) (run (some limit) fuel) := by
  have hNone : ∀ d e', Affords limit height 0 d e' → (Regime.heights height).stop .exhausted := by
    rintro d e' ⟨_, hZero⟩
    have hPos := e'.height_pos
    omega
  exact Regime.keeps_run hNone (passes_heights limit height) fuel

theorem heights_run {height fuel : Nat} (env : FrameId) {e : Expr} {m : Machine}
    (hBodies : m.heap.BodiesWithin height) (hFuel : Affords limit height fuel m.depth e) :
    (Regime.heights height).Safe m (Regime.heights height).Fine
      (run (some limit) fuel env e m) :=
  keeps_heights limit height fuel env e m
    ⟨Regime.heights_holds_iff.2 hBodies, trivial, Nat.zero_le _, trivial⟩ hFuel

/-- Under the regime the fuel is not spent. -/
theorem definite_of_heights {height : Nat} {m : Machine} {good : Heap → Value → Prop}
    {r : EStateM.Result Stop Machine Value} (h : (Regime.heights height).Safe m good r) :
    Definite r := by
  cases r with
  | ok v m' => trivial
  | error stop m' =>
      cases stop with
      | error _ => trivial
      | exhausted => exact h.2.2 rfl

/-- The measure suffices as fuel. -/
theorem definite_run {height fuel : Nat} {env : FrameId} {e : Expr} {m : Machine}
    (hBodies : m.heap.BodiesWithin height) (hFuel : Affords limit height fuel m.depth e) :
    Definite (run (some limit) fuel env e m) :=
  definite_of_heights (heights_run env hBodies hFuel)

theorem affords_budget (limit depth : Nat) {height : Nat} {e : Expr} (he : e.height ≤ height) :
    Affords limit height (budget limit depth height) depth e := by
  refine ⟨he, ?_⟩
  rw [budget, Nat.add_one_mul]
  omega

/-- The fuel that `evaluate` gives itself suffices, if it is for a true bound. -/
theorem definite_run_budget (limit : Nat) (env : FrameId) {height : Nat} {e : Expr} {m : Machine}
    (hBodies : m.heap.BodiesWithin height) (he : e.height ≤ height) :
    Definite (run (some limit) (budget limit m.depth height) env e m) :=
  definite_run hBodies (affords_budget limit m.depth he)

/-- Every evaluation under a limit returns something. -/
theorem exists_returns (limit : Nat) (env : FrameId) (e : Expr) (m : Machine) :
    ∃ r, Returns (some limit) env e m r := by
  obtain ⟨height, hBodies⟩ := m.heap.exists_bodiesWithin
  have hWithin := hBodies.mono (Nat.le_max_left height e.height)
  exact ⟨_, .of_definite (definite_run_budget limit env hWithin (Nat.le_max_right _ _))⟩

theorem bodiesWithin_note (e : Expr) {m : Machine} (hBodies : m.heap.BodiesWithin m.heap.tallest) :
    (note e m).heap.BodiesWithin (note e m).heap.tallest :=
  hBodies.mono (Nat.le_max_left _ _)

/-- A true bound is one after an evaluation, too. -/
theorem bodiesWithin_evaluate (limit : Nat) (env : FrameId) (e : Expr) {m : Machine}
    (hBodies : m.heap.BodiesWithin m.heap.tallest) :
    (evaluate limit env e m).2.heap.BodiesWithin (evaluate limit env e m).2.heap.tallest := by
  have hAffords := affords_budget limit (note e m).depth (Nat.le_max_right m.heap.tallest e.height)
  have hSafe := heights_run env (bodiesWithin_note e hBodies) hAffords
  obtain ⟨hGrows, hHolds⟩ := hSafe.outcome limit
  have hTallest : (evaluate limit env e m).2.heap.tallest = (note e m).heap.tallest :=
    hGrows.tallest
  rw [hTallest]
  exact Regime.heights_holds_iff.1 hHolds

/-- An application under the regime: the fuel for a body for each of those that may still become
active suffices. -/
theorem heights_apply (limit : Nat) {height : Nat} {p : Procedure} {args : List Value} {m : Machine}
    (hBodies : m.heap.BodiesWithin height)
    (hValues : ∀ v ∈ Value.procedure p :: args, v.BodiesWithin height) :
    (Regime.heights height).Safe m (Regime.heights height).Fine
      (applyProcedure (some limit) (run (some limit) (budget limit m.depth height)) p args m) := by
  refine Regime.safe_applyProcedure (keeps_heights limit height _)
    (Regime.heights_holds_iff.2 hBodies) (Nat.zero_le _) (hValues _ List.mem_cons_self)
    (fun v hv => hValues v (List.mem_cons_of_mem _ hv)) ?_ (fun _ hStop => hStop)
    fun _ _ => by simp [Regime.heights]
  intro n code f hCode hAdmits e he
  have hLt : m.depth < limit := by simpa [admits] using hAdmits
  have hHeight := hCode e he
  have hLeft : (limit - m.depth) * height = (limit - (m.depth + 1)) * height + height := by
    rw [show limit - m.depth = limit - (m.depth + 1) + 1 by omega, Nat.add_one_mul]
  refine ⟨hHeight, ?_⟩
  rw [budget, Nat.add_one_mul]
  omega

theorem bodiesWithin_apply (limit : Nat) {p : Procedure} {args : List Value} {m : Machine}
    (h : m.heap.Bounds (.procedure p :: args)) :
    (apply limit p args m).2.heap.BodiesWithin (apply limit p args m).2.heap.tallest := by
  obtain ⟨hGrows, hHolds⟩ := (heights_apply limit h.frames h.values).outcome limit
  have hTallest : (apply limit p args m).2.heap.tallest = m.heap.tallest := hGrows.tallest
  rw [hTallest]
  exact Regime.heights_holds_iff.1 hHolds

/-- Where the heap's own bound is a true one, `evaluate` returns what evaluation returns. -/
theorem evaluate_returns (limit : Nat) (env : FrameId) (e : Expr) {m : Machine}
    (hBodies : m.heap.BodiesWithin m.heap.tallest) :
    (∃ v m', evaluate limit env e m = (.ok v, m') ∧
      Returns (some limit) env e (note e m) (.ok v m')) ∨
    (∃ error m', evaluate limit env e m = (.error error, m') ∧
      Returns (some limit) env e (note e m) (.error (.error error) m')) := by
  have hNoted := bodiesWithin_note e hBodies
  have hDefinite := definite_run_budget limit env hNoted (Nat.le_max_right m.heap.tallest e.height)
  have hReturns := Returns.of_definite hDefinite
  unfold evaluate outcome
  dsimp only
  cases hRun : run (some limit) (budget limit (note e m).depth (note e m).heap.tallest) env e
      (note e m) with
  | ok v m' =>
      rw [hRun] at hReturns
      exact .inl ⟨v, m', rfl, hReturns⟩
  | error stop m' =>
      rw [hRun] at hDefinite hReturns
      cases stop with
      | error error => exact .inr ⟨error, m', rfl, hReturns⟩
      | exhausted => exact absurd hDefinite id

/-- The moment at which an evaluation is over, with that outcome. -/
def Moment.ended (outcome : Except Error Value × Machine) : Moment :=
  match outcome with
  | (.ok v, m) => ⟨.value v, m, []⟩
  | (.error e, m) => ⟨.stop (.error e), m, []⟩

theorem Moment.ended_outcome {limit : Nat} {x : Eval Value} {m : Machine} (h : Definite (x m)) :
    Moment.ended (outcome limit x m) = pass (x m) [] := by
  unfold outcome
  cases hEnd : x m with
  | ok v m' => rfl
  | error stop m' =>
      rw [hEnd] at h
      cases stop with
      | error e => rfl
      | exhausted => exact absurd h id

/-- Where the heap's bound is a true one, the moments of an evaluation end in the outcome of
`evaluate`. -/
theorem evaluate_is_over (limit : Nat) (env : FrameId) (e : Expr) {m : Machine}
    (hBodies : m.heap.BodiesWithin m.heap.tallest) :
    ∃ k, after (some limit) k (start env e (note e m)) = .ended (evaluate limit env e m) := by
  have hDefinite := definite_run_budget limit env (bodiesWithin_note e hBodies)
    (Nat.le_max_right m.heap.tallest e.height)
  obtain ⟨⟨k, hEnd⟩, _⟩ := calls_le_of_definite hDefinite
  exact ⟨k, hEnd.trans (Moment.ended_outcome hDefinite).symm⟩

/-- The same for an application, where the bound is a true one for the procedure and the arguments,
too. -/
theorem apply_is_over (limit : Nat) {p : Procedure} {args : List Value} {m : Machine}
    (hBounds : m.heap.Bounds (.procedure p :: args)) :
    ∃ k, after (some limit) k ⟨.application p args, m, []⟩ = .ended (apply limit p args m) := by
  have hDefinite := definite_of_heights (heights_apply limit hBounds.frames hBounds.values)
  obtain ⟨⟨k, hEnd⟩, _⟩ := (follows_applyProcedure _ _ _ _ _).ends hDefinite
  exact ⟨k, hEnd.trans (Moment.ended_outcome hDefinite).symm⟩

/-- Every evaluation under a limit ends: with every sufficient amount of fuel it returns the same
value or error, which is what its moments end in. Where `height` bounds the expression and the
bodies in the heap, `(limit - depth + 1) * height` is enough fuel, and at most so many evaluations
are active at any moment. `evaluate`, which chooses its fuel by itself, returns that value or
error. -/
theorem evaluation_ends (limit : Nat) (env : FrameId) (e : Expr) (m : Machine) :
    (∃ r, Returns (some limit) env e m r ∧
      ∃ k, after (some limit) k (start env e m) = pass r []) ∧
    (∀ height, e.height ≤ height → m.heap.BodiesWithin height →
      Returns (some limit) env e m (run (some limit) ((limit - m.depth + 1) * height) env e m) ∧
      ∀ k, (after (some limit) k (start env e m)).calls ≤ (limit - m.depth + 1) * height) ∧
    (m.heap.BodiesWithin m.heap.tallest →
      (∃ v m', evaluate limit env e m = (.ok v, m') ∧
        Returns (some limit) env e (note e m) (.ok v m')) ∨
      (∃ error m', evaluate limit env e m = (.error error, m') ∧
        Returns (some limit) env e (note e m) (.error (.error error) m'))) := by
  refine ⟨?_, fun height he hBodies => ?_, evaluate_returns limit env e⟩
  · obtain ⟨r, hReturns⟩ := exists_returns limit env e m
    exact ⟨r, hReturns, (returns_iff hReturns.1).1 hReturns⟩
  · have hDefinite := definite_run_budget limit env hBodies he
    exact ⟨.of_definite hDefinite, (calls_le_of_definite hDefinite).2⟩

/-- The procedure `(lambda (x) (loop x))`. -/
def loopCode : Lambda := ⟨⟨["x"], none⟩, [.list none [.symbol none "loop", .symbol none "x"]]⟩

/-- A heap whose global frame binds `loop` to a procedure that calls itself for ever. -/
def loopHeap : Heap :=
  (Heap.empty.newGlobal.2.define 1 "loop" (.procedure (.closure 0 loopCode 1))).noteHeight 2

/-- The call `(loop nil)`. -/
def loopCall : Expr := .list none [.symbol none "loop", .symbol none "nil"]

theorem bodiesWithin_loopHeap : loopHeap.BodiesWithin 2 := by
  have hGlobal := (Regime.heights 2).holds_newGlobal trivial
  have hCode : (Value.procedure (.closure 0 loopCode 1)).BodiesWithin 2 := by
    intro e he
    rw [List.mem_singleton.1 he]
    decide
  exact Regime.heights_holds_iff.1 ((hGlobal.define 1 hCode trivial).noteHeight 2)

/-- Endless recursion ends under a limit of three, with the error of the limit, and never are more
than eight evaluations active. -/
theorem loopCall_ends :
    loopCall.height ≤ 2 ∧ loopHeap.BodiesWithin 2 ∧ loopHeap.BodiesWithin loopHeap.tallest ∧
    (∃ r, Returns (some 3) 1 loopCall ⟨loopHeap, 0⟩ r) ∧
    (∀ k, (after (some 3) k (start 1 loopCall ⟨loopHeap, 0⟩)).calls ≤ 8) ∧
    ∃ m', Returns (some 3) 1 loopCall (note loopCall ⟨loopHeap, 0⟩)
      (.error (.error ⟨.depthExceeded 3, none⟩) m') := by
  have hHeight : loopCall.height ≤ 2 := by decide
  obtain ⟨⟨r, hr, _⟩, hCalls, hEvaluate⟩ := evaluation_ends 3 1 loopCall ⟨loopHeap, 0⟩
  have hError : (evaluate 3 1 loopCall ⟨loopHeap, 0⟩).1 = .error ⟨.depthExceeded 3, none⟩ := rfl
  refine ⟨hHeight, bodiesWithin_loopHeap, bodiesWithin_loopHeap, ⟨r, hr⟩,
    (hCalls 2 hHeight bodiesWithin_loopHeap).2, ?_⟩
  rcases hEvaluate bodiesWithin_loopHeap with ⟨v, m', h, _⟩ | ⟨error, m', h, hReturns⟩
  · rw [h] at hError
    cases hError
  · rw [h] at hError
    cases hError
    exact ⟨m', hReturns⟩

end Eval

end MiniScheme
