import MiniScheme.Proofs.Adequacy
import MiniScheme.Proofs.HeapGrowth

/-!
# A call binds every argument once

The parameters of a procedure take the arguments of a call in turn, and the rest parameter, if there
is one, takes what the others leave, as a list. With distinct names nothing is bound twice, so the
frame of the body defines exactly the parameters, and the arguments can be read off it again in the
order in which they were given (`Bindings.Hands`).

The frame is new, and making it is all that happens before the body: no other frame is touched
(`Eval.BodyStarts`). This is said in two ways, once for the result of the application, whatever
evaluates the expressions of the body, and once for the moments of an evaluation, where the body
begins two steps after the application.

## Main results

* `Formals.hands_insertAll`: what the definitions of the parameters amount to.
* `Eval.exists_bodyFrame`: the frame that is made for a body.
* `Eval.closure_binds_every_argument_once`: what the application of a procedure does.
-/

namespace MiniScheme

/-! ## Definitions of one frame -/

namespace Bindings

/-- A name that is not defined yet is added in front. -/
theorem entries_insert {b : Bindings} {name : String} (h : name ∉ b.entries.map Prod.fst)
    (v : Value) : (b.insert name v).entries = (name, v) :: b.entries := by
  have hErase : b.entries.filter (fun entry => entry.1 != name) = b.entries := by
    refine List.filter_eq_self.2 fun entry hEntry => bne_iff_ne.2 fun hEq => h ?_
    exact hEq ▸ List.mem_map_of_mem hEntry
  rw [insert, erase, hErase]

/-- Distinct names leave no trace of one another. -/
theorem entries_insertAll (entries : List (String × Value)) :
    ∀ b : Bindings, (b.entries.map Prod.fst ++ entries.map Prod.fst).Nodup →
      (b.insertAll entries).entries = entries.reverse ++ b.entries := by
  induction entries with
  | nil => exact fun b _ => rfl
  | cons entry entries ih =>
      intro b hNodup
      have hFresh : entry.1 ∉ b.entries.map Prod.fst := fun hMem =>
        (List.nodup_append.1 hNodup).2.2 _ hMem entry.1 (by simp) rfl
      have hEntries := entries_insert hFresh entry.2
      have hStep : b.insertAll (entry :: entries) = (b.insert entry.1 entry.2).insertAll entries :=
        rfl
      rw [hStep, ih, hEntries, List.reverse_cons, List.append_assoc, List.singleton_append]
      rw [hEntries, List.map_cons, List.cons_append]
      exact List.perm_middle.nodup_iff.1 hNodup

/-- Where each name occurs once, a definition is what the name stands for. -/
theorem get?_of_mem {b : Bindings} (hNodup : (b.entries.map Prod.fst).Nodup) {name : String}
    {v : Value} (h : (name, v) ∈ b.entries) : b.get? name = some v := by
  obtain ⟨entries⟩ := b
  show entries.lookup name = some v
  induction entries with
  | nil => cases h
  | cons entry entries ih =>
      obtain ⟨hFirst, hOthers⟩ := List.nodup_cons.1 hNodup
      rcases List.mem_cons.1 h with rfl | h
      · exact List.lookup_cons_self
      · have hNe : name ≠ entry.1 := fun hEq => hFirst (hEq ▸ List.mem_map_of_mem h)
        rw [List.lookup_cons, beq_false_of_ne hNe]
        exact ih hOthers h

section InsertAll

variable {entries : List (String × Value)} (hNodup : (entries.map Prod.fst).Nodup)

include hNodup

/-- A frame with distinct names defined in it defines these and no others. -/
theorem perm_insertAll :
    ((empty.insertAll entries).entries.map Prod.fst).Perm (entries.map Prod.fst) := by
  have hEntries : (empty.insertAll entries).entries = entries.reverse ++ [] :=
    entries_insertAll entries empty hNodup
  rw [hEntries, List.append_nil]
  exact (List.reverse_perm entries).map Prod.fst

theorem get?_insertAll {entry : String × Value} (h : entry ∈ entries) :
    (empty.insertAll entries).get? entry.1 = some entry.2 := by
  refine get?_of_mem ((perm_insertAll hNodup).nodup_iff.2 hNodup) ?_
  have hEntries : (empty.insertAll entries).entries = entries.reverse ++ [] :=
    entries_insertAll entries empty hNodup
  rw [hEntries, List.append_nil]
  exact List.mem_reverse.2 h

end InsertAll

/-- The definitions hand the arguments to the parameters: these are the only names, the fixed ones
have the first arguments, in order, and the rest name has the list of the others. -/
structure Hands (b : Bindings) (formals : Formals) (args : List Value) : Prop where
  names : (b.entries.map Prod.fst).Perm formals.names
  fixed : formals.fixed.map b.get? = (args.take formals.fixed.length).map some
  none_left : formals.rest = none → args.drop formals.fixed.length = []
  rest : ∀ name, formals.rest = some name → ∃ others, b.get? name = some others ∧
    others.listElements = .ok (args.drop formals.fixed.length) ∧
    (args.length = formals.fixed.length → others = .nil)

end Bindings

/-! ## Parameters and arguments -/

theorem map_snd_zip_of_le (names : List String) :
    ∀ args : List Value, names.length ≤ args.length →
      (names.zip args).map Prod.snd = args.take names.length := by
  induction names with
  | nil => exact fun args _ => rfl
  | cons name names ih =>
      intro args hLength
      cases args with
      | nil => cases hLength
      | cons arg args =>
          rw [List.zip_cons_cons, List.map_cons, ih args (Nat.le_of_succ_le_succ hLength)]
          rfl

namespace Formals

/-- The definitions of the parameters, where the rest name has the value `others`. -/
def entries (formals : Formals) (args : List Value) (others : Value) : List (String × Value) :=
  formals.fixed.zip args ++ formals.rest.toList.map fun name => (name, others)

theorem length_le_of_accepts {formals : Formals} {count : Nat}
    (h : formals.accepts count = true) : formals.fixed.length ≤ count := by
  cases hRest : formals.rest with
  | none => exact Nat.le_of_eq ((accepts_of_rest_eq_none hRest count).1 h).symm
  | some rest => exact (accepts_of_rest_eq_some hRest count).1 h

theorem map_fst_entries {formals : Formals} {args : List Value}
    (h : formals.fixed.length ≤ args.length) (others : Value) :
    (formals.entries args others).map Prod.fst = formals.names := by
  have hRest : (formals.rest.toList.map fun name => (name, others)).map Prod.fst =
      formals.rest.toList := by
    rw [List.map_map]
    exact List.map_id _
  rw [entries, List.map_append, List.map_fst_zip h, hRest, names]

/-- Distinct parameters, defined one after the other, hand out the arguments. -/
theorem hands_insertAll {formals : Formals} (hDistinct : formals.names.Nodup) {args : List Value}
    (hAccepts : formals.accepts args.length = true) (id : Nat) :
    (Bindings.empty.insertAll (formals.entries args
      (.chain id (args.drop formals.fixed.length) .nil))).Hands formals args := by
  have hLength := length_le_of_accepts hAccepts
  generalize hOthers : Value.chain id (args.drop formals.fixed.length) .nil = others
  have hNames := map_fst_entries hLength others
  have hNodup : ((formals.entries args others).map Prod.fst).Nodup := hNames ▸ hDistinct
  have hPerm := hNames ▸ Bindings.perm_insertAll hNodup
  have hGet : ∀ entry ∈ formals.entries args others,
      (Bindings.empty.insertAll (formals.entries args others)).get? entry.1 = some entry.2 :=
    fun _ hEntry => Bindings.get?_insertAll hNodup hEntry
  generalize Bindings.empty.insertAll (formals.entries args others) = b at hPerm hGet
  refine ⟨hPerm, ?_, fun hRest => ?_, fun name hRest => ⟨others, ?_, ?_, fun hCount => ?_⟩⟩
  · calc
      formals.fixed.map b.get? = ((formals.fixed.zip args).map Prod.fst).map b.get? := by
        rw [List.map_fst_zip hLength]
      _ = (formals.fixed.zip args).map fun entry => b.get? entry.1 := List.map_map
      _ = (formals.fixed.zip args).map fun entry => some entry.2 :=
        List.map_congr_left fun entry hEntry => hGet entry (List.mem_append_left _ hEntry)
      _ = ((formals.fixed.zip args).map Prod.snd).map some := List.map_map.symm
      _ = (args.take formals.fixed.length).map some := by
        rw [map_snd_zip_of_le _ _ hLength]
  · rw [← (accepts_of_rest_eq_none hRest _).1 hAccepts, List.drop_length]
  · exact hGet (name, others) (List.mem_append_right _ (by simp [hRest]))
  · rw [← hOthers, Value.listElements_chain]
  · rw [← hOthers, ← hCount, List.drop_length]
    rfl

end Formals

namespace Eval

/-! ## The start of a body -/

/-- The body of a procedure starts on the second machine: one frame is new, the one that hands the
arguments to the parameters below the frame that the procedure keeps, and one body more is
active. -/
structure BodyStarts (formals : Formals) (parent : FrameId) (args : List Value) (m m' : Machine) :
    Prop where
  size : m'.heap.frames.size = m.heap.frames.size + 1
  frame : ∃ b : Bindings, m'.heap.frames[m.heap.frames.size]? = some ⟨some parent, b, false⟩ ∧
    b.Hands formals args
  others : ∀ f, f ≠ m.heap.frames.size → m'.heap.frames[f]? = m.heap.frames[f]?
  depth : m'.depth = m.depth + 1

/-- Making the frame of a body is pushing it; the pairs of the rest list take new identities. -/
theorem exists_bodyFrame (code : Lambda) (frame : FrameId) (args : List Value) (m : Machine) :
    ∃ id next : Nat, bodyFrame code frame args m = .ok m.heap.frames.size
      { m with heap := (Heap.push { m.heap with nextId := next } ⟨some frame,
        Bindings.empty.insertAll (code.formals.entries args
          (.chain id (args.drop code.formals.fixed.length) .nil)), false⟩).2 } := by
  have hPush := fun (entries : List (String × Value)) (next : Nat) =>
    Heap.defineAll_push { m.heap with nextId := next } entries ⟨some frame, .empty, false⟩
  cases hRest : code.formals.rest with
  | none =>
      refine ⟨0, m.heap.nextId, ?_⟩
      rw [Formals.entries, hRest, ← hPush]
      simp only [bodyFrame, bindArguments_eq, hRest, Option.toList_none, List.map_nil,
        List.append_nil]
      rfl
  | some rest =>
      refine ⟨m.heap.nextId, m.heap.nextId + (args.drop code.formals.fixed.length).length, ?_⟩
      rw [Formals.entries, hRest, ← hPush]
      simp only [bodyFrame, bindArguments_eq, hRest]
      rfl

theorem exists_bodyStarts {code : Lambda} (hDistinct : code.formals.names.Nodup) (frame : FrameId)
    {args : List Value} (hAccepts : code.formals.accepts args.length = true) (m : Machine) :
    ∃ m', BodyStarts code.formals frame args m m' ∧
      bodyFrame code frame args (enter m) = .ok m.heap.frames.size m' := by
  obtain ⟨id, next, hFrame⟩ := exists_bodyFrame code frame args (enter m)
  have hHands := Formals.hands_insertAll hDistinct hAccepts id
  generalize hInserted : Bindings.empty.insertAll (code.formals.entries args
    (.chain id (args.drop code.formals.fixed.length) .nil)) = b at hFrame hHands
  refine ⟨_, ⟨?_, ⟨b, ?_, hHands⟩, fun f hf => ?_, rfl⟩, hFrame⟩
  · exact Heap.size_push { m.heap with nextId := next } _
  · exact (Heap.getElem?_push { m.heap with nextId := next } _ _).trans (if_pos rfl)
  · exact (Heap.getElem?_push { m.heap with nextId := next } _ f).trans (if_neg hf)

/-- The result of a body that is no longer active. -/
def leaving : EStateM.Result Stop Machine Value → EStateM.Result Stop Machine Value
  | .ok v m => .ok v (leave m)
  | .error stop m => .error stop (leave m)

theorem applyProcedure_of_bodyFrame {limit : Option Nat} (self : Evaluator) (id : Nat)
    {code : Lambda} {frame inner : FrameId} {args : List Value} {m m' : Machine}
    (hAccepts : code.formals.accepts args.length = true) (hAdmits : admits limit m.depth = true)
    (hFrame : bodyFrame code frame args (enter m) = .ok inner m') :
    applyProcedure limit self (.closure id code frame) args m =
      leaving (body self inner code.body m') := by
  have hApply : applyProcedure limit self (.closure id code frame) args =
      nested limit (enterBody self code frame args) := if_pos hAccepts
  rw [hApply, nested, if_pos hAdmits, enterBody_of_bodyFrame self hFrame]
  cases body self inner code.body m' <;> rfl

theorem after_application_of_bodyFrame {limit : Option Nat} (id : Nat) {code : Lambda}
    {frame inner : FrameId} {args : List Value} {m m' : Machine}
    (hAccepts : code.formals.accepts args.length = true) (hAdmits : admits limit m.depth = true)
    (hFrame : bodyFrame code frame args (enter m) = .ok inner m') (ws : List Waiting) :
    Moment.after limit 2 ⟨.application (.closure id code frame) args, m, ws⟩ =
      Moment.sequence inner code.body m' (.body :: ws) := by
  have hEntry : Moment.application limit (.closure id code frame) args m ws =
      ⟨.entry code frame args, enter m, .body :: ws⟩ := by
    rw [Moment.application, Procedure.formals, if_pos hAccepts, if_pos hAdmits]
  show Moment.step limit (Moment.application limit (.closure id code frame) args m ws) = _
  rw [hEntry]
  show Moment.entry code frame args (enter m) (.body :: ws) = _
  rw [Moment.entry, hFrame]

/-- The application of a procedure with distinct parameters binds every argument once.

* If the parameters do not accept the number of arguments, it fails with the parameters and that
  number, and if the limit does not admit one more body, it fails with the limit; in both cases
  nothing is changed.
* Otherwise the body starts in a new frame below the frame that the procedure keeps. That frame
  defines the parameters and nothing else, the fixed ones as the first arguments and the rest name
  as the proper list of the others, and no other frame is changed before the body starts.

The body starts two steps after the application, and the application ends as the body does. -/
theorem closure_binds_every_argument_once {code : Lambda}
    (hDistinct : code.formals.names.Nodup) (limit : Option Nat) (id : Nat) (frame : FrameId)
    (args : List Value) (m : Machine) :
    let p := Procedure.closure id code frame
    (code.formals.accepts args.length = false → ∀ self, applyProcedure limit self p args m =
      .error (.error (.bare (.argumentMismatch code.formals args.length))) m) ∧
    (code.formals.accepts args.length = true → admits limit m.depth = false →
      ∀ self, applyProcedure limit self p args m =
        .error (.error (.bare (.depthExceeded (limit.getD 0)))) m) ∧
    (code.formals.accepts args.length = true → admits limit m.depth = true →
      ∃ m', BodyStarts code.formals frame args m m' ∧
        (∀ self, applyProcedure limit self p args m =
          leaving (body self m.heap.frames.size code.body m')) ∧
        ∀ ws, Moment.after limit 2 ⟨.application p args, m, ws⟩ =
          Moment.sequence m.heap.frames.size code.body m' (.body :: ws)) := by
  refine ⟨fun hAccepts self => ?_, fun hAccepts hAdmits self => ?_, fun hAccepts hAdmits => ?_⟩
  · rw [applyProcedure, Procedure.formals, if_neg (by simp [hAccepts])]
    rfl
  · rw [applyProcedure, Procedure.formals, if_pos hAccepts]
    show nested limit (enterBody self code frame args) m = _
    rw [nested, if_neg (by simp [hAdmits])]
    rfl
  · obtain ⟨m', hStarts, hFrame⟩ := exists_bodyStarts hDistinct frame hAccepts m
    exact ⟨m', hStarts, fun self => applyProcedure_of_bodyFrame self id hAccepts hAdmits hFrame,
      after_application_of_bodyFrame id hAccepts hAdmits hFrame⟩

/-- Of four arguments, two go to the fixed parameters and two into the list of the rest parameter;
one argument is refused. -/
theorem call_with_two_parameters_and_rest :
    let number := fun n : Int64 => Value.number (.integer n)
    let code : Lambda := ⟨⟨["a", "b"], some "r"⟩, [.symbol none "r"]⟩
    let m : Machine := ⟨Heap.empty.newRoot.2, 0⟩
    (∀ self, applyProcedure (some 5) self (.closure 3 code 0) [number 1] m =
        .error (.error (.bare (.argumentMismatch code.formals 1))) m) ∧
      ∃ (m' : Machine) (b : Bindings) (others : Value),
        m'.heap.frames[1]? = some ⟨some 0, b, false⟩ ∧
        m'.heap.frames[0]? = m.heap.frames[0]? ∧
        [b.get? "a", b.get? "b"] = [some (number 1), some (number 2)] ∧
        b.get? "r" = some others ∧ others.listElements = .ok [number 3, number 4] ∧
        ∀ self, applyProcedure (some 5) self (.closure 3 code 0)
          [number 1, number 2, number 3, number 4] m = leaving (body self 1 code.body m') := by
  intro number code m
  have hDistinct : code.formals.names.Nodup := by decide
  have hCall := fun args => closure_binds_every_argument_once hDistinct (some 5) 3 0 args m
  obtain ⟨m', hStarts, hResult, _⟩ :=
    (hCall [number 1, number 2, number 3, number 4]).2.2 rfl rfl
  obtain ⟨b, hFrame, hHands⟩ := hStarts.frame
  obtain ⟨others, hRest, hElements, _⟩ := hHands.rest "r" rfl
  exact ⟨(hCall [number 1]).1 rfl, m', b, others, hFrame, hStarts.others 0 (by decide),
    hHands.fixed, hRest, hElements, hResult⟩

end Eval

end MiniScheme
