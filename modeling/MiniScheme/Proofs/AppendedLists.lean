import MiniScheme.Proofs.ListOperations
import MiniScheme.Proofs.StructuralEquality

/-!
# Appended lists are new

`append` takes all of its arguments apart and builds one list of their elements. The last argument
is no exception: it has to be a proper list as well, and the result shares no pair with it.

What an application amounts to is decided by `Builtin.concat`, which goes through the arguments from
left to right. It goes through two halves one after the other (`Builtin.concat_append`), and all
laws of appending follow from this: the first argument that is no proper list decides the error, an
empty list counts for nothing, and a list that was appended before counts for what it was made of.

The pairs of the result take the identities that are next. That they are new is a fact about
histories in which all pairs come from the session (`World.Permits`): whatever is around when
`append` is applied has an identity that was given out before.

## Main results

* `Builtin.concat_append`, `Builtin.concat_regroup`: the elements of several lists.
* `World.Traces.identity_lt`: identities that are around were given out.
* `Eval.append_concatenates_and_copies`: what the application of `append` does.
-/

namespace MiniScheme

/-- A list that is built takes the identities from the given one on. -/
theorem Value.identities_chain (id : Nat) (vs : List Value) :
    (chain id vs .nil).cells.map Prod.snd = List.range' id vs.length := by
  rw [chain_eq_linked, cells_linked rfl, List.zipIdx_map_snd]

/-! ## The elements of several lists -/

namespace Builtin

/-- The elements of two groups of lists, one after the other. -/
theorem concat_append (vs ws : List Value) :
    concat (vs ++ ws) = concat vs >>= fun xs => concat ws >>= fun ys => .ok (xs ++ ys) := by
  induction vs with
  | nil =>
      show concat ws = concat ws >>= fun ys => .ok ys
      cases concat ws <;> rfl
  | cons v vs ih =>
      rw [List.cons_append, concat, concat, ih]
      cases v.listElements with
      | error cause => rfl
      | ok own =>
          cases concat vs with
          | error cause => rfl
          | ok xs =>
              cases concat ws with
              | error cause => rfl
              | ok ys => exact congrArg Except.ok (List.append_assoc own xs ys).symm

theorem concat_of_proper {vs : List Value} (h : ∀ v ∈ vs, v.isProperList = true) :
    concat vs = .ok (vs.flatMap Value.items) := by
  induction vs with
  | nil => rfl
  | cons v vs ih =>
      obtain ⟨hFirst, hOthers⟩ := List.forall_mem_cons.1 h
      rw [concat, Value.listElements_eq, if_pos hFirst, ih hOthers]
      rfl

/-- The first argument that is no proper list decides. -/
theorem concat_of_improper {before : List Value} (hBefore : ∀ v ∈ before, v.isProperList = true)
    {improper : Value} (hImproper : improper.isProperList = false) (after : List Value) :
    concat (before ++ improper :: after) = .error (.improperList improper.render) := by
  have hFirst : improper.listElements = .error (.improperList improper.render) := by
    rw [Value.listElements_eq, hImproper]
    rfl
  rw [concat_append, concat_of_proper hBefore, concat, hFirst]
  rfl

theorem concat_cons_nil (vs : List Value) : concat (.nil :: vs) = concat vs := by
  show concat vs >>= (fun others => .ok ([] ++ others)) = concat vs
  cases concat vs <;> rfl

/-- A list of the elements of several lists stands for them. -/
theorem concat_regroup {group elements : List Value} (h : concat group = .ok elements) (id : Nat)
    (before after : List Value) :
    concat (before ++ .chain id elements .nil :: after) = concat (before ++ group ++ after) := by
  have hList : concat [Value.chain id elements .nil] = concat group := by
    rw [h, concat, Value.listElements_chain]
    exact congrArg Except.ok (List.append_nil elements)
  have hSplit : before ++ Value.chain id elements .nil :: after =
      before ++ [Value.chain id elements .nil] ++ after := by simp
  rw [hSplit, concat_append, concat_append (before ++ group), concat_append, concat_append, hList]

end Builtin

/-! ## Identities that are around -/

/-- Whatever is around at a moment has an identity that was given out before. -/
theorem World.Traces.identity_lt {limit : Nat} {w : World} (hw : (initial limit).Traces w)
    {s : Eval.Moment} (hs : w.Shows s) {v : Value} (hv : w.Around s v) {id : Nat}
    (hId : v.identity? = some id) : id < s.machine.heap.nextId := by
  obtain ⟨σ, hBefore, hEntered⟩ := hw.exists_ledger hs
  exact hBefore id v (hEntered v hv v id .whole hId)

/-! ## Applications -/

/-- The machine with so many more identities given out, and otherwise the same. -/
def Machine.reserve (m : Machine) (count : Nat) : Machine :=
  { m with heap := { m.heap with nextId := m.heap.nextId + count } }

namespace Eval

variable (limit : Option Nat) (self : Evaluator) {args : List Value} (m : Machine)

theorem applyProcedure_append {elements : List Value} (h : Builtin.concat args = .ok elements) :
    applyProcedure limit self (.builtin .append) args m =
      .ok (.chain m.heap.nextId elements .nil) (m.reserve elements.length) := by
  show callBuiltin .append args m = _
  simp only [callBuiltin, Builtin.apply, h]
  rfl

theorem applyProcedure_append_error {cause : Cause} (h : Builtin.concat args = .error cause) :
    applyProcedure limit self (.builtin .append) args m = .error (.error (.bare cause)) m := by
  show callBuiltin .append args m = _
  simp only [callBuiltin, Builtin.apply, h]
  rfl

/-- Proper lists are appended to a list of all their elements, from the identities that are next. -/
theorem exists_appended (hProper : ∀ v ∈ args, v.isProperList = true) :
    ∃ list : Value, applyProcedure limit self (.builtin .append) args m =
        .ok list (m.reserve list.items.length) ∧
      list.isProperList = true ∧ list.items = args.flatMap Value.items ∧
      list.items.length = (args.map fun v => v.items.length).sum ∧
      list.cells.map Prod.snd = List.range' m.heap.nextId list.items.length := by
  have hElements := Builtin.concat_of_proper hProper
  generalize hAll : args.flatMap Value.items = elements at hElements
  have hItems : (Value.chain m.heap.nextId elements .nil).items = elements := by
    rw [Value.items_chain]
    exact List.append_nil elements
  refine ⟨.chain m.heap.nextId elements .nil, ?_, ?_, hItems, ?_, ?_⟩
  · rw [hItems]
    exact applyProcedure_append limit self m hElements
  · rw [Value.isProperList_iff, Value.tail_chain]
    rfl
  · rw [hItems, ← hAll, List.length_flatMap]
  · rw [Value.identities_chain, hItems]

/-- Only the elements of the arguments matter. -/
theorem applyProcedure_append_congr {args' : List Value}
    (h : Builtin.concat args = Builtin.concat args') :
    applyProcedure limit self (.builtin .append) args m =
      applyProcedure limit self (.builtin .append) args' m := by
  cases hConcat : Builtin.concat args' with
  | ok elements =>
      rw [applyProcedure_append limit self m hConcat,
        applyProcedure_append limit self m (h.trans hConcat)]
  | error cause =>
      rw [applyProcedure_append_error limit self m hConcat,
        applyProcedure_append_error limit self m (h.trans hConcat)]

variable {limit self m}

theorem exists_concat_of_applyProcedure {list : Value} {m' : Machine}
    (h : applyProcedure limit self (.builtin .append) args m = .ok list m') :
    ∃ elements, Builtin.concat args = .ok elements ∧
      list = .chain m.heap.nextId elements .nil := by
  cases hConcat : Builtin.concat args with
  | ok elements =>
      rw [applyProcedure_append limit self m hConcat] at h
      cases h
      exact ⟨elements, rfl, rfl⟩
  | error cause =>
      rw [applyProcedure_append_error limit self m hConcat] at h
      cases h

/-- `append` concatenates and copies, on any machine.

* Of proper lists it returns a proper list of all their elements, in order; its length is the sum of
  theirs. Its pairs have the identities that are next, and nothing but the next identity changes.
* Otherwise it fails with the text of the first argument that is no proper list, wherever that
  stands, and nothing changes.
* Empty lists can be left out, and a list that `append` returned, on whatever machine, can be
  replaced with the arguments that it was made of.
* The pairs of the list are new: at every moment of every history at which `append` is applied,
  nothing that is around, the arguments and all that occurs in them included, has an identity of one
  of them. -/
theorem append_concatenates_and_copies (limit : Option Nat) (self : Evaluator) :
    let append := applyProcedure limit self (.builtin .append)
    (∀ (args : List Value) (m : Machine), (∀ v ∈ args, v.isProperList = true) →
      ∃ list : Value, append args m = .ok list (m.reserve list.items.length) ∧
        list.isProperList = true ∧ list.items = args.flatMap Value.items ∧
        list.items.length = (args.map fun v => v.items.length).sum ∧
        list.cells.map Prod.snd = List.range' m.heap.nextId list.items.length) ∧
    (∀ (before : List Value) (improper : Value) (after : List Value) (m : Machine),
      (∀ v ∈ before, v.isProperList = true) → improper.isProperList = false →
      append (before ++ improper :: after) m =
        .error (.error (.bare (.improperList improper.render))) m) ∧
    (∀ (before after : List Value) (m : Machine),
      append (before ++ .nil :: after) m = append (before ++ after) m) ∧
    (∀ (before group after : List Value) (list : Value) (m₁ m₂ : Machine),
      append group m₁ = .ok list m₂ →
      ∀ m, append (before ++ list :: after) m = append (before ++ group ++ after) m) ∧
    ∀ (most : Nat) (w : World) (args : List Value) (m m' : Machine) (ws : List Waiting)
      (list : Value), (World.initial most).Traces w →
      w.Shows ⟨.application (.builtin .append) args, m, ws⟩ → append args m = .ok list m' →
      ∀ (v : Value) (id : Nat), w.Around ⟨.application (.builtin .append) args, m, ws⟩ v →
        v.identity? = some id → id ∉ list.cells.map Prod.snd := by
  intro append
  refine ⟨fun args m hProper => ?_, fun before improper after m hBefore hImproper => ?_,
    fun before after m => ?_, fun before group after list m₁ m₂ hGroup m => ?_,
    fun most w args m m' ws list hw hs hList v id hv hId => ?_⟩
  · exact exists_appended limit self m hProper
  · exact applyProcedure_append_error limit self m
      (Builtin.concat_of_improper hBefore hImproper after)
  · refine applyProcedure_append_congr limit self m ?_
    rw [Builtin.concat_append, Builtin.concat_append, Builtin.concat_cons_nil]
  · obtain ⟨elements, hConcat, rfl⟩ := exists_concat_of_applyProcedure hGroup
    exact applyProcedure_append_congr limit self m (Builtin.concat_regroup hConcat _ before after)
  · obtain ⟨elements, _, rfl⟩ := exists_concat_of_applyProcedure hList
    have hOld : id < m.heap.nextId := hw.identity_lt hs hv hId
    rw [Value.identities_chain]
    exact fun hMem => Nat.not_le_of_lt hOld (List.mem_range'_1.1 hMem).1

/-- Two lists that were handed out, with an empty one between them, are copied; with a number and an
improper list behind the first, the number is refused. -/
theorem appending_lists_handed_out :
    let first := World.withOnes.given.getD 2 .nil
    let fresh := World.withOnes.given.getD 0 .nil
    let dotted : Value := .pair 0 .nil (.boolean true)
    let m : Machine := ⟨World.withOnes.heap, 0⟩
    let append := applyProcedure (some 5) (run (some 5) 0) (.builtin .append)
    (∃ list m', append [first, .nil, fresh] m = .ok list m' ∧
      list.items.map Value.render = ["0", "1", "0", "1"] ∧ m'.heap.frames = m.heap.frames ∧
      ∀ (v : Value) (id : Nat), v.Part first ∨ v.Part fresh → v.identity? = some id →
        id ∉ list.cells.map Prod.snd) ∧
    append [first, .number (.integer 5), dotted] m =
      .error (.error (.bare (.improperList "5"))) m := by
  intro first fresh dotted m append
  have hLength : World.withOnes.given.length = 4 := by decide +kernel
  have hGiven : ∀ i < 4, World.withOnes.given.getD i .nil ∈ World.withOnes.given := by
    intro i hi
    rw [List.getD_eq_getElem?_getD, List.getElem?_eq_getElem (by omega), Option.getD_some]
    exact List.getElem_mem _
  have hProper : ∀ v ∈ [first, .nil, fresh], v.isProperList = true := by decide +kernel
  have hPermits : World.withOnes.Permits (.apply (.builtin .append) [first, .nil, fresh]) := by
    refine ⟨by simp [Request.frames], fun v hv u id hPart hId => ?_⟩
    simp only [Request.values, List.mem_cons, List.not_mem_nil, or_false] at hv
    rcases hv with rfl | rfl | rfl | rfl
    · cases hPart
      cases hId
    · exact ⟨first, hGiven 2 (by omega), hPart⟩
    · cases hPart
      cases hId
    · exact ⟨fresh, hGiven 0 (by omega), hPart⟩
  obtain ⟨hLists, hRefusal, _, _, hNew⟩ :=
    append_concatenates_and_copies (some 5) (run (some 5) 0)
  obtain ⟨list, hList, _, hItems, _⟩ := hLists [first, .nil, fresh] m hProper
  refine ⟨⟨list, _, hList, ?_, rfl, fun v id hPart hId => ?_⟩, ?_⟩
  · rw [hItems]
    decide +kernel
  · refine hNew 5 World.withOnes _ m _ [] list World.traces_withOnes
      (.application hPermits none 0 0) hList v id ?_ hId
    rcases hPart with hPart | hPart
    · exact ⟨first, hPart, .inl (hGiven 2 (by omega))⟩
    · exact ⟨fresh, hPart, .inl (hGiven 0 (by omega))⟩
  · exact hRefusal [first] _ [dotted] m (by simpa using hProper first (by simp)) rfl

end Eval

end MiniScheme
