import MiniScheme.Proofs.Correspondence
import MiniScheme.Proofs.HeapGrowth

/-!
# Alike heaps

Two heaps are alike under a matching of their frames if frames that match have matching parents and
define the names that are mentioned alike. What the other frames hold does not matter.

Every operation of evaluation on alike heaps gives alike results and leaves alike heaps behind. The
matching stays as it is, but for a new frame: it is matched with the new frame of the other heap.

## Main results

* `Heap.Alike.home?`, `Heap.Alike.lookup`: a name has matching homes and alike values.
* `Heap.Alike.alter`: the same change to matching frames.
* `Heap.Alike.push`: new frames are matched.
-/

namespace MiniScheme

variable {C : Correspondence} {M M' : Matching}

/-! ## Definitions -/

/-- Definitions that give the names that are mentioned alike values. -/
def Bindings.Alike (C : Correspondence) (M : Matching) (b b' : Bindings) : Prop :=
  ∀ name, C.name name → Option.Rel (Value.Alike C M) (b.get? name) (b'.get? name)

/-- Frames with matching parents and alike definitions. -/
structure Frame.Alike (C : Correspondence) (M : Matching) (frame frame' : Frame) : Prop where
  parent : Option.Rel M frame.parent frame'.parent
  hasBuiltins : frame.hasBuiltins = frame'.hasBuiltins
  bindings : frame.bindings.Alike C M frame'.bindings

/-- The frame exists, and its parent is older. -/
def Heap.Settled (h : Heap) (f : FrameId) : Prop :=
  ∃ frame, h.frames[f]? = some frame ∧ ∀ parent, frame.parent = some parent → parent < f

/-- The matching keeps to the bounds that the correspondence sets, while there are that many frames
in the two heaps, and so will the frames that are made next. -/
structure Matching.Keeps (C : Correspondence) (M : Matching) (size size' : Nat) : Prop where
  pair : ∀ {f f'}, M f f' → C.pair f f'
  next : ∀ k, C.pair (size + k) (size' + k)
  left : ∀ f < size, C.left f → ∃ f', M f f'
  right : ∀ f' < size', C.right f' → ∃ f, M f f'

/-- Heaps whose matching frames are alike, and that give out matching frames and identities next.
Names are looked for along as many frames as the index of the first one allows; so either matching
frames have the same index, or their parents are older, and the way to the root is never cut. -/
structure Heap.Alike (C : Correspondence) (M : Matching) (h h' : Heap) : Prop where
  frame : ∀ {f f'}, M f f' → Option.Rel (Frame.Alike C M) h.frames[f]? h'.frames[f']?
  one_to_one : ∀ {f f' g g'}, M f f' → M g g' → (f = g ↔ f' = g')
  way : (∀ f f', M f f' → f = f') ∧ h.frames.size = h'.frames.size ∨
    ∀ f f', M f f' → h.Settled f ∧ h'.Settled f'
  id : ∀ k, C.id (h.nextId + k) (h'.nextId + k)
  keeps : M.Keeps C h.frames.size h'.frames.size

/-- Names with alike values, in the same order. -/
abbrev EntriesAlike (C : Correspondence) (M : Matching) :
    List (String × Value) → List (String × Value) → Prop :=
  List.Forall₂ fun entry entry' => entry.1 = entry'.1 ∧ entry.2.Alike C M entry'.2

theorem optionRel_refl {α : Type} {R : α → α → Prop} (hR : ∀ a, R a a) (x : Option α) :
    Option.Rel R x x := by
  cases x with
  | none => exact .none
  | some a => exact .some (hR a)

theorem optionRel_mono {α β : Type} {R S : α → β → Prop} (hRS : ∀ a b, R a b → S a b)
    {x : Option α} {y : Option β} (h : Option.Rel R x y) : Option.Rel S x y := by
  cases h with
  | some h => exact .some (hRS _ _ h)
  | none => exact .none

theorem eq_of_optionRel {α : Type} {R : α → α → Prop} (hR : ∀ a b, R a b → a = b)
    {x y : Option α} (h : Option.Rel R x y) : x = y := by
  cases h with
  | none => rfl
  | some h => rw [hR _ _ h]

theorem optionRel_find? {α β : Type} {R : α → β → Prop} {p : α → Bool} {q : β → Bool}
    (hpq : ∀ a b, R a b → p a = q b) {as : List α} {bs : List β} (h : List.Forall₂ R as bs) :
    Option.Rel R (as.find? p) (bs.find? q) := by
  induction h with
  | nil => exact .none
  | cons hHead _ ih =>
      rw [List.find?_cons, List.find?_cons, hpq _ _ hHead]
      split
      · exact .some hHead
      · exact ih

theorem Bindings.Alike.insert {b b' : Bindings} (h : b.Alike C M b') (name : String)
    {v v' : Value} (hv : v.Alike C M v') : (b.insert name v).Alike C M (b'.insert name v') := by
  intro other hOther
  rw [Bindings.get?_insert, Bindings.get?_insert]
  split
  · exact .some hv
  · exact h other hOther

theorem Bindings.Alike.erase {b b' : Bindings} (h : b.Alike C M b') (name : String) :
    (b.erase name).Alike C M (b'.erase name) := by
  intro other hOther
  rw [Bindings.get?_erase, Bindings.get?_erase]
  split
  · exact .none
  · exact h other hOther

theorem Bindings.Alike.mono (hM : M ≤ M') {b b' : Bindings} (h : b.Alike C M b') :
    b.Alike C M' b' :=
  fun name hName => optionRel_mono (fun _ _ hv => hv.mono hM) (h name hName)

theorem Frame.Alike.mono (hM : M ≤ M') {frame frame' : Frame} (h : frame.Alike C M frame') :
    frame.Alike C M' frame' :=
  ⟨optionRel_mono hM h.parent, h.hasBuiltins, h.bindings.mono hM⟩

theorem Frame.Alike.get? {frame frame' : Frame} (h : frame.Alike C M frame') {name : String}
    (hName : C.name name) : Option.Rel (Value.Alike C M) (frame.get? name) (frame'.get? name) := by
  have hBound := h.bindings name hName
  unfold Frame.get?
  rw [h.hasBuiltins]
  generalize frame.bindings.get? name = x, frame'.bindings.get? name = y at hBound
  cases hBound with
  | some hv => exact .some hv
  | none =>
      dsimp only
      split
      · cases Builtin.ofName? name with
        | none => exact .none
        | some b => exact .some (.procedure (.builtin b))
      · exact .none

namespace Heap

variable {h h' : Heap}

/-! ### Names -/

/-- Matching frames have matching frames above them, if the way is cut at the same length or not
at all. -/
theorem Alike.chainFrom (hAlike : h.Alike C M h') (n : Nat) :
    ∀ n' f f', M f f' →
      n = n' ∨ f < n ∧ f' < n' ∧ (∀ g g', M g g' → h.Settled g ∧ h'.Settled g') →
      List.Forall₂ M (h.chainFrom n f) (h'.chainFrom n' f') := by
  induction n with
  | zero =>
      rintro n' f f' _ (rfl | ⟨hf, _⟩)
      · exact .nil
      · exact absurd hf (Nat.not_lt_zero f)
  | succ n ih =>
      intro n' f f' hM hFuel
      obtain ⟨k, rfl⟩ : ∃ k, n' = k + 1 := by
        rcases hFuel with rfl | ⟨_, hf', _⟩
        · exact ⟨n, rfl⟩
        · exact Nat.exists_eq_succ_of_ne_zero (Nat.ne_zero_of_lt hf')
      have hFrame := hAlike.frame hM
      unfold Heap.chainFrom
      generalize hx : h.frames[f]? = x, hy : h'.frames[f']? = y at hFrame
      cases hFrame with
      | none => exact .nil
      | @some frame frame' hFrame =>
          have hParent := hFrame.parent
          dsimp only
          generalize hp : frame.parent = p, hp' : frame'.parent = p' at hParent
          cases hParent with
          | none => exact .cons hM .nil
          | @some parent parent' hParent =>
              refine .cons hM (ih k parent parent' hParent ?_)
              -- Where the lengths differ they suffice, because a parent is older than its frame.
              rcases hFuel with hEq | ⟨hf, hf', hSettled⟩
              · exact .inl (Nat.succ.inj hEq)
              · obtain ⟨⟨frame₁, hFrame₁, hOlder⟩, ⟨frame₁', hFrame₁', hOlder'⟩⟩ := hSettled f f' hM
                obtain rfl : frame = frame₁ := Option.some.inj (hx.symm.trans hFrame₁)
                obtain rfl : frame' = frame₁' := Option.some.inj (hy.symm.trans hFrame₁')
                refine .inr ⟨?_, ?_, hSettled⟩
                · exact Nat.lt_of_lt_of_le (hOlder parent hp) (Nat.le_of_lt_succ hf)
                · exact Nat.lt_of_lt_of_le (hOlder' parent' hp') (Nat.le_of_lt_succ hf')

theorem Alike.chain (hAlike : h.Alike C M h') {f f' : FrameId} (hM : M f f') :
    List.Forall₂ M (h.chain f) (h'.chain f') := by
  refine hAlike.chainFrom (f + 1) (f' + 1) f f' hM ?_
  rcases hAlike.way with ⟨hSame, _⟩ | hSettled
  · exact .inl (congrArg Nat.succ (hSame f f' hM))
  · exact .inr ⟨Nat.lt_succ_self f, Nat.lt_succ_self f', hSettled⟩

theorem Alike.local? (hAlike : h.Alike C M h') {f f' : FrameId} (hM : M f f') {name : String}
    (hName : C.name name) : Option.Rel (Value.Alike C M) (h.local? f name) (h'.local? f' name) := by
  have hFrame := hAlike.frame hM
  unfold Heap.local?
  generalize h.frames[f]? = x, h'.frames[f']? = y at hFrame
  cases hFrame with
  | none => exact .none
  | some hFrame => exact hFrame.get? hName

/-- A name has matching homes in alike heaps. -/
theorem Alike.home? (hAlike : h.Alike C M h') {f f' : FrameId} (hM : M f f') {name : String}
    (hName : C.name name) : Option.Rel M (h.home? f name) (h'.home? f' name) := by
  refine optionRel_find? (fun g g' hg => ?_) (hAlike.chain hM)
  have hLocal := hAlike.local? hg hName
  generalize h.local? g name = x, h'.local? g' name = y at hLocal
  cases hLocal <;> rfl

theorem Alike.get? (hAlike : h.Alike C M h') {f f' : FrameId} (hM : M f f') {name : String}
    (hName : C.name name) : Option.Rel (Value.Alike C M) (h.get? f name) (h'.get? f' name) := by
  have hHome := hAlike.home? hM hName
  unfold Heap.get?
  generalize h.home? f name = x, h'.home? f' name = y at hHome
  cases hHome with
  | none => exact .none
  | some hg => exact hAlike.local? hg hName

/-- A name that is mentioned has alike values as seen from matching frames, or is unbound in both
heaps. -/
theorem Alike.lookup (hAlike : h.Alike C M h') {f f' : FrameId} (hM : M f f') {name : String}
    (hName : C.name name) :
    ExceptRel Eq (Value.Alike C M) (h.lookup f name) (h'.lookup f' name) := by
  have hGet := hAlike.get? hM hName
  unfold Heap.lookup
  generalize h.get? f name = x, h'.get? f' name = y at hGet
  cases hGet with
  | none => exact .error rfl
  | some hv => exact .ok hv

/-! ### Definitions -/

theorem Settled.alter {f : FrameId} (hf : h.Settled f) (g : FrameId)
    (change : Bindings → Bindings) : (h.alter g change).Settled f := by
  obtain ⟨frame, hFrame, hOlder⟩ := hf
  obtain ⟨frame', hFrame', hParent, _⟩ := (h.grows_alter g change).frame f frame hFrame
  exact ⟨frame', hFrame', hParent ▸ hOlder⟩

/-- Matching frames are altered in the same way. -/
theorem Alike.alter (hAlike : h.Alike C M h') {f f' : FrameId} (hM : M f f')
    {change change' : Bindings → Bindings}
    (hChange : ∀ b b' : Bindings, b.Alike C M b' → (change b).Alike C M (change' b')) :
    (h.alter f change).Alike C M (h'.alter f' change') := by
  refine ⟨fun {g g'} hg => ?_, hAlike.one_to_one, ?_, hAlike.id, ?_⟩
  · have hFrame := hAlike.frame hg
    rw [getElem?_alter, getElem?_alter]
    by_cases hEq : f = g
    · rw [if_pos hEq, if_pos ((hAlike.one_to_one hM hg).1 hEq)]
      generalize h.frames[g]? = x, h'.frames[g']? = y at hFrame
      cases hFrame with
      | none => exact .none
      | some hFrame =>
          exact .some ⟨hFrame.parent, hFrame.hasBuiltins, hChange _ _ hFrame.bindings⟩
    · rw [if_neg hEq, if_neg fun hEq' => hEq ((hAlike.one_to_one hM hg).2 hEq')]
      exact hFrame
  · rcases hAlike.way with ⟨hSame, hSize⟩ | hSettled
    · exact .inl ⟨hSame, by rw [size_alter, size_alter, hSize]⟩
    · exact .inr fun g g' hg => ⟨(hSettled g g' hg).1.alter f change,
        (hSettled g g' hg).2.alter f' change'⟩
  · rw [size_alter, size_alter]
    exact hAlike.keeps

/-- A frame of the second heap that is not matched can be altered in any way. -/
theorem Alike.alter_right (hAlike : h.Alike C M h') {f' : FrameId} (hFree : ∀ f, ¬M f f')
    (change : Bindings → Bindings) : h.Alike C M (h'.alter f' change) := by
  refine ⟨fun {g g'} hg => ?_, hAlike.one_to_one, ?_, hAlike.id, ?_⟩
  · have hNe : f' ≠ g' := fun hEq => hFree g (hEq ▸ hg)
    rw [getElem?_alter, if_neg hNe]
    exact hAlike.frame hg
  · rcases hAlike.way with ⟨hSame, hSize⟩ | hSettled
    · exact .inl ⟨hSame, by rw [size_alter, hSize]⟩
    · exact .inr fun g g' hg => ⟨(hSettled g g' hg).1, (hSettled g g' hg).2.alter f' change⟩
  · rw [size_alter]
    exact hAlike.keeps

theorem Alike.define (hAlike : h.Alike C M h') {f f' : FrameId} (hM : M f f') (name : String)
    {v v' : Value} (hv : v.Alike C M v') :
    (h.define f name v).Alike C M (h'.define f' name v') :=
  hAlike.alter hM fun _ _ hBindings => hBindings.insert name hv

theorem Alike.defineAll {entries entries' : List (String × Value)}
    (hEntries : EntriesAlike C M entries entries') {f f' : FrameId} (hM : M f f') :
    ∀ {h h' : Heap}, h.Alike C M h' →
      (h.defineAll f entries).Alike C M (h'.defineAll f' entries') := by
  induction hEntries with
  | nil => exact fun hAlike => hAlike
  | @cons entry entry' _ _ hHead _ ih =>
      intro h h' hAlike
      obtain ⟨name, v⟩ := entry
      obtain ⟨name', v'⟩ := entry'
      obtain ⟨rfl, hv⟩ := hHead
      exact ih (hAlike.define hM name hv)

theorem Alike.set (hAlike : h.Alike C M h') {f f' : FrameId} (hM : M f f') {name : String}
    (hName : C.name name) {v v' : Value} (hv : v.Alike C M v') :
    ExceptRel Eq (Heap.Alike C M) (h.set f name v) (h'.set f' name v') := by
  have hHome := hAlike.home? hM hName
  unfold Heap.set
  generalize h.home? f name = x, h'.home? f' name = y at hHome
  cases hHome with
  | none => exact .error rfl
  | some hg => exact .ok (hAlike.define hg name hv)

theorem Alike.delete (hAlike : h.Alike C M h') {f f' : FrameId} (hM : M f f') {name : String}
    (hName : C.name name) :
    ExceptRel Eq (fun r r' => r.1.Alike C M r'.1 ∧ r.2.Alike C M r'.2) (h.delete f name)
      (h'.delete f' name) := by
  have hOwn : Option.Rel (Value.Alike C M)
      (h.frames[f]?.bind fun frame => frame.bindings.get? name)
      (h'.frames[f']?.bind fun frame => frame.bindings.get? name) := by
    have hFrame := hAlike.frame hM
    generalize h.frames[f]? = x, h'.frames[f']? = y at hFrame
    cases hFrame with
    | none => exact .none
    | some hFrame => exact hFrame.bindings name hName
  unfold Heap.delete
  generalize (h.frames[f]?.bind fun frame => frame.bindings.get? name) = x,
    (h'.frames[f']?.bind fun frame => frame.bindings.get? name) = y at hOwn
  cases hOwn with
  | none => exact .error rfl
  | some hv => exact .ok ⟨hv, hAlike.alter hM fun _ _ hBindings => hBindings.erase name⟩

/-! ### New frames -/

/-- The matching with one more pair of frames. -/
def withPair (M : Matching) (f f' : FrameId) : Matching := fun g g' => M g g' ∨ g = f ∧ g' = f'

theorem le_withPair (M : Matching) (f f' : FrameId) : M ≤ withPair M f f' :=
  fun _ _ => .inl

/-- Frames that are made next are matched with each other. -/
theorem keeps_withPair {size size' : Nat} (h : M.Keeps C size size') :
    Matching.Keeps C (withPair M size size') (size + 1) (size' + 1) where
  pair := by
    rintro f f' (hf | ⟨rfl, rfl⟩)
    · exact h.pair hf
    · exact h.next 0
  next k := by
    rw [Nat.add_assoc, Nat.add_assoc]
    exact h.next (1 + k)
  left f hf hLeft := by
    rcases Nat.lt_succ_iff_lt_or_eq.1 hf with hf | rfl
    · obtain ⟨f', hf'⟩ := h.left f hf hLeft
      exact ⟨f', .inl hf'⟩
    · exact ⟨size', .inr ⟨rfl, rfl⟩⟩
  right f' hf' hRight := by
    rcases Nat.lt_succ_iff_lt_or_eq.1 hf' with hf' | rfl
    · obtain ⟨f, hf⟩ := h.right f' hf' hRight
      exact ⟨f, .inl hf⟩
    · exact ⟨size, .inr ⟨rfl, rfl⟩⟩

/-- Frames that are matched come next in both heaps or in neither. -/
theorem Alike.eq_size_iff (hAlike : h.Alike C M h') {f f' : FrameId} (hM : M f f') :
    f = h.frames.size ↔ f' = h'.frames.size := by
  rcases hAlike.way with ⟨hSame, hSize⟩ | hSettled
  · rw [hSame f f' hM, hSize]
  · obtain ⟨⟨frame, hFrame, _⟩, ⟨frame', hFrame', _⟩⟩ := hSettled f f' hM
    have hf : f < h.frames.size := (Array.getElem?_eq_some_iff.1 hFrame).1
    have hf' : f' < h'.frames.size := (Array.getElem?_eq_some_iff.1 hFrame').1
    exact ⟨fun hEq => absurd hEq (Nat.ne_of_lt hf), fun hEq => absurd hEq (Nat.ne_of_lt hf')⟩

theorem Settled.push {f : FrameId} (hf : h.Settled f) (frame : Frame) :
    (h.push frame).2.Settled f := by
  obtain ⟨old, hOld, hOlder⟩ := hf
  obtain ⟨old', hOld', hParent, _⟩ := (h.grows_push frame).frame f old hOld
  exact ⟨old', hOld', hParent ▸ hOlder⟩

theorem settled_push {frame : Frame}
    (hParent : ∀ parent, frame.parent = some parent → h.Settled parent) :
    (h.push frame).2.Settled h.frames.size := by
  refine ⟨frame, by rw [getElem?_push, if_pos rfl], fun parent hEq => ?_⟩
  obtain ⟨old, hOld, _⟩ := hParent parent hEq
  exact (Array.getElem?_eq_some_iff.1 hOld).1

/-- New frames with matching parents, if any, are matched. -/
theorem Alike.push (hAlike : h.Alike C M h') {frame frame' : Frame}
    (hFrame : frame.Alike C M frame') :
    (h.push frame).2.Alike C (withPair M h.frames.size h'.frames.size) (h'.push frame').2 := by
  have hLe := le_withPair M h.frames.size h'.frames.size
  have hNew := hFrame.mono hLe
  -- A frame that was matched before is the next one in both heaps or in neither.
  have hEqSize : ∀ {f f'}, withPair M h.frames.size h'.frames.size f f' →
      (f = h.frames.size ↔ f' = h'.frames.size) := by
    rintro f f' (hf | ⟨rfl, rfl⟩)
    · exact hAlike.eq_size_iff hf
    · exact iff_of_true rfl rfl
  refine ⟨fun {f f'} hf => ?_, fun {f f' g g'} hf hg => ?_, ?_, hAlike.id, ?_⟩
  · rw [getElem?_push, getElem?_push]
    by_cases hEq : f = h.frames.size
    · rw [if_pos hEq, if_pos ((hEqSize hf).1 hEq)]
      exact .some hNew
    · rw [if_neg hEq, if_neg fun hEq' => hEq ((hEqSize hf).2 hEq')]
      rcases hf with hf | ⟨hEq', _⟩
      · exact optionRel_mono (fun _ _ hFrame => hFrame.mono hLe) (hAlike.frame hf)
      · exact absurd hEq' hEq
  · rcases hf with hf | ⟨rfl, rfl⟩
    · rcases hg with hg | ⟨rfl, rfl⟩
      · exact hAlike.one_to_one hf hg
      · exact hAlike.eq_size_iff hf
    · rw [eq_comm, hEqSize hg, eq_comm]
  · rcases hAlike.way with ⟨hSame, hSize⟩ | hSettled
    · refine .inl ⟨?_, ?_⟩
      · rintro f f' (hf | ⟨rfl, rfl⟩)
        · exact hSame f f' hf
        · exact hSize
      · rw [size_push, size_push, hSize]
    · right
      rintro f f' (hf | ⟨rfl, rfl⟩)
      · exact ⟨(hSettled f f' hf).1.push _, (hSettled f f' hf).2.push _⟩
      · refine ⟨settled_push fun parent hEq => ?_, settled_push fun parent' hEq => ?_⟩
        · have hParents := hFrame.parent
          rw [hEq] at hParents
          generalize frame'.parent = p' at hParents
          cases hParents with
          | some hParent => exact (hSettled _ _ hParent).1
        · have hParents := hFrame.parent
          rw [hEq] at hParents
          generalize frame.parent = p at hParents
          cases hParents with
          | some hParent => exact (hSettled _ _ hParent).2
  · rw [size_push, size_push]
    exact keeps_withPair hAlike.keeps

/-- A new frame of the first heap is matched with a frame that the second has already, and that was
not matched so far. -/
theorem Alike.push_left (hAlike : h.Alike C M h') {frame frame' : Frame}
    (hFrame : frame.Alike C M frame') {f' : FrameId} (hFrame' : h'.frames[f']? = some frame')
    (hFree : ∀ f, ¬M f f') (hSettled : ∀ g g', M g g' → h.Settled g ∧ h'.Settled g')
    (hNew : h'.Settled f')
    (hKeeps : Matching.Keeps C (withPair M h.frames.size f') (h.frames.size + 1)
      h'.frames.size) :
    (h.push frame).2.Alike C (withPair M h.frames.size f') h' := by
  have hLe := le_withPair M h.frames.size f'
  have hOld : ∀ {g g'}, M g g' → g ≠ h.frames.size := by
    intro g g' hg
    obtain ⟨old, hOld, _⟩ := (hSettled g g' hg).1
    have hLt : g < h.frames.size := (Array.getElem?_eq_some_iff.1 hOld).1
    exact Nat.ne_of_lt hLt
  refine ⟨?_, ?_, .inr ?_, hAlike.id, ?_⟩
  · rintro g g' (hg | ⟨rfl, rfl⟩)
    · rw [getElem?_push, if_neg (hOld hg)]
      exact optionRel_mono (fun _ _ h => h.mono hLe) (hAlike.frame hg)
    · rw [getElem?_push, if_pos rfl, hFrame']
      exact .some (hFrame.mono hLe)
  · rintro f k g g' (hf | ⟨rfl, rfl⟩) (hg | ⟨rfl, rfl⟩)
    · exact hAlike.one_to_one hf hg
    · exact ⟨fun hEq => absurd hEq (hOld hf), fun hEq => absurd (hEq ▸ hf) (hFree f)⟩
    · exact ⟨fun hEq => absurd hEq.symm (hOld hg), fun hEq => absurd (hEq ▸ hg) (hFree g)⟩
    · exact iff_of_true rfl rfl
  · rintro g g' (hg | ⟨rfl, rfl⟩)
    · exact ⟨(hSettled g g' hg).1.push _, (hSettled g g' hg).2⟩
    · refine ⟨settled_push fun parent hEq => ?_, hNew⟩
      have hParents := hFrame.parent
      rw [hEq] at hParents
      generalize frame'.parent = p' at hParents
      cases hParents with
      | some hParent => exact (hSettled _ _ hParent).1
  · rw [size_push]
    exact hKeeps

/-- New frames below matching ones are matched. -/
theorem Alike.newChild (hAlike : h.Alike C M h') {parent parent' : FrameId}
    (hM : M parent parent') :
    (h.newChild parent).2.Alike C (withPair M h.frames.size h'.frames.size)
      (h'.newChild parent').2 :=
  hAlike.push ⟨.some hM, rfl, fun _ _ => .none⟩

/-- New roots are matched. -/
theorem Alike.newRoot (hAlike : h.Alike C M h') :
    h.newRoot.2.Alike C (withPair M h.frames.size h'.frames.size) h'.newRoot.2 :=
  hAlike.push ⟨.none, rfl, fun _ _ => .none⟩

theorem Alike.nextId (hAlike : h.Alike C M h') {id id' : Nat}
    (hId : ∀ k, C.id (id + k) (id' + k)) :
    Heap.Alike C M { h with nextId := id } { h' with nextId := id' } :=
  ⟨hAlike.frame, hAlike.one_to_one, hAlike.way, hId, hAlike.keeps⟩

theorem Alike.noteHeight (hAlike : h.Alike C M h') (height height' : Nat) :
    (h.noteHeight height).Alike C M (h'.noteHeight height') :=
  ⟨hAlike.frame, hAlike.one_to_one, hAlike.way, hAlike.id, hAlike.keeps⟩

end Heap

end MiniScheme
