import MiniScheme.Proofs.Store

/-!
# What a change of bindings looks like from every frame

A name is looked for along the way from a frame to its root, and found in the nearest frame that
binds it: its home. Many ways lead through one frame, and a frame can bind a name in two ways, by a
definition or, at a root, by a built-in procedure that the definition hides. So an operation on one
definition is seen from many frames, or from none.

All of `set`, `define` and `delete` come down to one thing: what a single frame `f` itself gives a
single name is replaced. `Heap.Sound.get?_alter_of_exposes` and `get?_alter_of_not_exposes` say what
becomes of every lookup then. A frame from which something nearer than `f` binds the name sees
nothing of it, nor does a frame that `f` is not above of; the others see the new value, or, if there
is none any more, what `f` had hidden.

## Main results

* `Heap.Sound.isHome_iff`: the home of a name is where evaluation finds it.
* `Heap.Sound.get?_alter_of_exposes`, `Heap.Sound.get?_alter_of_not_exposes`: one binding is
  replaced, and every lookup is accounted for.
* `operations_seen_from_every_frame`: what `set`, `define` and `delete` change.
-/

namespace MiniScheme

/-! ## Frames that bind a name -/

theorem Frame.get?_insert (frame : Frame) (name : String) (v : Value) (other : String) :
    Frame.get? { frame with bindings := frame.bindings.insert name v } other =
      if other = name then some v else frame.get? other := by
  unfold Frame.get?
  rw [Bindings.get?_insert]
  by_cases hName : other = name
  · rw [if_pos hName, if_pos hName]
  · rw [if_neg hName, if_neg hName]

/-- Without its definition a name has the built-in procedure that was hidden, if any. -/
theorem Frame.get?_erase (frame : Frame) (name other : String) :
    Frame.get? { frame with bindings := frame.bindings.erase name } other =
      if other = name then
        if frame.hasBuiltins then (Builtin.ofName? name).map fun b => .procedure (.builtin b)
        else none
      else frame.get? other := by
  unfold Frame.get?
  rw [Bindings.get?_erase]
  by_cases hName : other = name
  · rw [if_pos hName, if_pos hName, hName]
  · rw [if_neg hName, if_neg hName]

namespace Heap

variable {h : Heap} {f g k : FrameId} {name : String}

/-- The built-in procedure that frame `f` itself has under a name, be it hidden or not. -/
def builtin? (h : Heap) (f : FrameId) (name : String) : Option Value :=
  h.frames[f]?.bind fun frame =>
    if frame.hasBuiltins then (Builtin.ofName? name).map fun b => .procedure (.builtin b) else none

/-- Frame `f` defines the name, or has a built-in procedure of that name. -/
def Binds (h : Heap) (f : FrameId) (name : String) : Prop :=
  (h.defined? f name).isSome ∨ (h.builtin? f name).isSome

/-- What a frame gives a name: its definition hides its built-in procedure. -/
theorem local?_eq (h : Heap) (f : FrameId) (name : String) :
    h.local? f name = (h.defined? f name).or (h.builtin? f name) := by
  unfold local? defined? builtin?
  cases h.frames[f]? with
  | none => rfl
  | some frame =>
      show frame.get? name = (frame.bindings.get? name).or _
      unfold Frame.get?
      cases frame.bindings.get? name <;> rfl

theorem binds_iff : h.Binds f name ↔ (h.local? f name).isSome = true := by
  rw [local?_eq, Option.isSome_or, Bool.or_eq_true, Binds]

theorem not_binds_iff : ¬h.Binds f name ↔ h.local? f name = none := by
  rw [binds_iff, Option.not_isSome_iff_eq_none]

/-! ## The way to the root -/

/-- The parent of a frame, if it has one. -/
def parent? (h : Heap) (f : FrameId) : Option FrameId :=
  h.frames[f]?.bind Frame.parent

/-- Frame `k` is on the way from `g` to its root: it is `g`, or lies above it. -/
def OnWay (h : Heap) (k g : FrameId) : Prop := Relation.ReflTransGen h.IsParent k g

/-- Frame `k` lies above `g`. -/
def Above (h : Heap) (k g : FrameId) : Prop := Relation.TransGen h.IsParent k g

/-- Frame `k` is the nearest on the way from `g` that binds the name. -/
structure IsHome (h : Heap) (g : FrameId) (name : String) (k : FrameId) : Prop where
  onWay : h.OnWay k g
  binds : h.Binds k name
  nearest : ∀ j, h.OnWay j g → h.Above k j → ¬h.Binds j name

/-- Frame `k` is on the way from `g`, and nothing before it binds the name. -/
structure Exposes (h : Heap) (k g : FrameId) (name : String) : Prop where
  onWay : h.OnWay k g
  nearest : ∀ j, h.OnWay j g → h.Above k j → ¬h.Binds j name

theorem isHome_iff_exposes : h.IsHome g name k ↔ h.Exposes k g name ∧ h.Binds k name :=
  ⟨fun hHome => ⟨⟨hHome.onWay, hHome.nearest⟩, hHome.binds⟩,
    fun ⟨hExposes, hBinds⟩ => ⟨hExposes.onWay, hBinds, hExposes.nearest⟩⟩

theorem isParent_iff {p : FrameId} : h.IsParent p g ↔ h.parent? g = some p :=
  Option.bind_eq_some_iff.symm

/-- A frame has at most one parent, so the way goes on through it. -/
theorem onWay_iff {p : FrameId} (hParent : h.IsParent p g) :
    h.OnWay k g ↔ k = g ∨ h.OnWay k p := by
  constructor
  · intro hWay
    rcases hWay.cases_tail with hEq | ⟨q, hWay, hParent'⟩
    · exact .inl hEq.symm
    · have hEq : q = p :=
        Option.some.inj ((isParent_iff.1 hParent').symm.trans (isParent_iff.1 hParent))
      exact .inr (hEq ▸ hWay)
  · rintro (rfl | hWay)
    · exact .refl
    · exact hWay.tail hParent

theorem onWay_iff_of_root (hRoot : h.parent? g = none) : h.OnWay k g ↔ k = g := by
  constructor
  · intro hWay
    rcases hWay.cases_tail with hEq | ⟨q, _, hParent⟩
    · exact hEq.symm
    · rw [isParent_iff, hRoot] at hParent
      cases hParent
  · rintro rfl
    exact .refl

theorem above_iff {p : FrameId} (hParent : h.IsParent p g) : h.Above k g ↔ h.OnWay k p := by
  constructor
  · intro hAbove
    obtain ⟨q, hWay, hParent'⟩ := Relation.TransGen.tail'_iff.1 hAbove
    have hEq : q = p :=
      Option.some.inj ((isParent_iff.1 hParent').symm.trans (isParent_iff.1 hParent))
    exact hEq ▸ hWay
  · exact fun hWay => Relation.TransGen.tail'_iff.2 ⟨p, hWay, hParent⟩

/-- On the way from a frame another one is either exposed by the frame itself, or as seen from its
parent. -/
theorem exposes_iff {p : FrameId} (hParent : h.IsParent p g) (hNe : k ≠ g) :
    h.Exposes k g name ↔ ¬h.Binds g name ∧ h.Exposes k p name := by
  constructor
  · rintro ⟨hWay, hNearest⟩
    have hWay' : h.OnWay k p := ((onWay_iff hParent).1 hWay).resolve_left hNe
    refine ⟨hNearest g .refl ((above_iff hParent).2 hWay'), hWay', fun j hj => ?_⟩
    exact hNearest j ((onWay_iff hParent).2 (.inr hj))
  · rintro ⟨hBinds, hWay, hNearest⟩
    refine ⟨(onWay_iff hParent).2 (.inr hWay), fun j hj hAbove => ?_⟩
    rcases (onWay_iff hParent).1 hj with rfl | hj
    · exact hBinds
    · exact hNearest j hj hAbove

namespace Sound

variable (hSound : h.Sound)
include hSound

theorem not_above_self (f : FrameId) : ¬h.Above f f :=
  hSound.not_transGen_isParent f

/-- A parent does not have its child on its way. -/
theorem not_onWay_parent {p : FrameId} (hParent : h.IsParent p g) : ¬h.OnWay g p :=
  fun hWay => hSound.not_above_self g ((above_iff hParent).2 hWay)

theorem exposes_self (f : FrameId) (name : String) : h.Exposes f f name := by
  refine ⟨.refl, fun j hj hAbove => ?_⟩
  exact absurd (hAbove.trans_left hj) (hSound.not_above_self f)

/-- A property of all frames that goes from parents to children. -/
theorem induction {P : FrameId → Prop} (root : ∀ g, h.parent? g = none → P g)
    (child : ∀ g p, h.IsParent p g → P p → P g) (g : FrameId) : P g := by
  induction g using Nat.strongRecOn with
  | ind g ih =>
      cases hParent : h.parent? g with
      | none => exact root g hParent
      | some p =>
          have hIs : h.IsParent p g := isParent_iff.2 hParent
          exact child g p hIs (ih p (hSound.parent_lt hIs))

end Sound

/-! ## Looking along the way -/

theorem Path.unique {fs fs' : List FrameId} (hPath : h.Path f fs) (hPath' : h.Path f fs') :
    fs = fs' := by
  induction hPath generalizing fs' with
  | @root f frame hFrame hParent =>
      cases hPath' with
      | root _ _ => rfl
      | child hParent' _ =>
          have hSome := isParent_iff.1 hParent'
          rw [parent?, hFrame, Option.bind_some, hParent] at hSome
          cases hSome
  | @child f p fs hParent _ ih =>
      cases hPath' with
      | @root _ frame hFrame hRoot =>
          have hSome := isParent_iff.1 hParent
          rw [parent?, hFrame, Option.bind_some, hRoot] at hSome
          cases hSome
      | @child _ p' fs' hParent' rest' =>
          have hEq : p = p' :=
            Option.some.inj ((isParent_iff.1 hParent).symm.trans (isParent_iff.1 hParent'))
          subst hEq
          rw [ih rest']

/-- A lookup takes the first value that there is on the way. -/
theorem get?_eq_findSome? (h : Heap) (g : FrameId) (name : String) :
    h.get? g name = (h.chain g).findSome? fun k => h.local? k name := by
  unfold get? home?
  induction h.chain g with
  | nil => rfl
  | cons k ks ih =>
      rw [List.find?_cons, List.findSome?_cons]
      cases hLocal : h.local? k name with
      | none => exact ih
      | some v => exact hLocal

theorem home?_eq_findSome? (h : Heap) (g : FrameId) (name : String) :
    h.home? g name =
      (h.chain g).findSome? fun k => if (h.local? k name).isSome then some k else none := by
  unfold home?
  induction h.chain g with
  | nil => rfl
  | cons k ks ih =>
      rw [List.find?_cons, List.findSome?_cons]
      cases hLocal : h.local? k name with
      | none => exact ih
      | some v => rfl

theorem local?_eq_none_of_size_le (hSize : h.frames.size ≤ f) (name : String) :
    h.local? f name = none := by
  rw [local?, Array.getElem?_eq_none hSize]
  rfl

/-- The way from a frame begins with it and goes on with that from its parent. Where the frame does
not exist nothing is to be found in it. -/
theorem Sound.findSome?_chain {α : Type} (hSound : h.Sound) (g : FrameId)
    {look : FrameId → Option α} (hLook : h.frames.size ≤ g → look g = none) :
    (h.chain g).findSome? look =
      (look g).or ((h.parent? g).bind fun p => (h.chain p).findSome? look) := by
  cases hFrame : h.frames[g]? with
  | none =>
      have hParent : h.parent? g = none := by rw [parent?, hFrame]; rfl
      have hChain : h.chain g = [] := by simp only [chain, chainFrom, hFrame]
      rw [hChain, hParent, hLook (Array.getElem?_eq_none_iff.1 hFrame)]
      rfl
  | some frame =>
      have hg : g < h.frames.size := (Array.getElem?_eq_some_iff.1 hFrame).1
      cases hParent : frame.parent with
      | none =>
          have hChain := (hSound.path_chain hg).unique (.root hFrame hParent)
          have hNone : h.parent? g = none := by rw [parent?, hFrame]; exact hParent
          rw [hChain, hNone, List.findSome?_cons]
          cases look g <;> rfl
      | some p =>
          have hIs : h.IsParent p g := ⟨frame, hFrame, hParent⟩
          have hChain := (hSound.path_chain hg).unique
            (.child hIs (hSound.path_chain (hSound.parent_lt_size hIs)))
          rw [hChain, isParent_iff.1 hIs, Option.bind_some, List.findSome?_cons]
          cases look g <;> rfl

/-- A name has the value that the frame itself gives it, or else that of its parent. -/
theorem Sound.get?_eq (hSound : h.Sound) (g : FrameId) (name : String) :
    h.get? g name = (h.local? g name).or ((h.parent? g).bind fun p => h.get? p name) := by
  simp only [get?_eq_findSome?]
  exact hSound.findSome?_chain g fun hSize => local?_eq_none_of_size_le hSize name

theorem Sound.home?_eq (hSound : h.Sound) (g : FrameId) (name : String) :
    h.home? g name = (if (h.local? g name).isSome then some g else none).or
      ((h.parent? g).bind fun p => h.home? p name) := by
  simp only [home?_eq_findSome?]
  refine hSound.findSome?_chain g fun hSize => ?_
  rw [local?_eq_none_of_size_le hSize name]
  rfl

/-- The home of a name is where evaluation finds it. -/
theorem Sound.isHome_iff (hSound : h.Sound) (g : FrameId) (name : String) (k : FrameId) :
    h.IsHome g name k ↔ h.home? g name = some k := by
  induction g using Heap.Sound.induction hSound with
  | root g hRoot =>
      rw [hSound.home?_eq, hRoot, isHome_iff_exposes]
      by_cases hBinds : h.Binds g name
      · rw [if_pos (binds_iff.1 hBinds)]
        constructor
        · rintro ⟨⟨hWay, _⟩, _⟩
          rw [(onWay_iff_of_root hRoot).1 hWay]
          rfl
        · intro hEq
          cases hEq
          exact ⟨hSound.exposes_self _ name, hBinds⟩
      · rw [if_neg fun hSome => hBinds (binds_iff.2 hSome)]
        constructor
        · rintro ⟨⟨hWay, _⟩, hk⟩
          exact absurd ((onWay_iff_of_root hRoot).1 hWay ▸ hk) hBinds
        · intro hEq
          cases hEq
  | child g p hParent ih =>
      rw [hSound.home?_eq, isParent_iff.1 hParent, Option.bind_some, isHome_iff_exposes]
      by_cases hBinds : h.Binds g name
      · rw [if_pos (binds_iff.1 hBinds)]
        constructor
        · rintro ⟨hExposes, _⟩
          by_cases hEq : k = g
          · rw [hEq]
            rfl
          · exact absurd hBinds ((exposes_iff hParent hEq).1 hExposes).1
        · intro hEq
          cases hEq
          exact ⟨hSound.exposes_self _ name, hBinds⟩
      · rw [if_neg fun hSome => hBinds (binds_iff.2 hSome), Option.none_or, ← ih,
          isHome_iff_exposes]
        constructor
        · rintro ⟨hExposes, hk⟩
          have hNe : k ≠ g := fun hEq => hBinds (hEq ▸ hk)
          exact ⟨((exposes_iff hParent hNe).1 hExposes).2, hk⟩
        · rintro ⟨hExposes, hk⟩
          have hNe : k ≠ g := fun hEq => hBinds (hEq ▸ hk)
          exact ⟨(exposes_iff hParent hNe).2 ⟨hBinds, hExposes⟩, hk⟩

/-! ## One binding is replaced -/

theorem chainFrom_alter (h : Heap) (f : FrameId) (change : Bindings → Bindings) (fuel : Nat) :
    ∀ g, (h.alter f change).chainFrom fuel g = h.chainFrom fuel g := by
  induction fuel with
  | zero => exact fun g => rfl
  | succ fuel ih =>
      intro g
      cases hFrame : h.frames[g]? with
      | none =>
          have hNone : (h.alter f change).frames[g]? = none := by
            rw [getElem?_alter, hFrame, Option.map_none, ite_self]
          simp only [chainFrom, hFrame, hNone]
      | some frame =>
          obtain ⟨frame', hFrame', hParent, _⟩ := (h.grows_alter f change).frame g frame hFrame
          simp only [chainFrom, hFrame, hFrame', hParent, ih]

theorem local?_alter_of_ne (h : Heap) (change : Bindings → Bindings) (hNe : k ≠ f)
    (name : String) : (h.alter f change).local? k name = h.local? k name := by
  rw [local?, getElem?_alter, if_neg hNe.symm, local?]

theorem local?_define (hf : f < h.frames.size) (name : String) (v : Value) (k : FrameId)
    (other : String) :
    (h.define f name v).local? k other =
      if k = f ∧ other = name then some v else h.local? k other := by
  by_cases hk : k = f
  · subst hk
    simp only [define_eq_alter, local?, getElem?_alter, if_true, Array.getElem?_eq_getElem hf,
      Option.map_some, Option.bind_some, Frame.get?_insert, true_and]
  · rw [define_eq_alter, local?_alter_of_ne h _ hk, if_neg fun hBoth => hk hBoth.1]

/-- Without its definition the frame gives the name its built-in procedure, if it has one. -/
theorem local?_erase (h : Heap) (f : FrameId) (name : String) (k : FrameId) (other : String) :
    (h.alter f fun bindings => bindings.erase name).local? k other =
      if k = f ∧ other = name then h.builtin? f name else h.local? k other := by
  by_cases hk : k = f
  · subst hk
    simp only [local?, getElem?_alter, if_true, builtin?, true_and]
    cases h.frames[k]? with
    | none => simp
    | some frame => simp only [Option.map_some, Option.bind_some, Frame.get?_erase]
  · rw [local?_alter_of_ne h _ hk, if_neg fun hBoth => hk hBoth.1]

section Replaced

variable (hSound : h.Sound) {change : Bindings → Bindings} {w : Option Value}
  (hLocal : ∀ k other, (h.alter f change).local? k other =
    if k = f ∧ other = name then w else h.local? k other)
include hSound

/-- The way is not altered, only what is found on it. -/
theorem Sound.get?_alter_eq (g : FrameId) (other : String) :
    (h.alter f change).get? g other = ((h.alter f change).local? g other).or
      ((h.parent? g).bind fun p => (h.alter f change).get? p other) := by
  have hChain : ∀ g, (h.alter f change).chain g = h.chain g :=
    fun g => h.chainFrom_alter f change (g + 1) g
  simp only [get?_eq_findSome?, hChain]
  refine hSound.findSome?_chain g fun hSize => local?_eq_none_of_size_le ?_ other
  rw [size_alter]
  exact hSize

include hLocal

/-- Lookups of other names, and those that do not come to `f` or end before, are not changed. -/
theorem Sound.get?_alter_of_not_exposes {other : String} {g : FrameId}
    (hNot : other = name → ¬h.Exposes f g name) :
    (h.alter f change).get? g other = h.get? g other := by
  induction g using Heap.Sound.induction hSound with
  | root g hRoot =>
      have hOwn : (h.alter f change).local? g other = h.local? g other := by
        refine (hLocal g other).trans (if_neg fun ⟨hg, hName⟩ => hNot hName ?_)
        exact hg ▸ hSound.exposes_self g name
      rw [hSound.get?_alter_eq, hSound.get?_eq, hRoot, hOwn]
      rfl
  | child g p hParent ih =>
      have hg : other = name → g ≠ f := by
        rintro hName rfl
        exact hNot hName (hSound.exposes_self g name)
      have hOwn : (h.alter f change).local? g other = h.local? g other :=
        (hLocal g other).trans (if_neg fun ⟨hEq, hName⟩ => hg hName hEq)
      rw [hSound.get?_alter_eq, hSound.get?_eq, isParent_iff.1 hParent, hOwn]
      cases hFound : h.local? g other with
      | some v => rfl
      | none =>
          refine ih fun hName hExposes => hNot hName ?_
          rw [hName, ← not_binds_iff] at hFound
          exact (exposes_iff hParent (hg hName).symm).2 ⟨hFound, hExposes⟩

/-- Where `f` is the first to be asked for the name on the way, the lookup comes to what `f` gives
it now, or, if this is nothing, to what is found above `f`. -/
theorem Sound.get?_alter_of_exposes {g : FrameId} (hExposes : h.Exposes f g name) :
    (h.alter f change).get? g name = w.or ((h.parent? f).bind fun p => h.get? p name) := by
  have hSelf : (h.alter f change).get? f name =
      w.or ((h.parent? f).bind fun p => h.get? p name) := by
    rw [hSound.get?_alter_eq, hLocal, if_pos ⟨rfl, rfl⟩]
    cases hParent : h.parent? f with
    | none => rfl
    | some p =>
        have hNot : ¬h.Exposes f p name := fun hExposes =>
          hSound.not_onWay_parent (isParent_iff.2 hParent) hExposes.onWay
        rw [Option.bind_some, Option.bind_some,
          hSound.get?_alter_of_not_exposes hLocal fun _ => hNot]
  induction g using Heap.Sound.induction hSound with
  | root g hRoot => rw [← (onWay_iff_of_root hRoot).1 hExposes.onWay, hSelf]
  | child g p hParent ih =>
      by_cases hg : f = g
      · rw [← hg, hSelf]
      · obtain ⟨hBinds, hExposes'⟩ := (exposes_iff hParent hg).1 hExposes
        rw [hSound.get?_alter_eq, isParent_iff.1 hParent, hLocal,
          if_neg fun hBoth => hg hBoth.1.symm, not_binds_iff.1 hBinds]
        exact ih hExposes'

end Replaced

/-! ## Definitions that are seen -/

/-- The definition of a name in frame `f` is seen from frame `g`: `f` is on the way from `g`, below
the home of the name or the home itself, or there is no home. -/
def Reveals (h : Heap) (f g : FrameId) (name : String) : Prop :=
  h.OnWay f g ∧
    ((∃ k, h.IsHome g name k ∧ (h.Above k f ∨ k = f)) ∨ ∀ k, ¬h.IsHome g name k)

namespace Sound

variable (hSound : h.Sound)
include hSound

/-- Where something on the way binds the name, something is the nearest to do so. -/
theorem exists_isHome {j : FrameId} (hWay : h.OnWay j g) (hBinds : h.Binds j name) :
    ∃ k, h.IsHome g name k := by
  induction g using Heap.Sound.induction hSound with
  | root g hRoot =>
      rw [(onWay_iff_of_root hRoot).1 hWay] at hBinds
      exact ⟨g, isHome_iff_exposes.2 ⟨hSound.exposes_self g name, hBinds⟩⟩
  | child g p hParent ih =>
      by_cases hOwn : h.Binds g name
      · exact ⟨g, isHome_iff_exposes.2 ⟨hSound.exposes_self g name, hOwn⟩⟩
      · have hNe : ∀ {k}, h.Binds k name → k ≠ g := fun hk hEq => hOwn (hEq ▸ hk)
        obtain ⟨k, hHome⟩ := ih (((onWay_iff hParent).1 hWay).resolve_left (hNe hBinds))
        obtain ⟨hExposes, hk⟩ := isHome_iff_exposes.1 hHome
        exact ⟨k, isHome_iff_exposes.2 ⟨(exposes_iff hParent (hNe hk)).2 ⟨hOwn, hExposes⟩, hk⟩⟩

/-- Of two frames on the way one comes first. -/
theorem onWay_or_above (hf : h.OnWay f g) (hk : h.OnWay k g) : h.OnWay k f ∨ h.Above f k := by
  induction g using Heap.Sound.induction hSound with
  | root g hRoot =>
      rw [(onWay_iff_of_root hRoot).1 hf, (onWay_iff_of_root hRoot).1 hk]
      exact .inl .refl
  | child g p hParent ih =>
      rcases (onWay_iff hParent).1 hf with hEq | hf
      · exact .inl (hEq ▸ hk)
      · rcases (onWay_iff hParent).1 hk with hEq | hk
        · exact .inr (hEq ▸ (above_iff hParent).2 hf)
        · exact ih hf hk

theorem reveals_iff : h.Reveals f g name ↔ h.Exposes f g name := by
  constructor
  · rintro ⟨hWay, hHome⟩
    refine ⟨hWay, fun j hj hAbove hBinds => ?_⟩
    rcases hHome with ⟨k, hHome, hk⟩ | hNone
    · refine hHome.nearest j hj ?_ hBinds
      rcases hk with hk | rfl
      · exact hk.trans hAbove
      · exact hAbove
    · obtain ⟨k, hHome⟩ := hSound.exists_isHome hj hBinds
      exact hNone k hHome
  · intro hExposes
    refine ⟨hExposes.onWay, ?_⟩
    by_cases hSome : ∃ k, h.IsHome g name k
    · obtain ⟨k, hHome⟩ := hSome
      refine .inl ⟨k, hHome, ?_⟩
      rcases hSound.onWay_or_above hExposes.onWay hHome.onWay with hWay | hAbove
      · exact (Relation.reflTransGen_iff_eq_or_transGen.1 hWay).symm.imp_right Eq.symm
      · exact absurd hHome.binds (hExposes.nearest k hHome.onWay hAbove)
    · exact .inr fun k hHome => hSome ⟨k, hHome⟩

end Sound

/-! ## The three operations -/

open Classical in
theorem Sound.get?_define (hSound : h.Sound) (hf : f < h.frames.size) (name : String) (v : Value)
    (g : FrameId) (other : String) :
    (h.define f name v).get? g other =
      if other = name ∧ h.Exposes f g name then some v else h.get? g other := by
  have hLocal : ∀ k other, (h.alter f fun bindings => bindings.insert name v).local? k other =
      if k = f ∧ other = name then some v else h.local? k other :=
    local?_define hf name v
  rw [define_eq_alter]
  by_cases hSeen : other = name ∧ h.Exposes f g name
  · rw [if_pos hSeen, hSeen.1]
    exact hSound.get?_alter_of_exposes hLocal hSeen.2
  · rw [if_neg hSeen]
    exact hSound.get?_alter_of_not_exposes hLocal fun hName hExposes => hSeen ⟨hName, hExposes⟩

open Classical in
theorem Sound.get?_erase (hSound : h.Sound) (f : FrameId) (name : String) (g : FrameId)
    (other : String) :
    (h.alter f fun bindings => bindings.erase name).get? g other =
      if other = name ∧ h.Exposes f g name then
        (h.builtin? f name).or ((h.parent? f).bind fun p => h.get? p name)
      else h.get? g other := by
  have hLocal := local?_erase h f name
  by_cases hSeen : other = name ∧ h.Exposes f g name
  · rw [if_pos hSeen, hSeen.1]
    exact hSound.get?_alter_of_exposes hLocal hSeen.2
  · rw [if_neg hSeen]
    exact hSound.get?_alter_of_not_exposes hLocal fun hName hExposes => hSeen ⟨hName, hExposes⟩

theorem binds_of_defined? {v : Value} (hv : h.defined? f name = some v) : h.Binds f name :=
  .inl (by rw [hv]; rfl)

theorem Binds.lt_size (hBinds : h.Binds f name) : f < h.frames.size := by
  refine Nat.lt_of_not_le fun hSize => ?_
  exact not_binds_iff.2 (local?_eq_none_of_size_le hSize name) hBinds

theorem get?_eq_none_iff (h : Heap) (f : FrameId) (name : String) :
    h.get? f name = none ↔ h.home? f name = none := by
  unfold get?
  cases hHome : h.home? f name with
  | none => exact iff_of_true rfl rfl
  | some k =>
      obtain ⟨v, hv⟩ := exists_local?_of_home? hHome
      rw [Option.bind_some, hv]
      exact iff_of_false nofun nofun

end Heap

open Classical in
/-- What the three operations on bindings change, as seen from every frame `g` for every name `x`.

* `set` fails, and changes nothing, exactly where the name has no value. Otherwise the new value is
  seen from the frames from which the name has the same home.
* `define` never fails. The new value is seen from the frames that have `f` on their way, at or
  below the home of the name, or that the name has no home for.
* `delete` fails, and changes nothing, exactly where `f` itself does not define the name. Otherwise
  it returns the value, and the frames that saw it see what was hidden: the built-in procedure that
  `f` has of that name, or else what is bound above `f`.

In all cases every other lookup is as it was. -/
theorem operations_seen_from_every_frame {m : Machine} (hSound : m.heap.Sound) {f : FrameId}
    (hf : f < m.heap.frames.size) (g : FrameId) (n x : String) (v : Value) :
    ((Eval.set f n v m = .error (.error (.bare (.unboundSymbol n))) m ↔ m.heap.get? f n = none) ∧
      (m.heap.get? f n ≠ none → ∃ h', Eval.set f n v m = .ok () { m with heap := h' } ∧
        h'.get? g x =
          if x = n ∧ ∃ k, m.heap.IsHome g n k ∧ m.heap.IsHome f n k then some v
          else m.heap.get? g x)) ∧
    (∃ h', Eval.define f n v m = .ok () { m with heap := h' } ∧
      h'.get? g x = if x = n ∧ m.heap.Reveals f g n then some v else m.heap.get? g x) ∧
    (m.heap.defined? f n = none →
      Eval.delete f n m = .error (.error (.bare (.notLocallyBound n))) m) ∧
    ∀ w, m.heap.defined? f n = some w → ∃ h', Eval.delete f n m = .ok w { m with heap := h' } ∧
      (m.heap.IsHome g n f → m.heap.get? g n = some w) ∧
      h'.get? g x =
        if x = n ∧ m.heap.IsHome g n f then
          (m.heap.builtin? f n).or ((m.heap.parent? f).bind fun p => m.heap.get? p n)
        else m.heap.get? g x := by
  refine ⟨⟨?_, fun hSome => ?_⟩, ⟨_, rfl, ?_⟩, fun hNone => ?_, fun w hw => ?_⟩
  · rw [Heap.get?_eq_none_iff]
    cases hHome : m.heap.home? f n with
    | none =>
        simp only [Eval.set, Heap.set, hHome]
        exact iff_of_true rfl trivial
    | some k => simp only [Eval.set, Heap.set, hHome, reduceCtorEq]
  · obtain ⟨k, hHome⟩ := Option.ne_none_iff_exists'.1 (mt (m.heap.get?_eq_none_iff f n).2 hSome)
    have hk : m.heap.IsHome f n k := (hSound.isHome_iff f n k).2 hHome
    refine ⟨m.heap.define k n v, by simp only [Eval.set, Heap.set, hHome], ?_⟩
    rw [hSound.get?_define hk.binds.lt_size]
    refine ite_congr (propext (and_congr_right fun _ => ⟨fun hExposes => ?_, ?_⟩)) (fun _ => rfl)
      fun _ => rfl
    · exact ⟨k, Heap.isHome_iff_exposes.2 ⟨hExposes, hk.binds⟩, hk⟩
    · rintro ⟨k', hg, hk'⟩
      have hEq : k' = k :=
        Option.some.inj (((hSound.isHome_iff f n k').1 hk').symm.trans hHome)
      exact (Heap.isHome_iff_exposes.1 (hEq ▸ hg)).1
  · rw [hSound.get?_define hf]
    simp only [hSound.reveals_iff]
  · simp only [Heap.defined?] at hNone
    simp only [Eval.delete, Heap.delete, hNone]
    rfl
  · have hBinds := Heap.binds_of_defined? hw
    refine ⟨m.heap.alter f fun bindings => bindings.erase n, ?_, fun hHome => ?_, ?_⟩
    · simp only [Heap.defined?] at hw
      simp only [Eval.delete, Heap.delete, hw]
      rfl
    · rw [Heap.get?, (hSound.isHome_iff g n f).1 hHome, Option.bind_some, Heap.local?_eq, hw]
      rfl
    · rw [hSound.get?_erase]
      simp only [Heap.isHome_iff_exposes, and_iff_left hBinds]

/-- A root, a frame below it and one below that. The root defines `car`, so its built-in procedure
is hidden. -/
def Heap.hiddenCar : Heap := (Heap.empty.newGlobal.2.newChild 1).2.define 0 "car" .nil

/-- As seen from the lowest frame: `car` is assigned in the middle, and the root is its home; it is
defined in the middle, and the root is hidden; the definition of the root is deleted, and the
built-in procedure is back. -/
theorem hiddenCar_seen_from_below :
    let m : Machine := ⟨Heap.hiddenCar, 0⟩
    m.heap.Sound ∧ 0 < m.heap.frames.size ∧ 1 < m.heap.frames.size ∧
    (∃ h', Eval.set 1 "car" (.boolean true) m = .ok () ⟨h', 0⟩ ∧
      h'.get? 2 "car" = some (.boolean true)) ∧
    (∃ h', Eval.define 1 "car" (.boolean true) m = .ok () ⟨h', 0⟩ ∧
      h'.get? 2 "car" = some (.boolean true)) ∧
    ∃ h', Eval.delete 0 "car" m = .ok .nil ⟨h', 0⟩ ∧
      h'.get? 2 "car" = some (.procedure (.builtin .car)) := by
  intro m
  have hSound : m.heap.Sound :=
    (Heap.sound_empty.newGlobal.newChild (by decide)).define 0 "car" trivial
  have hHome : ∀ g : FrameId, m.heap.home? g "car" = some 0 → m.heap.IsHome g "car" 0 :=
    fun g => (hSound.isHome_iff g "car" 0).2
  have hUp : m.heap.IsParent 1 2 := Heap.isParent_iff.2 rfl
  have hTop : m.heap.IsParent 0 1 := Heap.isParent_iff.2 rfl
  have hReveals : m.heap.Reveals 1 2 "car" :=
    ⟨.single hUp, .inl ⟨0, hHome 2 rfl, .inl (.single hTop)⟩⟩
  obtain ⟨⟨_, hSet⟩, ⟨h₁, hDefine, hDefined⟩, _⟩ :=
    operations_seen_from_every_frame hSound (f := 1) (by decide) 2 "car" "car" (.boolean true)
  obtain ⟨h₂, hSet, hAssigned⟩ := hSet nofun
  obtain ⟨_, _, _, hDelete⟩ :=
    operations_seen_from_every_frame hSound (f := 0) (by decide) 2 "car" "car" .nil
  obtain ⟨h₃, hDelete, _, hDeleted⟩ := hDelete .nil rfl
  refine ⟨hSound, by decide, by decide, ⟨h₂, hSet, ?_⟩, ⟨h₁, hDefine, ?_⟩, h₃, hDelete, ?_⟩
  · rw [hAssigned, if_pos ⟨rfl, 0, hHome 2 rfl, hHome 1 rfl⟩]
  · rw [hDefined, if_pos ⟨rfl, hReveals⟩]
  · rw [hDeleted, if_pos ⟨rfl, hHome 2 rfl⟩]
    rfl

end MiniScheme
