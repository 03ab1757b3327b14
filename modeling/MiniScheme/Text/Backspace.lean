import MiniScheme.Text.Cluster

/-!
# Backspaces

A text that was typed may hold backspaces. Each takes back what was typed last, a whole cluster at
a time; at the start of the text, and once everything is taken back, a backspace does nothing.

How much there is to take back is kept as a number of bytes of UTF-8, one byte for each cluster.
A cluster of more than 255 bytes is therefore taken back in part only: its size counts modulo 256.
Such a part need not start between two characters, and then no text is left.

## Main definitions

* `Text.Typed`: the text after some clusters, with what can be taken back.
* `Text.applyBackspaces?`: the text that is left.

## Main results

* `Text.applyBackspaces?_of_not_mem`: a text without a backspace is left as it is.
-/

namespace MiniScheme.Text

/-- The character that takes back what is before it. -/
def backspace : Char := '\x08'

/-- What some clusters have left. -/
structure Typed where
  /-- The characters, the last one first. -/
  kept : List Char
  /-- The sizes in bytes that backspaces can take back, the last one first. -/
  sizes : List UInt8

/-- The number of bytes of a cluster, modulo 256. -/
def clusterSize (cluster : List Char) : UInt8 := (String.ofList cluster).utf8ByteSize.toUInt8

/-- Drops characters of so many bytes from the start of a list; none if a character would have to
be cut. -/
def dropBytes? : Nat → List Char → Option (List Char)
  | 0, cs => some cs
  | _ + 1, [] => none
  | n + 1, c :: cs => if c.utf8Size ≤ n + 1 then dropBytes? (n + 1 - c.utf8Size) cs else none

/-- Types one more cluster. -/
def Typed.type? (t : Typed) (cluster : List Char) : Option Typed :=
  if cluster = [backspace] then
    match t.sizes with
    | [] => some t
    | size :: sizes => (dropBytes? size.toNat t.kept).map fun kept => ⟨kept, sizes⟩
  else some ⟨cluster.reverse ++ t.kept, clusterSize cluster :: t.sizes⟩

/-- Types clusters in order. -/
def Typed.typeAll? (t : Typed) : List (List Char) → Option Typed
  | [] => some t
  | cluster :: clusters => (t.type? cluster).bind fun t' => t'.typeAll? clusters

/-- The text that its backspaces leave. -/
def applyBackspaces? (text : String) : Option String :=
  ((Typed.mk [] []).typeAll? (clusters text.toList)).map fun t => String.ofList t.kept.reverse

/-- Clusters without a backspace are kept as they are. -/
theorem kept_typeAll? (t : Typed) (cs : List (List Char)) (h : [backspace] ∉ cs) :
    (t.typeAll? cs).map Typed.kept = some (cs.flatten.reverse ++ t.kept) := by
  induction cs generalizing t with
  | nil => simp [Typed.typeAll?]
  | cons cluster cs ih =>
      have first : cluster ≠ [backspace] := fun e => h (by simp [e])
      have rest : [backspace] ∉ cs := fun e => h (by simp [e])
      simp [Typed.typeAll?, Typed.type?, first, ih _ rest]

/-- A text without a backspace is left as it is. -/
theorem applyBackspaces?_of_not_mem (text : String) (h : backspace ∉ text.toList) :
    applyBackspaces? text = some text := by
  have none : [backspace] ∉ clusters text.toList := fun e => h (by
    rw [← flatten_clusters text.toList]
    exact List.mem_flatten.2 ⟨_, e, by simp⟩)
  have kept := kept_typeAll? ⟨[], []⟩ _ none
  obtain ⟨t, ht, hk⟩ := Option.map_eq_some_iff.1 kept
  simp [applyBackspaces?, ht, hk, flatten_clusters]

end MiniScheme.Text
