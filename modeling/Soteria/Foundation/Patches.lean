import Mathlib.Data.List.Basic

/-
  Lists in which stretches are replaced by others.

  Key definitions include:
    * `Change`
    * `patched`
-/

------------------------------------------------------------
-- Patches
------------------------------------------------------------

namespace Patches

variable {α : Type}

/-
  A stretch to replace: how many elements are in front of it,
  what it is, and what takes its place.
-/
structure Change (α : Type) where
  start : Nat
  old : List α
  new : List α

/-
  The list with the changes made, in their order. The first
  `done` elements have been dealt with.
-/
def patched (whole : List α) : Nat → List (Change α) → List α
| done, [] => whole.drop done
| done, c :: changes =>
    (whole.drop done).take (c.start - done) ++ c.new ++
      patched whole (c.start + c.old.length) changes

theorem patched_nil
    (front rest : List α) :
    patched (front ++ rest) front.length [] = rest := by
  unfold patched
  exact List.drop_left

/- What is kept in front of a change, and the change. -/
theorem patched_cons
    (front kept old new rest : List α)
    (changes : List (Change α)) :
    patched (front ++ (kept ++ old ++ rest)) front.length
        (⟨(front ++ kept).length, old, new⟩ :: changes) =
      kept ++ new ++
        patched (front ++ (kept ++ old ++ rest))
          (front ++ kept ++ old).length changes := by
  have hKept :
      (front ++ kept).length - front.length = kept.length := by
    rw [List.length_append, Nat.add_sub_cancel_left]
  have hDone :
      (front ++ kept).length + old.length =
        (front ++ kept ++ old).length :=
    (List.length_append ..).symm
  have hTake :
      (kept ++ old ++ rest).take kept.length = kept := by
    rw [List.append_assoc]
    exact List.take_left
  unfold patched
  rw [List.drop_left, hKept, hDone, hTake]
  cases changes with
  | nil => rfl
  | cons c changes => rfl

end Patches
