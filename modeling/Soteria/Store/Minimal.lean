import Soteria.Foundation.Subsequences
import Soteria.Store.Diff

/-
  Diffs are minimal.

  Key definitions include:
    * `lcsTop`, `lcsAt_drop`
    * `lcsTop_longest`
    * `diffOps_minimal`
-/

------------------------------------------------------------
-- The Table
------------------------------------------------------------

namespace Soteria

namespace Store

open Subsequences

/- The top row of the table for these lines. -/
def topRow (b a : List Text) : List Nat :=
  (lcsTable b a).headD []

/- The first entry of the table. -/
def lcsTop (a b : List Text) : Nat :=
  (topRow b a).headD 0

theorem topRow_cons (b : List Text) (x : Text) (a : List Text) :
    topRow b (x :: a) = lcsRow x b (topRow b a) := rfl

/- Without its first entry a row is that of fewer lines. -/
theorem topRow_tail
    (y : Text)
    (b a : List Text) :
    (topRow (y :: b) a).tail = topRow b a := by
  induction a with
  | nil => rfl
  | cons x a ih =>
      rw [topRow_cons, topRow_cons, ← ih]
      rfl

theorem topRow_drop
    (b a : List Text)
    {j : Nat}
    (hj : j ≤ b.length) :
    (topRow b a).drop j = topRow (b.drop j) a := by
  induction j generalizing b with
  | zero => rfl
  | succ j ih =>
      cases b with
      | nil => cases hj
      | cons y b =>
          rw [List.drop_succ_cons, ← ih b (by simpa using hj),
            ← topRow_tail y b a, List.drop_tail]

theorem lcsTable_drop
    (b a : List Text)
    {i : Nat}
    (hi : i ≤ a.length) :
    (lcsTable b a).drop i = lcsTable b (a.drop i) := by
  induction i generalizing a with
  | zero => rfl
  | succ i ih =>
      cases a with
      | nil => cases hi
      | cons x a => exact ih a (by simpa using hi)

/- An entry is the first one of the table for what is left. -/
theorem lcsAt_drop
    (a b : List Text)
    {i j : Nat}
    (hi : i ≤ a.length)
    (hj : j ≤ b.length) :
    lcsAt (lcsTable b a) i j = lcsTop (a.drop i) (b.drop j) := by
  have hRow :
      (lcsTable b a).getD i [] = topRow b (a.drop i) := by
    unfold topRow
    rw [← lcsTable_drop b a hi]
    simp [List.headD_eq_head?_getD, List.head?_drop]
  unfold lcsAt lcsTop
  rw [hRow, ← topRow_drop b _ hj]
  simp [List.headD_eq_head?_getD, List.head?_drop]

theorem lcsTop_nil_left (b : List Text) : lcsTop [] b = 0 := by
  cases b with
  | nil => rfl
  | cons y b => rfl

theorem lcsTop_nil_right (a : List Text) : lcsTop a [] = 0 := by
  cases a with
  | nil => rfl
  | cons x a => rfl

/- The recurrence of the table. -/
theorem lcsTop_cons
    (x y : Text)
    (a b : List Text) :
    lcsTop (x :: a) (y :: b) =
      if x = y then lcsTop a b + 1
      else if lcsTop (x :: a) b ≤ lcsTop a (y :: b) then
        lcsTop a (y :: b)
      else lcsTop (x :: a) b := by
  unfold lcsTop
  rw [topRow_cons, topRow_cons, ← topRow_tail y b a]
  rfl

/- Every entry is the length of a longest subsequence. -/
theorem lcsTop_longest (a b : List Text) :
    Longest a b (lcsTop a b) := by
  induction a generalizing b with
  | nil =>
      rw [lcsTop_nil_left]
      exact Longest.nil_left b
  | cons x a ihA =>
      induction b with
      | nil =>
          rw [lcsTop_nil_right]
          exact Longest.nil_right (x :: a)
      | cons y b ihB =>
          rw [lcsTop_cons]
          by_cases hSame : x = y
          · subst hSame
            rw [if_pos rfl]
            exact (ihA b).cons_same
          · have hMax := Longest.cons_ne hSame (ihA (y :: b)) ihB
            rw [if_neg hSame]
            split
            · rename_i hLe
              rwa [Nat.max_eq_left hLe] at hMax
            · rename_i hLt
              rwa [Nat.max_eq_right (by omega)] at hMax

end Store

end Soteria

------------------------------------------------------------
-- The Walk
------------------------------------------------------------

namespace Soteria

namespace Store

open Subsequences

/- The number of unchanged lines. -/
def unchangedCount (ops : List DiffOp) : Nat :=
  (ops.filter fun op => op.kind = .equal).length

theorem unchangedCount_cons
    (op : DiffOp)
    (ops : List DiffOp) :
    unchangedCount (op :: ops) =
      (if op.kind = .equal then 1 else 0) +
        unchangedCount ops := by
  unfold unchangedCount
  rw [List.filter_cons]
  split
  · rename_i hEqual
    rw [if_pos (by simpa using hEqual), List.length_cons,
      Nat.add_comm]
  · rename_i hOther
    rw [if_neg (by simpa using hOther), Nat.zero_add]

theorem drop_succ_of_drop
    {l rest : List Text}
    {x : Text}
    {i : Nat}
    (hDrop : l.drop i = x :: rest) :
    i < l.length ∧ l.drop (i + 1) = rest := by
  constructor
  · by_contra hLong
    rw [List.drop_of_length_le (by omega)] at hDrop
    cases hDrop
  · rw [← List.tail_drop, hDrop]
    rfl

/- The walk has as many unchanged lines as its entry says. -/
theorem unchangedCount_diffWalk
    {as bs : List Text}
    (i j : Nat)
    (a b : List Text)
    (hA : as.drop i = a)
    (hB : bs.drop j = b) :
    unchangedCount (diffWalk (lcsTable bs as) i j a b) =
      lcsTop a b := by
  fun_induction diffWalk (lcsTable bs as) i j a b with
  | case1 => rfl
  | case2 i j x a ih =>
      rw [unchangedCount_cons,
        ih (drop_succ_of_drop hA).2 hB, lcsTop_nil_right,
        lcsTop_nil_right]
      rfl
  | case3 i j y b ih =>
      rw [unchangedCount_cons,
        ih hA (drop_succ_of_drop hB).2, lcsTop_nil_left,
        lcsTop_nil_left]
      rfl
  | case4 i j x a b ih =>
      rw [unchangedCount_cons, ih (drop_succ_of_drop hA).2
        (drop_succ_of_drop hB).2, lcsTop_cons, if_pos rfl,
        if_pos rfl, Nat.add_comm]
  | case5 i j x a y b hNe hTable ih =>
      rcases drop_succ_of_drop hA with ⟨hi, hRestA⟩
      rcases drop_succ_of_drop hB with ⟨hj, hRestB⟩
      rw [lcsAt_drop as bs (by omega) (by omega),
        lcsAt_drop as bs (by omega) (by omega), hA, hB, hRestA,
        hRestB] at hTable
      rw [unchangedCount_cons, ih hRestA hB, lcsTop_cons,
        if_neg hNe, if_pos hTable]
      exact Nat.zero_add _
  | case6 i j x a y b hNe hTable ih =>
      rcases drop_succ_of_drop hA with ⟨hi, hRestA⟩
      rcases drop_succ_of_drop hB with ⟨hj, hRestB⟩
      rw [lcsAt_drop as bs (by omega) (by omega),
        lcsAt_drop as bs (by omega) (by omega), hA, hB, hRestA,
        hRestB] at hTable
      rw [unchangedCount_cons, ih hA hRestB, lcsTop_cons,
        if_neg hNe, if_neg hTable]
      exact Nat.zero_add _

/-
  The operations are a minimal diff: without the added lines
  they are the first list, without the removed lines the
  second one, and as many lines as possible are unchanged.
-/
theorem diffOps_minimal (a b : List Text) :
    linesOf .a (diffOps a b) = a ∧
      linesOf .b (diffOps a b) = b ∧
        Longest a b (unchangedCount (diffOps a b)) := by
  have hCount :
      unchangedCount (diffOps a b) = lcsTop a b :=
    unchangedCount_diffWalk 0 0 a b rfl rfl
  refine ⟨linesOf_diffOps .a a b, linesOf_diffOps .b a b, ?_⟩
  rw [hCount]
  exact lcsTop_longest a b

end Store

end Soteria
