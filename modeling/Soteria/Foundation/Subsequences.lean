import Mathlib.Data.List.Basic
import Mathlib.Order.Bounds.Basic

/-
  Longest common subsequences of two lists.

  Key definitions include:
    * `Subsequences.Longest`
    * `Subsequences.Longest.cons_same`,
      `Subsequences.Longest.cons_ne`
-/

------------------------------------------------------------
-- Longest Common Subsequences
------------------------------------------------------------

namespace Subsequences

variable {α : Type}
variable {a b : List α}
variable {x y : α}
variable {k m n : Nat}

/- The lengths of the common subsequences. -/
def lengths (a b : List α) : Set Nat :=
  {n | ∃ c : List α, c.Sublist a ∧ c.Sublist b ∧ c.length = n}

/- The length of a longest common subsequence. -/
def Longest (a b : List α) (n : Nat) : Prop :=
  IsGreatest (lengths a b) n

theorem Longest.nil_left (b : List α) : Longest [] b 0 := by
  constructor
  · exact ⟨[], List.Sublist.refl _, List.nil_sublist b, rfl⟩
  · rintro n ⟨c, hFirst, -, rfl⟩
    rw [List.sublist_nil.mp hFirst]
    exact Nat.le_refl _

theorem Longest.nil_right (a : List α) : Longest a [] 0 := by
  constructor
  · exact ⟨[], List.nil_sublist a, List.Sublist.refl _, rfl⟩
  · rintro n ⟨c, -, hSecond, rfl⟩
    rw [List.sublist_nil.mp hSecond]
    exact Nat.le_refl _

/- Without its first element a subsequence is one of the rest. -/
theorem sublist_tail
    {c : List α}
    (hSublist : c.Sublist (x :: a)) :
    c.tail.Sublist a := by
  cases hSublist with
  | cons _ hRest => exact (List.tail_sublist c).trans hRest
  | cons_cons _ hRest => exact hRest

/- Equal first elements are both taken. -/
theorem Longest.cons_same
    (hRest : Longest a b n) :
    Longest (x :: a) (x :: b) (n + 1) := by
  constructor
  · rcases hRest.1 with ⟨c, hFirst, hSecond, rfl⟩
    exact ⟨x :: c, hFirst.cons_cons x, hSecond.cons_cons x, rfl⟩
  · rintro k ⟨c, hFirst, hSecond, rfl⟩
    have hTail : c.tail.length ≤ n :=
      hRest.2 ⟨c.tail, sublist_tail hFirst,
        sublist_tail hSecond, rfl⟩
    rw [List.length_tail] at hTail
    omega

/- One of two different first elements is not taken. -/
theorem Longest.cons_ne
    (hNe : x ≠ y)
    (hFirst : Longest a (y :: b) m)
    (hSecond : Longest (x :: a) b n) :
    Longest (x :: a) (y :: b) (max m n) := by
  constructor
  · rcases Nat.le_total m n with hLe | hLe
    · rw [Nat.max_eq_right hLe]
      rcases hSecond.1 with ⟨c, hLeft, hRight, rfl⟩
      exact ⟨c, hLeft, hRight.cons y, rfl⟩
    · rw [Nat.max_eq_left hLe]
      rcases hFirst.1 with ⟨c, hLeft, hRight, rfl⟩
      exact ⟨c, hLeft.cons x, hRight, rfl⟩
  · rintro k ⟨c, hLeft, hRight, rfl⟩
    cases hLeft with
    | cons _ hLeft =>
        exact Nat.le_trans (hFirst.2 ⟨c, hLeft, hRight, rfl⟩)
          (Nat.le_max_left m n)
    | cons_cons _ hTail =>
        cases hRight with
        | cons _ hRight =>
            exact Nat.le_trans
              (hSecond.2 ⟨_, hTail.cons_cons x, hRight, rfl⟩)
              (Nat.le_max_right m n)
        | cons_cons _ _ => exact absurd rfl hNe

end Subsequences
