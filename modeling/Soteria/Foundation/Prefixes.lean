import Mathlib.Data.Nat.Bitwise
import Mathlib.Data.List.Basic

/-
  Bit strings and their prefixes.

  Two bit strings agree on their first bits, or one comes
  before the other at the first bit where they differ. The
  strings that begin with a given prefix are those between
  the prefix filled up with zeros and the prefix filled up
  with ones.

  Key definitions include:
    * `Prefixes.Agree`
    * `Prefixes.Before`
    * `Prefixes.low`, `Prefixes.high`
    * `Prefixes.shared`
    * `Prefixes.longest`
-/

------------------------------------------------------------
-- Agreement
------------------------------------------------------------

namespace Prefixes

/- Bit 0 is the most significant one. -/
abbrev Bits := Nat → Bool

def Agree (m : Nat) (x y : Bits) : Prop :=
  ∀ k < m, x k = y k

theorem Agree.refl (m : Nat) (x : Bits) : Agree m x x :=
  fun _ _ => rfl

theorem Agree.symm
    {m : Nat} {x y : Bits}
    (h : Agree m x y) :
    Agree m y x :=
  fun k hk => (h k hk).symm

theorem Agree.trans
    {m : Nat} {x y z : Bits}
    (hxy : Agree m x y) (hyz : Agree m y z) :
    Agree m x z :=
  fun k hk => (hxy k hk).trans (hyz k hk)

theorem Agree.mono
    {m n : Nat} {x y : Bits}
    (hmn : m ≤ n) (h : Agree n x y) :
    Agree m x y :=
  fun k hk => h k (Nat.lt_of_lt_of_le hk hmn)

theorem Agree.succ
    {m : Nat} {x y : Bits}
    (h : Agree m x y) (hm : x m = y m) :
    Agree (m + 1) x y := by
  intro k hk
  rcases Nat.lt_succ_iff_lt_or_eq.mp hk with hLt | rfl
  · exact h k hLt
  · exact hm

/- `x` comes before `y` in the first `n` bits. -/
def Before (n : Nat) (x y : Bits) : Prop :=
  ∃ k < n, Agree k x y ∧ x k = false ∧ y k = true

theorem before_trichotomy
    (n : Nat) (x y : Bits) :
    Before n x y ∨ Agree n x y ∨ Before n y x := by
  induction n with
  | zero =>
      exact Or.inr (Or.inl fun k hk => absurd hk (by omega))
  | succ n ih =>
      rcases ih with hLt | hAgree | hGt
      · rcases hLt with ⟨k, hk, h⟩
        exact Or.inl ⟨k, by omega, h⟩
      · cases hx : x n <;> cases hy : y n
        · exact Or.inr
            (Or.inl (hAgree.succ (by rw [hx, hy])))
        · exact Or.inl ⟨n, by omega, hAgree, hx, hy⟩
        · exact Or.inr
            (Or.inr ⟨n, by omega, hAgree.symm, hy, hx⟩)
        · exact Or.inr
            (Or.inl (hAgree.succ (by rw [hx, hy])))
      · rcases hGt with ⟨k, hk, h⟩
        exact Or.inr (Or.inr ⟨k, by omega, h⟩)

theorem Before.not_agree
    {n : Nat} {x y : Bits}
    (h : Before n x y) :
    ¬ Agree n x y := by
  rcases h with ⟨k, hk, -, hx, hy⟩
  intro hAgree
  have hSame := hAgree k hk
  rw [hx, hy] at hSame
  cases hSame

theorem Before.asymm
    {n : Nat} {x y : Bits}
    (h : Before n x y) :
    ¬ Before n y x := by
  rcases h with ⟨i, hi, hAgree, hx, hy⟩
  rintro ⟨j, hj, hAgree', hy', hx'⟩
  rcases Nat.lt_trichotomy i j with hLt | rfl | hGt
  · have hSame := hAgree' i hLt
    rw [hx, hy] at hSame
    cases hSame
  · rw [hx] at hx'
    cases hx'
  · have hSame := hAgree j hGt
    rw [hx', hy'] at hSame
    cases hSame

end Prefixes

------------------------------------------------------------
-- Filling Up
------------------------------------------------------------

namespace Prefixes

/- The first `m` bits, and zeros after them. -/
def low (m : Nat) (x : Bits) : Bits :=
  fun k => decide (k < m) && x k

/- The first `m` bits, and ones after them. -/
def high (m : Nat) (x : Bits) : Bits :=
  fun k => decide (m ≤ k) || x k

theorem agree_low (m : Nat) (x : Bits) :
    Agree m (low m x) x := by
  intro k hk
  simp [low, hk]

theorem agree_high (m : Nat) (x : Bits) :
    Agree m (high m x) x := by
  intro k hk
  simp [high, hk]

/- The strings between a prefix filled up with zeros and the
   prefix filled up with ones are those that begin with the
   prefix. -/
theorem between_iff_agree
    {m n : Nat}
    (hmn : m ≤ n)
    (a x : Bits) :
    (¬ Before n x (low m a) ∧ ¬ Before n (high m a) x) ↔
      Agree m a x := by
  constructor
  · rintro ⟨hLow, hHigh⟩
    rcases before_trichotomy m a x with hLt | hAgree | hGt
    · rcases hLt with ⟨k, hk, hAgree, ha, hx⟩
      refine absurd ⟨k, by omega, ?_, ?_, hx⟩ hHigh
      · exact ((agree_high m a).mono (by omega)).trans hAgree
      · simp [high, ha, hk]
    · exact hAgree
    · rcases hGt with ⟨k, hk, hAgree, hx, ha⟩
      refine absurd ⟨k, by omega, ?_, hx, ?_⟩ hLow
      · exact hAgree.trans
          ((agree_low m a).mono (by omega)).symm
      · simp [low, ha, hk]
  · intro hAgree
    constructor
    · rintro ⟨k, hk, hSame, hx, hLow⟩
      simp only [low, Bool.and_eq_true, decide_eq_true_eq]
        at hLow
      have hBit := hAgree k hLow.1
      rw [hLow.2, hx] at hBit
      cases hBit
    · rintro ⟨k, hk, hSame, hHigh, hx⟩
      simp only [high, Bool.or_eq_false_iff,
        decide_eq_false_iff_not, Nat.not_le] at hHigh
      have hBit := hAgree k hHigh.1
      rw [hHigh.2, hx] at hBit
      cases hBit

/- Counts on while the strings agree, for at most `left` more
   bits. -/
def sharedFrom (x y : Bits) (m : Nat) : Nat → Nat
| 0 => m
| left + 1 => if x m = y m then sharedFrom x y (m + 1) left else m

/- The number of first bits two strings share, up to a
   bound. -/
def shared (x y : Bits) (bound : Nat) : Nat :=
  sharedFrom x y 0 bound

theorem sharedFrom_spec
    {x y : Bits} {m : Nat} (left : Nat)
    (hAgree : Agree m x y) :
    let n := sharedFrom x y m left
    Agree n x y ∧ n ≤ m + left ∧
      (n < m + left → x n ≠ y n) := by
  induction left generalizing m with
  | zero =>
      exact ⟨hAgree, le_rfl,
        fun h => absurd h (by simp [sharedFrom])⟩
  | succ left ih =>
      by_cases hBit : x m = y m
      · rcases ih (hAgree.succ hBit) with ⟨hA, hLe, hStop⟩
        simp only [sharedFrom, if_pos hBit]
        exact ⟨hA, by omega, fun h => hStop (by omega)⟩
      · simp only [sharedFrom, if_neg hBit]
        exact ⟨hAgree, by omega, fun _ => hBit⟩

theorem shared_spec (x y : Bits) (bound : Nat) :
    Agree (shared x y bound) x y ∧ shared x y bound ≤ bound ∧
      (shared x y bound < bound →
        x (shared x y bound) ≠ y (shared x y bound)) := by
  have hStart : Agree 0 x y := fun k hk => absurd hk (by omega)
  simpa [shared] using sharedFrom_spec bound hStart

theorem agree_shared (x y : Bits) (bound : Nat) :
    Agree (shared x y bound) x y :=
  (shared_spec x y bound).1

/- Below the bound, the strings differ where they stop
   being shared. -/
theorem shared_stops
    {x y : Bits} {bound : Nat}
    (h : shared x y bound < bound) :
    x (shared x y bound) ≠ y (shared x y bound) :=
  (shared_spec x y bound).2.2 h

theorem le_shared_of_agree
    {x y : Bits} {m bound : Nat}
    (hm : m ≤ bound) (h : Agree m x y) :
    m ≤ shared x y bound := by
  by_contra hNot
  have hLt : shared x y bound < bound := by omega
  exact shared_stops hLt (h _ (by omega))

end Prefixes

------------------------------------------------------------
-- The Order of Words
------------------------------------------------------------

namespace Prefixes

/- The order of unsigned words is that of their bits. -/
theorem lt_iff_before
    {w : Nat}
    (x y : BitVec w) :
    x < y ↔ Before w x.getMsbD y.getMsbD := by
  have hBack : ∀ x y : BitVec w,
      Before w x.getMsbD y.getMsbD → x < y := by
    rintro x y ⟨k, hk, hAgree, hx, hy⟩
    rw [BitVec.lt_def]
    simp only [BitVec.getMsbD, hk, decide_true,
      Bool.true_and] at hx hy
    refine Nat.lt_of_testBit (w - 1 - k) hx hy ?_
    intro j hj
    by_cases hjw : j < w
    · have hBit := hAgree (w - 1 - j) (by omega)
      simp only [BitVec.getMsbD] at hBit
      rw [show w - 1 - (w - 1 - j) = j by omega,
        decide_eq_true (show w - 1 - j < w by omega)] at hBit
      rw [BitVec.testBit_toNat, BitVec.testBit_toNat]
      simpa using hBit
    · rw [BitVec.testBit_toNat, BitVec.testBit_toNat,
        BitVec.getLsbD_of_ge _ _ (by omega),
        BitVec.getLsbD_of_ge _ _ (by omega)]
  constructor
  · intro hLt
    rcases before_trichotomy w x.getMsbD y.getMsbD with
      hBefore | hAgree | hAfter
    · exact hBefore
    · have hEq : x = y := BitVec.eq_of_getMsbD_eq hAgree
      exact absurd hLt (by rw [hEq]; exact BitVec.lt_irrefl y)
    · exact absurd hLt (BitVec.lt_asymm (hBack y x hAfter))
  · exact hBack x y

end Prefixes

------------------------------------------------------------
-- The Longest Prefix
------------------------------------------------------------

namespace Prefixes

variable {α : Type}

/- What the prefixes of at most `n` bits have, the shortest
   first. -/
def ascending (f : Nat → Option α) (n : Nat) : List α :=
  (List.range (n + 1)).filterMap f

/- What the longest prefix of at most `n` bits has. -/
def longest (f : Nat → Option α) : Nat → Option α
| 0 => f 0
| n + 1 => (f (n + 1)).or (longest f n)

theorem ascending_succ (f : Nat → Option α) (n : Nat) :
    ascending f (n + 1) =
      ascending f n ++ (f (n + 1)).toList := by
  rw [ascending, List.range_succ, List.filterMap_append,
    ascending]
  cases h : f (n + 1) <;> simp [h]

theorem longest_eq_getLast (f : Nat → Option α) (n : Nat) :
    longest f n = (ascending f n).getLast? := by
  induction n with
  | zero => cases h : f 0 <;> simp [longest, ascending, h]
  | succ n ih =>
      rw [ascending_succ, List.getLast?_append, longest, ih]
      cases f (n + 1) <;> simp

theorem ascending_nil
    {f : Nat → Option α} {n : Nat}
    (h : ∀ m ≤ n, f m = none) :
    ascending f n = [] := by
  rw [ascending, List.filterMap_eq_nil_iff]
  intro m hm
  exact h m (by simpa [Nat.lt_succ_iff] using hm)

/- What `m` has comes before what is only found above it. -/
theorem ascending_above
    {f g : Nat → Option α} {m n : Nat}
    (hmn : m ≤ n)
    (hBelow : ∀ k < m, f k = none)
    (hAbove : ∀ k, m < k → f k = g k)
    (hNone : ∀ k ≤ m, g k = none) :
    ascending f n = (f m).toList ++ ascending g n := by
  induction n with
  | zero =>
      obtain rfl : m = 0 := by omega
      rw [ascending_nil hNone]
      cases h : f 0 <;> simp [ascending, h]
  | succ n ih =>
      rcases Nat.lt_or_ge n m with hLt | hGe
      · obtain rfl : m = n + 1 := by omega
        rw [ascending_nil hNone, ascending_succ,
          ascending_nil fun k hk => hBelow k (by omega)]
        simp
      · rw [ascending_succ, ascending_succ, ih hGe,
          hAbove (n + 1) (by omega), List.append_assoc]

end Prefixes
