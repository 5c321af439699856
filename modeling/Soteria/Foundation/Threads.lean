import Mathlib.Logic.Function.Basic
import Soteria.Foundation.Transition

/-
  Threads that share a state and take turns.

  A thread is at a program point and knows its local
  variables; its next step reads and writes the shared state
  at once. A schedule says whose turn it is. A thread that
  has ended steps to itself.

  Key definitions include:
    * `Threads.Pool`, `Threads.Pool.advance`
    * `Threads.Pool.Holds`, `Threads.Pool.Holds.advance`
-/

------------------------------------------------------------
-- Pools of Threads
------------------------------------------------------------

namespace Threads

variable {σ τ : Type}

/- A shared state and where each thread is. -/
structure Pool (σ τ : Type) where
  shared : σ
  threads : Nat → τ

namespace Pool

/- One thread takes its next step. -/
def advance
    (next : σ → τ → σ × τ)
    (p : Pool σ τ)
    (i : Nat) : Pool σ τ where
  shared := (next p.shared (p.threads i)).1
  threads :=
    Function.update p.threads i
      (next p.shared (p.threads i)).2

variable {next : σ → τ → σ × τ}

@[simp] theorem advance_shared (p : Pool σ τ) (i : Nat) :
    (p.advance next i).shared =
      (next p.shared (p.threads i)).1 := rfl

@[simp] theorem advance_self (p : Pool σ τ) (i : Nat) :
    (p.advance next i).threads i =
      (next p.shared (p.threads i)).2 :=
  Function.update_self ..

theorem advance_of_ne
    (p : Pool σ τ)
    {i j : Nat}
    (hNe : j ≠ i) :
    (p.advance next i).threads j = p.threads j :=
  Function.update_of_ne hNe ..

end Pool

end Threads

------------------------------------------------------------
-- Assertions of Threads
------------------------------------------------------------

namespace Threads

variable {σ τ : Type}

namespace Pool

/- What each thread relies on where it is. -/
def Holds
    (T : Nat → σ → τ → Prop)
    (p : Pool σ τ) : Prop :=
  ∀ i, T i p.shared (p.threads i)

variable {next : σ → τ → σ × τ}
variable {T : Nat → σ → τ → Prop}
variable {p : Pool σ τ}
variable {i : Nat}

/-
  The assertions hold after a step that establishes the
  stepping thread's own and does not interfere with those of
  the others.
-/
theorem Holds.advance
    (hHolds : p.Holds T)
    (hOwn :
      T i (next p.shared (p.threads i)).1
        (next p.shared (p.threads i)).2)
    (hOthers : ∀ j, j ≠ i → T j p.shared (p.threads j) →
      T j (next p.shared (p.threads i)).1 (p.threads j)) :
    (p.advance next i).Holds T := by
  intro j
  by_cases hSelf : j = i
  · subst hSelf
    rw [advance_self]
    exact hOwn
  · rw [advance_of_ne p hSelf]
    exact hOthers j hSelf (hHolds j)

end Pool

end Threads
