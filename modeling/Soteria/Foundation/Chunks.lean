import Mathlib.Data.List.Basic

/-
  Machines that read a stream in pieces.

  A machine asks for a number of symbols and is given one or
  more of them, as many as there are. Where it does not matter
  to a single read that it comes in two, it does not matter to
  a run how the stream is cut up.

  Key definitions include:
    * `Chunks.Machine`, `Chunks.Machine.run`
    * `Chunks.Machine.Fits`, `Chunks.Machine.Divisible`
    * `Chunks.Machine.run_congr`
-/

------------------------------------------------------------
-- Machines
------------------------------------------------------------

namespace Chunks

variable {σ β ω : Type}

structure Machine (σ β ω : Type) where
  /- How many symbols the next read asks for. -/
  room : σ → Nat
  /- What a piece leads to, and what it completes. -/
  read : σ → List β → σ × List ω

namespace Machine

variable (m : Machine σ β ω)

def run : σ → List (List β) → σ × List ω
| s, [] => (s, [])
| s, piece :: rest =>
    ((run (m.read s piece).1 rest).1,
      (m.read s piece).2 ++ (run (m.read s piece).1 rest).2)

/- Pieces that reads may return, one after another. -/
inductive Fits : σ → List (List β) → Prop
| nil (s : σ) : Fits s []
| cons
    {s : σ} {piece : List β} {rest : List (List β)}
    (hSome : piece ≠ [])
    (hRoom : piece.length ≤ m.room s)
    (hRest : Fits (m.read s piece).1 rest) :
    Fits s (piece :: rest)

/- A piece may come in two. -/
def Divisible : Prop :=
  ∀ s a b, a ≠ [] → b ≠ [] → a.length + b.length ≤ m.room s →
    b.length ≤ m.room (m.read s a).1 ∧
      m.read s (a ++ b) =
        ((m.read (m.read s a).1 b).1,
          (m.read s a).2 ++ (m.read (m.read s a).1 b).2)

end Machine

end Chunks

------------------------------------------------------------
-- Cutting Up a Stream
------------------------------------------------------------

namespace Chunks

namespace Machine

variable {σ β ω : Type} {m : Machine σ β ω}

theorem run_append
    (s : σ) (pieces more : List (List β)) :
    m.run s (pieces ++ more) =
      ((m.run (m.run s pieces).1 more).1,
        (m.run s pieces).2 ++ (m.run (m.run s pieces).1 more).2) := by
  induction pieces generalizing s with
  | nil => rfl
  | cons piece rest ih =>
      simp only [List.cons_append, run, ih, List.append_assoc]

theorem Fits.append
    {s : σ} {pieces more : List (List β)}
    (h : m.Fits s pieces) (hMore : m.Fits (m.run s pieces).1 more) :
    m.Fits s (pieces ++ more) := by
  induction h with
  | nil s => exact hMore
  | cons hSome hRoom _ ih => exact .cons hSome hRoom (ih hMore)

/- One piece is as good as its symbols. -/
theorem Divisible.piece
    (h : m.Divisible) {s : σ} {piece : List β}
    (hSome : piece ≠ []) (hRoom : piece.length ≤ m.room s) :
    m.Fits s (piece.map fun b => [b]) ∧
      m.run s (piece.map fun b => [b]) = m.read s piece := by
  induction piece generalizing s with
  | nil => exact absurd rfl hSome
  | cons b rest ih =>
      cases rest with
      | nil =>
          refine ⟨.cons nofun hRoom (.nil _), ?_⟩
          simp [run]
      | cons b' rest =>
          rcases h s [b] (b' :: rest) nofun nofun
            (by simpa [Nat.add_comm] using hRoom) with
            ⟨hNext, hRead⟩
          rcases ih nofun hNext with ⟨hFits, hRun⟩
          rw [List.singleton_append] at hRead
          refine ⟨.cons nofun (by simp at hRoom ⊢; omega)
            hFits, ?_⟩
          rw [List.map_cons, run, hRun, hRead]

theorem Divisible.symbols
    (h : m.Divisible) {s : σ} {pieces : List (List β)}
    (hFits : m.Fits s pieces) :
    m.run s (pieces.flatten.map fun b => [b]) =
      m.run s pieces := by
  induction hFits with
  | nil s => rfl
  | @cons s piece rest hSome hRoom _ ih =>
      rw [List.flatten_cons, List.map_append, run_append,
        (h.piece hSome hRoom).2, ih, run]

/- However a stream is cut up, it leads to the same. -/
theorem run_congr
    (h : m.Divisible) {s : σ} {pieces pieces' : List (List β)}
    (hFits : m.Fits s pieces) (hFits' : m.Fits s pieces')
    (hEq : pieces.flatten = pieces'.flatten) :
    m.run s pieces = m.run s pieces' := by
  rw [← h.symbols hFits, hEq, h.symbols hFits']

end Machine

end Chunks
