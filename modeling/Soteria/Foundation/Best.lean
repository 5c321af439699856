import Mathlib.Data.List.Induction
import Mathlib.Order.Lattice

/-
  The best element of a list, as a scan keeps it.

  An element has a weight or is no candidate. The scan keeps
  the first candidate of the greatest weight it has seen.
  What it ends with is best whatever the order of the list,
  and it is the same wherever equal weights are those of
  elements that are alike.

  Key definitions include:
    * `step`, `best`
    * `Optimal`, `Optimal.alike`
-/

------------------------------------------------------------
-- The Scan
------------------------------------------------------------

namespace Best

variable {α β γ : Type}
variable [LinearOrder β]
variable {weight : α → Option β}
variable {l l' : List α}
variable {o o' : Option α}

/- A candidate replaces one of less weight. -/
def step
    (weight : α → Option β)
    (o : Option α)
    (a : α) : Option α :=
  match weight a, o.bind weight with
  | none, _ => o
  | some _, none => some a
  | some w, some v => if v < w then some a else o

/- The first candidate of the greatest weight. -/
def best (weight : α → Option β) (l : List α) : Option α :=
  l.foldl (step weight) none

/- A candidate than which none is better, or there is none. -/
def Optimal
    (weight : α → Option β)
    (l : List α) : Option α → Prop
| none => ∀ a ∈ l, weight a = none
| some a =>
    a ∈ l ∧ ∃ w, weight a = some w ∧
      ∀ b ∈ l, ∀ v, weight b = some v → v ≤ w

theorem Optimal.mono
    (hOptimal : Optimal weight l o)
    {a : α}
    (hSame :
      ∀ w, weight a = some w →
        ∃ b v, o = some b ∧ weight b = some v ∧ w ≤ v) :
    Optimal weight (l ++ [a]) o := by
  cases o with
  | none =>
      intro b hb
      rcases List.mem_append.mp hb with hb | hb
      · exact hOptimal b hb
      · rw [List.mem_singleton.mp hb]
        cases hWeight : weight a with
        | none => rfl
        | some w =>
            rcases hSame w hWeight with ⟨_, _, hNone, -⟩
            cases hNone
  | some c =>
      rcases hOptimal with ⟨hMem, u, hWeight, hMost⟩
      refine ⟨List.mem_append_left _ hMem, u, hWeight, ?_⟩
      intro b hb v hv
      rcases List.mem_append.mp hb with hb | hb
      · exact hMost b hb v hv
      · rw [List.mem_singleton.mp hb] at hv
        rcases hSame v hv with ⟨_, u', hEq, hOther, hLess⟩
        cases hEq
        rw [hWeight] at hOther
        cases hOther
        exact hLess

/- One element more. -/
theorem Optimal.step
    (hOptimal : Optimal weight l o)
    (a : α) :
    Optimal weight (l ++ [a]) (step weight o a) := by
  unfold Best.step
  cases hNew : weight a with
  | none =>
      apply hOptimal.mono
      intro w hw
      rw [hNew] at hw
      cases hw
  | some w =>
      have hLast : a ∈ l ++ [a] := by simp
      cases o with
      | none =>
          refine ⟨hLast, w, hNew, ?_⟩
          intro b hb v hv
          rcases List.mem_append.mp hb with hb | hb
          · rw [hOptimal b hb] at hv
            cases hv
          · rw [List.mem_singleton.mp hb, hNew] at hv
            cases hv
            exact le_rfl
      | some c =>
          have hKept := hOptimal
          rcases hOptimal with ⟨hMem, u, hWeight, hMost⟩
          rw [Option.bind_some, hWeight]
          by_cases hLess : u < w
          · simp only [if_pos hLess]
            refine ⟨hLast, w, hNew, ?_⟩
            intro b hb v hv
            rcases List.mem_append.mp hb with hb | hb
            · exact le_trans (hMost b hb v hv) (le_of_lt hLess)
            · rw [List.mem_singleton.mp hb, hNew] at hv
              cases hv
              exact le_rfl
          · simp only [if_neg hLess]
            apply hKept.mono
            intro v hv
            rw [hNew] at hv
            cases hv
            exact ⟨c, u, rfl, hWeight, not_lt.mp hLess⟩

/- What a scan ends with is best. -/
theorem best_optimal (weight : α → Option β) (l : List α) :
    Optimal weight l (best weight l) := by
  induction l using List.reverseRecOn with
  | nil =>
      intro a ha
      cases ha
  | append_singleton l a ih =>
      unfold best
      rw [List.foldl_append]
      exact ih.step a

/-
  Two lists of the same elements have the same best one up to
  what tells elements of equal weight apart.
-/
theorem Optimal.alike
    (f : α → γ)
    (hAlike :
      ∀ a ∈ l, ∀ b ∈ l, ∀ w, weight a = some w →
        weight b = some w → f a = f b)
    (hSame : ∀ a, a ∈ l ↔ a ∈ l')
    (hFirst : Optimal weight l o)
    (hSecond : Optimal weight l' o') :
    o.map f = o'.map f := by
  cases o with
  | none =>
      cases o' with
      | none => rfl
      | some b =>
          rcases hSecond with ⟨hMem, w, hWeight, -⟩
          rw [hFirst b ((hSame b).mpr hMem)] at hWeight
          cases hWeight
  | some a =>
      rcases hFirst with ⟨hMem, w, hWeight, hMost⟩
      cases o' with
      | none =>
          rw [hSecond a ((hSame a).mp hMem)] at hWeight
          cases hWeight
      | some b =>
          rcases hSecond with ⟨hMem', w', hWeight', hMost'⟩
          have hIn := (hSame b).mpr hMem'
          have hEqual : w = w' :=
            le_antisymm (hMost' a ((hSame a).mp hMem) w hWeight)
              (hMost b hIn w' hWeight')
          subst hEqual
          rw [Option.map_some, Option.map_some,
            hAlike a hMem b hIn w hWeight hWeight']

end Best
