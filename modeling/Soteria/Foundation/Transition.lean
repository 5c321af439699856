import Mathlib.Data.List.Basic

/-
  Finite runs of labelled transition relations.

  A run carries the list of its labels, so that a property
  of the steps already taken can be stated beside a property
  of the state reached.

  Key definitions include:
    * `Transition.Run`
    * `Transition.Run.invariant`
    * `Transition.Run.history_invariant`
    * `Transition.Guarded`
    * `Transition.Along`, `Transition.Along.of_invariant`
    * `Transition.along_congr_of_invariant`
-/

------------------------------------------------------------
-- Runs
------------------------------------------------------------

namespace Transition

variable {State Label : Type}

/- The runs of `step`, each with its labels in order. -/
inductive Run
    (step : State → Label → State → Prop) :
    State → List Label → State → Prop
| refl (s : State) : Run step s [] s
| tail
    {s t u : State}
    {labels : List Label}
    {label : Label} :
    Run step s labels t → step t label u →
      Run step s (labels ++ [label]) u

/- The steps of `step` whose source and label meet `guard`. -/
def Guarded
    (guard : State → Label → Prop)
    (step : State → Label → State → Prop) :
    State → Label → State → Prop :=
  fun s label t => guard s label ∧ step s label t

namespace Run

variable {step : State → Label → State → Prop}

/- A run of one step. -/
theorem single
    {s t : State}
    {label : Label}
    (hStep : step s label t) :
    Run step s [label] t := by
  simpa using (Run.refl s).tail hStep

/- Runs compose. -/
theorem append
    {s t u : State}
    {labels more : List Label}
    (hRun : Run step s labels t)
    (hMore : Run step t more u) :
    Run step s (labels ++ more) u := by
  induction hMore with
  | refl => simpa using hRun
  | tail _ hStep ih =>
      rw [← List.append_assoc]
      exact ih.tail hStep

/-
  A property that every step preserves holds at the end of
  every run from a state that has it.
-/
theorem invariant
    {P : State → Prop}
    (hKeep : ∀ s label t, P s → step s label t → P t)
    {s t : State}
    {labels : List Label}
    (hRun : Run step s labels t)
    (hStart : P s) :
    P t := by
  induction hRun with
  | refl => exact hStart
  | tail _ hStep ih =>
      exact hKeep _ _ _ ih hStep

/-
  The same for a property that also reads the labels of the
  steps already taken.
-/
theorem history_invariant
    {P : List Label → State → Prop}
    (hKeep : ∀ labels s label t,
      P labels s → step s label t →
        P (labels ++ [label]) t)
    {s t : State}
    {labels : List Label}
    (hRun : Run step s labels t)
    (hStart : P [] s) :
    P labels t := by
  induction hRun with
  | refl => exact hStart
  | tail _ hStep ih =>
      exact hKeep _ _ _ _ ih hStep

/- Forgetting a guard leaves a run of the plain relation. -/
theorem of_guarded
    {guard : State → Label → Prop}
    {s t : State}
    {labels : List Label}
    (hRun : Run (Guarded guard step) s labels t) :
    Run step s labels t := by
  induction hRun with
  | refl => exact .refl _
  | tail _ hStep ih => exact ih.tail hStep.2

end Run

end Transition

------------------------------------------------------------
-- Runs of a Function
------------------------------------------------------------

namespace Transition

variable {State Label : Type}

/- Every step of the run from a state has a property. -/
def Along
    (next : State → Label → State)
    (P : State → Label → Prop) :
    State → List Label → Prop
| _, [] => True
| s, label :: rest =>
    P s label ∧ Along next P (next s label) rest

variable {next : State → Label → State}
variable {P Q : State → Label → Prop}

namespace Along

/- A property of every label is one of every step. -/
theorem of_forall
    {G : Label → Prop}
    {labels : List Label}
    (hAll : ∀ label ∈ labels, G label)
    (s : State) :
    Along next (fun _ label => G label) s labels := by
  induction labels generalizing s with
  | nil => trivial
  | cons label rest ih =>
      have hRest : ∀ other ∈ rest, G other :=
        fun other hOther =>
          hAll other (List.mem_cons_of_mem _ hOther)
      exact ⟨hAll label (List.mem_cons_self ..),
        ih hRest (next s label)⟩

/-
  An invariant that steps with `P` keep carries a property
  of each of them through the run.
-/
theorem of_invariant
    {I : State → Prop}
    (hKeep : ∀ s label, I s → P s label → I (next s label))
    (hStep : ∀ s label, I s → P s label → Q s label)
    {s : State}
    {labels : List Label}
    (hStart : I s)
    (hAlong : Along next P s labels) :
    Along next Q s labels := by
  induction labels generalizing s with
  | nil => trivial
  | cons label rest ih =>
      rcases hAlong with ⟨hFirst, hRest⟩
      exact ⟨hStep s label hStart hFirst,
        ih (hKeep s label hStart hFirst) hRest⟩

/- The invariant then holds at the end of the run. -/
theorem final
    {I : State → Prop}
    (hKeep : ∀ s label, I s → P s label → I (next s label))
    {s : State}
    {labels : List Label}
    (hStart : I s)
    (hAlong : Along next P s labels) :
    I (labels.foldl next s) := by
  induction labels generalizing s with
  | nil => exact hStart
  | cons label rest ih =>
      exact ih (hKeep s label hStart hAlong.1) hAlong.2

end Along

/- Properties that agree on every step agree along runs. -/
theorem along_congr
    (hSame : ∀ s label, P s label ↔ Q s label)
    (s : State)
    (labels : List Label) :
    Along next P s labels ↔ Along next Q s labels := by
  induction labels generalizing s with
  | nil => exact Iff.rfl
  | cons label rest ih =>
      exact and_congr (hSame s label) (ih _)

/-
  The same for steps of one kind, under an invariant that
  such steps keep where the properties hold.
-/
theorem along_congr_of_invariant
    {I : State → Prop}
    {D : State → Label → Prop}
    (hKeep : ∀ s label,
      I s → D s label → P s label → I (next s label))
    (hSame : ∀ s label,
      I s → D s label → (P s label ↔ Q s label))
    {s : State}
    {labels : List Label}
    (hStart : I s)
    (hDomain : Along next D s labels) :
    Along next P s labels ↔ Along next Q s labels := by
  induction labels generalizing s with
  | nil => exact Iff.rfl
  | cons label rest ih =>
      rcases hDomain with ⟨hFirst, hRest⟩
      have hHead := hSame s label hStart hFirst
      constructor
      · rintro ⟨hHolds, hAfter⟩
        have hNext := hKeep s label hStart hFirst hHolds
        exact ⟨hHead.mp hHolds, (ih hNext hRest).mp hAfter⟩
      · rintro ⟨hOther, hAfter⟩
        have hHolds := hHead.mpr hOther
        have hNext := hKeep s label hStart hFirst hHolds
        exact ⟨hHolds, (ih hNext hRest).mpr hAfter⟩

end Transition
