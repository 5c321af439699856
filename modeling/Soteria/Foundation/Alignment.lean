import Mathlib.Data.List.Basic
import Mathlib.Data.List.Count

/-
  Comparing two texts that are written part by part.

  An alignment relates the parts two writers make of the same
  data, and says what the relation tells about the data. What
  is shown of the parts then holds of the whole texts.

  Key definitions include:
    * `PartAlignment`
    * `PartAlignment.Whenever`
    * `PartAlignment.Cancels`
    * `PartAlignment.Weighed`
-/

------------------------------------------------------------
-- Alignments
------------------------------------------------------------

variable {α β : Type}

/-
  `R s t P`: the parts `s` and `t` are aligned, and `P` is
  what that says about the data they are written from.
-/
structure PartAlignment
    (R : List α → List α → Prop → Prop) : Prop where
  same : ∀ s, R s s True
  append : ∀ {s t s' t' P P'}, R s t P → R s' t' P' →
    R (s ++ s') (t ++ t') (P ∧ P')
  restate : ∀ {s t P P'}, (P ↔ P') → R s t P → R s t P'

namespace PartAlignment

variable {R : List α → List α → Prop → Prop}

/- A part that both write. -/
theorem lead
    (hR : PartAlignment R)
    (part : List α)
    {s t : List α}
    {P : Prop}
    (hParts : R s t P) :
    R (part ++ s) (part ++ t) P :=
  hR.restate (by rw [true_and]) (hR.append (hR.same part) hParts)

theorem trail
    (hR : PartAlignment R)
    (part : List α)
    {s t : List α}
    {P : Prop}
    (hParts : R s t P) :
    R (s ++ part) (t ++ part) P :=
  hR.restate (by rw [and_true]) (hR.append hParts (hR.same part))

/- Part by part along a list. -/
theorem flatMap
    (hR : PartAlignment R)
    {f g : β → List α}
    {P : β → Prop}
    (hParts : ∀ b, R (f b) (g b) (P b))
    (bs : List β) :
    R (bs.flatMap f) (bs.flatMap g) (∀ b ∈ bs, P b) := by
  induction bs with
  | nil => exact hR.restate (by simp) (hR.same [])
  | cons b rest ih =>
      exact hR.restate (by simp) (hR.append (hParts b) ih)

end PartAlignment

------------------------------------------------------------
-- Equality, Cancellation and Weight
------------------------------------------------------------

namespace PartAlignment

/- The parts are equal if the data allows it. -/
def Whenever (s t : List α) (P : Prop) : Prop :=
  P → s = t

theorem whenever : PartAlignment (@Whenever α) where
  same _ _ := rfl
  append hLeft hRight hBoth := by
    rw [hLeft hBoth.1, hRight hBoth.2]
  restate hSame hParts hNew := hParts (hSame.mpr hNew)

/- What is left of equal texts after the parts is equal. -/
def Cancels (s t : List α) (P : Prop) : Prop :=
  ∀ rest rest', s ++ rest = t ++ rest' → P ∧ rest = rest'

theorem cancels : PartAlignment (@Cancels α) where
  same s rest rest' hEqual :=
    ⟨trivial, List.append_cancel_left hEqual⟩
  append := by
    intro s t s' t' P P' hLeft hRight rest rest' hEqual
    rw [List.append_assoc, List.append_assoc] at hEqual
    rcases hLeft _ _ hEqual with ⟨hP, hRest⟩
    rcases hRight _ _ hRest with ⟨hP', hRest'⟩
    exact ⟨⟨hP, hP'⟩, hRest'⟩
  restate hSame hParts rest rest' hEqual :=
    (hParts rest rest' hEqual).imp_left hSame.mp

variable [DecidableEq α]

/-
  The second part has no fewer `x` and no more `y`, and if it
  has as many of both then the data is as said.
-/
def Weighed (x y : α) (s t : List α) (P : Prop) : Prop :=
  s.count x ≤ t.count x ∧ t.count y ≤ s.count y ∧
    (s.count x = t.count x → s.count y = t.count y → P)

theorem weighed (x y : α) : PartAlignment (Weighed x y) where
  same _ := ⟨Nat.le_refl _, Nat.le_refl _, fun _ _ => trivial⟩
  append := by
    rintro s t s' t' P P' ⟨hx, hy, hP⟩ ⟨hx', hy', hP'⟩
    simp only [Weighed, List.count_append]
    refine ⟨by omega, by omega, fun hSameX hSameY => ?_⟩
    exact ⟨hP (by omega) (by omega),
      hP' (by omega) (by omega)⟩
  restate := by
    rintro s t P P' hSame ⟨hx, hy, hP⟩
    exact ⟨hx, hy, fun hSameX hSameY =>
      hSame.mp (hP hSameX hSameY)⟩

end PartAlignment
