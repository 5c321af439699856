import Mathlib.Data.List.Perm.Basic

/-
  Tables of named values, replaced by requests that may leave
  values out.

  An entry of a request has a value or asks to keep the one
  the table has of its name. The table afterwards has the
  names of the request.

  Key definitions include:
    * `Table.Kept`
    * `Table.Replaces`
-/

------------------------------------------------------------
-- Replaced Tables
------------------------------------------------------------

namespace Table

variable {κ α : Type}

/- What an entry of a request becomes. -/
inductive Kept (before : List (κ × α)) :
    κ × Option α → κ × α → Prop
| supplied
    (name : κ)
    (value : α) :
    Kept before (name, some value) (name, value)
| kept
    {name : κ}
    {value : α}
    (hBefore : (name, value) ∈ before) :
    Kept before (name, none) (name, value)

/- The table after a request, in any order. -/
def Replaces
    (before : List (κ × α))
    (request : List (κ × Option α))
    (after : List (κ × α)) : Prop :=
  ∃ values,
    List.Forall₂ (Kept before) request values ∧
      values.Perm after

namespace Replaces

variable {before after after' : List (κ × α)}
variable {request : List (κ × Option α)}

theorem of_forall₂
    (hAll : List.Forall₂ (Kept before) request after) :
    Replaces before request after :=
  ⟨after, hAll, List.Perm.refl after⟩

/- The order of the table does not matter. -/
theorem perm
    (hReplaces : Replaces before request after)
    (hPerm : after.Perm after') :
    Replaces before request after' := by
  rcases hReplaces with ⟨values, hAll, hValues⟩
  exact ⟨values, hAll, hValues.trans hPerm⟩

/- A value that is asked to be kept was there before. -/
theorem kept_before
    (hReplaces : Replaces before request after)
    {name : κ}
    (hRequest : (name, none) ∈ request) :
    ∃ value, (name, value) ∈ before := by
  rcases hReplaces with ⟨values, hAll, -⟩
  induction hAll with
  | nil => cases hRequest
  | cons hFirst _ ih =>
      rcases List.mem_cons.mp hRequest with hEq | hRequest
      · subst hEq
        cases hFirst with
        | kept hBefore => exact ⟨_, hBefore⟩
      · exact ih hRequest

end Replaces

end Table
