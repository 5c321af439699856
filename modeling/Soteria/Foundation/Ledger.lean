import Mathlib.Data.List.Induction

/-
  Entries that events of a history add and drop.

  An event adds at most one entry, and drops the entries it
  says. What is held at the end of a history is what some
  event has added and no later one has dropped.

  Key definitions include:
    * `Ledger.next`, `Ledger.held`
    * `Ledger.mem_held_iff`
-/

------------------------------------------------------------
-- Histories
------------------------------------------------------------

namespace Ledger

variable {Event Entry : Type}
variable (adds : Event → Option Entry)
variable (drops : Event → Entry → Bool)

/- The entries behind one event. -/
def next (entries : List Entry) (event : Event) : List Entry :=
  (entries.filter fun entry => !drops event entry) ++
    (adds event).toList

/- The entries behind a history. -/
def held (events : List Event) : List Entry :=
  events.foldl (next adds drops) []

@[simp] theorem held_nil : held adds drops [] = [] := rfl

theorem held_concat (events : List Event) (event : Event) :
    held adds drops (events ++ [event]) =
      next adds drops (held adds drops events) event := by
  unfold held
  rw [List.foldl_append]
  rfl

/- An entry is held if it was added and not dropped since. -/
theorem mem_held_iff
    {events : List Event}
    {entry : Entry} :
    entry ∈ held adds drops events ↔
      ∃ before event after,
        events = before ++ event :: after ∧
          adds event = some entry ∧
            ∀ later ∈ after, drops later entry = false := by
  induction events using List.reverseRecOn with
  | nil =>
      constructor
      · intro hMem
        cases hMem
      · rintro ⟨before, event, after, hNil, _⟩
        simp at hNil
  | append_singleton events last ih =>
      rw [held_concat, next, List.mem_append]
      constructor
      · rintro (hKept | hNew)
        · rcases List.mem_filter.mp hKept with ⟨hHeld, hKeep⟩
          rcases ih.mp hHeld with
            ⟨before, event, after, rfl, hAdds, hNone⟩
          refine ⟨before, event, after ++ [last], by simp,
            hAdds, ?_⟩
          intro later hLater
          rcases List.mem_append.mp hLater with hOld | hLast
          · exact hNone later hOld
          · rw [List.mem_singleton.mp hLast]
            simpa using hKeep
        · refine ⟨events, last, [], rfl, ?_, ?_⟩
          · exact Option.mem_toList.mp hNew
          · intro later hLater
            cases hLater
      · rintro ⟨before, event, after, hSplit, hAdds, hNone⟩
        rcases List.eq_nil_or_concat after with
          rfl | ⟨rest, final, rfl⟩
        · right
          have hLast : last = event :=
            (List.append_inj' hSplit rfl).2 |> List.cons.inj
              |>.1
          rw [hLast]
          exact Option.mem_toList.mpr hAdds
        · left
          rw [List.concat_eq_append, ← List.cons_append,
            ← List.append_assoc] at hSplit
          rcases List.append_inj' hSplit rfl with
            ⟨rfl, hLast⟩
          rcases List.cons.inj hLast with ⟨rfl, _⟩
          apply List.mem_filter.mpr
          constructor
          · apply ih.mpr
            refine ⟨before, event, rest, rfl, hAdds, ?_⟩
            intro later hLater
            exact hNone later (by simp [hLater])
          · have hLast := hNone last (by simp)
            simpa using hLast

/- What is held is some of what was added, in order. -/
theorem held_sublist (events : List Event) :
    (held adds drops events).Sublist
      (events.filterMap adds) := by
  induction events using List.reverseRecOn with
  | nil => exact List.Sublist.refl _
  | append_singleton events last ih =>
      have hOne :
          [last].filterMap adds = (adds last).toList := by
        cases hAdds : adds last with
        | none => simp [hAdds]
        | some entry => simp [hAdds]
      rw [held_concat, next, List.filterMap_append, hOne]
      exact (List.filter_sublist.trans ih).append
        (List.Sublist.refl _)

end Ledger
