import Soteria.Store.Commit

/-
  What saving the golden config leaves, wherever it fails.

  A new directory is built aside. The old one is removed
  before the new one takes its name, so that a failure from
  there on loses it.

  Main declarations:
    * `Built`, `saveGolden_unbuilt`, `saveGolden_built`
    * `GoldenKept`, `LosesNothing`
    * `goldenKept_iff`
-/

------------------------------------------------------------
-- The New Directory
------------------------------------------------------------

namespace Soteria

namespace Store

/- The new directory gets all its files. -/
structure Built (faults : GoldenFaults) (live : Tree) :
    Prop where
  clear : faults.clear = none
  mkdir : faults.mkdir = none
  read : ∀ file, faults.copy.read file = none
  write :
    ∀ file, live file = none ∨ faults.copy.write file = none

variable {faults : GoldenFaults}
variable {s : State}

/- The files of the new directory are the live ones. -/
theorem built_files (hBuilt : Built faults s.live) :
    FileTree.copyExisting faults.copy s.live managedFiles
      FileTree.empty = (s.live, none) := by
  have hOk :
      (FileTree.copyExisting faults.copy s.live managedFiles
        FileTree.empty).2 = none :=
    (FileTree.copyExisting_ok_iff ..).mpr fun file _ =>
      ⟨hBuilt.read file, hBuilt.write file⟩
  refine Prod.ext (funext fun file => ?_) hOk
  have hFile := FileTree.copyExisting_of_ok
    (Prod.ext rfl hOk) file
  rw [if_pos (mem_managedFiles file)] at hFile
  exact hFile.trans Option.or_none

/- What is left to do is to swap the directories. -/
theorem saveGolden_built (hBuilt : Built faults s.live) :
    saveGolden faults s =
      match faults.remove with
      | some (error, kept) =>
          (some error,
            { s with
              golden := s.golden.map fun old file =>
                if kept file then old file else none })
      | none =>
          match faults.rename with
          | some error => (some error, { s with golden := none })
          | none => (none, { s with golden := some s.live }) := by
  unfold saveGolden
  rw [hBuilt.clear, hBuilt.mkdir]
  dsimp only
  cases faults.remove with
  | some failure => simp only [built_files hBuilt]
  | none =>
      cases faults.rename with
      | some error => simp only [built_files hBuilt]
      | none => simp only [built_files hBuilt]

/- A failure until then is reported, and nothing changes. -/
theorem saveGolden_unbuilt (hNot : ¬ Built faults s.live) :
    ∃ error, saveGolden faults s = (some error, s) := by
  unfold saveGolden
  cases hClear : faults.clear with
  | some error => exact ⟨error, rfl⟩
  | none =>
      cases hMkdir : faults.mkdir with
      | some error => exact ⟨error, rfl⟩
      | none =>
          dsimp only
          split
          case h_1 fault hCopy => exact ⟨fault.error, rfl⟩
          case h_2 files hCopy =>
            have hOk := (FileTree.copyExisting_ok_iff ..).mp
              (congrArg Prod.snd hCopy)
            have hBuilt : Built faults s.live :=
              { clear := hClear
                mkdir := hMkdir
                read := fun file =>
                  (hOk file (mem_managedFiles file)).1
                write := fun file =>
                  (hOk file (mem_managedFiles file)).2 }
            exact absurd hBuilt hNot

end Store

end Soteria

------------------------------------------------------------
-- The Old Directory
------------------------------------------------------------

namespace Soteria

namespace Store

/-
  An error leaves the golden config there was, and without
  one it is the live config.
-/
def GoldenKept (faults : GoldenFaults) (s : State) : Prop :=
  match saveGolden faults s with
  | (some _, after) => after.golden = s.golden
  | (none, after) => after.golden = some s.live

/-
  A removal that fails has removed no file, and a rename that
  fails finds no golden config from before.
-/
def LosesNothing (faults : GoldenFaults) (s : State) : Prop :=
  match faults.remove with
  | some (_, kept) =>
      ∀ old ∈ s.golden, ∀ file,
        old file ≠ none → kept file = true
  | none => faults.rename = none ∨ s.golden = none

/- Of a directory that is removed in part, all files stay. -/
theorem removed_eq_iff
    (kept : ManagedFile → Bool)
    (golden : Option Tree) :
    (golden.map fun old file =>
        if kept file then old file else none) = golden ↔
      ∀ old ∈ golden, ∀ file,
        old file ≠ none → kept file = true := by
  cases golden with
  | none => simp
  | some old =>
      rw [Option.map_some, Option.some_inj]
      constructor
      · intro hSame _ hOld file hFile
        cases hOld
        have hEq := congrFun hSame file
        by_contra hGone
        rw [if_neg hGone] at hEq
        exact hFile hEq.symm
      · intro hAll
        funext file
        by_cases hKept : kept file = true
        · rw [if_pos hKept]
        · have hNone : old file = none := by
            by_contra hFile
            exact hKept (hAll old rfl file hFile)
          rw [if_neg hKept, hNone]

/-
  Saving the golden config does what it should when it fails
  before the old one is removed, or when nothing is lost from
  there on.
-/
theorem goldenKept_iff (faults : GoldenFaults) (s : State) :
    GoldenKept faults s ↔
      (Built faults s.live → LosesNothing faults s) := by
  unfold GoldenKept
  by_cases hBuilt : Built faults s.live
  · rw [forall_prop_of_true hBuilt, saveGolden_built hBuilt]
    unfold LosesNothing
    cases hRemove : faults.remove with
    | some failure =>
        rcases failure with ⟨error, kept⟩
        exact removed_eq_iff kept s.golden
    | none =>
        cases hRename : faults.rename with
        | some error => simp [eq_comm]
        | none => simp
  · rcases saveGolden_unbuilt hBuilt with ⟨error, hSame⟩
    rw [hSame]
    exact iff_of_true rfl fun h => absurd h hBuilt

/- The new directory cannot take its name. -/
def renameFails : GoldenFaults :=
  { GoldenFaults.none with
    rename := some "rename: permission denied" }

/- A store with a golden config. -/
def goldenStore : State :=
  { plainStore with golden := some plainStore.live }

/- A rename that fails leaves no golden config. -/
theorem golden_lost_on_rename :
    ¬ GoldenKept renameFails goldenStore := by
  have hBuilt : Built renameFails goldenStore.live :=
    ⟨rfl, rfl, fun _ => rfl, fun _ => Or.inr rfl⟩
  unfold GoldenKept
  rw [saveGolden_built hBuilt]
  exact fun hSame => nomatch hSame

end Store

end Soteria
