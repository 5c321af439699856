import Soteria.Store.Diff
import Soteria.Store.Restores

/-
  The preview of a restore.

  Key definitions include:
    * `backupDiff`
    * `PreviewFaults.Exact`
    * `preview_exact_iff`
-/

------------------------------------------------------------
-- Equal Lines
------------------------------------------------------------

namespace Soteria

namespace Store

/- Two texts but for a newline at their end. -/
def SameLines (aText bText : Text) : Prop :=
  aText.trimSuffix "\n" = bText.trimSuffix "\n"

variable {aText bText : Text}

theorem splitLines_eq_iff :
    splitLines aText = splitLines bText ↔
      SameLines aText bText := by
  unfold splitLines SameLines
  constructor
  · intro hLines
    by_cases hFirst : aText.trimSuffix "\n" = []
    · rw [if_pos hFirst] at hLines
      by_cases hSecond : bText.trimSuffix "\n" = []
      · rw [hFirst, hSecond]
      · rw [if_neg hSecond] at hLines
        exact absurd hLines.symm (List.splitOn_ne_nil _ _)
    · rw [if_neg hFirst] at hLines
      by_cases hSecond : bText.trimSuffix "\n" = []
      · rw [if_pos hSecond] at hLines
        exact absurd hLines (List.splitOn_ne_nil _ _)
      · rw [if_neg hSecond] at hLines
        have hJoin :
            List.intercalate ['\n']
                ((aText.trimSuffix "\n").splitOn '\n') =
              aText.trimSuffix "\n" :=
          List.intercalate_splitOn '\n'
        rw [← hJoin, hLines]
        exact List.intercalate_splitOn '\n'
  · intro hSame
    rw [hSame]

theorem Hunk.text_ne_nil (h : Hunk) : h.text ≠ [] := by
  unfold Hunk.text
  simp

/- A diff is empty exactly between texts of equal lines. -/
theorem unifiedDiff_eq_nil_iff :
    unifiedDiff aText bText = [] ↔ SameLines aText bText := by
  rw [← splitLines_eq_iff, ← hunksOf_eq_nil_iff]
  unfold unifiedDiff
  by_cases hSame : aText = bText
  · rw [if_pos hSame]
    refine iff_of_true rfl ?_
    exact hunksOf_eq_nil_iff.mpr (congrArg splitLines hSame)
  · rw [if_neg hSame, List.flatMap_eq_nil_iff]
    constructor
    · intro hNone
      refine List.eq_nil_iff_forall_not_mem.mpr ?_
      exact fun h hMem => h.text_ne_nil (hNone h hMem)
    · intro hNone
      rw [hNone]
      exact fun _ h => nomatch h

end Store

end Soteria

------------------------------------------------------------
-- Previews
------------------------------------------------------------

namespace Soteria

namespace Store

/- A file with its diff. -/
structure FileDiff where
  file : Text
  diff : Text

/-
  The reads of a preview that fail. What a failing read of a
  live file has returned is compared all the same.
-/
structure PreviewFaults where
  backup : ManagedFile → Bool
  live : ManagedFile → Option Text

def PreviewFaults.none : PreviewFaults where
  backup := fun _ => false
  live := fun _ => Option.none

inductive PreviewError where
  | notFound
  | notManaged (rel : Text)

/- The messages of `BackupDiff` for the backup named `id`. -/
def PreviewError.message (id : Text) : PreviewError → Text
| .notFound => "backup " ++ id ++ " not found"
| .notManaged rel => "not a managed config file: " ++ rel

/- The live text a preview compares with. -/
def PreviewFaults.shown
    (f : PreviewFaults)
    (live : Tree)
    (file : ManagedFile) : Text :=
  (f.live file).getD ((live file).getD [])

/- The diff of one file, unless it is empty. -/
def fileDiff
    (f : PreviewFaults)
    (live backup : Tree)
    (file : ManagedFile) : Option FileDiff :=
  match backup file with
  | none => none
  | some content =>
      if f.backup file then none
      else
        let diff := unifiedDiff (f.shown live file) content
        if diff = [] then none else some ⟨file.path, diff⟩

/- The loop of `BackupDiff`. -/
def fileDiffs
    (f : PreviewFaults)
    (live backup : Tree) :
    List Text → List FileDiff → Except PreviewError (List FileDiff)
| [], diffs => .ok diffs
| rel :: rest, diffs =>
    match fileOfPath managedFiles rel with
    | none => .error (.notManaged rel)
    | some file =>
        fileDiffs f live backup rest
          (diffs ++ (fileDiff f live backup file).toList)

/- `BackupDiff`; no files means all of them. -/
def backupDiff
    (f : PreviewFaults)
    (id : Nat)
    (files : List Text)
    (s : State) : Except PreviewError (List FileDiff) :=
  match s.backups.get? id with
  | none => .error .notFound
  | some backup =>
      let files :=
        if files = [] then managedFiles.map ManagedFile.path
        else files
      fileDiffs f s.live backup files []

end Store

end Soteria

------------------------------------------------------------
-- Accepted Restores
------------------------------------------------------------

namespace Soteria

namespace Store

variable {cfg : Config}
variable {now id : Nat}
variable {input : RestoreInput}
variable {files : List Text}
variable {s : State}

/- A restore that has not been refused or taken back. -/
def Accepted (out : Outcome RestoreError) : Prop :=
  out.error = none ∨ ∃ error, out.error = some (.reloadFailed error)

/- The files a selection stands for. -/
def selected (files : List Text) : List ManagedFile :=
  if files = [] then managedFiles
  else files.filterMap (fileOfPath managedFiles)

/- What the source of a restore holds after its snapshot. -/
theorem backup_after_snapshot
    {s' : State}
    {backup : Tree}
    (hSnapshot :
      snapshotLocked input.faults.snapshot now s = (none, s'))
    (hBackup : s.backups.get? id = some backup)
    (file : ManagedFile) :
    s'.backup id file =
      if id = now then (s.live file).or (backup file)
      else backup file := by
  have hBefore : s.backup id = backup := by
    unfold State.backup
    rw [hBackup]
    rfl
  by_cases hNow : id = now
  · subst hNow
    rw [if_pos rfl, snapshotLocked_backup hSnapshot, hBefore]
  · rw [if_neg hNow]
    rcases snapshotLocked_put hSnapshot with ⟨saved, rfl⟩
    rw [← hBefore]
    unfold State.backup
    rw [Archive.get?_put_of_ne _ _ hNow]

/- An accepted restore has copied the selected files. -/
theorem restoreFrom_accepted
    {backup : Tree}
    {files : List ManagedFile}
    (hBackup : s.backups.get? id = some backup)
    (hAccepted :
      Accepted (restoreFrom cfg now input
        (fun s => s.backup id) files s))
    (file : ManagedFile) :
    (restoreFrom cfg now input (fun s => s.backup id) files
        s).state.live file =
      if file ∈ files then
        (if id = now then (s.live file).or (backup file)
          else backup file).or (s.live file)
      else s.live file := by
  have hCopied :
      ∀ s' live,
        snapshotLocked input.faults.snapshot now s =
            (none, s') →
          FileTree.copyExisting input.faults.copy
              (s'.backup id) files s'.live = (live, none) →
            live file =
              if file ∈ files then
                (if id = now then (s.live file).or (backup file)
                  else backup file).or (s.live file)
              else s.live file := by
    intro s' live hSnapshot hCopy
    have hLive : s'.live = s.live := by
      have hSame :=
        snapshotLocked_live input.faults.snapshot now s
      rw [hSnapshot] at hSame
      exact hSame
    rw [FileTree.copyExisting_of_ok hCopy file, hLive,
      backup_after_snapshot hSnapshot hBackup]
  have hResult :=
    restoreFrom_result cfg now input (fun s => s.backup id)
      files s
  generalize
    restoreFrom cfg now input (fun s => s.backup id) files s =
      out at hResult hAccepted
  cases hResult with
  | snapshotFailed error s' hSnapshot =>
      rcases hAccepted with h | ⟨_, h⟩
      · cases h
      · cases h
  | copyFailed s' live error hSnapshot hCopy =>
      rcases hAccepted with h | ⟨_, h⟩
      · cases h
      · cases h
  | devMode s' live hSnapshot hCopy =>
      exact hCopied s' live hSnapshot hCopy
  | rejected s' live rolledBack error rollback =>
      rcases hAccepted with h | ⟨_, h⟩
      · cases rollback <;> cases h
      · cases rollback <;> cases h
  | reloadFailed s' live error hSnapshot hCopy =>
      exact hCopied s' live hSnapshot hCopy
  | restored s' live hSnapshot hCopy =>
      exact hCopied s' live hSnapshot hCopy

/- A restore that is accepted has passed its checks. -/
theorem restore_accepted
    (hAccepted : Accepted (restore cfg now input id files s)) :
    ∃ backup, s.backups.get? id = some backup ∧
      (∀ rel ∈ files, isManaged rel = true) ∧
        ∀ file,
          (restore cfg now input id files s).state.live file =
            if file ∈ selected files then
              (if id = now then (s.live file).or (backup file)
                else backup file).or (s.live file)
            else s.live file := by
  unfold restore at hAccepted ⊢
  by_cases hStaging : s.stagingActive = true
  · rw [if_pos hStaging] at hAccepted
    rcases hAccepted with h | ⟨_, h⟩
    · cases h
    · cases h
  · rw [if_neg hStaging] at hAccepted ⊢
    cases hManaged : files.find? fun rel => !isManaged rel with
    | some rel =>
        rw [hManaged] at hAccepted
        rcases hAccepted with h | ⟨_, h⟩
        · cases h
        · cases h
    | none =>
        rw [hManaged] at hAccepted
        simp only at hAccepted ⊢
        cases hBackup : s.backups.get? id with
        | none =>
            rw [hBackup] at hAccepted
            rcases hAccepted with h | ⟨_, h⟩
            · cases h
            · cases h
        | some backup =>
            rw [hBackup] at hAccepted
            refine ⟨backup, rfl, ?_, ?_⟩
            · simpa using hManaged
            · exact restoreFrom_accepted hBackup hAccepted

end Store

end Soteria

------------------------------------------------------------
-- What a Preview Lists
------------------------------------------------------------

namespace Soteria

namespace Store

variable {cfg : Config}
variable {f : PreviewFaults}
variable {now id : Nat}
variable {input : RestoreInput}
variable {files : List Text}
variable {s : State}
variable {live backup : Tree}

/- A preview has a diff for the file. -/
def Listed
    (result : Except PreviewError (List FileDiff))
    (file : ManagedFile) : Prop :=
  ∃ diffs, result = .ok diffs ∧ ∃ d ∈ diffs, d.file = file.path

/-
  The restore leaves a file of the backup as it is. A backup
  of the current second gets the live files before it is
  restored.
-/
def Keeps
    (now id : Nat)
    (live : Option Text)
    (content : Text) : Prop :=
  (id = now ∧ live ≠ none) ∨ (id ≠ now ∧ live = some content)

/-
  The preview of a file of the backup is exact: it finds no
  difference in a file that the restore leaves as it is, and
  one in a file that the restore changes.
-/
def PreviewFaults.Exact
    (f : PreviewFaults)
    (now id : Nat)
    (live : Tree)
    (file : ManagedFile)
    (content : Text) : Prop :=
  (Keeps now id (live file) content ∧
      (f.backup file = true ∨
        SameLines (f.shown live file) content)) ∨
    (¬ Keeps now id (live file) content ∧
      f.backup file = false ∧
        ¬ SameLines (f.shown live file) content)

theorem path_injective
    {file other : ManagedFile}
    (hPath : file.path = other.path) :
    file = other := by
  have hFile := fileOfPath_path file
  rw [hPath, fileOfPath_path] at hFile
  exact (Option.some.inj hFile).symm

theorem fileDiffs_of_managed
    (hManaged : ∀ rel ∈ files, isManaged rel = true)
    (diffs : List FileDiff) :
    fileDiffs f live backup files diffs =
      .ok (diffs ++ files.filterMap fun rel =>
        (fileOfPath managedFiles rel).bind
          (fileDiff f live backup)) := by
  induction files generalizing diffs with
  | nil => simp [fileDiffs]
  | cons rel rest ih =>
      have hRest := ih fun other hMem =>
        hManaged other (List.mem_cons_of_mem _ hMem)
      rcases Option.isSome_iff_exists.mp
          (hManaged rel (List.mem_cons_self ..)) with
        ⟨file, hFile⟩
      unfold fileDiffs
      rw [hFile]
      simp only
      rw [hRest, List.filterMap_cons, hFile, Option.bind_some]
      cases fileDiff f live backup file with
      | none => simp
      | some d => simp

theorem fileDiff_path
    {file : ManagedFile}
    {d : FileDiff}
    (hDiff : fileDiff f live backup file = some d) :
    d.file = file.path := by
  unfold fileDiff at hDiff
  split at hDiff
  · cases hDiff
  · split at hDiff
    · cases hDiff
    · simp only at hDiff
      split at hDiff
      · cases hDiff
      · cases hDiff
        rfl

/- A selected file is listed if its diff is not empty. -/
theorem listed_iff
    (hBackup : s.backups.get? id = some backup)
    (hManaged : ∀ rel ∈ files, isManaged rel = true)
    (file : ManagedFile) :
    Listed (backupDiff f id files s) file ↔
      file ∈ selected files ∧
        fileDiff f s.live backup file ≠ none := by
  have hDiffs :
      backupDiff f id files s =
        .ok ((selected files).filterMap
          (fileDiff f s.live backup)) := by
    unfold backupDiff selected
    rw [hBackup]
    simp only
    by_cases hAll : files = []
    · rw [if_pos hAll, if_pos hAll,
        fileDiffs_of_managed (by
          intro rel hMem
          rcases List.mem_map.mp hMem with ⟨file, -, rfl⟩
          unfold isManaged
          rw [fileOfPath_path]
          rfl),
        List.nil_append, List.filterMap_map]
      refine congrArg Except.ok
        (List.filterMap_congr fun file _ => ?_)
      simp [fileOfPath_path]
    · rw [if_neg hAll, if_neg hAll,
        fileDiffs_of_managed hManaged, List.nil_append,
        List.filterMap_filterMap]
  rw [hDiffs]
  constructor
  · rintro ⟨diffs, hOk, d, hMem, hPath⟩
    cases hOk
    rcases List.mem_filterMap.mp hMem with
      ⟨other, hOther, hDiff⟩
    have hSame : other = file := by
      refine path_injective ?_
      rw [← fileDiff_path hDiff, hPath]
    subst hSame
    refine ⟨hOther, ?_⟩
    rw [hDiff]
    exact Option.some_ne_none d
  · rintro ⟨hMem, hSome⟩
    rcases Option.ne_none_iff_exists'.mp hSome with ⟨d, hDiff⟩
    exact ⟨_, rfl, d, List.mem_filterMap.mpr
      ⟨file, hMem, hDiff⟩, fileDiff_path hDiff⟩

theorem fileDiff_ne_none_iff
    (f : PreviewFaults)
    (live backup : Tree)
    (file : ManagedFile) :
    fileDiff f live backup file ≠ none ↔
      ∃ content, backup file = some content ∧
        f.backup file = false ∧
          ¬ SameLines (f.shown live file) content := by
  unfold fileDiff
  cases backup file with
  | none => simp
  | some content =>
      cases hFault : f.backup file with
      | true => simp
      | false =>
          simp only [← unifiedDiff_eq_nil_iff]
          simp

/- What a restore makes of a file that it copies. -/
theorem restored_ne_iff
    (now id : Nat)
    (live backup : Option Text) :
    (if id = now then live.or backup else backup).or live ≠
        live ↔
      ∃ content, backup = some content ∧
        ¬ Keeps now id live content := by
  unfold Keeps
  by_cases hNow : id = now
  · rw [if_pos hNow]
    cases live with
    | none =>
        cases backup with
        | none => simp
        | some content => simp [hNow]
    | some text => simp [hNow]
  · rw [if_neg hNow]
    cases backup with
    | none => simp
    | some content =>
        simp [hNow, eq_comm]

/-
  A diff is empty only between equal texts unless they differ
  by a newline at the end; and a preview lists exactly the
  files an accepted restore changes, if it is exact for every
  selected file of the backup.
-/
theorem preview_exact_iff
    {f : PreviewFaults}
    (hAccepted : Accepted (restore cfg now input id files s)) :
    (∀ aText bText : Text,
      (unifiedDiff aText bText = [] ↔ aText = bText) ↔
        aText = bText ∨ ¬ SameLines aText bText) ∧
      ∀ file : ManagedFile,
        (Listed (backupDiff f id files s) file ↔
            (restore cfg now input id files s).state.live
              file ≠ s.live file) ↔
          (file ∈ selected files →
            ∀ content, s.backup id file = some content →
              f.Exact now id s.live file content) := by
  constructor
  · intro aText bText
    rw [unifiedDiff_eq_nil_iff]
    constructor
    · intro hExact
      by_cases hSame : aText = bText
      · exact Or.inl hSame
      · exact Or.inr fun h => hSame (hExact.mp h)
    · rintro (rfl | hDiffer)
      · exact iff_of_true rfl rfl
      · refine iff_of_false hDiffer ?_
        rintro rfl
        exact hDiffer rfl
  · intro file
    rcases restore_accepted hAccepted with
      ⟨backup, hBackup, hManaged, hLive⟩
    have hContents : s.backup id = backup := by
      unfold State.backup
      rw [hBackup]
      rfl
    rw [listed_iff hBackup hManaged, hLive file,
      fileDiff_ne_none_iff, hContents]
    by_cases hMem : file ∈ selected files
    · rw [if_pos hMem, restored_ne_iff]
      unfold PreviewFaults.Exact
      cases backup file with
      | none => simp [hMem]
      | some content =>
          by_cases hKept : Keeps now id (s.live file) content
          · cases f.backup file with
            | true => simp [hMem, hKept]
            | false => simp [hMem, hKept]
          · cases f.backup file with
            | true => simp [hMem, hKept]
            | false => simp [hMem, hKept]
    · simp [hMem]

/- The overrides of the first commit differ from live. -/
theorem preview_exact_recommit :
    Listed (backupDiff .none 2 [] recommittedStore)
        .overrides ↔
      (restore plainConfig 3 cleanRestore 2 []
          recommittedStore).state.live .overrides ≠
        recommittedStore.live .overrides := by
  have hAccepted :
      Accepted (restore plainConfig 3 cleanRestore 2 []
        recommittedStore) := Or.inl rfl
  refine ((preview_exact_iff hAccepted).2 .overrides).mpr ?_
  intro _ content hContent
  cases hContent
  refine Or.inr ⟨?_, rfl, by unfold SameLines; decide⟩
  rintro (⟨h, -⟩ | ⟨-, h⟩)
  · exact absurd h (by decide)
  · exact absurd h (by decide)

/- A config that has lost the newline at its end. -/
def newlineStore : State :=
  { plainStore with
    backups := Archive.empty.put 1
      (FileTree.empty.set .main "id = spawnd { }\n") }

/-
  The restore of the newline is accepted and changes a file
  that the preview does not list.
-/
theorem newline_not_listed :
    (restore plainConfig 2 cleanRestore 1 []
        newlineStore).error = none ∧
      (restore plainConfig 2 cleanRestore 1 []
          newlineStore).state.live .main ≠
        newlineStore.live .main ∧
      ¬ Listed (backupDiff .none 1 [] newlineStore) .main ∧
      unifiedDiff "id = spawnd { }" "id = spawnd { }\n" =
        [] := by
  have hSame :
      SameLines "id = spawnd { }" "id = spawnd { }\n" := by
    unfold SameLines
    repeat rw [String.toList_ofList]
    rfl
  refine ⟨rfl, by decide, ?_, ?_⟩
  · rw [listed_iff rfl (by simp), fileDiff_ne_none_iff]
    rintro ⟨-, content, hContent, -, hDiffer⟩
    cases hContent
    exact hDiffer hSame
  · exact unifiedDiff_eq_nil_iff.mpr hSame

end Store

end Soteria
