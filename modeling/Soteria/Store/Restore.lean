import Soteria.Store.Staging

/-
  Restoring backups and the golden config, saving the golden
  config, and changing the retention count.

  Key definitions include:
    * `restoreFrom`, `restore`, `restoreGolden`
    * `saveGolden`
    * `setRetention`
-/

------------------------------------------------------------
-- Restoring
------------------------------------------------------------

namespace Soteria

namespace Store

/- The failures of one restore. -/
structure RestoreFaults where
  snapshot : SnapshotFaults
  copy : Faults
  rollback : Faults

def RestoreFaults.none : RestoreFaults where
  snapshot := SnapshotFaults.none
  copy := FileTree.Faults.none
  rollback := FileTree.Faults.none

/- What a restore meets, as for a commit. -/
structure RestoreInput where
  faults : RestoreFaults
  verdict : Verdict
  signalError : Option Text

inductive RestoreError where
  | sessionOpen
  | notManaged (rel : Text)
  | notFound
  | snapshot (error : Text)
  | copy (error : CopyError)
  | rejected (error : Text)
  | rollbackFailed (error rollback : Text)
  | reloadFailed (error : Text)

/- The error of a rejection, given how its rollback ended. -/
def RestoreError.ofRollback (error : Text) :
    Option CopyError → RestoreError
| none => .rejected error
| some fault => .rollbackFailed error fault.error

/- The messages of `Restore` for the backup named `id`. -/
def RestoreError.message (id : Text) : RestoreError → Text
| .sessionOpen =>
    "an edit session is open — commit or discard it before restoring a backup"
| .notManaged rel => "not a managed config file: " ++ rel
| .notFound => "backup " ++ id ++ " not found"
| .snapshot error =>
    "snapshotting current config before restore: " ++ error
| .copy fault => "restoring " ++ id ++ ": " ++ fault.error
| .rejected error =>
    "backup " ++ id ++
      " failed validation, previous config kept: " ++ error
| .rollbackFailed error rollback =>
    "restored config invalid AND rollback failed: " ++ error
      ++ " / " ++ rollback
| .reloadFailed error =>
    "restored and valid, but reload failed: " ++ error

/- The messages of `RestoreGolden`. -/
def RestoreError.goldenMessage : RestoreError → Text
| .sessionOpen =>
    "an edit session is open — commit or discard it before restoring the golden config"
| .notManaged rel => "not a managed config file: " ++ rel
| .notFound => "no golden config saved yet"
| .snapshot error =>
    "snapshotting current config before golden restore: "
      ++ error
| .copy fault => "restoring golden config: " ++ fault.error
| .rejected error =>
    "golden config failed validation, previous config kept: "
      ++ error
| .rollbackFailed error rollback =>
    "golden config invalid AND rollback failed: " ++ error
      ++ " / " ++ rollback
| .reloadFailed error =>
    "golden restored and valid, but reload failed: " ++ error

/-
  The locked part of both restores: snapshot the live
  config, copy the listed files of `source` over it (read
  after the snapshot), validate, and reload or roll back.
-/
def restoreFrom
    (cfg : Config)
    (now : Nat)
    (input : RestoreInput)
    (source : State → Tree)
    (files : List ManagedFile)
    (s : State) : Outcome RestoreError :=
  match snapshotLocked input.faults.snapshot now s with
  | (some error, s) => ⟨"", some (.snapshot error), s, none⟩
  | (none, s) =>
      match FileTree.copyExisting input.faults.copy (source s)
          files s.live with
      | (live, some error) =>
          ⟨"", some (.copy error),
            { s with live := live }, none⟩
      | (live, none) =>
          let s := { s with live := live }
          if cfg.devMode then
            ⟨"dev mode: validation and reload skipped", none,
              pruneBackupsLocked cfg s, none⟩
          else
            match input.verdict.error with
            | some error =>
                let (live, rollback) :=
                  FileTree.copyExisting input.faults.rollback
                    (s.backup now) managedFiles s.live
                ⟨input.verdict.output,
                  some (.ofRollback error rollback),
                  { s with live := live }, none⟩
            | none =>
                match input.signalError with
                | some error =>
                    ⟨input.verdict.output,
                      some (.reloadFailed error), s,
                      some (.reload, some error)⟩
                | none =>
                    ⟨input.verdict.output, none,
                      pruneBackupsLocked cfg s,
                      some (.reload, none)⟩

/- `Restore` of backup `id`; no files means all of them. -/
def restore
    (cfg : Config)
    (now : Nat)
    (input : RestoreInput)
    (id : Nat)
    (files : List Text)
    (s : State) : Outcome RestoreError :=
  if s.stagingActive then ⟨"", some .sessionOpen, s, none⟩
  else
    match files.find? fun rel => !isManaged rel with
    | some rel => ⟨"", some (.notManaged rel), s, none⟩
    | none =>
        if (s.backups.get? id).isNone then
          ⟨"", some .notFound, s, none⟩
        else
          let files :=
            if files = [] then managedFiles
            else files.filterMap (fileOfPath managedFiles)
          restoreFrom cfg now input (fun s => s.backup id)
            files s

/- `RestoreGolden`. -/
def restoreGolden
    (cfg : Config)
    (now : Nat)
    (input : RestoreInput)
    (s : State) : Outcome RestoreError :=
  if s.stagingActive then ⟨"", some .sessionOpen, s, none⟩
  else
    match s.golden with
    | none => ⟨"", some .notFound, s, none⟩
    | some golden =>
        restoreFrom cfg now input (fun _ => golden)
          managedFiles s

end Store

end Soteria

------------------------------------------------------------
-- The Outcomes of a Restore
------------------------------------------------------------

namespace Soteria

namespace Store

/-
  The ways `restoreFrom` ends, each with what was checked on
  the way and the state it leaves.
-/
inductive RestoreResult
    (cfg : Config)
    (now : Nat)
    (input : RestoreInput)
    (source : State → Tree)
    (files : List ManagedFile)
    (s : State) : Outcome RestoreError → Prop
| snapshotFailed
    (error : Text)
    (s' : State)
    (hSnapshot :
      snapshotLocked input.faults.snapshot now s =
        (some error, s')) :
    RestoreResult cfg now input source files s
      ⟨"", some (.snapshot error), s', none⟩
| copyFailed
    (s' : State)
    (live : Tree)
    (error : CopyError)
    (hSnapshot :
      snapshotLocked input.faults.snapshot now s = (none, s'))
    (hCopy :
      FileTree.copyExisting input.faults.copy (source s')
        files s'.live = (live, some error)) :
    RestoreResult cfg now input source files s
      ⟨"", some (.copy error), { s' with live := live }, none⟩
| devMode
    (s' : State)
    (live : Tree)
    (hSnapshot :
      snapshotLocked input.faults.snapshot now s = (none, s'))
    (hCopy :
      FileTree.copyExisting input.faults.copy (source s')
        files s'.live = (live, none))
    (hDev : cfg.devMode = true) :
    RestoreResult cfg now input source files s
      ⟨"dev mode: validation and reload skipped", none,
        pruneBackupsLocked cfg { s' with live := live }, none⟩
| rejected
    (s' : State)
    (live rolledBack : Tree)
    (error : Text)
    (rollback : Option CopyError)
    (hSnapshot :
      snapshotLocked input.faults.snapshot now s = (none, s'))
    (hCopy :
      FileTree.copyExisting input.faults.copy (source s')
        files s'.live = (live, none))
    (hDev : cfg.devMode = false)
    (hVerdict : input.verdict.error = some error)
    (hRollback :
      FileTree.copyExisting input.faults.rollback
        (s'.backup now) managedFiles live =
          (rolledBack, rollback)) :
    RestoreResult cfg now input source files s
      ⟨input.verdict.output,
        some (.ofRollback error rollback),
        { s' with live := rolledBack }, none⟩
| reloadFailed
    (s' : State)
    (live : Tree)
    (error : Text)
    (hSnapshot :
      snapshotLocked input.faults.snapshot now s = (none, s'))
    (hCopy :
      FileTree.copyExisting input.faults.copy (source s')
        files s'.live = (live, none))
    (hDev : cfg.devMode = false)
    (hVerdict : input.verdict.error = none) :
    RestoreResult cfg now input source files s
      ⟨input.verdict.output, some (.reloadFailed error),
        { s' with live := live }, some (.reload, some error)⟩
| restored
    (s' : State)
    (live : Tree)
    (hSnapshot :
      snapshotLocked input.faults.snapshot now s = (none, s'))
    (hCopy :
      FileTree.copyExisting input.faults.copy (source s')
        files s'.live = (live, none))
    (hDev : cfg.devMode = false)
    (hVerdict : input.verdict.error = none)
    (hSignal : input.signalError = none) :
    RestoreResult cfg now input source files s
      ⟨input.verdict.output, none,
        pruneBackupsLocked cfg { s' with live := live },
        some (.reload, none)⟩

theorem restoreFrom_result
    (cfg : Config)
    (now : Nat)
    (input : RestoreInput)
    (source : State → Tree)
    (files : List ManagedFile)
    (s : State) :
    RestoreResult cfg now input source files s
      (restoreFrom cfg now input source files s) := by
  unfold restoreFrom
  split
  · rename_i error s' hSnapshot
    exact .snapshotFailed error s' hSnapshot
  · rename_i s' hSnapshot
    split
    · rename_i live error hCopy
      exact .copyFailed s' live error hSnapshot hCopy
    · rename_i live hCopy
      simp only []
      split
      · rename_i hDev
        exact .devMode s' live hSnapshot hCopy hDev
      · rename_i hDev
        rw [Bool.not_eq_true] at hDev
        split
        · rename_i error hVerdict
          exact .rejected s' live _ error _ hSnapshot hCopy
            hDev hVerdict rfl
        · rename_i hVerdict
          split
          · rename_i error _
            exact .reloadFailed s' live error hSnapshot hCopy
              hDev hVerdict
          · rename_i hSignal
            exact .restored s' live hSnapshot hCopy hDev
              hVerdict hSignal

end Store

end Soteria

------------------------------------------------------------
-- Saving the Golden Config and Retention
------------------------------------------------------------

namespace Soteria

namespace Store

/-
  The failures of `SaveGolden`. A failing removal of the old
  golden directory leaves the files `remove` still holds.
-/
structure GoldenFaults where
  clear : Option Text
  mkdir : Option Text
  copy : Faults
  remove : Option (Text × (ManagedFile → Bool))
  rename : Option Text

def GoldenFaults.none : GoldenFaults where
  clear := Option.none
  mkdir := Option.none
  copy := FileTree.Faults.none
  remove := Option.none
  rename := Option.none

/- `SaveGolden`: build a new directory, then swap it in. -/
def saveGolden
    (faults : GoldenFaults)
    (s : State) : Option Text × State :=
  match faults.clear, faults.mkdir with
  | some error, _ => (some error, s)
  | none, some error => (some error, s)
  | none, none =>
      match FileTree.copyExisting faults.copy s.live
          managedFiles FileTree.empty with
      | (_, some fault) => (some fault.error, s)
      | (files, none) =>
          match faults.remove with
          | some (error, kept) =>
              (some error,
                { s with
                  golden := s.golden.map fun old file =>
                    if kept file then old file else none })
          | none =>
              match faults.rename with
              | some error =>
                  (some error, { s with golden := none })
              | none =>
                  (none, { s with golden := some files })

/- `SetRetention`, with the failure of its write, if any. -/
def setRetention
    (cfg : Config)
    (fault : Option Text)
    (count : Int)
    (s : State) : Except Text State :=
  if count < 1 || 100 < count then
    .error "retention must be between 1 and 100"
  else
    match fault with
    | some error => .error error
    | none =>
        .ok (pruneBackupsLocked cfg
          { s with retain := some count })

/- Saving the golden config touches nothing else. -/
theorem saveGolden_golden
    (faults : GoldenFaults)
    (s : State) :
    ∃ golden,
      (saveGolden faults s).2 = { s with golden := golden } := by
  unfold saveGolden
  split
  · exact ⟨s.golden, rfl⟩
  · exact ⟨s.golden, rfl⟩
  · split
    · exact ⟨s.golden, rfl⟩
    · split
      · exact ⟨_, rfl⟩
      · split
        · exact ⟨_, rfl⟩
        · exact ⟨_, rfl⟩

/- Setting the retention count prunes at once, or fails. -/
theorem setRetention_cases
    (cfg : Config)
    (fault : Option Text)
    (count : Int)
    (s : State) :
    orSame s (setRetention cfg fault count s) = s ∨
      (1 ≤ count ∧
        orSame s (setRetention cfg fault count s) =
          pruneBackupsLocked cfg
            { s with retain := some count }) := by
  unfold setRetention
  split
  · exact Or.inl rfl
  · rename_i hRange
    split
    · exact Or.inl rfl
    · refine Or.inr ⟨?_, rfl⟩
      simp only [Bool.or_eq_true, decide_eq_true_eq] at hRange
      omega

end Store

end Soteria
