import Soteria.Store.State

/-
  The staged-commit workflow: opening and discarding an edit
  session, staging writes, and committing them.

  Key definitions include:
    * `beginStaging`, `discardStaging`
    * `writeStaged`, `markRestart`, `readEffective`
    * `changedFiles`
    * `commitStaging`
-/

------------------------------------------------------------
-- Edit Sessions
------------------------------------------------------------

namespace Soteria

namespace Store

/- `RestartFiles`. -/
def restartFile : ManagedFile → Bool
| .main | .tls | .overrides => true
| _ => false

/- `StagingActive`. -/
def State.stagingActive (s : State) : Bool :=
  s.staging.isSome

/- `RestartPending`. -/
def State.restartPending (s : State) : Bool :=
  match s.staging with
  | some session => session.needsRestart
  | none => false

/-
  The failures of `BeginStaging`. A failing write may still
  have made the staging directory.
-/
structure BeginFaults where
  copy : Faults
  dirMade : Bool

def BeginFaults.none : BeginFaults where
  copy := FileTree.Faults.none
  dirMade := false

/- The loop stopped on a write that made the directory. -/
def BeginFaults.makesDir (faults : BeginFaults) :
    Option CopyError → Bool
| some (.write _ _) => faults.dirMade
| _ => false

/-
  `BeginStaging`. The staging directory comes into being
  with the first file written into it.
-/
def beginStaging
    (faults : BeginFaults)
    (s : State) : Option Text × State :=
  match s.staging with
  | some _ => (none, s)
  | none =>
      let (files, error) :=
        FileTree.copyExisting faults.copy s.live entityFiles
          FileTree.empty
      if faults.makesDir error ||
          entityFiles.any fun file => (files file).isSome then
        (error.map FileTree.CopyError.error,
          { s with staging := some ⟨files, false⟩ })
      else (error.map FileTree.CopyError.error, s)

/- `DiscardStaging`. -/
def discardStaging (s : State) : State :=
  { s with staging := none }

inductive StageError where
  | notStaged (rel : Text)
  | stagingInactive
  | write (error : Text)

def StageError.message : StageError → Text
| .notStaged rel => "not a staged config file: " ++ rel
| .stagingInactive =>
    "config edit mode is not active — enter Edit Config mode first"
| .write error => error

/- `WriteStaged`, with the failure of its write, if any. -/
def writeStaged
    (fault : Option Text)
    (rel content : Text)
    (s : State) : Except StageError State :=
  match fileOfPath entityFiles rel with
  | none => .error (.notStaged rel)
  | some file =>
      match s.staging with
      | none => .error .stagingInactive
      | some session =>
          match fault with
          | some error => .error (.write error)
          | none =>
              .ok { s with
                staging := some { session with
                  files := session.files.set file content } }

/-
  `MarkRestart`. Writing the marker makes the staging
  directory, also where no session is open; `fault` holds the
  error of a failing write and whether it still made it.
-/
def markRestart
    (fault : Option (Text × Bool))
    (s : State) : Option Text × State :=
  let files :=
    match s.staging with
    | some session => session.files
    | none => FileTree.empty
  match fault with
  | none => (none, { s with staging := some ⟨files, true⟩ })
  | some (error, dirMade) =>
      if s.staging.isNone && dirMade then
        (some error,
          { s with staging := some ⟨files, false⟩ })
      else (some error, s)

/- `ReadEffective`: staged content over live content. -/
def readEffective (s : State) (rel : Text) :
    Except Text Text :=
  match fileOfPath managedFiles rel with
  | none =>
      .error ("not a managed config file: " ++ rel)
  | some file =>
      match s.staging.bind fun session => session.files file with
      | some content => .ok content
      | none =>
          match s.live file with
          | some content => .ok content
          | none => .error "no such file or directory"

/- The content a read of a file finds, if any. -/
def State.effective (s : State) : Tree :=
  fun file =>
    (s.staging.bind fun session => session.files file).or
      (s.live file)

theorem fileOfPath_path (file : ManagedFile) :
    fileOfPath managedFiles file.path = some file := by
  cases file <;> decide

theorem readEffective_path
    (s : State)
    (file : ManagedFile) :
    readEffective s file.path =
      match s.effective file with
      | some content => .ok content
      | none => .error "no such file or directory" := by
  unfold readEffective State.effective
  rw [fileOfPath_path]
  simp only []
  cases s.staging.bind fun session => session.files file with
  | some content => rfl
  | none => rfl

/- Without a session the live files are read. -/
theorem effective_of_closed
    {s : State}
    (hStaging : s.staging = none) :
    s.effective = s.live := by
  funext file
  simp [State.effective, hStaging]

/- When staging a file succeeds, and what it leaves. -/
theorem writeStaged_ok_iff
    {fault : Option Text}
    {file : ManagedFile}
    {content : Text}
    {s s' : State} :
    writeStaged fault file.path content s = .ok s' ↔
      ∃ session, s.staging = some session ∧ fault = none ∧
        s' = { s with
          staging := some { session with
            files := session.files.set file content } } := by
  have hFile :
      fileOfPath entityFiles file.path = some file :=
    fileOfPath_path file
  unfold writeStaged
  rw [hFile]
  cases hStaging : s.staging with
  | none => simp
  | some session =>
      cases fault with
      | some error => simp
      | none =>
          constructor
          · intro hWrite
            cases hWrite
            exact ⟨session, rfl, rfl, rfl⟩
          · rintro ⟨other, hOther, -, rfl⟩
            cases hOther
            rfl

/- When marking the restart succeeds, and what it leaves. -/
theorem markRestart_ok_iff
    {fault : Option (Text × Bool)}
    {s s' : State} :
    markRestart fault s = (none, s') ↔
      fault = none ∧
        s' = { s with
          staging := some
            ⟨(s.staging.map Session.files).getD
              FileTree.empty, true⟩ } := by
  have hFiles :
      (match s.staging with
        | some session => session.files
        | none => FileTree.empty) =
        (s.staging.map Session.files).getD
          FileTree.empty := by
    cases s.staging <;> rfl
  unfold markRestart
  rw [hFiles]
  cases fault with
  | none =>
      constructor
      · intro hMark
        exact ⟨rfl, (Prod.mk.inj hMark).2.symm⟩
      · rintro ⟨-, rfl⟩
        rfl
  | some failure =>
      simp only [reduceCtorEq, false_and, iff_false]
      split <;> simp

/- Opening a session touches only the staging area. -/
theorem beginStaging_staging
    (faults : BeginFaults)
    (s : State) :
    ∃ staging,
      (beginStaging faults s).2 =
        { s with staging := staging } := by
  unfold beginStaging
  split
  · exact ⟨s.staging, rfl⟩
  · simp only []
    split
    · exact ⟨_, rfl⟩
    · exact ⟨s.staging, rfl⟩

/- Without failures the session starts as the live files. -/
theorem beginStaging_none
    {s : State}
    {file : ManagedFile}
    (hStaging : s.staging = none)
    (hFile : s.live file ≠ none) :
    beginStaging .none s =
      (none, { s with staging := some ⟨s.live, false⟩ }) := by
  have hFiles :
      FileTree.copyExisting (FileTree.Faults.none : Faults)
          s.live entityFiles FileTree.empty =
        (s.live, none) := by
    rw [FileTree.copyExisting_none]
    simp [mem_entityFiles, FileTree.empty]
  have hAny :
      (entityFiles.any fun file => (s.live file).isSome) =
        true := by
    rw [List.any_eq_true]
    exact ⟨file, mem_entityFiles file,
      Option.isSome_iff_ne_none.mpr hFile⟩
  unfold beginStaging
  rw [hStaging]
  simp [BeginFaults.none, hFiles, hAny]

/- Staging a file touches only the staging area. -/
theorem writeStaged_staging
    (fault : Option Text)
    (rel content : Text)
    (s : State) :
    ∃ staging,
      orSame s (writeStaged fault rel content s) =
        { s with staging := staging } := by
  unfold writeStaged
  split
  · exact ⟨s.staging, rfl⟩
  · split
    · exact ⟨s.staging, rfl⟩
    · split
      · exact ⟨s.staging, rfl⟩
      · exact ⟨_, rfl⟩

/- Marking a restart touches only the staging area. -/
theorem markRestart_staging
    (fault : Option (Text × Bool))
    (s : State) :
    ∃ staging,
      (markRestart fault s).2 =
        { s with staging := staging } := by
  unfold markRestart
  simp only []
  split
  · exact ⟨_, rfl⟩
  · split
    · exact ⟨_, rfl⟩
    · exact ⟨s.staging, rfl⟩

end Store

end Soteria

------------------------------------------------------------
-- Committing
------------------------------------------------------------

namespace Soteria

namespace Store

/- The reads of the comparison that fail. -/
structure DiffFaults where
  staged : ManagedFile → Bool
  live : ManagedFile → Bool

def DiffFaults.none : DiffFaults where
  staged := fun _ => false
  live := fun _ => false

/-
  The staged files whose content differs from live. An
  unreadable staged file is skipped; a live file that cannot
  be read compares as empty.
-/
def changedFiles
    (faults : DiffFaults)
    (live staged : Tree) : List ManagedFile :=
  entityFiles.filter fun rel =>
    match staged rel with
    | none => false
    | some content =>
        !faults.staged rel &&
          content !=
            if faults.live rel then []
            else (live rel).getD []

theorem staged_of_mem_changedFiles
    {faults : DiffFaults}
    {live staged : Tree}
    {file : ManagedFile}
    (hFile : file ∈ changedFiles faults live staged) :
    staged file ≠ none := by
  intro hNone
  simp [changedFiles, hNone] at hFile

/- The failures of one `CommitStaging` call. -/
structure CommitFaults where
  diff : DiffFaults
  snapshot : SnapshotFaults
  copy : Faults
  rollback : Faults

def CommitFaults.none : CommitFaults where
  diff := DiffFaults.none
  snapshot := SnapshotFaults.none
  copy := FileTree.Faults.none
  rollback := FileTree.Faults.none

/-
  What a `CommitStaging` call meets: the failures of its
  file accesses, the validator's answer and the error of
  the signal it sends.
-/
structure CommitInput where
  faults : CommitFaults
  verdict : Verdict
  signalError : Option Text

inductive CommitError where
  | stagingInactive
  | backup (error : Text)
  | copy (error : CopyError)
  | rejected (error : Text)
  | rollbackFailed (error rollback : Text)
  | noRestarter
  | restartFailed (error : Text)
  | reloadFailed (error : Text)

/- The error of a rejection, given how its rollback ended. -/
def CommitError.ofRollback (error : Text) :
    Option CopyError → CommitError
| none => .rejected error
| some fault => .rollbackFailed error fault.error

def CommitError.message : CommitError → Text
| .stagingInactive => StageError.stagingInactive.message
| .backup error => "creating backup: " ++ error
| .copy (.read rel error) =>
    "reading staged " ++ rel.path ++ ": " ++ error
| .copy (.write rel error) =>
    "writing " ++ rel.path ++ ": " ++ error
| .rejected error =>
    "rejected by validator, live config unchanged (staged edits kept): "
      ++ error
| .rollbackFailed error rollback =>
    "validation failed AND rollback failed: " ++ error ++
      " / " ++ rollback
| .noRestarter =>
    "config committed, but no restart mechanism is configured"
| .restartFailed error =>
    "config committed, but container restart failed (will apply on next restart): "
      ++ error
| .reloadFailed error =>
    "config committed and valid, but reload failed (will apply on next restart): "
      ++ error

/- How an accepted commit is applied, and its error. -/
def applyCommit
    (cfg : Config)
    (session : Session)
    (signalError : Option Text) :
    Option CommitError × Option (Signal × Option Text) :=
  if session.needsRestart then
    if !cfg.restarter then (some .noRestarter, none)
    else
      (signalError.map CommitError.restartFailed,
        some (.restart, signalError))
  else
    (signalError.map CommitError.reloadFailed,
      some (.reload, signalError))

/- The error of reading a file that does not exist. -/
def notExist (_ : ManagedFile) : Text :=
  "no such file or directory"

/- `CommitStaging` at clock second `now`. -/
def commitStaging
    (cfg : Config)
    (now : Nat)
    (input : CommitInput)
    (s : State) : Outcome CommitError :=
  match s.staging with
  | none => ⟨"", some .stagingInactive, s, none⟩
  | some session =>
      let changed :=
        changedFiles input.faults.diff s.live session.files
      if changed = [] then
        ⟨"no changes to commit", none,
          { s with staging := none }, none⟩
      else
        match snapshotLocked input.faults.snapshot now s with
        | (some error, s) => ⟨"", some (.backup error), s, none⟩
        | (none, s) =>
            match FileTree.copyAll input.faults.copy notExist
                session.files changed s.live with
            | (live, some error) =>
                ⟨"", some (.copy error),
                  { s with live := live }, none⟩
            | (live, none) =>
                let s := { s with live := live }
                if cfg.devMode then
                  ⟨"dev mode: validation and reload skipped",
                    none,
                    pruneBackupsLocked cfg
                      { s with staging := none }, none⟩
                else
                  match input.verdict.error with
                  | some error =>
                      let (live, rollback) :=
                        FileTree.copyExisting
                          input.faults.rollback
                          (s.backup now) changed s.live
                      ⟨input.verdict.output,
                        some (.ofRollback error rollback),
                        { s with
                          live := live
                          backups := s.backups.remove now },
                        none⟩
                  | none =>
                      match applyCommit cfg session
                          input.signalError with
                      | (some error, signal) =>
                          ⟨input.verdict.output, some error, s,
                            signal⟩
                      | (none, signal) =>
                          ⟨input.verdict.output, none,
                            pruneBackupsLocked cfg
                              { s with staging := none },
                            signal⟩

end Store

end Soteria

------------------------------------------------------------
-- The Outcomes of a Commit
------------------------------------------------------------

namespace Soteria

namespace Store

/-
  The ways `CommitStaging` ends, each with what was checked
  on the way and the state it leaves.
-/
inductive CommitResult
    (cfg : Config)
    (now : Nat)
    (input : CommitInput)
    (s : State) : Outcome CommitError → Prop
| inactive (hStaging : s.staging = none) :
    CommitResult cfg now input s
      ⟨"", some .stagingInactive, s, none⟩
| unchanged
    (session : Session)
    (hStaging : s.staging = some session)
    (hChanged :
      changedFiles input.faults.diff s.live session.files =
        []) :
    CommitResult cfg now input s
      ⟨"no changes to commit", none,
        { s with staging := none }, none⟩
| backupFailed
    (session : Session)
    (error : Text)
    (s' : State)
    (hStaging : s.staging = some session)
    (hChanged :
      changedFiles input.faults.diff s.live session.files ≠
        [])
    (hSnapshot :
      snapshotLocked input.faults.snapshot now s =
        (some error, s')) :
    CommitResult cfg now input s
      ⟨"", some (.backup error), s', none⟩
| copyFailed
    (session : Session)
    (s' : State)
    (live : Tree)
    (error : CopyError)
    (hStaging : s.staging = some session)
    (hChanged :
      changedFiles input.faults.diff s.live session.files ≠
        [])
    (hSnapshot :
      snapshotLocked input.faults.snapshot now s = (none, s'))
    (hCopy :
      FileTree.copyAll input.faults.copy notExist
        session.files
        (changedFiles input.faults.diff s.live session.files)
        s'.live = (live, some error)) :
    CommitResult cfg now input s
      ⟨"", some (.copy error), { s' with live := live }, none⟩
| devMode
    (session : Session)
    (s' : State)
    (live : Tree)
    (hStaging : s.staging = some session)
    (hChanged :
      changedFiles input.faults.diff s.live session.files ≠
        [])
    (hSnapshot :
      snapshotLocked input.faults.snapshot now s = (none, s'))
    (hCopy :
      FileTree.copyAll input.faults.copy notExist
        session.files
        (changedFiles input.faults.diff s.live session.files)
        s'.live = (live, none))
    (hDev : cfg.devMode = true) :
    CommitResult cfg now input s
      ⟨"dev mode: validation and reload skipped", none,
        pruneBackupsLocked cfg
          { s' with live := live, staging := none }, none⟩
| rejected
    (session : Session)
    (s' : State)
    (live rolledBack : Tree)
    (error : Text)
    (rollback : Option CopyError)
    (hStaging : s.staging = some session)
    (hChanged :
      changedFiles input.faults.diff s.live session.files ≠
        [])
    (hSnapshot :
      snapshotLocked input.faults.snapshot now s = (none, s'))
    (hCopy :
      FileTree.copyAll input.faults.copy notExist
        session.files
        (changedFiles input.faults.diff s.live session.files)
        s'.live = (live, none))
    (hDev : cfg.devMode = false)
    (hVerdict : input.verdict.error = some error)
    (hRollback :
      FileTree.copyExisting input.faults.rollback
        (s'.backup now)
        (changedFiles input.faults.diff s.live session.files)
        live = (rolledBack, rollback)) :
    CommitResult cfg now input s
      ⟨input.verdict.output,
        some (.ofRollback error rollback),
        { s' with
          live := rolledBack
          backups := s'.backups.remove now }, none⟩
| applyFailed
    (session : Session)
    (s' : State)
    (live : Tree)
    (error : CommitError)
    (signal : Option (Signal × Option Text))
    (hStaging : s.staging = some session)
    (hChanged :
      changedFiles input.faults.diff s.live session.files ≠
        [])
    (hSnapshot :
      snapshotLocked input.faults.snapshot now s = (none, s'))
    (hCopy :
      FileTree.copyAll input.faults.copy notExist
        session.files
        (changedFiles input.faults.diff s.live session.files)
        s'.live = (live, none))
    (hDev : cfg.devMode = false)
    (hVerdict : input.verdict.error = none)
    (hApply :
      applyCommit cfg session input.signalError =
        (some error, signal)) :
    CommitResult cfg now input s
      ⟨input.verdict.output, some error,
        { s' with live := live }, signal⟩
| committed
    (session : Session)
    (s' : State)
    (live : Tree)
    (signal : Option (Signal × Option Text))
    (hStaging : s.staging = some session)
    (hChanged :
      changedFiles input.faults.diff s.live session.files ≠
        [])
    (hSnapshot :
      snapshotLocked input.faults.snapshot now s = (none, s'))
    (hCopy :
      FileTree.copyAll input.faults.copy notExist
        session.files
        (changedFiles input.faults.diff s.live session.files)
        s'.live = (live, none))
    (hDev : cfg.devMode = false)
    (hVerdict : input.verdict.error = none)
    (hApply :
      applyCommit cfg session input.signalError =
        (none, signal)) :
    CommitResult cfg now input s
      ⟨input.verdict.output, none,
        pruneBackupsLocked cfg
          { s' with live := live, staging := none }, signal⟩

theorem commitStaging_result
    (cfg : Config)
    (now : Nat)
    (input : CommitInput)
    (s : State) :
    CommitResult cfg now input s
      (commitStaging cfg now input s) := by
  unfold commitStaging
  split
  · rename_i hStaging
    exact .inactive hStaging
  · rename_i session hStaging
    simp only []
    split
    · rename_i hChanged
      exact .unchanged session hStaging hChanged
    · rename_i hChanged
      split
      · rename_i error s' hSnapshot
        exact .backupFailed session error s' hStaging hChanged
          hSnapshot
      · rename_i s' hSnapshot
        split
        · rename_i live error hCopy
          exact .copyFailed session s' live error hStaging
            hChanged hSnapshot hCopy
        · rename_i live hCopy
          split
          · rename_i hDev
            exact .devMode session s' live hStaging hChanged
              hSnapshot hCopy hDev
          · rename_i hDev
            rw [Bool.not_eq_true] at hDev
            split
            · rename_i error hVerdict
              exact .rejected session s' live _ error _
                hStaging hChanged hSnapshot hCopy hDev hVerdict
                rfl
            · rename_i hVerdict
              split
              · rename_i error signal hApply
                exact .applyFailed session s' live error signal
                  hStaging hChanged hSnapshot hCopy hDev
                  hVerdict hApply
              · rename_i signal hApply
                exact .committed session s' live signal hStaging
                  hChanged hSnapshot hCopy hDev hVerdict hApply

end Store

end Soteria
