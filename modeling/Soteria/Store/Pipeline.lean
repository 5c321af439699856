import Soteria.Store.Operations

/-
  Commits and restores in small steps.

  A commit or a restore holds the store's mutex while it
  copies files, has them validated, rolls back and signals
  the server. Requests that take the mutex too wait for it.
  Marking a restart, writing the retention setting and the
  reload request do not take it, so they may come between
  any two steps.

  The trees the validator has accepted are recorded; no
  step reads them.

  Key definitions include:
    * `Job`, `Phase`, `System`
    * `Event`, `step`, `sends`
    * `commitStaging_run`, `restore_run`, `restoreGolden_run`
-/

------------------------------------------------------------
-- Phases of a Pipeline
------------------------------------------------------------

namespace Soteria

namespace Store

/- Restores of backups and of the golden config are alike. -/
inductive JobKind where
  | commit
  | restore
deriving DecidableEq

/-
  A running pipeline: the directory it copies from, the
  backup it made, and the files a rejection copies back.
-/
structure Job where
  kind : JobKind
  source : Tree
  backup : Nat
  undo : List ManagedFile

/- Who holds the mutex, and which files are left to copy. -/
inductive Phase where
  | idle
  | copying (job : Job) (rest : List ManagedFile)
  | validating (job : Job)
  | rollingBack (job : Job) (rest : List ManagedFile)
  | signalling (job : Job)

structure System where
  store : State
  phase : Phase
  accepted : List Tree

/- The phase of a copy loop with the files left to copy. -/
def Phase.afterCopy (job : Job) : List ManagedFile → Phase
| [] => .validating job
| file :: rest => .copying job (file :: rest)

/-
  One file of a copy loop; there is no result when it fails.
  A commit fails on a file that is missing, the loop of a
  restore or a rollback skips it.
-/
def copyFile
    (kind : JobKind)
    (source : Tree)
    (file : ManagedFile)
    (read write : Option Text)
    (live : Tree) : Option Tree :=
  match read with
  | some _ => none
  | none =>
      match source file with
      | none =>
          match kind with
          | .commit => none
          | .restore => some live
      | some content =>
          match write with
          | some _ => none
          | none => some (live.set file content)

/- `CommitStaging` up to its copy loop. -/
def openCommit
    (now : Nat)
    (diff : DiffFaults)
    (snapshot : SnapshotFaults)
    (s : State) : State × Phase :=
  match s.staging with
  | none => (s, .idle)
  | some session =>
      let changed := changedFiles diff s.live session.files
      if changed = [] then ({ s with staging := none }, .idle)
      else
        match snapshotLocked snapshot now s with
        | (some _, s) => (s, .idle)
        | (none, s) =>
            (s, .afterCopy ⟨.commit, session.files, now, changed⟩
              changed)

/- Both restores up to their copy loop. -/
def openRestoreFrom
    (now : Nat)
    (snapshot : SnapshotFaults)
    (source : State → Tree)
    (files : List ManagedFile)
    (s : State) : State × Phase :=
  match snapshotLocked snapshot now s with
  | (some _, s) => (s, .idle)
  | (none, s) =>
      (s, .afterCopy ⟨.restore, source s, now, managedFiles⟩
        files)

/-
  `Restore` up to its copy loop. That no session is open and
  that the files are managed was checked before the mutex
  was taken, so a session may have been opened since.
-/
def openRestore
    (now : Nat)
    (snapshot : SnapshotFaults)
    (id : Nat)
    (files : List ManagedFile)
    (s : State) : State × Phase :=
  if (s.backups.get? id).isNone then (s, .idle)
  else
    openRestoreFrom now snapshot (fun s => s.backup id) files s

/- `RestoreGolden` up to its copy loop. -/
def openGolden
    (now : Nat)
    (snapshot : SnapshotFaults)
    (s : State) : State × Phase :=
  match s.golden with
  | none => (s, .idle)
  | some golden =>
      openRestoreFrom now snapshot (fun _ => golden)
        managedFiles s

/- The end of a pipeline that was not rejected. -/
def closeApplied
    (cfg : Config)
    (kind : JobKind)
    (s : State) : State :=
  match kind with
  | .commit => pruneBackupsLocked cfg { s with staging := none }
  | .restore => pruneBackupsLocked cfg s

/- The end of a rejected one: a commit deletes its backup. -/
def closeRejected (job : Job) (s : State) : State :=
  match job.kind with
  | .commit => { s with backups := s.backups.remove job.backup }
  | .restore => s

/- A rollback loop with the files left to copy. -/
def afterRollback
    (job : Job)
    (s : State) : List ManagedFile → State × Phase
| [] => (closeRejected job s, .idle)
| file :: rest => (s, .rollingBack job (file :: rest))

/-
  The end of an accepted pipeline: the signal it sends and
  the state it leaves.
-/
def applyJob
    (cfg : Config)
    (job : Job)
    (error : Option Text)
    (s : State) : Option Signal × State :=
  match job.kind, s.staging with
  | .commit, none => (none, s)
  | .commit, some session =>
      match applyCommit cfg session error with
      | (some _, signal) => (signal.map Prod.fst, s)
      | (none, signal) =>
          (signal.map Prod.fst, closeApplied cfg .commit s)
  | .restore, _ =>
      match error with
      | some _ => (some .reload, s)
      | none => (some .reload, closeApplied cfg .restore s)

end Store

end Soteria

------------------------------------------------------------
-- Steps
------------------------------------------------------------

namespace Soteria

namespace Store

/- What may happen next, with the failures it meets. -/
inductive Event where
  | begin (faults : BeginFaults)
  | discard
  | write (fault : Option Text) (rel content : Text)
  | saveGolden (faults : GoldenFaults)
  | pruneBackups
  | openCommit (now : Nat) (diff : DiffFaults)
      (snapshot : SnapshotFaults)
  | openRestore (now : Nat) (snapshot : SnapshotFaults)
      (id : Nat) (files : List ManagedFile)
  | openGolden (now : Nat) (snapshot : SnapshotFaults)
  | copy (read write : Option Text)
  | validate (verdict : Verdict)
  | rollback (read write : Option Text)
  | apply (error : Option Text)
  | markRestart (fault : Option (Text × Bool))
  | storeRetention (count : Int)
  | reloadConfig (error : Option Text)

/- A request that needs the mutex waits until it is free. -/
def System.locked (u : System) (next : State × Phase) :
    Option System :=
  match u.phase with
  | .idle => some { u with store := next.1, phase := next.2 }
  | _ => none

/- The system after an event, if it can happen now. -/
def step (cfg : Config) (u : System) : Event → Option System
| .begin faults =>
    u.locked ((beginStaging faults u.store).2, .idle)
| .discard => u.locked (discardStaging u.store, .idle)
| .write fault rel content =>
    u.locked
      (orSame u.store (writeStaged fault rel content u.store),
        .idle)
| .saveGolden faults =>
    u.locked ((saveGolden faults u.store).2, .idle)
| .pruneBackups =>
    u.locked (pruneBackupsLocked cfg u.store, .idle)
| .openCommit now diff snapshot =>
    u.locked (openCommit now diff snapshot u.store)
| .openRestore now snapshot id files =>
    u.locked (openRestore now snapshot id files u.store)
| .openGolden now snapshot =>
    u.locked (openGolden now snapshot u.store)
| .copy read write =>
    match u.phase with
    | .copying job (file :: rest) =>
        match copyFile job.kind job.source file read write
            u.store.live with
        | none => some { u with phase := .idle }
        | some live =>
            some { u with
              store := { u.store with live := live }
              phase := .afterCopy job rest }
    | _ => none
| .validate verdict =>
    match u.phase with
    | .validating job =>
        if cfg.devMode then
          some { u with
            store := closeApplied cfg job.kind u.store
            phase := .idle }
        else
          match verdict.error with
          | some _ =>
              let next := afterRollback job u.store job.undo
              some { u with store := next.1, phase := next.2 }
          | none =>
              some { u with
                phase := .signalling job
                accepted := u.store.live :: u.accepted }
    | _ => none
| .rollback read write =>
    match u.phase with
    | .rollingBack job (file :: rest) =>
        match copyFile .restore (u.store.backup job.backup)
            file read write u.store.live with
        | none =>
            some { u with
              store := closeRejected job u.store
              phase := .idle }
        | some live =>
            let next :=
              afterRollback job { u.store with live := live }
                rest
            some { u with store := next.1, phase := next.2 }
    | _ => none
| .apply error =>
    match u.phase with
    | .signalling job =>
        some { u with
          store := (applyJob cfg job error u.store).2
          phase := .idle }
    | _ => none
| .markRestart fault =>
    some { u with store := (markRestart fault u.store).2 }
| .storeRetention count =>
    if count < 1 || 100 < count then none
    else
      some { u with
        store := { u.store with retain := some count } }
| .reloadConfig _ => some u

/- The signal an event sends to the server. -/
def sends (cfg : Config) (u : System) :
    Event → Option Signal
| .apply error =>
    match u.phase with
    | .signalling job => (applyJob cfg job error u.store).1
    | _ => none
| .reloadConfig _ => some .reload
| _ => none

/- The steps of the system as a relation. -/
def Takes (cfg : Config) (u : System) (event : Event)
    (u' : System) : Prop :=
  step cfg u event = some u'

end Store

end Soteria

------------------------------------------------------------
-- Copy Loops in Steps
------------------------------------------------------------

namespace Soteria

namespace Store

open Transition (Run)

/- A whole copy loop, with whether it reached its end. -/
def copyLoop
    (kind : JobKind)
    (faults : Faults)
    (source : Tree) :
    List ManagedFile → Tree → Tree × Bool
| [], live => (live, true)
| file :: rest, live =>
    match copyFile kind source file (faults.read file)
        (faults.write file) live with
    | none => (live, false)
    | some live => copyLoop kind faults source rest live

theorem copyLoop_commit
    (faults : Faults)
    (source : Tree)
    (files : List ManagedFile)
    (live : Tree) :
    copyLoop .commit faults source files live =
      ((FileTree.copyAll faults notExist source files live).1,
        (FileTree.copyAll faults notExist source files
          live).2.isNone) := by
  induction files generalizing live with
  | nil => rfl
  | cons file rest ih =>
      unfold copyLoop FileTree.copyAll copyFile
      cases faults.read file with
      | some error => rfl
      | none =>
          cases source file with
          | none => rfl
          | some content =>
              cases faults.write file with
              | some error => rfl
              | none => exact ih _

theorem copyLoop_restore
    (faults : Faults)
    (source : Tree)
    (files : List ManagedFile)
    (live : Tree) :
    copyLoop .restore faults source files live =
      ((FileTree.copyExisting faults source files live).1,
        (FileTree.copyExisting faults source files
          live).2.isNone) := by
  induction files generalizing live with
  | nil => rfl
  | cons file rest ih =>
      unfold copyLoop FileTree.copyExisting copyFile
      cases faults.read file with
      | some error => rfl
      | none =>
          cases source file with
          | none => exact ih _
          | some content =>
              cases faults.write file with
              | some error => rfl
              | none => exact ih _

/- The copy loop of a pipeline, one file a step. -/
theorem copying_run
    (cfg : Config)
    (job : Job)
    (faults : Faults)
    (files : List ManagedFile)
    (s : State)
    (accepted : List Tree) :
    ∃ events,
      Run (Takes cfg) ⟨s, .afterCopy job files, accepted⟩ events
        ⟨{ s with
            live :=
              (copyLoop job.kind faults job.source files
                s.live).1 },
          if (copyLoop job.kind faults job.source files
              s.live).2
          then .validating job else .idle,
          accepted⟩ := by
  induction files generalizing s with
  | nil => exact ⟨[], .refl _⟩
  | cons file rest ih =>
      have hStep :
          step cfg ⟨s, .afterCopy job (file :: rest), accepted⟩
              (.copy (faults.read file) (faults.write file)) =
            match copyFile job.kind job.source file
                (faults.read file) (faults.write file)
                s.live with
            | none => some ⟨s, .idle, accepted⟩
            | some live =>
                some ⟨{ s with live := live },
                  .afterCopy job rest, accepted⟩ := rfl
      unfold copyLoop
      split
      · rename_i hFile
        rw [hFile] at hStep
        exact ⟨_, .single hStep⟩
      · rename_i live hFile
        rw [hFile] at hStep
        rcases ih { s with live := live } with ⟨events, hRest⟩
        exact ⟨_, (Run.single hStep).append hRest⟩

/- The rollback loop of a pipeline, one file a step. -/
theorem rollingBack_run
    (cfg : Config)
    (job : Job)
    (faults : Faults)
    (files : List ManagedFile)
    (s : State)
    (accepted : List Tree) :
    ∃ events,
      Run (Takes cfg)
        ⟨(afterRollback job s files).1,
          (afterRollback job s files).2, accepted⟩ events
        ⟨closeRejected job
          { s with
            live :=
              (copyLoop .restore faults (s.backup job.backup)
                files s.live).1 },
          .idle, accepted⟩ := by
  induction files generalizing s with
  | nil => exact ⟨[], .refl _⟩
  | cons file rest ih =>
      have hStep :
          step cfg
              ⟨s, .rollingBack job (file :: rest), accepted⟩
              (.rollback (faults.read file)
                (faults.write file)) =
            match copyFile .restore (s.backup job.backup) file
                (faults.read file) (faults.write file)
                s.live with
            | none =>
                some ⟨closeRejected job s, .idle, accepted⟩
            | some live =>
                some
                  ⟨(afterRollback job { s with live := live }
                      rest).1,
                    (afterRollback job { s with live := live }
                      rest).2,
                    accepted⟩ := rfl
      unfold copyLoop
      split
      · rename_i hFile
        rw [hFile] at hStep
        exact ⟨_, .single hStep⟩
      · rename_i live hFile
        rw [hFile] at hStep
        rcases ih { s with live := live } with ⟨events, hRest⟩
        exact ⟨_, (Run.single hStep).append hRest⟩

end Store

end Soteria

------------------------------------------------------------
-- Whole Requests as Runs
------------------------------------------------------------

namespace Soteria

namespace Store

open Transition (Run)

variable {cfg : Config}
variable {accepted : List Tree}

/- Without validation the pipeline ends after its copy. -/
theorem devMode_run
    (job : Job)
    (verdict : Verdict)
    (s : State)
    (hDev : cfg.devMode = true) :
    Run (Takes cfg) ⟨s, .validating job, accepted⟩
      [.validate verdict]
      ⟨closeApplied cfg job.kind s, .idle, accepted⟩ := by
  apply Run.single
  simp only [Takes, step, hDev, if_true]

/- A rejected pipeline rolls back before it ends. -/
theorem rejected_run
    (job : Job)
    {verdict : Verdict}
    {error : Text}
    {faults : Faults}
    {s : State}
    {rolledBack : Tree}
    {rollback : Option CopyError}
    (hDev : cfg.devMode = false)
    (hVerdict : verdict.error = some error)
    (hRollback :
      FileTree.copyExisting faults (s.backup job.backup)
        job.undo s.live = (rolledBack, rollback)) :
    ∃ events,
      Run (Takes cfg) ⟨s, .validating job, accepted⟩ events
        ⟨closeRejected job { s with live := rolledBack }, .idle,
          accepted⟩ := by
  have hStep :
      Takes cfg ⟨s, .validating job, accepted⟩
        (.validate verdict)
        ⟨(afterRollback job s job.undo).1,
          (afterRollback job s job.undo).2, accepted⟩ := by
    simp [Takes, step, hDev, hVerdict]
  rcases rollingBack_run cfg job faults job.undo s
      accepted with
    ⟨events, hRun⟩
  rw [copyLoop_restore, hRollback] at hRun
  exact ⟨_, (Run.single hStep).append hRun⟩

/- An accepted pipeline signals the server and ends. -/
theorem accepted_run
    (job : Job)
    {verdict : Verdict}
    (signalError : Option Text)
    (s : State)
    (accepted : List Tree)
    (hDev : cfg.devMode = false)
    (hVerdict : verdict.error = none) :
    Run (Takes cfg) ⟨s, .validating job, accepted⟩
      [.validate verdict, .apply signalError]
      ⟨(applyJob cfg job signalError s).2, .idle,
        s.live :: accepted⟩ := by
  have hStep :
      Takes cfg ⟨s, .validating job, accepted⟩
        (.validate verdict)
        ⟨s, .signalling job, s.live :: accepted⟩ := by
    simp [Takes, step, hDev, hVerdict]
  have hApply :
      Takes cfg ⟨s, .signalling job, s.live :: accepted⟩
        (.apply signalError)
        ⟨(applyJob cfg job signalError s).2, .idle,
          s.live :: accepted⟩ := rfl
  exact (Run.single hStep).tail hApply

/- The same for a commit, whose signal may fail. -/
theorem accepted_commit_run
    {job : Job}
    {verdict : Verdict}
    {session : Session}
    {s : State}
    {signalError : Option Text}
    {error : Option CommitError}
    {signal : Option (Signal × Option Text)}
    (accepted : List Tree)
    (hDev : cfg.devMode = false)
    (hVerdict : verdict.error = none)
    (hKind : job.kind = .commit)
    (hStaging : s.staging = some session)
    (hApply :
      applyCommit cfg session signalError = (error, signal)) :
    Run (Takes cfg) ⟨s, .validating job, accepted⟩
      [.validate verdict, .apply signalError]
      ⟨if error.isNone then closeApplied cfg .commit s else s,
        .idle, s.live :: accepted⟩ := by
  have hState :
      (applyJob cfg job signalError s).2 =
        if error.isNone then closeApplied cfg .commit s
        else s := by
    cases error <;>
      simp [applyJob, hKind, hStaging, hApply]
  rw [← hState]
  exact accepted_run job signalError s accepted hDev hVerdict

/- A commit from its request to the end of its copy loop. -/
theorem commit_copied_run
    {now : Nat}
    {input : CommitInput}
    {session : Session}
    {s s' : State}
    {live : Tree}
    {error : Option CopyError}
    (hStaging : s.staging = some session)
    (hChanged :
      changedFiles input.faults.diff s.live session.files ≠ [])
    (hSnapshot :
      snapshotLocked input.faults.snapshot now s = (none, s'))
    (hCopy :
      FileTree.copyAll input.faults.copy notExist
        session.files
        (changedFiles input.faults.diff s.live session.files)
        s'.live = (live, error)) :
    ∃ events,
      Run (Takes cfg) ⟨s, .idle, accepted⟩ events
        ⟨{ s' with live := live },
          if error.isNone then
            .validating ⟨.commit, session.files, now,
              changedFiles input.faults.diff s.live
                session.files⟩
          else .idle,
          accepted⟩ := by
  have hOpen :
      Takes cfg ⟨s, .idle, accepted⟩
        (.openCommit now input.faults.diff
          input.faults.snapshot)
        ⟨s', .afterCopy ⟨.commit, session.files, now,
            changedFiles input.faults.diff s.live session.files⟩
          (changedFiles input.faults.diff s.live session.files),
          accepted⟩ := by
    simp only [Takes, step, System.locked, openCommit, hStaging,
      if_neg hChanged, hSnapshot]
  rcases copying_run cfg
      ⟨.commit, session.files, now,
        changedFiles input.faults.diff s.live session.files⟩
      input.faults.copy
      (changedFiles input.faults.diff s.live session.files)
      s' accepted with
    ⟨events, hCopying⟩
  rw [copyLoop_commit, hCopy] at hCopying
  exact ⟨_, (Run.single hOpen).append hCopying⟩

/-
  `CommitStaging` as one call is a run of its steps with no
  other event in between.
-/
theorem commitStaging_run
    (cfg : Config)
    (now : Nat)
    (input : CommitInput)
    (s : State)
    (accepted : List Tree) :
    ∃ events accepted',
      Run (Takes cfg) ⟨s, .idle, accepted⟩ events
        ⟨(commitStaging cfg now input s).state, .idle,
          accepted'⟩ := by
  have hOpen :
      Takes cfg ⟨s, .idle, accepted⟩
        (.openCommit now input.faults.diff
          input.faults.snapshot)
        ⟨(openCommit now input.faults.diff
            input.faults.snapshot s).1,
          (openCommit now input.faults.diff
            input.faults.snapshot s).2, accepted⟩ := rfl
  have hResult := commitStaging_result cfg now input s
  generalize commitStaging cfg now input s = out at *
  cases hResult with
  | inactive => exact ⟨[], accepted, .refl _⟩
  | unchanged session hStaging hChanged =>
      simp only [openCommit, hStaging, hChanged, if_true]
        at hOpen
      exact ⟨_, accepted, .single hOpen⟩
  | backupFailed session error s' hStaging hChanged hSnapshot =>
      simp only [openCommit, hStaging, if_neg hChanged,
        hSnapshot] at hOpen
      exact ⟨_, accepted, .single hOpen⟩
  | copyFailed session s' live error hStaging hChanged
      hSnapshot hCopy =>
      rcases commit_copied_run hStaging hChanged hSnapshot
          hCopy with
        ⟨events, hCopied⟩
      exact ⟨events, accepted, hCopied⟩
  | devMode session s' live hStaging hChanged hSnapshot hCopy
      hDev =>
      rcases commit_copied_run hStaging hChanged hSnapshot
          hCopy with
        ⟨events, hCopied⟩
      exact ⟨_, accepted,
        hCopied.append (devMode_run _ input.verdict _ hDev)⟩
  | rejected session s' live rolledBack error rollback hStaging
      hChanged hSnapshot hCopy hDev hVerdict hRollback =>
      rcases commit_copied_run hStaging hChanged hSnapshot
          hCopy with
        ⟨events, hCopied⟩
      rcases rejected_run
          ⟨.commit, session.files, now,
            changedFiles input.faults.diff s.live
              session.files⟩
          (s := { s' with live := live }) hDev hVerdict
          hRollback with
        ⟨more, hRejected⟩
      exact ⟨_, accepted, hCopied.append hRejected⟩
  | applyFailed session s' live error signal hStaging hChanged
      hSnapshot hCopy hDev hVerdict hApply =>
      rcases commit_copied_run hStaging hChanged hSnapshot
          hCopy with
        ⟨events, hCopied⟩
      have hSession : s'.staging = some session := by
        rcases snapshotLocked_put hSnapshot with ⟨_, rfl⟩
        exact hStaging
      exact ⟨_, _,
        hCopied.append
          (accepted_commit_run (s := { s' with live := live })
            accepted hDev hVerdict rfl hSession hApply)⟩
  | committed session s' live signal hStaging hChanged
      hSnapshot hCopy hDev hVerdict hApply =>
      rcases commit_copied_run hStaging hChanged hSnapshot
          hCopy with
        ⟨events, hCopied⟩
      have hSession : s'.staging = some session := by
        rcases snapshotLocked_put hSnapshot with ⟨_, rfl⟩
        exact hStaging
      exact ⟨_, _,
        hCopied.append
          (accepted_commit_run (s := { s' with live := live })
            accepted hDev hVerdict rfl hSession hApply)⟩

/-
  The locked part of a restore as a run, from an event that
  opens it.
-/
theorem restoreFrom_run
    {now : Nat}
    {input : RestoreInput}
    {source : State → Tree}
    {files : List ManagedFile}
    {s : State}
    (event : Event)
    (hOpen :
      step cfg ⟨s, .idle, accepted⟩ event =
        some
          ⟨(openRestoreFrom now input.faults.snapshot source
              files s).1,
            (openRestoreFrom now input.faults.snapshot source
              files s).2, accepted⟩) :
    ∃ events accepted',
      Run (Takes cfg) ⟨s, .idle, accepted⟩ events
        ⟨(restoreFrom cfg now input source files s).state,
          .idle, accepted'⟩ := by
  have hCopied :
      ∀ s' live error,
        snapshotLocked input.faults.snapshot now s =
          (none, s') →
        FileTree.copyExisting input.faults.copy (source s')
          files s'.live = (live, error) →
        ∃ events,
          Run (Takes cfg) ⟨s, .idle, accepted⟩ events
            ⟨{ s' with live := live },
              if error.isNone then
                .validating
                  ⟨.restore, source s', now, managedFiles⟩
              else .idle,
              accepted⟩ := by
    intro s' live error hSnapshot hCopy
    simp only [openRestoreFrom, hSnapshot] at hOpen
    rcases copying_run cfg
        ⟨.restore, source s', now, managedFiles⟩
        input.faults.copy files s' accepted with
      ⟨events, hCopying⟩
    rw [copyLoop_restore, hCopy] at hCopying
    exact ⟨_, (Run.single hOpen).append hCopying⟩
  have hResult :=
    restoreFrom_result cfg now input source files s
  generalize restoreFrom cfg now input source files s = out at *
  cases hResult with
  | snapshotFailed error s' hSnapshot =>
      simp only [openRestoreFrom, hSnapshot] at hOpen
      exact ⟨_, accepted, .single hOpen⟩
  | copyFailed s' live error hSnapshot hCopy =>
      rcases hCopied s' live _ hSnapshot hCopy with
        ⟨events, hRun⟩
      exact ⟨events, accepted, hRun⟩
  | devMode s' live hSnapshot hCopy hDev =>
      rcases hCopied s' live _ hSnapshot hCopy with
        ⟨events, hRun⟩
      exact ⟨_, accepted,
        hRun.append (devMode_run _ input.verdict _ hDev)⟩
  | rejected s' live rolledBack error rollback hSnapshot hCopy
      hDev hVerdict hRollback =>
      rcases hCopied s' live _ hSnapshot hCopy with
        ⟨events, hRun⟩
      rcases rejected_run
          ⟨.restore, source s', now, managedFiles⟩
          (s := { s' with live := live }) hDev hVerdict
          hRollback with
        ⟨more, hRejected⟩
      exact ⟨_, accepted, hRun.append hRejected⟩
  | reloadFailed s' live error hSnapshot hCopy hDev hVerdict =>
      rcases hCopied s' live _ hSnapshot hCopy with
        ⟨events, hRun⟩
      have hAccepted :=
        accepted_run ⟨.restore, source s', now, managedFiles⟩
          (some error) { s' with live := live } accepted hDev
          hVerdict
      exact ⟨_, _, hRun.append hAccepted⟩
  | restored s' live hSnapshot hCopy hDev hVerdict =>
      rcases hCopied s' live _ hSnapshot hCopy with
        ⟨events, hRun⟩
      have hAccepted :=
        accepted_run ⟨.restore, source s', now, managedFiles⟩
          none { s' with live := live } accepted hDev hVerdict
      exact ⟨_, _, hRun.append hAccepted⟩

/- `Restore` as one call is a run of its steps. -/
theorem restore_run
    (cfg : Config)
    (now : Nat)
    (input : RestoreInput)
    (id : Nat)
    (files : List Text)
    (s : State)
    (accepted : List Tree) :
    ∃ events accepted',
      Run (Takes cfg) ⟨s, .idle, accepted⟩ events
        ⟨(restore cfg now input id files s).state, .idle,
          accepted'⟩ := by
  unfold restore
  split
  · exact ⟨[], accepted, .refl _⟩
  · split
    · exact ⟨[], accepted, .refl _⟩
    · split
      · exact ⟨[], accepted, .refl _⟩
      · rename_i hBackup
        apply restoreFrom_run
          (.openRestore now input.faults.snapshot id
            (if files = [] then managedFiles
              else files.filterMap (fileOfPath managedFiles)))
        simp only [step, System.locked, openRestore,
          if_neg hBackup]

/- `RestoreGolden` as one call is a run of its steps. -/
theorem restoreGolden_run
    (cfg : Config)
    (now : Nat)
    (input : RestoreInput)
    (s : State)
    (accepted : List Tree) :
    ∃ events accepted',
      Run (Takes cfg) ⟨s, .idle, accepted⟩ events
        ⟨(restoreGolden cfg now input s).state, .idle,
          accepted'⟩ := by
  unfold restoreGolden
  split
  · exact ⟨[], accepted, .refl _⟩
  · split
    · exact ⟨[], accepted, .refl _⟩
    · rename_i golden hGolden
      apply restoreFrom_run
        (.openGolden now input.faults.snapshot)
      simp only [step, System.locked, openGolden, hGolden]

end Store

end Soteria
