import Soteria.Store.BackupHistory

/-
  Undoing a commit by restoring the backup it made.

  The backup of a commit holds the live files of the moment
  before it. Copying it back rewrites those, and leaves a
  file the commit created where it is.

  Main declarations:
    * `copiedLive`, `commit_succeeded_state`
    * `restore_live`
    * `restore_undoes_commit_iff`
-/

------------------------------------------------------------
-- What a Commit Leaves
------------------------------------------------------------

namespace Soteria

namespace Store

variable {cfg : Config}
variable {now : Nat}
variable {s : State}

/- The live files once the changed ones are copied. -/
def copiedLive (live staged : Tree) : Tree :=
  fun file =>
    if file ∈ changedFiles .none live staged then staged file
    else live file

/- A snapshot and copy loop of a commit without failures. -/
theorem commit_copied
    {input : CommitInput}
    {session : Session}
    {s' : State}
    {live : Tree}
    (hCovered : Covered s)
    (hFaults : input.faults = .none)
    (hSnapshot :
      snapshotLocked input.faults.snapshot now s = (none, s'))
    (hCopy :
      FileTree.copyAll input.faults.copy notExist
        session.files
        (changedFiles input.faults.diff s.live session.files)
        s'.live = (live, none)) :
    s' = { s with backups := s.backups.put now s.live } ∧
      live = copiedLive s.live session.files := by
  rw [hCovered.snapshot_eq hSnapshot] at hCopy ⊢
  rw [hFaults] at hCopy
  exact ⟨rfl, funext (FileTree.copyAll_of_ok hCopy)⟩

/-
  The state a commit without failures leaves, if it changed
  a file.
-/
theorem commit_succeeded_state
    {input : CommitInput}
    (hCovered : Covered s)
    (hFaults : input.faults = .none)
    (hCommit : (commitStaging cfg now input s).error = none)
    (hChanged :
      (commitStaging cfg now input s).state.live ≠ s.live) :
    ∃ session, s.staging = some session ∧
      (commitStaging cfg now input s).state =
        pruneBackupsLocked cfg
          { s with
            live := copiedLive s.live session.files
            staging := none
            backups := s.backups.put now s.live } := by
  have hResult := commitStaging_result cfg now input s
  generalize commitStaging cfg now input s = out at *
  cases hResult with
  | unchanged => exact (hChanged rfl).elim
  | devMode session s' live hStaging _ hSnapshot hCopy =>
      rcases commit_copied hCovered hFaults hSnapshot hCopy with
        ⟨rfl, rfl⟩
      exact ⟨session, hStaging, rfl⟩
  | committed session s' live _ hStaging _ hSnapshot hCopy =>
      rcases commit_copied hCovered hFaults hSnapshot hCopy with
        ⟨rfl, rfl⟩
      exact ⟨session, hStaging, rfl⟩
  | _ => cases hCommit

end Store

end Soteria

------------------------------------------------------------
-- Restoring a Backup
------------------------------------------------------------

namespace Soteria

namespace Store

/-
  A restore of a whole backup in a later second, when
  nothing fails and the validator accepts: every file the
  backup has is live with its content, the others stay.
-/
theorem restore_live
    (cfg : Config)
    {later id : Nat}
    {input : RestoreInput}
    {s : State}
    {files : Tree}
    (hSession : s.staging = none)
    (hBackup : s.backups.get? id = some files)
    (hLater : id ≠ later)
    (hFaults : input.faults = .none)
    (hVerdict : input.verdict.error = none)
    (hSignal : input.signalError = none) :
    (restore cfg later input id [] s).error = none ∧
      ∀ file,
        (restore cfg later input id [] s).state.live file =
          (files file).or (s.live file) := by
  have hSource :
      ∀ saved,
        State.backup
          { s with backups := s.backups.put later saved }
          id = files := by
    intro saved
    unfold State.backup
    rw [Archive.get?_put_of_ne _ _ hLater, hBackup]
    rfl
  have hRestore :
      restore cfg later input id [] s =
        restoreFrom cfg later input (fun s => s.backup id)
          managedFiles s := by
    simp [restore, State.stagingActive, hSession, hBackup]
  rw [hRestore]
  unfold restoreFrom
  rw [hFaults]
  simp only [RestoreFaults.none, snapshotLocked_none, hSource,
    FileTree.copyExisting_none, mem_managedFiles, if_true,
    hVerdict, hSignal]
  split
  · exact ⟨rfl, fun _ => rfl⟩
  · exact ⟨rfl, fun _ => rfl⟩

end Store

end Soteria

------------------------------------------------------------
-- Restoring the Newest Backup
------------------------------------------------------------

namespace Soteria

namespace Store

/-
  Restoring the backup a commit made undoes the commit
  exactly when the commit created no file.
-/
theorem restore_undoes_commit_iff
    (cfg : Config)
    (t : Timed)
    (now later : Nat)
    (commit : CommitInput)
    (input : RestoreInput)
    (hReachable : Reachable cfg t)
    (hNow : t.clock ≤ now)
    (hCommitFaults : commit.faults = .none)
    (hCommit :
      (commitStaging cfg now commit t.store).error = none)
    (hChanged :
      (commitStaging cfg now commit t.store).state.live ≠
        t.store.live)
    (hLater : now < later)
    (hFaults : input.faults = .none)
    (hVerdict : input.verdict.error = none)
    (hSignal : input.signalError = none) :
    ((restore cfg later input now []
          (commitStaging cfg now commit t.store).state).error =
        none ∧
      (restore cfg later input now []
          (commitStaging cfg now commit t.store).state
        ).state.live = t.store.live) ↔
      CreatesNoFile t.store := by
  rcases commit_succeeded_state hReachable.covered
      hCommitFaults hCommit hChanged with
    ⟨session, hStaging, hState⟩
  have hNewest : StampsUpTo now t.store := by
    intro e he
    exact Nat.le_trans (hReachable.stamps e he) hNow
  have hBackup :
      (pruneBackupsLocked cfg
        { t.store with
          live := copiedLive t.store.live session.files
          staging := none
          backups := t.store.backups.put now t.store.live
        }).backups.get? now = some t.store.live :=
    Archive.get?_prune_newest (retention_pos cfg _)
      (Archive.get?_put_self ..) hNewest.put
  rw [hState]
  rcases restore_live cfg rfl hBackup
      (Nat.ne_of_lt hLater) hFaults hVerdict hSignal with
    ⟨hError, hLive⟩
  rw [createsNoFile_iff hStaging]
  constructor
  · rintro ⟨_, hSame⟩ file hFile hNone
    rcases mem_changedFiles.mp hFile with
      ⟨content, hStaged, _⟩
    have hAfter := hLive file
    rw [hSame, hNone] at hAfter
    simp [pruneBackupsLocked, copiedLive, hFile, hStaged] at hAfter
  · intro hExist
    refine ⟨hError, funext fun file => ?_⟩
    rw [hLive file]
    cases hFile : t.store.live file with
    | some content => rfl
    | none =>
        have hKept :
            file ∉ changedFiles .none t.store.live
              session.files :=
          fun hMember => hExist file hMember hFile
        simp [pruneBackupsLocked, copiedLive, hKept, hFile]

/- A restore that meets no failure. -/
def cleanRestore : RestoreInput where
  faults := .none
  verdict := ⟨"", none⟩
  signalError := none

/- The second commit of overrides, once its session ends. -/
def recommittedStore : State :=
  (commitStaging plainConfig 2 acceptedInput
    recommitStore).state

theorem restore_undoes_recommit :
    ((restore plainConfig 3 cleanRestore 2 []
          recommittedStore).error = none ∧
      (restore plainConfig 3 cleanRestore 2 []
          recommittedStore).state.live = recommitStore.live) ↔
      CreatesNoFile recommitStore := by
  have hChanged :
      recommittedStore.live ≠ recommitStore.live := by
    intro hSame
    have hFile := congrFun hSame .overrides
    exact absurd hFile (by decide)
  exact restore_undoes_commit_iff plainConfig
    ⟨recommitStore, 1⟩ 2 3 acceptedInput cleanRestore
    recommitStore_reachable (Nat.le_succ 1) rfl rfl hChanged
    (Nat.lt_succ_self 2) rfl rfl rfl

/- The file the first commit created outlives its undoing. -/
theorem restore_keeps_created_overrides :
    Reachable plainConfig ⟨overrideStore, 1⟩ ∧
      (commitStaging plainConfig 1 acceptedInput
        overrideStore).error = none ∧
      (restore plainConfig 2 cleanRestore 1 []
        (commitStaging plainConfig 1 acceptedInput
          overrideStore).state).error = none ∧
      overrideStore.live .overrides = none ∧
      (restore plainConfig 2 cleanRestore 1 []
        (commitStaging plainConfig 1 acceptedInput
          overrideStore).state).state.live .overrides =
        some "TACACS_DEBUG=1" :=
  ⟨overrideStore_reachable, rfl, rfl, rfl, rfl⟩

end Store

end Soteria
