import Soteria.Store.Operations

/-
  What a failed commit leaves in the live config.

  Rolling back writes the snapshot's files over the live
  ones. A file the commit created is in no snapshot and
  stays, and a copy loop that stops early is not rolled back
  at all.

  Main declarations:
    * `CreatesNoFile`
    * `commit_rejected_state`
    * `commit_rejected_noop_iff`
    * `FailsFirst`
    * `commit_copyFailed_noop_iff`
-/

------------------------------------------------------------
-- Which Files a Commit Changes
------------------------------------------------------------

namespace Soteria

namespace Store

/-
  Every staged file with a content is a live file already, so
  committing the session would create none.
-/
def CreatesNoFile (s : State) : Prop :=
  ∀ session, s.staging = some session →
    ∀ file content, session.files file = some content →
      content ≠ [] → s.live file ≠ none

theorem mem_changedFiles
    {live staged : Tree}
    {file : ManagedFile} :
    file ∈ changedFiles .none live staged ↔
      ∃ content, staged file = some content ∧
        content ≠ (live file).getD [] := by
  cases hStaged : staged file with
  | none =>
      simp [changedFiles, hStaged]
  | some content =>
      simp [changedFiles, hStaged, mem_entityFiles,
        DiffFaults.none]

theorem ne_live_of_mem_changedFiles
    {live staged : Tree}
    {file : ManagedFile}
    (hFile : file ∈ changedFiles .none live staged) :
    ∃ content, staged file = some content ∧
      live file ≠ some content := by
  rcases mem_changedFiles.mp hFile with
    ⟨content, hStaged, hNe⟩
  refine ⟨content, hStaged, ?_⟩
  intro hLive
  rw [hLive] at hNe
  exact hNe rfl

theorem createsNoFile_iff
    {s : State}
    {session : Session}
    (hStaging : s.staging = some session) :
    CreatesNoFile s ↔
      ∀ file ∈ changedFiles .none s.live session.files,
        s.live file ≠ none := by
  constructor
  · intro hCreates file hFile hNone
    rcases mem_changedFiles.mp hFile with
      ⟨content, hStaged, hNe⟩
    rw [hNone] at hNe
    exact hCreates session hStaging file content hStaged hNe
      hNone
  · rintro hExist other hOther file content hStaged hNe hNone
    rw [hStaging] at hOther
    cases hOther
    refine hExist file ?_ hNone
    rw [mem_changedFiles]
    refine ⟨content, hStaged, ?_⟩
    rw [hNone]
    exact hNe

/- A file a commit does not find changed stays as it is. -/
theorem commit_live_kept
    {cfg : Config}
    {now : Nat}
    {input : CommitInput}
    {s : State}
    {file : ManagedFile}
    (hKept : ∀ session, s.staging = some session →
      file ∉ changedFiles input.faults.diff s.live
        session.files) :
    (commitStaging cfg now input s).state.live file =
      s.live file := by
  have hCopied :
      ∀ {session : Session} {s' : State} {live : Tree} {error},
        s.staging = some session →
        snapshotLocked input.faults.snapshot now s =
          (none, s') →
        FileTree.copyAll input.faults.copy notExist
            session.files
            (changedFiles input.faults.diff s.live
              session.files)
            s'.live = (live, error) →
        live file = s.live file := by
    intro session s' live error hStaging hSnapshot hCopy
    have hSame :=
      snapshotLocked_live input.faults.snapshot now s
    rw [hSnapshot] at hSame
    rcases FileTree.copyAll_apply_cases input.faults.copy
        notExist session.files
        (changedFiles input.faults.diff s.live session.files)
        s'.live file with
      hLive | ⟨hChanged, _⟩
    · rw [hCopy] at hLive
      exact hLive.trans (congrFun hSame file)
    · exact (hKept session hStaging hChanged).elim
  have hResult := commitStaging_result cfg now input s
  generalize commitStaging cfg now input s = out at *
  cases hResult with
  | inactive => rfl
  | unchanged => rfl
  | backupFailed _ _ _ _ _ hSnapshot =>
      have hSame :=
        snapshotLocked_live input.faults.snapshot now s
      rw [hSnapshot] at hSame
      exact congrFun hSame file
  | copyFailed _ _ _ _ hStaging _ hSnapshot hCopy =>
      exact hCopied hStaging hSnapshot hCopy
  | devMode _ _ _ hStaging _ hSnapshot hCopy =>
      exact hCopied hStaging hSnapshot hCopy
  | applyFailed _ _ _ _ _ hStaging _ hSnapshot hCopy =>
      exact hCopied hStaging hSnapshot hCopy
  | committed _ _ _ _ hStaging _ hSnapshot hCopy =>
      exact hCopied hStaging hSnapshot hCopy
  | rejected session s' live rolledBack _ _ hStaging _
      hSnapshot hCopy _ _ hRollback =>
      have hLive := hCopied hStaging hSnapshot hCopy
      have hRolled :
          rolledBack file = live file := by
        have hApply :
            (FileTree.copyExisting input.faults.rollback
              (s'.backup now)
              (changedFiles input.faults.diff s.live
                session.files) live).1 file = live file :=
          FileTree.copyExisting_of_not_mem
            (hKept session hStaging)
        rw [hRollback] at hApply
        exact hApply
      exact hRolled.trans hLive

/-
  After a commit without an error a file is as it was, or as
  a read of the session found it.
-/
theorem commit_live_succeeded
    {cfg : Config}
    {now : Nat}
    {input : CommitInput}
    {s : State}
    (hOk : (commitStaging cfg now input s).error = none)
    (file : ManagedFile) :
    (commitStaging cfg now input s).state.live file =
        s.live file ∨
      (commitStaging cfg now input s).state.live file =
        s.effective file := by
  have hCopied :
      ∀ {session : Session} {s' : State} {live : Tree},
        s.staging = some session →
        snapshotLocked input.faults.snapshot now s =
          (none, s') →
        FileTree.copyAll input.faults.copy notExist
            session.files
            (changedFiles input.faults.diff s.live
              session.files)
            s'.live = (live, none) →
        live file = s.live file ∨
          live file = s.effective file := by
    intro session s' live hStaging hSnapshot hCopy
    have hSame :=
      snapshotLocked_live input.faults.snapshot now s
    rw [hSnapshot] at hSame
    have hLive := FileTree.copyAll_of_ok hCopy file
    by_cases hChanged :
        file ∈ changedFiles input.faults.diff s.live
          session.files
    · rw [if_pos hChanged] at hLive
      right
      rcases Option.ne_none_iff_exists'.mp
          (staged_of_mem_changedFiles hChanged) with
        ⟨content, hContent⟩
      rw [hLive]
      simp [State.effective, hStaging, hContent]
    · rw [if_neg hChanged, hSame] at hLive
      exact Or.inl hLive
  have hResult := commitStaging_result cfg now input s
  generalize commitStaging cfg now input s = out at *
  cases hResult with
  | unchanged => exact Or.inl rfl
  | devMode _ _ _ hStaging _ hSnapshot hCopy =>
      exact hCopied hStaging hSnapshot hCopy
  | committed _ _ _ _ hStaging _ hSnapshot hCopy =>
      exact hCopied hStaging hSnapshot hCopy
  | rejected _ _ _ _ _ rollback =>
      cases rollback <;> cases hOk
  | _ => cases hOk

/- Applying an accepted commit is never a rejection. -/
theorem applyCommit_error
    {cfg : Config}
    {session : Session}
    {signalError : Option Text}
    {error : CommitError}
    {signal : Option (Signal × Option Text)}
    (hApply :
      applyCommit cfg session signalError =
        (some error, signal)) :
    (∀ message, error ≠ .rejected message) ∧
      ∀ fault, error ≠ .copy fault := by
  unfold applyCommit at hApply
  split at hApply
  · split at hApply
    · cases hApply
      simp
    · cases signalError <;> simp at hApply
      rcases hApply with ⟨rfl, _⟩
      simp
  · cases signalError <;> simp at hApply
    rcases hApply with ⟨rfl, _⟩
    simp

end Store

end Soteria

------------------------------------------------------------
-- Rejected Commits
------------------------------------------------------------

namespace Soteria

namespace Store

variable {cfg : Config}
variable {now : Nat}
variable {input : CommitInput}
variable {s : State}

/-
  The state a rejection leaves: a changed file has the
  content of the backup, or the staged one where the backup
  has none; the session stays as it was.
-/
theorem commit_rejected_state
    {message : Text}
    (hFaults : input.faults = .none)
    (hRejected :
      (commitStaging cfg now input s).error =
        some (.rejected message)) :
    ∃ session, s.staging = some session ∧
      (commitStaging cfg now input s).state.staging =
        s.staging ∧
      ∀ file,
        (commitStaging cfg now input s).state.live file =
          if file ∈ changedFiles .none s.live session.files
          then ((s.live file).or (s.backup now file)).or
            (session.files file)
          else s.live file := by
  have hResult := commitStaging_result cfg now input s
  generalize commitStaging cfg now input s = out at *
  cases hResult with
  | rejected session s' live rolledBack error rollback
      hStaging _ hSnapshot hCopy _ _ hRollback =>
      rw [hFaults] at hSnapshot hCopy hRollback
      simp only [CommitFaults.none] at hSnapshot hCopy hRollback
      rw [snapshotLocked_none] at hSnapshot
      cases hSnapshot
      rw [FileTree.copyExisting_none] at hRollback
      cases hRollback
      refine ⟨session, hStaging, rfl, ?_⟩
      intro file
      have hLive := FileTree.copyAll_of_ok hCopy file
      simp only [State.backup, Archive.get?_put_self,
        Option.getD_some]
      by_cases hFile :
          file ∈ changedFiles .none s.live session.files
      · simp only [hFile, if_true] at hLive ⊢
        rw [hLive]
      · simp only [hFile, if_false] at hLive ⊢
        exact hLive
  | applyFailed _ _ _ _ _ _ _ _ _ _ _ hApply =>
      exact ((applyCommit_error hApply).1 _
        (Option.some.inj hRejected)).elim
  | _ => cases hRejected

/-
  A rejected commit leaves the live config and the session
  alone exactly when committing would create no file.
-/
theorem commit_rejected_noop_iff
    (cfg : Config)
    (now : Nat)
    (input : CommitInput)
    (s : State)
    (message : Text)
    (hFaults : input.faults = .none)
    (hRejected :
      (commitStaging cfg now input s).error =
        some (.rejected message)) :
    ((commitStaging cfg now input s).state.live = s.live ∧
      (commitStaging cfg now input s).state.staging =
        s.staging) ↔
      CreatesNoFile s := by
  rcases commit_rejected_state hFaults hRejected with
    ⟨session, hStaging, hKept, hLive⟩
  rw [createsNoFile_iff hStaging]
  constructor
  · rintro ⟨hSame, _⟩ file hFile hNone
    rcases mem_changedFiles.mp hFile with
      ⟨content, hStaged, _⟩
    have hAfter := hLive file
    rw [hSame, if_pos hFile, hNone, hStaged] at hAfter
    cases hBackup : s.backup now file with
    | none => simp [hBackup] at hAfter
    | some old => simp [hBackup] at hAfter
  · intro hExist
    refine ⟨funext fun file => ?_, hKept⟩
    rw [hLive file]
    split
    · rename_i hFile
      rcases Option.ne_none_iff_exists'.mp
          (hExist file hFile) with
        ⟨content, hContent⟩
      simp [hContent]
    · rfl

/- An agent with a config that still has no override file. -/
def plainConfig : Config where
  devMode := false
  defaultRetain := 5
  restarter := true

def plainStore : State where
  live := FileTree.empty.set .main "id = spawnd { }"
  staging := none
  backups := .empty
  golden := none
  retain := none

/- The same with an edit session that adds overrides. -/
def overrideSession : Session where
  files :=
    (plainStore.live).set .overrides "TACACS_DEBUG=1"
  needsRestart := false

def overrideStore : State :=
  { plainStore with staging := some overrideSession }

theorem plainStore_fresh : Fresh plainStore :=
  ⟨rfl, rfl, rfl⟩

theorem overrideStore_reachable :
    Reachable plainConfig ⟨overrideStore, 1⟩ := by
  have hStart : Reachable plainConfig ⟨plainStore, 1⟩ :=
    ⟨_, [], plainStore_fresh, .refl _⟩
  have hBegin := hStart.apply (Nat.le_refl 1) (.begin .none)
  have hLive : plainStore.live .main ≠ none := by
    simp [plainStore]
  simp only [apply, beginStaging_none rfl hLive] at hBegin
  exact hBegin.apply (Nat.le_refl 1)
    (.write none "agent-overrides.env" "TACACS_DEBUG=1")

/- A commit that meets no failure but a rejection. -/
def rejectedInput : CommitInput where
  faults := .none
  verdict := ⟨"", some "syntax error"⟩
  signalError := none

theorem commit_rejected_noop_unchanged :
    ((commitStaging plainConfig 1 rejectedInput
        { overrideStore with
          live := overrideStore.live.set .overrides "A=1"
        }).state.live =
        overrideStore.live.set .overrides "A=1" ∧
      (commitStaging plainConfig 1 rejectedInput
        { overrideStore with
          live := overrideStore.live.set .overrides "A=1"
        }).state.staging = overrideStore.staging) ↔
      CreatesNoFile
        { overrideStore with
          live := overrideStore.live.set .overrides "A=1" } :=
  commit_rejected_noop_iff plainConfig 1 rejectedInput _
    "syntax error" rfl rfl

/- The file a rejected commit created is live afterwards. -/
theorem rejected_commit_leaves_overrides :
    Reachable plainConfig ⟨overrideStore, 1⟩ ∧
      rejectedInput.faults = .none ∧
      (commitStaging plainConfig 1 rejectedInput
        overrideStore).error =
          some (.rejected "syntax error") ∧
      overrideStore.live .overrides = none ∧
      (commitStaging plainConfig 1 rejectedInput
        overrideStore).state.live .overrides =
          some "TACACS_DEBUG=1" :=
  ⟨overrideStore_reachable, rfl, rfl, rfl, rfl⟩

end Store

end Soteria

------------------------------------------------------------
-- Commits That Fail While Copying
------------------------------------------------------------

namespace Soteria

namespace Store

variable {cfg : Config}
variable {now : Nat}
variable {input : CommitInput}
variable {s : State}

/-
  Reading or writing the first changed file of the session
  fails.
-/
def FailsFirst (faults : Faults) (s : State) : Prop :=
  ∀ session, s.staging = some session →
    ∀ file ∈ (changedFiles .none s.live session.files).head?,
      faults.read file ≠ none ∨ faults.write file ≠ none

/-
  A copy loop that stops left the target alone, or wrote the
  first of its files before it stopped.
-/
theorem copyAll_first
    {faults : Faults}
    {source target result : Tree}
    {file : ManagedFile}
    {rest : List ManagedFile}
    {content : Text}
    {error : CopyError}
    (hSource : source file = some content)
    (hCopy :
      FileTree.copyAll faults notExist source (file :: rest)
        target = (result, some error)) :
    ((faults.read file ≠ none ∨ faults.write file ≠ none) ∧
        result = target) ∨
      (faults.read file = none ∧ faults.write file = none ∧
        result file = some content) := by
  unfold FileTree.copyAll at hCopy
  rw [hSource] at hCopy
  cases hRead : faults.read file with
  | some fault =>
      rw [hRead] at hCopy
      cases hCopy
      exact Or.inl ⟨Or.inl (by simp), rfl⟩
  | none =>
      rw [hRead] at hCopy
      cases hWrite : faults.write file with
      | some fault =>
          rw [hWrite] at hCopy
          cases hCopy
          exact Or.inl ⟨Or.inr (by simp), rfl⟩
      | none =>
          rw [hWrite] at hCopy
          refine Or.inr ⟨rfl, rfl, ?_⟩
          have hRest :
              FileTree.copyAll faults notExist source rest
                (target.set file content) =
                  (result, some error) := hCopy
          rcases FileTree.copyAll_apply_cases faults notExist
              source rest (target.set file content) file with
            hKept | ⟨_, hCopied, _⟩
          · rw [hRest] at hKept
            exact hKept.trans (FileTree.set_self ..)
          · rw [hRest] at hCopied
            exact hCopied.trans hSource

/-
  A commit that stops while copying leaves the live config
  alone exactly when it stops on the first changed file.
-/
theorem commit_copyFailed_noop_iff
    (cfg : Config)
    (now : Nat)
    (input : CommitInput)
    (s : State)
    (error : CopyError)
    (hDiff : input.faults.diff = .none)
    (hFailed :
      (commitStaging cfg now input s).error =
        some (.copy error)) :
    (commitStaging cfg now input s).state.live = s.live ↔
      FailsFirst input.faults.copy s := by
  have hResult := commitStaging_result cfg now input s
  generalize commitStaging cfg now input s = out at *
  cases hResult with
  | copyFailed session s' live _ hStaging _ hSnapshot hCopy =>
      have hLive : s'.live = s.live := by
        have hSame :=
          snapshotLocked_live input.faults.snapshot now s
        rwa [hSnapshot] at hSame
      rw [hDiff, hLive] at hCopy
      cases hChanged :
          changedFiles .none s.live session.files with
      | nil =>
          rw [hChanged] at hCopy
          cases hCopy
      | cons file rest =>
          have hFile :
              file ∈ changedFiles .none s.live
                session.files := by
            rw [hChanged]
            exact List.mem_cons_self ..
          rcases ne_live_of_mem_changedFiles hFile with
            ⟨content, hStaged, hNe⟩
          have hFirst :
              FailsFirst input.faults.copy s ↔
                (input.faults.copy.read file ≠ none ∨
                  input.faults.copy.write file ≠ none) := by
            unfold FailsFirst
            simp [hStaging, hChanged]
          rw [hFirst]
          rw [hChanged] at hCopy
          rcases copyAll_first hStaged hCopy with
            ⟨hFault, hSame⟩ | ⟨hRead, hWrite, hWritten⟩
          · exact ⟨fun _ => hFault, fun _ => hSame⟩
          · constructor
            · intro hSame
              have hAt : live = s.live := hSame
              rw [hAt] at hWritten
              exact (hNe hWritten).elim
            · rintro (hFault | hFault)
              · exact (hFault hRead).elim
              · exact (hFault hWrite).elim
  | rejected _ _ _ _ _ rollback =>
      cases rollback <;> cases hFailed
  | applyFailed _ _ _ _ _ _ _ _ _ _ _ hApply =>
      exact ((applyCommit_error hApply).2 _
        (Option.some.inj hFailed)).elim
  | _ => cases hFailed

/- Writing the override file fails, and nothing else. -/
def overrideFault : CommitInput where
  faults :=
    { CommitFaults.none with
      copy :=
        { read := fun _ => none
          write := fun file =>
            if file = .overrides then
              some "no space left on device"
            else none } }
  verdict := ⟨"", none⟩
  signalError := none

theorem commit_copyFailed_noop_first :
    (commitStaging plainConfig 1 overrideFault
      overrideStore).state.live = overrideStore.live ↔
        FailsFirst overrideFault.faults.copy
          overrideStore :=
  commit_copyFailed_noop_iff plainConfig 1 overrideFault
    overrideStore
    (.write .overrides "no space left on device") rfl rfl

/- The session also edits the users file. -/
def twoFileStore : State :=
  { plainStore with
    staging := some
      ⟨overrideSession.files.set .users "user = demo",
        false⟩ }

theorem twoFileStore_reachable :
    Reachable plainConfig ⟨twoFileStore, 1⟩ :=
  overrideStore_reachable.apply (Nat.le_refl 1)
    (.write none "conf.d/05-local-users.cfg" "user = demo")

/- Its users file is live after the failing commit. -/
theorem failed_commit_applies_users :
    Reachable plainConfig ⟨twoFileStore, 1⟩ ∧
      (commitStaging plainConfig 1 overrideFault
        twoFileStore).error =
          some (.copy
            (.write .overrides "no space left on device")) ∧
      twoFileStore.live .users = none ∧
      (commitStaging plainConfig 1 overrideFault
        twoFileStore).state.live .users =
          some "user = demo" :=
  ⟨twoFileStore_reachable, rfl, rfl, rfl⟩

end Store

end Soteria
