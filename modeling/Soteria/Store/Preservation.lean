import Soteria.Store.BackupHistory

/-
  Which contents survive a commit.

  A commit overwrites live files only after its snapshot
  holds them, so an early end keeps their contents in that
  backup. Two ends lose it: a rejection deletes it, also
  when copying it back has failed, and pruning drops it when
  the clock has gone back behind enough later backups.

  Main declarations:
    * `Available`, `HeldIn`
    * `CopiesAll`, `AtRisk`, `CommitKeeps`
    * `commit_keeps_contents_iff`
-/

------------------------------------------------------------
-- Contents at Risk
------------------------------------------------------------

namespace Soteria

namespace Store

/- A backup whose id has the property holds the content. -/
def HeldIn
    (backups : Archive Tree)
    (ids : Nat → Prop)
    (file : ManagedFile)
    (content : Text) : Prop :=
  ∃ id files, ids id ∧ backups.get? id = some files ∧
    files file = some content

/- A content is live, or in a backup directory. -/
def Available
    (s : State)
    (file : ManagedFile)
    (content : Text) : Prop :=
  s.live file = some content ∨
    HeldIn s.backups (fun _ => True) file content

/- No operation of the snapshot and of the copy loop fails. -/
structure CopiesAll
    (input : CommitInput)
    (s : State)
    (session : Session) : Prop where
  changed :
    changedFiles input.faults.diff s.live session.files ≠ []
  mkdir : input.faults.snapshot.mkdir = none
  saved : ∀ file ∈ managedFiles,
    input.faults.snapshot.copy.read file = none ∧
      (s.live file = none ∨
        input.faults.snapshot.copy.write file = none)
  copied : ∀ file ∈
      changedFiles input.faults.diff s.live session.files,
    input.faults.copy.read file = none ∧
      input.faults.copy.write file = none

/- The commit overwrites the content of a live file. -/
def AtRisk
    (input : CommitInput)
    (s : State)
    (session : Session)
    (file : ManagedFile)
    (content : Text) : Prop :=
  file ∈ changedFiles input.faults.diff s.live
      session.files ∧
    s.live file = some content ∧
    session.files file ≠ some content

/- The server can be told to load an accepted commit. -/
def Applies
    (cfg : Config)
    (input : CommitInput)
    (session : Session) : Prop :=
  (session.needsRestart = true → cfg.restarter = true) ∧
    input.signalError = none

/-
  A rejected commit loses no content where its rollback gets
  through the file, or the backup of another second has the
  content.
-/
def RejectionKeeps
    (now : Nat)
    (input : CommitInput)
    (s : State)
    (session : Session) : Prop :=
  ∀ file content, AtRisk input s session file content →
    file ∈ FileTree.passed input.faults.rollback s.live
        (changedFiles input.faults.diff s.live
          session.files) ∨
      HeldIn s.backups (fun id => id ≠ now) file content

/-
  A successful commit loses no content where its own backup
  is not pruned, or one of the newest has the content.
-/
def PruningKeeps
    (cfg : Config)
    (now : Nat)
    (input : CommitInput)
    (s : State)
    (session : Session) : Prop :=
  s.backups.newer now < retention cfg s ∨
    ∀ file content, AtRisk input s session file content →
      HeldIn s.backups
        (fun id => s.backups.newer id < retention cfg s)
        file content

/- The two ends of a commit that could lose a content. -/
def CommitKeeps
    (cfg : Config)
    (now : Nat)
    (input : CommitInput)
    (s : State) : Prop :=
  ∀ session, s.staging = some session →
    CopiesAll input s session →
      (cfg.devMode = false → input.verdict.error ≠ none →
        RejectionKeeps now input s session) ∧
      (cfg.devMode = true ∨
          input.verdict.error = none ∧
            Applies cfg input session →
        PruningKeeps cfg now input s session)

variable {cfg : Config}
variable {now : Nat}
variable {input : CommitInput}
variable {s : State}
variable {session : Session}

/- Going through both loops, from what they report. -/
theorem copiesAll_iff (now : Nat) :
    CopiesAll input s session ↔
      changedFiles input.faults.diff s.live session.files ≠
          [] ∧
        (snapshotLocked input.faults.snapshot now s).1 =
          none ∧
        (FileTree.copyAll input.faults.copy notExist
          session.files
          (changedFiles input.faults.diff s.live
            session.files) s.live).2 = none := by
  have hSaved :
      (snapshotLocked input.faults.snapshot now s).1 = none ↔
        input.faults.snapshot.mkdir = none ∧
          ∀ file ∈ managedFiles,
            input.faults.snapshot.copy.read file = none ∧
              (s.live file = none ∨
                input.faults.snapshot.copy.write file =
                  none) := by
    rw [← FileTree.copyExisting_ok_iff _ _ _ (s.backup now)]
    unfold snapshotLocked
    cases input.faults.snapshot.mkdir with
    | some error => simp
    | none => simp [Option.map_eq_none_iff]
  rw [hSaved, FileTree.copyAll_ok_iff]
  constructor
  · rintro ⟨hChanged, hMkdir, hLive, hCopied⟩
    refine ⟨hChanged, ⟨hMkdir, hLive⟩, ?_⟩
    intro file hFile
    rcases hCopied file hFile with ⟨hRead, hWrite⟩
    exact ⟨hRead, staged_of_mem_changedFiles hFile, hWrite⟩
  · rintro ⟨hChanged, ⟨hMkdir, hLive⟩, hCopied⟩
    refine ⟨hChanged, hMkdir, hLive, ?_⟩
    intro file hFile
    rcases hCopied file hFile with ⟨hRead, _, hWrite⟩
    exact ⟨hRead, hWrite⟩

/- An accepted commit is applied without an error. -/
theorem applies_iff
    (cfg : Config)
    (input : CommitInput)
    (session : Session) :
    Applies cfg input session ↔
      (applyCommit cfg session input.signalError).1 =
        none := by
  unfold Applies applyCommit
  cases session.needsRestart <;> cases cfg.restarter <;>
    simp

end Store

end Soteria

------------------------------------------------------------
-- The Contents a Commit Keeps
------------------------------------------------------------

namespace Soteria

namespace Store

variable {cfg : Config}
variable {now : Nat}
variable {input : CommitInput}
variable {s : State}
variable {session : Session}

/- Every content that was live is still available. -/
def ContentsKept (s after : State) : Prop :=
  ∀ file content, s.live file = some content →
    Available after file content

theorem contentsKept_of_live
    {after : State}
    (hLive : after.live = s.live) :
    ContentsKept s after := by
  intro file content hContent
  rw [← hLive] at hContent
  exact Or.inl hContent

/- As long as its backup is there, a commit loses nothing. -/
theorem contentsKept_of_backup
    {after : State}
    (hBackups :
      after.backups = s.backups.put now s.live) :
    ContentsKept s after := by
  intro file content hContent
  refine Or.inr ⟨now, s.live, trivial, ?_, hContent⟩
  rw [hBackups]
  exact Archive.get?_put_self ..

/- The files once both loops of a commit went through. -/
theorem commit_copied_live
    {s' : State}
    {live : Tree}
    (hCovered : Covered s)
    (hSnapshot :
      snapshotLocked input.faults.snapshot now s = (none, s'))
    (hCopy :
      FileTree.copyAll input.faults.copy notExist
        session.files
        (changedFiles input.faults.diff s.live session.files)
        s'.live = (live, none)) :
    s' = { s with backups := s.backups.put now s.live } ∧
      (∀ file, live file =
        if file ∈ changedFiles input.faults.diff s.live
            session.files
        then session.files file
        else s.live file) ∧
      (changedFiles input.faults.diff s.live session.files ≠
          [] → CopiesAll input s session) := by
  have hState := hCovered.snapshot_eq hSnapshot
  rw [hState] at hCopy
  refine ⟨hState, FileTree.copyAll_of_ok hCopy, ?_⟩
  intro hChanged
  rw [copiesAll_iff now, hSnapshot, hCopy]
  exact ⟨hChanged, rfl, rfl⟩

/- A content that is not at risk stays live when copied. -/
theorem live_or_atRisk
    {live : Tree}
    {file : ManagedFile}
    {content : Text}
    (hLive : ∀ file, live file =
      if file ∈ changedFiles input.faults.diff s.live
          session.files
      then session.files file
      else s.live file)
    (hContent : s.live file = some content) :
    live file = some content ∨
      AtRisk input s session file content := by
  by_cases hFile :
      file ∈ changedFiles input.faults.diff s.live
        session.files
  · by_cases hStaged : session.files file = some content
    · left
      rw [hLive file, if_pos hFile, hStaged]
    · exact Or.inr ⟨hFile, hContent, hStaged⟩
  · left
    rw [hLive file, if_neg hFile, hContent]

/-
  What a rejection leaves available once the rollback has
  ended and the backup is deleted.
-/
theorem rejected_contentsKept_iff
    {live : Tree}
    (hLive : ∀ file, live file =
      if file ∈ changedFiles input.faults.diff s.live
          session.files
      then session.files file
      else s.live file) :
    ContentsKept s
        { s with
          live :=
            (FileTree.copyExisting input.faults.rollback s.live
              (changedFiles input.faults.diff s.live
                session.files) live).1
          backups := (s.backups.put now s.live).remove now } ↔
      RejectionKeeps now input s session := by
  constructor
  · intro hKept file content hRisk
    rcases hRisk with ⟨hFile, hContent, hStaged⟩
    by_cases hPassed :
        file ∈ FileTree.passed input.faults.rollback s.live
          (changedFiles input.faults.diff s.live
            session.files)
    · exact Or.inl hPassed
    · right
      rcases hKept file content hContent with
        hStill | ⟨id, files, _, hBackup, hHeld⟩
      · have hRolled :
            (FileTree.copyExisting input.faults.rollback s.live
              (changedFiles input.faults.diff s.live
                session.files) live).1 file = some content :=
          hStill
        rw [FileTree.copyExisting_apply, if_neg hPassed,
          hLive file, if_pos hFile] at hRolled
        exact (hStaged hRolled).elim
      · by_cases hNow : id = now
        · subst hNow
          rw [Archive.get?_remove_self] at hBackup
          cases hBackup
        · rw [Archive.get?_remove_of_ne _ hNow,
            Archive.get?_put_of_ne _ _ hNow] at hBackup
          exact ⟨id, files, hNow, hBackup, hHeld⟩
  · intro hKeeps file content hContent
    by_cases hPassed :
        file ∈ FileTree.passed input.faults.rollback s.live
          (changedFiles input.faults.diff s.live
            session.files)
    · left
      show (FileTree.copyExisting ..).1 file = _
      rw [FileTree.copyExisting_apply, if_pos hPassed, hContent]
      rfl
    · rcases live_or_atRisk hLive hContent with hCopied | hRisk
      · left
        show (FileTree.copyExisting ..).1 file = _
        rw [FileTree.copyExisting_apply, if_neg hPassed,
          hCopied]
      · rcases hKeeps file content hRisk with
          hIn | ⟨id, files, hNow, hBackup, hHeld⟩
        · exact (hPassed hIn).elim
        · refine Or.inr ⟨id, files, trivial, ?_, hHeld⟩
          show ((s.backups.put now s.live).remove now).get? id =
            _
          rw [Archive.get?_remove_of_ne _ hNow,
            Archive.get?_put_of_ne _ _ hNow, hBackup]

/-
  What a commit leaves available that ends by pruning the
  backups.
-/
theorem pruned_contentsKept_iff
    {live : Tree}
    (staging : Option Session)
    (hLive : ∀ file, live file =
      if file ∈ changedFiles input.faults.diff s.live
          session.files
      then session.files file
      else s.live file) :
    ContentsKept s
        (pruneBackupsLocked cfg
          { s with
            live := live
            staging := staging
            backups := s.backups.put now s.live }) ↔
      PruningKeeps cfg now input s session := by
  have hPruned :
      ∀ id files,
        ((s.backups.put now s.live).prune
            (retention cfg s)).get? id = some files ↔
          (s.backups.put now s.live).get? id = some files ∧
            (s.backups.put now s.live).newer id <
              retention cfg s :=
    fun _ _ => Archive.get?_prune_iff
  by_cases hFew : s.backups.newer now < retention cfg s
  · refine ⟨fun _ => Or.inl hFew, fun _ => ?_⟩
    intro file content hContent
    refine Or.inr ⟨now, s.live, trivial, ?_, hContent⟩
    refine (hPruned now s.live).mpr
      ⟨Archive.get?_put_self .., ?_⟩
    rwa [Archive.newer_put_of_le _ _ (Nat.le_refl now)]
  -- The kept backups are later than the one just made.
  have hLater :
      ∀ id, s.backups.newer id < retention cfg s →
        now < id := by
    intro id hNewer
    by_contra hLe
    have hMore :=
      s.backups.newer_le_of_le (Nat.le_of_not_lt hLe)
    omega
  constructor
  · intro hKept
    refine Or.inr fun file content hRisk => ?_
    rcases hRisk with ⟨hFile, hContent, hStaged⟩
    rcases hKept file content hContent with
      hStill | ⟨id, files, _, hBackup, hHeld⟩
    · have hCopied : live file = some content := hStill
      rw [hLive file, if_pos hFile] at hCopied
      exact (hStaged hCopied).elim
    · rcases (hPruned id files).mp hBackup with
        ⟨hPut, hNewer⟩
      have hAfter : now < id := by
        by_contra hLe
        have hMore :=
          (s.backups.put now s.live).newer_le_of_le
            (Nat.le_of_not_lt hLe)
        rw [Archive.newer_put_of_le _ _ (Nat.le_refl now)]
          at hMore
        omega
      rw [Archive.newer_put_of_le _ _ (Nat.le_of_lt hAfter)]
        at hNewer
      rw [Archive.get?_put_of_ne _ _ (Nat.ne_of_gt hAfter)]
        at hPut
      exact ⟨id, files, hNewer, hPut, hHeld⟩
  · intro hKeeps file content hContent
    rcases live_or_atRisk hLive hContent with hCopied | hRisk
    · exact Or.inl hCopied
    · rcases hKeeps.resolve_left hFew file content hRisk with
        ⟨id, files, hNewer, hBackup, hHeld⟩
      have hAfter := hLater id hNewer
      refine Or.inr ⟨id, files, trivial, ?_, hHeld⟩
      refine (hPruned id files).mpr ⟨?_, ?_⟩
      · rwa [Archive.get?_put_of_ne _ _ (Nat.ne_of_gt hAfter)]
      · rwa [Archive.newer_put_of_le _ _ (Nat.le_of_lt hAfter)]

end Store

end Soteria

------------------------------------------------------------
-- Every End of a Commit
------------------------------------------------------------

namespace Soteria

namespace Store

/-
  A commit keeps every content that was live available
  exactly when neither of its losing ends loses one.
-/
theorem commit_keeps_contents_iff
    (cfg : Config)
    (s : State)
    (now : Nat)
    (input : CommitInput)
    (hReached : Reached cfg s) :
    (∀ file content, s.live file = some content →
      Available (commitStaging cfg now input s).state file
        content) ↔
      CommitKeeps cfg now input s := by
  have hCovered := hReached.covered
  show ContentsKept s (commitStaging cfg now input s).state ↔
    CommitKeeps cfg now input s
  -- An end before the validator, or without a session.
  have hStops :
      ∀ after,
        ContentsKept s after →
        (∀ session, s.staging = some session →
          ¬CopiesAll input s session) →
        (ContentsKept s after ↔
          CommitKeeps cfg now input s) := by
    intro after hKept hNever
    refine ⟨fun _ session hStaging hCopies => ?_,
      fun _ => hKept⟩
    exact (hNever session hStaging hCopies).elim
  have hResult := commitStaging_result cfg now input s
  generalize commitStaging cfg now input s = out at *
  cases hResult with
  | inactive hStaging =>
      refine hStops _ (contentsKept_of_live rfl) ?_
      intro session hOther
      rw [hStaging] at hOther
      cases hOther
  | unchanged session hStaging hChanged =>
      refine hStops _ (contentsKept_of_live rfl) ?_
      intro other hOther hCopies
      rw [hStaging] at hOther
      cases hOther
      exact hCopies.changed hChanged
  | backupFailed session error s' hStaging _ hSnapshot =>
      have hLive :=
        snapshotLocked_live input.faults.snapshot now s
      rw [hSnapshot] at hLive
      refine hStops _ (contentsKept_of_live hLive) ?_
      intro other _ hCopies
      have hSaved := ((copiesAll_iff now).mp hCopies).2.1
      rw [hSnapshot] at hSaved
      cases hSaved
  | copyFailed session s' live error hStaging _ hSnapshot
      hCopy =>
      rw [hCovered.snapshot_eq hSnapshot] at hCopy ⊢
      refine hStops _ (contentsKept_of_backup rfl) ?_
      intro other hOther hCopies
      rw [hStaging] at hOther
      cases hOther
      have hCopied :=
        ((copiesAll_iff now).mp hCopies).2.2
      rw [hCopy] at hCopied
      cases hCopied
  | devMode session s' live hStaging hChanged hSnapshot hCopy
      hDev =>
      rcases commit_copied_live hCovered hSnapshot hCopy with
        ⟨rfl, hLive, hCopies⟩
      rw [pruned_contentsKept_iff none hLive]
      constructor
      · intro hKeeps other hOther _
        rw [hStaging] at hOther
        cases hOther
        rw [hDev]
        exact ⟨by simp, fun _ => hKeeps⟩
      · intro hKeeps
        exact (hKeeps session hStaging (hCopies hChanged)).2
          (Or.inl hDev)
  | rejected session s' live rolledBack error rollback
      hStaging hChanged hSnapshot hCopy hDev hVerdict
      hRollback =>
      rcases commit_copied_live hCovered hSnapshot hCopy with
        ⟨rfl, hLive, hCopies⟩
      simp only [State.backup, Archive.get?_put_self,
        Option.getD_some] at hRollback
      have hIff :=
        @rejected_contentsKept_iff now _ _ _ _ hLive
      rw [hRollback] at hIff
      rw [hIff]
      constructor
      · intro hKeeps other hOther _
        rw [hStaging] at hOther
        cases hOther
        refine ⟨fun _ _ => hKeeps, ?_⟩
        rintro (hOn | ⟨hNone, _⟩)
        · rw [hDev] at hOn
          cases hOn
        · rw [hVerdict] at hNone
          cases hNone
      · intro hKeeps
        refine (hKeeps session hStaging
          (hCopies hChanged)).1 hDev ?_
        rw [hVerdict]
        simp
  | applyFailed session s' live error signal hStaging hChanged
      hSnapshot hCopy hDev hVerdict hApply =>
      rcases commit_copied_live hCovered hSnapshot hCopy with
        ⟨rfl, hLive, hCopies⟩
      refine ⟨fun _ => ?_,
        fun _ => contentsKept_of_backup rfl⟩
      intro other hOther _
      rw [hStaging] at hOther
      cases hOther
      refine ⟨fun _ hSome => (hSome hVerdict).elim, ?_⟩
      rintro (hOn | ⟨_, hApplies⟩)
      · rw [hDev] at hOn
        cases hOn
      · rw [applies_iff, hApply] at hApplies
        cases hApplies
  | committed session s' live signal hStaging hChanged
      hSnapshot hCopy hDev hVerdict hApply =>
      rcases commit_copied_live hCovered hSnapshot hCopy with
        ⟨rfl, hLive, hCopies⟩
      rw [pruned_contentsKept_iff none hLive]
      constructor
      · intro hKeeps other hOther _
        rw [hStaging] at hOther
        cases hOther
        exact ⟨fun _ hSome => (hSome hVerdict).elim,
          fun _ => hKeeps⟩
      · intro hKeeps
        refine (hKeeps session hStaging (hCopies hChanged)).2
          (Or.inr ⟨hVerdict, ?_⟩)
        rw [applies_iff, hApply]

theorem commit_keeps_contents_rejected :
    (∀ file content,
      recommitStore.live file = some content →
        Available (commitStaging plainConfig 2 rejectedInput
          recommitStore).state file content) ↔
      CommitKeeps plainConfig 2 rejectedInput
        recommitStore :=
  commit_keeps_contents_iff plainConfig recommitStore 2
    rejectedInput recommitStore_reachable.reached

/- A rejection whose rollback cannot write the overrides. -/
def brokenRollback : CommitInput where
  faults :=
    { CommitFaults.none with
      rollback := overrideFault.faults.copy }
  verdict := ⟨"", some "syntax error"⟩
  signalError := none

/- The overrides of before are gone after it. -/
theorem broken_rollback_loses_overrides :
    Reached plainConfig recommitStore ∧
      recommitStore.live .overrides =
        some "TACACS_DEBUG=1" ∧
      ¬Available (commitStaging plainConfig 2 brokenRollback
          recommitStore).state .overrides
        "TACACS_DEBUG=1" := by
  refine ⟨recommitStore_reachable.reached, rfl, ?_⟩
  rintro (hLive | ⟨id, files, _, hBackup, hHeld⟩)
  · exact absurd hLive (by decide)
  · have hOnly :
        (commitStaging plainConfig 2 brokenRollback
          recommitStore).state.backups.entries.map
            (fun e => (e.1, e.2 .overrides)) =
          [(1, none)] := rfl
    have hMember :=
      List.mem_map_of_mem
        (f := fun e : Nat × Tree => (e.1, e.2 .overrides))
        ((Archive.get?_eq_some_iff ..).mp hBackup)
    rw [hOnly] at hMember
    have hSame := List.mem_singleton.mp hMember
    have hNone : files .overrides = none :=
      (Prod.mk.inj hSame).2
    rw [hHeld] at hNone
    cases hNone

end Store

end Soteria
