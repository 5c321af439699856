import Soteria.Store.Commit
import Soteria.Store.Pipeline

/-
  Which configurations the server is told to load.

  A pipeline signals the server only after the validator
  accepted the files it left live. A reload request from
  another client does not take the store's mutex: it is
  safe between pipelines, as long as each of them ended
  with accepted files.

  Main declarations:
    * `Undisturbed`
    * `Undoable`, `Vetted`
    * `Vetted.step`
    * `signals_accepted_of_run`
-/

------------------------------------------------------------
-- The Invariant of a Pipeline
------------------------------------------------------------

namespace Soteria

namespace Store

open FileTree (Within)

/-
  Copying the backup of a job over the pending files gives
  an accepted directory back.
-/
structure Undoable
    (accepted : List Tree)
    (s : State)
    (job : Job)
    (pending : List ManagedFile) : Prop where
  vetted : s.backup job.backup ∈ accepted
  within : Within s.live (s.backup job.backup)
  settled : ∀ file, file ∉ pending →
    s.live file = s.backup job.backup file

/-
  The files left to copy are undone by a rollback, and a
  commit has each of them staged.
-/
structure Copyable
    (s : State)
    (job : Job)
    (rest : List ManagedFile) : Prop where
  undone : ∀ file ∈ rest, file ∈ job.undo
  known : ∀ file ∈ rest,
    s.backup job.backup file = none → job.source file = none
  staged : job.kind = .commit →
    ∀ file ∈ rest, job.source file ≠ none

/- What holds of the live files in each phase. -/
def PhaseSafe (accepted : List Tree) (s : State) :
    Phase → Prop
| .idle => s.live ∈ accepted
| .copying job rest =>
    Undoable accepted s job job.undo ∧ Copyable s job rest
| .validating job => Undoable accepted s job job.undo
| .rollingBack job rest => Undoable accepted s job rest
| .signalling _ => s.live ∈ accepted

structure Vetted (u : System) : Prop where
  covered : Covered u.store
  safe : PhaseSafe u.accepted u.store u.phase

variable {accepted : List Tree}
variable {s : State}
variable {job : Job}
variable {pending : List ManagedFile}
variable {file : ManagedFile}
variable {kind : JobKind}
variable {source live live' : Tree}

/- A step of a copy loop keeps the file or takes it over. -/
theorem copyFile_cases
    (hCopy :
      copyFile kind source file none none live = some live') :
    live' = live ∧ source file = none ∨
      ∃ content, source file = some content ∧
        live' = live.set file content := by
  unfold copyFile at hCopy
  cases hSource : source file with
  | none =>
      rw [hSource] at hCopy
      cases kind with
      | commit => cases hCopy
      | restore => exact Or.inl ⟨(Option.some.inj hCopy).symm, rfl⟩
  | some content =>
      rw [hSource] at hCopy
      exact Or.inr
        ⟨content, rfl, (Option.some.inj hCopy).symm⟩

theorem copyFile_within
    (hCopy :
      copyFile kind source file none none live = some live') :
    Within live live' := by
  rcases copyFile_cases hCopy with
    ⟨rfl, _⟩ | ⟨content, _, rfl⟩
  · exact Within.refl _
  · intro other hNone
    by_cases hSame : other = file
    · subst hSame
      simp at hNone
    · rwa [FileTree.set_of_ne _ _ hSame] at hNone

/- Only a missing staged file stops a loop by itself. -/
theorem copyFile_ne_none
    (hPresent : kind = .commit → source file ≠ none) :
    copyFile kind source file none none live ≠ none := by
  unfold copyFile
  cases hSource : source file with
  | some content => simp
  | none =>
      cases kind with
      | commit => exact (hPresent rfl hSource).elim
      | restore => simp

theorem Undoable.copy
    (hUndo : Undoable accepted s job pending)
    (hFile : file ∈ pending)
    (hKnown :
      s.backup job.backup file = none → source file = none)
    (hCopy :
      copyFile kind source file none none s.live = some live) :
    Undoable accepted { s with live := live } job pending := by
  rcases copyFile_cases hCopy with
    ⟨rfl, _⟩ | ⟨content, hContent, rfl⟩
  · exact ⟨hUndo.vetted, hUndo.within, hUndo.settled⟩
  · refine ⟨hUndo.vetted, ?_, ?_⟩
    · intro other hNone
      have hNe : other ≠ file := by
        rintro rfl
        rw [hKnown hNone] at hContent
        cases hContent
      show s.live.set file content other = none
      rw [FileTree.set_of_ne _ _ hNe]
      exact hUndo.within other hNone
    · intro other hOther
      have hNe : other ≠ file := by
        rintro rfl
        exact hOther hFile
      show s.live.set file content other = _
      rw [FileTree.set_of_ne _ _ hNe]
      exact hUndo.settled other hOther

/- A step of the rollback settles one more file. -/
theorem Undoable.rollback
    (hUndo : Undoable accepted s job (file :: pending))
    (hCopy :
      copyFile .restore (s.backup job.backup) file none none
        s.live = some live) :
    Undoable accepted { s with live := live } job pending := by
  have hKeep :
      Undoable accepted { s with live := live } job
        (file :: pending) :=
    hUndo.copy (List.mem_cons_self ..) id hCopy
  refine ⟨hKeep.vetted, hKeep.within, ?_⟩
  intro other hOther
  by_cases hSame : other = file
  · subst hSame
    rcases copyFile_cases hCopy with
      ⟨rfl, hNone⟩ | ⟨content, hContent, rfl⟩
    · show s.live other = s.backup job.backup other
      rw [hNone]
      exact hUndo.within other hNone
    · show s.live.set other content other = s.backup _ other
      rw [FileTree.set_self, hContent]
  · apply hKeep.settled
    simp [hSame, hOther]

/- A finished rollback has the accepted files back. -/
theorem Undoable.live_mem
    (hUndo : Undoable accepted s job []) :
    s.live ∈ accepted := by
  have hLive : s.live = s.backup job.backup :=
    funext fun file => hUndo.settled file (by simp)
  rw [hLive]
  exact hUndo.vetted

theorem Covered.closeApplied
    (hCovered : Covered s)
    (cfg : Config)
    (kind : JobKind) :
    Covered (Store.closeApplied cfg kind s) := by
  cases kind with
  | commit => exact (hCovered.with_staging none).prune cfg
  | restore => exact hCovered.prune cfg

theorem Covered.closeRejected
    (hCovered : Covered s)
    (job : Job) :
    Covered (Store.closeRejected job s) := by
  unfold Store.closeRejected
  split
  · exact hCovered.remove job.backup
  · exact hCovered

theorem closeApplied_live
    (cfg : Config)
    (kind : JobKind) :
    (closeApplied cfg kind s).live = s.live := by
  cases kind <;> rfl

theorem closeRejected_live (job : Job) :
    (closeRejected job s).live = s.live := by
  unfold closeRejected
  split <;> rfl

theorem applyJob_cases
    (cfg : Config)
    (job : Job)
    (error : Option Text)
    (s : State) :
    (applyJob cfg job error s).2 = s ∨
      ∃ kind,
        (applyJob cfg job error s).2 =
          closeApplied cfg kind s := by
  unfold applyJob
  split
  · exact Or.inl rfl
  · split
    · exact Or.inl rfl
    · exact Or.inr ⟨.commit, rfl⟩
  · split
    · exact Or.inl rfl
    · exact Or.inr ⟨.restore, rfl⟩

end Store

end Soteria

------------------------------------------------------------
-- Steps That Keep the Invariant
------------------------------------------------------------

namespace Soteria

namespace Store

/- The files the open session would create. -/
def Creates
    (diff : DiffFaults)
    (s : State)
    (file : ManagedFile) : Prop :=
  ∃ session, s.staging = some session ∧
    file ∈ changedFiles diff s.live session.files ∧
    s.live file = none

/-
  The condition on an event: a reload is requested only
  between pipelines, no file access of a copy or rollback
  loop fails, a commit creates no file, and validation is
  not switched off.
-/
def Undisturbed (cfg : Config) (u : System) : Event → Prop
| .reloadConfig _ => u.phase = .idle
| .copy read write => read = none ∧ write = none
| .rollback read write => read = none ∧ write = none
| .openCommit _ diff _ => ∀ file, ¬ Creates diff u.store file
| .validate _ => cfg.devMode = false
| _ => True

variable {cfg : Config}
variable {accepted : List Tree}
variable {s s' : State}
variable {now : Nat}
variable {u u' : System}

theorem System.locked_eq
    {next : State × Phase}
    (hLocked : u.locked next = some u') :
    u.phase = .idle ∧
      u' = { u with store := next.1, phase := next.2 } := by
  unfold System.locked at hLocked
  cases hPhase : u.phase with
  | idle =>
      rw [hPhase] at hLocked
      exact ⟨rfl, (Option.some.inj hLocked).symm⟩
  | _ =>
      rw [hPhase] at hLocked
      cases hLocked

/- A request that leaves the live files alone. -/
theorem Vetted.request
    {next : State}
    (hVetted : Vetted u)
    (hLocked : u.locked (next, .idle) = some u')
    (hCovered : Covered next)
    (hLive : next.live = u.store.live) :
    Vetted u' := by
  rcases System.locked_eq hLocked with ⟨hPhase, rfl⟩
  have hSafe := hVetted.safe
  rw [hPhase] at hSafe
  refine ⟨hCovered, ?_⟩
  show next.live ∈ u.accepted
  rw [hLive]
  exact hSafe

/- Right after its snapshot a pipeline can be undone. -/
theorem Undoable.start
    {faults : SnapshotFaults}
    (hCovered : Covered s)
    (hLive : s.live ∈ accepted)
    (hSnapshot : snapshotLocked faults now s = (none, s'))
    (job : Job)
    (hBackup : job.backup = now)
    (pending : List ManagedFile) :
    s'.backup job.backup = s.live ∧
      Undoable accepted s' job pending := by
  rw [hCovered.snapshot_eq hSnapshot, hBackup]
  have hSaved :
      State.backup
        { s with backups := s.backups.put now s.live } now =
        s.live := by
    simp [State.backup]
  refine ⟨hSaved, ?_, ?_, ?_⟩
  · rw [hBackup, hSaved]
    exact hLive
  · rw [hBackup, hSaved]
    exact FileTree.Within.refl _
  · intro file _
    rw [hBackup, hSaved]

/- The phase after a copied file, with what is left. -/
theorem PhaseSafe.afterCopy
    {job : Job}
    {rest : List ManagedFile}
    (hUndo : Undoable accepted s job job.undo)
    (hRest : Copyable s job rest) :
    PhaseSafe accepted s (.afterCopy job rest) := by
  cases rest with
  | nil => exact hUndo
  | cons file rest => exact ⟨hUndo, hRest⟩

theorem openCommit_safe
    (now : Nat)
    {diff : DiffFaults}
    (snapshot : SnapshotFaults)
    (hCovered : Covered s)
    (hLive : s.live ∈ accepted)
    (hCreates : ∀ file, ¬ Creates diff s file) :
    Covered (openCommit now diff snapshot s).1 ∧
      PhaseSafe accepted (openCommit now diff snapshot s).1
        (openCommit now diff snapshot s).2 := by
  have hSnap := hCovered.snapshot snapshot now
  unfold openCommit
  split
  · exact ⟨hCovered, hLive⟩
  · rename_i session hStaging
    simp only []
    split
    · exact ⟨hCovered.with_staging none, hLive⟩
    · split
      · rename_i hSnapshot
        rw [hSnapshot] at hSnap
        refine ⟨hSnap.1, ?_⟩
        show _ ∈ accepted
        rw [hSnap.2]
        exact hLive
      · rename_i s' hSnapshot
        rw [hSnapshot] at hSnap
        refine ⟨hSnap.1, ?_⟩
        have hStart :=
          Undoable.start hCovered hLive hSnapshot
            ⟨.commit, session.files, now,
              changedFiles diff s.live session.files⟩ rfl
            (changedFiles diff s.live session.files)
        refine PhaseSafe.afterCopy hStart.2 ⟨?_, ?_, ?_⟩
        · exact fun file hFile => hFile
        · intro file hFile hNone
          rw [hStart.1] at hNone
          exact (hCreates file
            ⟨session, hStaging, hFile, hNone⟩).elim
        · exact fun _ file => staged_of_mem_changedFiles

theorem openRestoreFrom_safe
    (now : Nat)
    (snapshot : SnapshotFaults)
    {source : State → Tree}
    (hCovered : Covered s)
    (hLive : s.live ∈ accepted)
    (files : List ManagedFile)
    (hSource : ∀ s', Covered s' → s'.live = s.live →
      FileTree.Within (source s') s.live) :
    Covered (openRestoreFrom now snapshot source files s).1 ∧
      PhaseSafe accepted
        (openRestoreFrom now snapshot source files s).1
        (openRestoreFrom now snapshot source files s).2 := by
  have hSnap := hCovered.snapshot snapshot now
  unfold openRestoreFrom
  split
  · rename_i hSnapshot
    rw [hSnapshot] at hSnap
    refine ⟨hSnap.1, ?_⟩
    show _ ∈ accepted
    rw [hSnap.2]
    exact hLive
  · rename_i s' hSnapshot
    rw [hSnapshot] at hSnap
    refine ⟨hSnap.1, ?_⟩
    have hStart :=
      Undoable.start hCovered hLive hSnapshot
        ⟨.restore, source s', now, managedFiles⟩ rfl
        managedFiles
    refine PhaseSafe.afterCopy hStart.2 ⟨?_, ?_, ?_⟩
    · exact fun file _ => mem_managedFiles file
    · intro file _ hNone
      rw [hStart.1] at hNone
      exact hSource s' hSnap.1 hSnap.2 file hNone
    · intro hKind
      cases hKind

theorem openRestore_safe
    (now : Nat)
    (snapshot : SnapshotFaults)
    (id : Nat)
    (files : List ManagedFile)
    (hCovered : Covered s)
    (hLive : s.live ∈ accepted) :
    Covered (openRestore now snapshot id files s).1 ∧
      PhaseSafe accepted (openRestore now snapshot id files s).1
        (openRestore now snapshot id files s).2 := by
  unfold openRestore
  split
  · exact ⟨hCovered, hLive⟩
  · apply openRestoreFrom_safe now snapshot hCovered hLive
    intro s' hCovered' hSame
    rw [← hSame]
    exact hCovered'.backup id

theorem openGolden_safe
    (now : Nat)
    (snapshot : SnapshotFaults)
    (hCovered : Covered s)
    (hLive : s.live ∈ accepted) :
    Covered (openGolden now snapshot s).1 ∧
      PhaseSafe accepted (openGolden now snapshot s).1
        (openGolden now snapshot s).2 := by
  unfold openGolden
  split
  · exact ⟨hCovered, hLive⟩
  · rename_i golden hGolden
    apply openRestoreFrom_safe now snapshot hCovered hLive
    exact fun _ _ _ => hCovered.golden golden hGolden

theorem afterRollback_safe
    {job : Job}
    {rest : List ManagedFile}
    (hCovered : Covered s)
    (hUndo : Undoable accepted s job rest) :
    Covered (afterRollback job s rest).1 ∧
      PhaseSafe accepted (afterRollback job s rest).1
        (afterRollback job s rest).2 := by
  cases rest with
  | cons file rest => exact ⟨hCovered, hUndo⟩
  | nil =>
      refine ⟨hCovered.closeRejected job, ?_⟩
      show (closeRejected job s).live ∈ accepted
      rw [closeRejected_live]
      exact hUndo.live_mem

/- Events that change neither live files nor backups. -/
theorem PhaseSafe.with_frame
    {phase : Phase}
    (hSafe : PhaseSafe accepted s phase)
    (hLive : s'.live = s.live)
    (hBackups : s'.backups = s.backups) :
    PhaseSafe accepted s' phase := by
  have hBackup : ∀ id, s'.backup id = s.backup id := by
    intro id
    unfold State.backup
    rw [hBackups]
  have hUndo :
      ∀ job pending, Undoable accepted s job pending →
        Undoable accepted s' job pending := by
    intro job pending hUndo
    refine ⟨?_, ?_, ?_⟩
    · rw [hBackup]
      exact hUndo.vetted
    · rw [hBackup, hLive]
      exact hUndo.within
    · rw [hBackup, hLive]
      exact hUndo.settled
  cases phase with
  | idle =>
      show s'.live ∈ accepted
      rw [hLive]
      exact hSafe
  | copying job rest =>
      refine ⟨hUndo _ _ hSafe.1, hSafe.2.undone, ?_,
        hSafe.2.staged⟩
      rw [hBackup]
      exact hSafe.2.known
  | validating job => exact hUndo _ _ hSafe
  | rollingBack job rest => exact hUndo _ _ hSafe
  | signalling job =>
      show s'.live ∈ accepted
      rw [hLive]
      exact hSafe

end Store

end Soteria

------------------------------------------------------------
-- Signals over Whole Runs
------------------------------------------------------------

namespace Soteria

namespace Store

open Transition (Run Guarded)

variable {cfg : Config}
variable {u u' : System}

theorem Vetted.copy
    (hVetted : Vetted u)
    (hStep : step cfg u (.copy none none) = some u') :
    Vetted u' := by
  have hSafe := hVetted.safe
  simp only [step] at hStep
  split at hStep
  · rename_i job file rest hPhase
    rw [hPhase] at hSafe
    rcases hSafe with ⟨hUndo, hRest⟩
    have hFile : file ∈ file :: rest := List.mem_cons_self ..
    split at hStep
    · rename_i hStopped
      have hPresent :
          job.kind = .commit → job.source file ≠ none :=
        fun hKind => hRest.staged hKind file hFile
      exact (copyFile_ne_none hPresent hStopped).elim
    · rename_i live hCopy
      cases hStep
      refine ⟨hVetted.covered.with_live (copyFile_within hCopy), ?_⟩
      apply PhaseSafe.afterCopy
      · exact hUndo.copy (hRest.undone file hFile)
          (hRest.known file hFile) hCopy
      · have hTail :
            ∀ other ∈ rest, other ∈ file :: rest :=
          fun other => List.mem_cons_of_mem file
        exact
          ⟨fun other hOther =>
              hRest.undone other (hTail other hOther),
            fun other hOther =>
              hRest.known other (hTail other hOther),
            fun hKind other hOther =>
              hRest.staged hKind other (hTail other hOther)⟩
  · cases hStep

theorem Vetted.rollback
    (hVetted : Vetted u)
    (hStep : step cfg u (.rollback none none) = some u') :
    Vetted u' := by
  have hSafe := hVetted.safe
  simp only [step] at hStep
  split at hStep
  · rename_i job file rest hPhase
    rw [hPhase] at hSafe
    split at hStep
    · rename_i hStopped
      exact (copyFile_ne_none (by simp) hStopped).elim
    · rename_i live hCopy
      cases hStep
      have hNext :=
        afterRollback_safe
          (hVetted.covered.with_live (copyFile_within hCopy))
          (Undoable.rollback hSafe hCopy)
      exact ⟨hNext.1, hNext.2⟩
  · cases hStep

theorem Vetted.validate
    {verdict : Verdict}
    (hVetted : Vetted u)
    (hDev : cfg.devMode = false)
    (hStep : step cfg u (.validate verdict) = some u') :
    Vetted u' := by
  have hSafe := hVetted.safe
  simp only [step, hDev] at hStep
  split at hStep
  · rename_i job hPhase
    rw [hPhase] at hSafe
    simp only [Bool.false_eq_true, if_false] at hStep
    split at hStep
    · cases hStep
      have hNext := afterRollback_safe hVetted.covered hSafe
      exact ⟨hNext.1, hNext.2⟩
    · cases hStep
      exact ⟨hVetted.covered, List.mem_cons_self ..⟩
  · cases hStep

theorem Vetted.apply
    {error : Option Text}
    (hVetted : Vetted u)
    (hStep : step cfg u (.apply error) = some u') :
    Vetted u' := by
  have hSafe := hVetted.safe
  simp only [step] at hStep
  split at hStep
  · rename_i job hPhase
    rw [hPhase] at hSafe
    cases hStep
    rcases applyJob_cases cfg job error u.store with
      hSame | ⟨kind, hClosed⟩
    · rw [hSame]
      exact ⟨hVetted.covered, hSafe⟩
    · rw [hClosed]
      refine ⟨hVetted.covered.closeApplied cfg kind, ?_⟩
      show (closeApplied cfg kind u.store).live ∈ u.accepted
      rw [closeApplied_live]
      exact hSafe
  · cases hStep

/- One undisturbed event keeps the invariant. -/
theorem Vetted.step
    {event : Event}
    (hVetted : Vetted u)
    (hGuard : Undisturbed cfg u event)
    (hStep : Store.step cfg u event = some u') :
    Vetted u' := by
  have hApply :
      ∀ op, Covered (Store.apply cfg 0 u.store op) :=
    fun op => apply_covered op hVetted.covered
  have hIdle :
      u.phase = .idle → u.store.live ∈ u.accepted := by
    intro hPhase
    have hSafe := hVetted.safe
    rw [hPhase] at hSafe
    exact hSafe
  cases event with
  | begin faults =>
      rcases beginStaging_staging faults u.store with ⟨_, hEq⟩
      exact hVetted.request hStep (hApply (.begin faults))
        (by rw [hEq])
  | discard => exact hVetted.request hStep (hApply .discard) rfl
  | write fault rel content =>
      rcases writeStaged_staging fault rel content u.store with
        ⟨_, hEq⟩
      exact hVetted.request hStep
        (hApply (.write fault rel content))
        (by rw [hEq])
  | saveGolden faults =>
      rcases saveGolden_golden faults u.store with ⟨_, hEq⟩
      exact hVetted.request hStep (hApply (.saveGolden faults))
        (by rw [hEq])
  | pruneBackups =>
      exact hVetted.request hStep (hVetted.covered.prune cfg) rfl
  | openCommit now diff snapshot =>
      rcases System.locked_eq hStep with ⟨hPhase, rfl⟩
      have hOpen :=
        openCommit_safe now snapshot hVetted.covered
          (hIdle hPhase) hGuard
      exact ⟨hOpen.1, hOpen.2⟩
  | openRestore now snapshot id files =>
      rcases System.locked_eq hStep with ⟨hPhase, rfl⟩
      have hOpen :=
        openRestore_safe now snapshot id files hVetted.covered
          (hIdle hPhase)
      exact ⟨hOpen.1, hOpen.2⟩
  | openGolden now snapshot =>
      rcases System.locked_eq hStep with ⟨hPhase, rfl⟩
      have hOpen :=
        openGolden_safe now snapshot hVetted.covered
          (hIdle hPhase)
      exact ⟨hOpen.1, hOpen.2⟩
  | copy read write =>
      rcases hGuard with ⟨rfl, rfl⟩
      exact hVetted.copy hStep
  | validate verdict => exact hVetted.validate hGuard hStep
  | rollback read write =>
      rcases hGuard with ⟨rfl, rfl⟩
      exact hVetted.rollback hStep
  | apply error => exact hVetted.apply hStep
  | markRestart fault =>
      cases hStep
      rcases markRestart_staging fault u.store with ⟨_, hEq⟩
      exact ⟨hApply (.markRestart fault),
        hVetted.safe.with_frame (by rw [hEq]) (by rw [hEq])⟩
  | storeRetention count =>
      simp only [Store.step] at hStep
      split at hStep
      · cases hStep
      · cases hStep
        exact ⟨⟨hVetted.covered.backups, hVetted.covered.golden⟩,
          hVetted.safe.with_frame rfl rfl⟩
  | reloadConfig error =>
      cases hStep
      exact hVetted

/- The accepted files are live when a pipeline signals. -/
def OwnSafe (u : System) : Prop :=
  ∀ job, u.phase = .signalling job → u.store.live ∈ u.accepted

theorem afterCopy_ne_signalling
    (job job' : Job)
    (rest : List ManagedFile) :
    Phase.afterCopy job rest ≠ .signalling job' := by
  cases rest <;> simp [Phase.afterCopy]

theorem openCommit_ne_signalling
    (now : Nat)
    (diff : DiffFaults)
    (snapshot : SnapshotFaults)
    (s : State)
    (job : Job) :
    (openCommit now diff snapshot s).2 ≠ .signalling job := by
  unfold openCommit
  split
  · simp
  · simp only []
    split
    · simp
    · split
      · simp
      · exact afterCopy_ne_signalling _ job _

theorem openRestoreFrom_ne_signalling
    (now : Nat)
    (snapshot : SnapshotFaults)
    (source : State → Tree)
    (files : List ManagedFile)
    (s : State)
    (job : Job) :
    (openRestoreFrom now snapshot source files s).2 ≠
      .signalling job := by
  unfold openRestoreFrom
  split
  · simp
  · exact afterCopy_ne_signalling _ job _

theorem afterRollback_ne_signalling
    (job job' : Job)
    (s : State)
    (rest : List ManagedFile) :
    (afterRollback job s rest).2 ≠ .signalling job' := by
  cases rest <;> simp [afterRollback]

/- A request with the mutex does not end up signalling. -/
theorem OwnSafe.locked
    {next : State × Phase}
    (hLocked : u.locked next = some u')
    (hNext : ∀ job, next.2 ≠ .signalling job) :
    OwnSafe u' := by
  rcases System.locked_eq hLocked with ⟨_, rfl⟩
  intro job hPhase
  exact (hNext job hPhase).elim

theorem OwnSafe.step
    {event : Event}
    (hSafe : OwnSafe u)
    (hStep : Store.step cfg u event = some u') :
    OwnSafe u' := by
  cases event with
  | openCommit now diff snapshot =>
      exact .locked hStep (openCommit_ne_signalling _ _ _ _)
  | openRestore now snapshot id files =>
      apply OwnSafe.locked hStep
      intro job
      unfold openRestore
      split
      · simp
      · exact openRestoreFrom_ne_signalling _ _ _ _ _ job
  | openGolden now snapshot =>
      apply OwnSafe.locked hStep
      intro job
      unfold openGolden
      split
      · simp
      · exact openRestoreFrom_ne_signalling _ _ _ _ _ job
  | copy read write =>
      simp only [Store.step] at hStep
      split at hStep
      · split at hStep
        · cases hStep
          intro job hPhase
          cases hPhase
        · cases hStep
          intro job hPhase
          exact (afterCopy_ne_signalling _ _ _ hPhase).elim
      · cases hStep
  | validate verdict =>
      simp only [Store.step] at hStep
      split at hStep
      · split at hStep
        · cases hStep
          intro job hPhase
          cases hPhase
        · split at hStep
          · cases hStep
            intro job hPhase
            exact
              (afterRollback_ne_signalling _ _ _ _ hPhase).elim
          · cases hStep
            intro job hPhase
            exact List.mem_cons_self ..
      · cases hStep
  | rollback read write =>
      simp only [Store.step] at hStep
      split at hStep
      · split at hStep
        · cases hStep
          intro job hPhase
          cases hPhase
        · cases hStep
          intro job hPhase
          exact
            (afterRollback_ne_signalling _ _ _ _ hPhase).elim
      · cases hStep
  | apply error =>
      simp only [Store.step] at hStep
      split at hStep
      · cases hStep
        intro job hPhase
        cases hPhase
      · cases hStep
  | markRestart fault =>
      cases hStep
      rcases markRestart_staging fault u.store with ⟨_, hEq⟩
      intro job hPhase
      show (markRestart fault u.store).2.live ∈ u.accepted
      rw [hEq]
      exact hSafe job hPhase
  | storeRetention count =>
      simp only [Store.step] at hStep
      split at hStep
      · cases hStep
      · cases hStep
        exact hSafe
  | reloadConfig error =>
      cases hStep
      exact hSafe
  | _ => exact .locked hStep (by simp)

/-
  Whatever else happens, a pipeline signals the server only
  while files the validator accepted are live.
-/
theorem apply_accepted_of_run
    {start : System}
    {events : List Event}
    (hStart : start.phase = .idle)
    (hRun : Run (Takes cfg) start events u)
    (error : Option Text)
    (hSends : sends cfg u (.apply error) ≠ none) :
    u.store.live ∈ u.accepted := by
  have hSafe : OwnSafe u := by
    apply hRun.invariant
    · exact fun _ _ _ hKept hNext => hKept.step hNext
    · intro job hPhase
      rw [hStart] at hPhase
      cases hPhase
  cases hPhase : u.phase with
  | signalling job => exact hSafe job hPhase
  | _ => simp [sends, hPhase] at hSends

/-
  Over every undisturbed run, the server is signalled only
  while files the validator accepted are live.
-/
theorem signals_accepted_of_run
    (cfg : Config)
    (start u u' : System)
    (events : List Event)
    (event : Event)
    (hStart : start.phase = .idle)
    (hCovered : Covered start.store)
    (hLive : start.store.live ∈ start.accepted)
    (hRun :
      Run (Guarded (Undisturbed cfg) (Takes cfg)) start events
        u)
    (hStep :
      Guarded (Undisturbed cfg) (Takes cfg) u event u')
    (hSends : sends cfg u event ≠ none) :
    u.store.live ∈ u.accepted := by
  have hVettedStart : Vetted start := by
    refine ⟨hCovered, ?_⟩
    rw [hStart]
    exact hLive
  have hVetted : Vetted u :=
    hRun.invariant
      (fun _ _ _ hKept hNext => hKept.step hNext.1 hNext.2)
      hVettedStart
  have hSafe := hVetted.safe
  cases event with
  | apply error =>
      cases hPhase : u.phase with
      | signalling job =>
          rw [hPhase] at hSafe
          exact hSafe
      | _ => simp [sends, hPhase] at hSends
  | reloadConfig error =>
      have hPhase : u.phase = .idle := hStep.1
      rw [hPhase] at hSafe
      exact hSafe
  | _ => exact (hSends rfl).elim

/- A session edits the main file, which exists. -/
def mainSession : Session where
  files := plainStore.live.set .main "id = tac_plus-ng { }"
  needsRestart := false

def mainStore : State :=
  { plainStore with staging := some mainSession }

/- The commit of a store, after its one file is copied. -/
def copiedSystem
    (s : State)
    (session : Session)
    (file : ManagedFile)
    (content : Text) : System where
  store :=
    { (openCommit 1 .none .none s).1 with
      live := s.live.set file content }
  phase := .validating ⟨.commit, session.files, 1, [file]⟩
  accepted := [s.live]

def mainCopied : System :=
  copiedSystem mainStore mainSession .main
    "id = tac_plus-ng { }"

def overrideCopied : System :=
  copiedSystem overrideStore overrideSession .overrides
    "TACACS_DEBUG=1"

/- The same once the validator accepted the files. -/
def mainAccepted : System :=
  { mainCopied with
    phase :=
      .signalling ⟨.commit, mainSession.files, 1, [.main]⟩
    accepted := [mainCopied.store.live, mainStore.live] }

theorem signals_accepted_main :
    mainAccepted.store.live ∈ mainAccepted.accepted := by
  have hCreates : ∀ file, ¬ Creates .none mainStore file := by
    rintro file ⟨session, hSession, hFile, hNone⟩
    cases hSession
    have hStaged := staged_of_mem_changedFiles hFile
    by_cases hMain : file = .main
    · subst hMain
      simp [mainStore, plainStore] at hNone
    · apply hStaged
      show plainStore.live.set .main _ file = none
      rw [FileTree.set_of_ne _ _ hMain]
      exact hNone
  have hOpen :
      Guarded (Undisturbed plainConfig) (Takes plainConfig)
        ⟨mainStore, .idle, [mainStore.live]⟩
        (.openCommit 1 .none .none)
        ⟨(openCommit 1 .none .none mainStore).1,
          (openCommit 1 .none .none mainStore).2,
          [mainStore.live]⟩ :=
    ⟨hCreates, rfl⟩
  have hCopy :
      Guarded (Undisturbed plainConfig) (Takes plainConfig)
        ⟨(openCommit 1 .none .none mainStore).1,
          (openCommit 1 .none .none mainStore).2,
          [mainStore.live]⟩
        (.copy none none) mainCopied :=
    ⟨⟨rfl, rfl⟩, rfl⟩
  have hValidate :
      Guarded (Undisturbed plainConfig) (Takes plainConfig)
        mainCopied (.validate ⟨"", none⟩) mainAccepted :=
    ⟨rfl, rfl⟩
  have hApply :
      Guarded (Undisturbed plainConfig) (Takes plainConfig)
        mainAccepted (.apply none)
        { mainAccepted with
          store :=
            closeApplied plainConfig .commit mainAccepted.store
          phase := .idle } :=
    ⟨trivial, rfl⟩
  exact signals_accepted_of_run plainConfig _ mainAccepted _ _
    _ rfl (plainStore_fresh.covered.with_staging _)
    (List.mem_cons_self ..)
    (((Run.single hOpen).tail hCopy).tail hValidate) hApply
    (by decide)

/-
  A reload request between the copy loop and the verdict
  makes the server load the candidate.
-/
theorem reload_loads_candidate :
    Reachable plainConfig ⟨overrideStore, 1⟩ ∧
      Run (Takes plainConfig)
        ⟨overrideStore, .idle, [overrideStore.live]⟩
        [.openCommit 1 .none .none, .copy none none]
        overrideCopied ∧
      Takes plainConfig overrideCopied (.reloadConfig none)
        overrideCopied ∧
      sends plainConfig overrideCopied (.reloadConfig none) =
        some .reload ∧
      overrideCopied.store.live ∉ overrideCopied.accepted := by
  have hOpen :
      Takes plainConfig
        ⟨overrideStore, .idle, [overrideStore.live]⟩
        (.openCommit 1 .none .none)
        ⟨(openCommit 1 .none .none overrideStore).1,
          (openCommit 1 .none .none overrideStore).2,
          [overrideStore.live]⟩ := rfl
  have hCopy :
      Takes plainConfig
        ⟨(openCommit 1 .none .none overrideStore).1,
          (openCommit 1 .none .none overrideStore).2,
          [overrideStore.live]⟩
        (.copy none none) overrideCopied := rfl
  refine ⟨overrideStore_reachable,
    (Run.single hOpen).tail hCopy, rfl, rfl, ?_⟩
  intro hMember
  have hSame :
      overrideCopied.store.live = overrideStore.live :=
    List.mem_singleton.mp hMember
  have hFile := congrFun hSame .overrides
  exact absurd hFile (by decide)

end Store

end Soteria
