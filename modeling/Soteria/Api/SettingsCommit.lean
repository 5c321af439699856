import Soteria.Api.SettingsRestart

/-
  Commits between the steps of a `PUT settings` request.

  The request stages four files and marks the restart, each
  step on its own. Other clients begin, discard and commit
  the session in between. A record beside the directory says
  which files of the request the open session holds.

  Main declarations:
    * `Tracked`, `Tracked.next`
    * `CommitsWhole`
    * `LeavesWhole`
    * `settings_commit_whole_of_run`
-/

------------------------------------------------------------
-- What a Commit Makes Live
------------------------------------------------------------

namespace Soteria

namespace Store

variable {cfg : Config}
variable {now : Nat}
variable {input : CommitInput}
variable {s : State}

/- Copying the changed files fails only on a fault. -/
theorem copy_changed_ok
    {session : Session}
    {live target : Tree}
    {error : CopyError}
    (hCopy : input.faults.copy = .none) :
    FileTree.copyAll input.faults.copy notExist
        session.files
        (changedFiles input.faults.diff s.live session.files)
        target ≠ (live, some error) := by
  intro hFailed
  have hOk :=
    (FileTree.copyAll_ok_iff input.faults.copy notExist
      session.files
      (changedFiles input.faults.diff s.live session.files)
      target).mpr fun file hFile =>
        ⟨by rw [hCopy]; rfl, staged_of_mem_changedFiles hFile,
          by rw [hCopy]; rfl⟩
  rw [hFailed] at hOk
  cases hOk

/- A rejected commit rolls a file that existed back. -/
theorem commit_rejected_kept
    {file : ManagedFile}
    (hDev : cfg.devMode = false)
    (hRejected : input.verdict.error ≠ none)
    (hCopy : input.faults.copy = .none)
    (hRollback : input.faults.rollback = .none)
    (hLive : s.live file ≠ none) :
    (commitStaging cfg now input s).state.live file =
      s.live file := by
  have hResult := commitStaging_result cfg now input s
  generalize commitStaging cfg now input s = out at *
  have hSame :=
    snapshotLocked_live input.faults.snapshot now s
  cases hResult with
  | inactive => rfl
  | unchanged => rfl
  | backupFailed _ _ _ _ _ hSnapshot =>
      rw [hSnapshot] at hSame
      exact congrFun hSame file
  | copyFailed _ _ _ _ _ _ _ hFailed =>
      exact (copy_changed_ok hCopy hFailed).elim
  | devMode _ _ _ _ _ _ _ hOn =>
      rw [hDev] at hOn
      cases hOn
  | applyFailed _ _ _ _ _ _ _ _ _ _ hVerdict =>
      exact (hRejected hVerdict).elim
  | committed _ _ _ _ _ _ _ _ _ hVerdict =>
      exact (hRejected hVerdict).elim
  | rejected session s' live rolledBack _ _ _ _ hSnapshot
      hCopied _ _ hRolled =>
      rw [hSnapshot] at hSame
      have hCopiedAt := FileTree.copyAll_of_ok hCopied file
      rw [hRollback, FileTree.copyExisting_none] at hRolled
      cases hRolled
      show (if file ∈ changedFiles input.faults.diff s.live
          session.files
        then (s'.backup now file).or (live file)
        else live file) = s.live file
      by_cases hChanged :
          file ∈ changedFiles input.faults.diff s.live
            session.files
      · rcases Option.ne_none_iff_exists'.mp hLive with
          ⟨content, hContent⟩
        have hBackup : s'.backup now file = some content := by
          rw [snapshotLocked_backup hSnapshot, hContent]
          rfl
        rw [if_pos hChanged, hBackup, hContent]
        rfl
      · rw [if_neg hChanged] at hCopiedAt ⊢
        exact hCopiedAt.trans (congrFun hSame file)

/-
  A commit that is not rejected and meets no failing copy
  changes nothing, or makes every staged file live; it asks
  for a restart if the session is marked.
-/
theorem commit_applied
    {session : Session}
    (hDiff : input.faults.diff = .none)
    (hCopy : input.faults.copy = .none)
    (hVerdict :
      cfg.devMode = true ∨ input.verdict.error = none)
    (hStaging : s.staging = some session) :
    (commitStaging cfg now input s).state.live = s.live ∨
      ((∀ file content,
          session.files file = some content →
            ((commitStaging cfg now input s).state.live
              file).getD [] = content) ∧
        (session.needsRestart = true →
          cfg.devMode = false → cfg.restarter = true →
            ∃ error,
              (commitStaging cfg now input s).signal =
                some (.restart, error))) := by
  have hCopied :
      ∀ {s' : State} {live : Tree},
        snapshotLocked input.faults.snapshot now s =
          (none, s') →
        FileTree.copyAll input.faults.copy notExist
            session.files
            (changedFiles input.faults.diff s.live
              session.files)
            s'.live = (live, none) →
        ∀ file content,
          session.files file = some content →
            (live file).getD [] = content := by
    intro s' live hSnapshot hFiles file content hContent
    have hSame :=
      snapshotLocked_live input.faults.snapshot now s
    rw [hSnapshot] at hSame
    have hLive := FileTree.copyAll_of_ok hFiles file
    rw [hLive]
    by_cases hChanged :
        file ∈ changedFiles input.faults.diff s.live
          session.files
    · rw [if_pos hChanged, hContent]
      rfl
    · rw [if_neg hChanged]
      rw [hDiff, mem_changedFiles] at hChanged
      by_contra hNe
      refine hChanged ⟨content, hContent, ?_⟩
      rw [← hSame]
      exact fun hEq => hNe hEq.symm
  have hResult := commitStaging_result cfg now input s
  generalize commitStaging cfg now input s = out at *
  have hSame :=
    snapshotLocked_live input.faults.snapshot now s
  cases hResult with
  | inactive => exact Or.inl rfl
  | unchanged => exact Or.inl rfl
  | backupFailed _ _ _ _ _ hSnapshot =>
      rw [hSnapshot] at hSame
      exact Or.inl hSame
  | copyFailed _ _ _ _ _ _ _ hFailed =>
      exact (copy_changed_ok hCopy hFailed).elim
  | rejected _ _ _ _ _ _ _ _ _ _ hOff hRejected =>
      rcases hVerdict with hOn | hAccepted
      · rw [hOff] at hOn
        cases hOn
      · rw [hAccepted] at hRejected
        cases hRejected
  | devMode other s' live hOther _ hSnapshot hFiles hOn =>
      rw [hStaging] at hOther
      cases hOther
      refine Or.inr ⟨hCopied hSnapshot hFiles, ?_⟩
      intro _ hOff
      rw [hOff] at hOn
      cases hOn
  | applyFailed other s' live _ _ hOther _ hSnapshot hFiles _
      _ hApply =>
      rw [hStaging] at hOther
      cases hOther
      refine Or.inr ⟨hCopied hSnapshot hFiles, ?_⟩
      intro hMarked _ hRestarter
      simp only [applyCommit, hMarked, hRestarter, if_true,
        Bool.not_true, Bool.false_eq_true, if_false] at hApply
      exact ⟨_, (Prod.mk.inj hApply).2.symm⟩
  | committed other s' live _ hOther _ hSnapshot hFiles _ _
      hApply =>
      rw [hStaging] at hOther
      cases hOther
      refine Or.inr ⟨hCopied hSnapshot hFiles, ?_⟩
      intro hMarked _ hRestarter
      simp only [applyCommit, hMarked, hRestarter, if_true,
        Bool.not_true, Bool.false_eq_true, if_false] at hApply
      exact ⟨_, (Prod.mk.inj hApply).2.symm⟩

end Store

end Soteria

------------------------------------------------------------
-- A Request Among Other Clients
------------------------------------------------------------

namespace Soteria

namespace Api

open Store

/-
  The directory, and the files of the request that its open
  session holds.
-/
structure Tracked where
  store : State
  staged : List ManagedFile

/- The file a step of a client stages. -/
def stagedBy (s : State) : Client → List ManagedFile
| .writing put (file :: _) =>
    match writeStaged (put.writeFault file) file.path
        (put.contents file) s with
    | .ok _ => [file]
    | .error _ => []
| _ => []

/- The next step of a client, with the record it leaves. -/
def Tracked.next (cfg : Config) (w : Tracked) (c : Client) :
    Tracked × Client :=
  ({ store := (c.next cfg w.store).1
     staged :=
      if (c.next cfg w.store).1.stagingActive then
        w.staged ++ stagedBy w.store c
      else [] },
    (c.next cfg w.store).2)

abbrev TrackedClients := Threads.Pool Tracked Client

/- A client that begins, discards or commits the session. -/
def managesSession : Client → Bool
| .request _ (.begin _) => true
| .request _ .discard => true
| .request _ (.commit _) => true
| .done => true
| _ => false

/- The request answers that a restart is required. -/
def AnswersRestart (put : SettingsPut) : Prop :=
  put.needsRestart = true ∧ put.markFault = none

/-
  A commit that makes a file of the request live makes all
  four live, and restarts the container if the request
  answers that a restart is required.
-/
def CommitsWhole
    (cfg : Config)
    (put : SettingsPut)
    (p : TrackedClients)
    (i : Nat) : Prop :=
  ∀ now input, p.threads i = .request now (.commit input) →
    let out := commitStaging cfg now input p.shared.store
    (∃ file ∈ p.shared.staged,
      out.state.live file ≠ p.shared.store.live file) →
      (∀ file ∈ settingsFiles,
        (out.state.live file).getD [] = put.contents file) ∧
      (AnswersRestart put →
        ∃ error, out.signal = some (.restart, error))

/- The request has staged some of its files, but not all. -/
def partway : Client → Bool
| .writing _ rest => rest != settingsFiles
| _ => false

/- The request has been answered. -/
def isAnswered : Client → Bool
| .answered _ => true
| _ => false

/- A commit finds no staged file of the request changed. -/
def Spares (w : Tracked) (input : CommitInput) : Prop :=
  ∀ session, w.store.staging = some session →
    ∀ file ∈ w.staged,
      file ∉ changedFiles input.faults.diff w.store.live
        session.files

/- A commit is rejected and rolls those files back. -/
def Rejects
    (cfg : Config)
    (w : Tracked)
    (input : CommitInput) : Prop :=
  cfg.devMode = false ∧ input.verdict.error ≠ none ∧
    input.faults.copy = .none ∧
    input.faults.rollback = .none ∧
    ∀ file ∈ w.staged, w.store.live file ≠ none

/- A commit is not rejected and copies every file. -/
def Applies
    (cfg : Config)
    (put : SettingsPut)
    (input : CommitInput) : Prop :=
  input.faults.diff = .none ∧ input.faults.copy = .none ∧
    (cfg.devMode = true ∨ input.verdict.error = none) ∧
    (AnswersRestart put →
      cfg.devMode = false ∧ cfg.restarter = true)

/-
  No commit is applied between the request's first write and
  its answer, no session is opened between its writes, and
  none of its writes fails after the first.
-/
def LeavesWhole
    (cfg : Config)
    (put : SettingsPut)
    (p : TrackedClients)
    (i : Nat) : Prop :=
  match p.threads i with
  | .request _ (.begin _) =>
      partway (p.threads 0) = true →
        p.shared.store.staging ≠ none
  | .request _ (.commit input) =>
      Spares p.shared input ∨ Rejects cfg p.shared input ∨
        (isAnswered (p.threads 0) = true ∧
          Applies cfg put input)
  | .writing _ (file :: _) =>
      put.writeFault file = none ∨ p.shared.staged = []
  | _ => True

end Api

end Soteria

------------------------------------------------------------
-- Where the Request Is
------------------------------------------------------------

namespace Soteria

namespace Api

open Store

variable {cfg : Config}
variable {put : SettingsPut}
variable {w : Tracked}

/- The open session holds these files of the request. -/
def HasStaged
    (put : SettingsPut)
    (files : List ManagedFile)
    (w : Tracked) : Prop :=
  w.staged = files ∧
    ∃ session, w.store.staging = some session ∧
      ∀ file ∈ files,
        session.files file = some (put.contents file)

/- What the request relies on where it is. -/
def PutHolds
    (put : SettingsPut)
    (w : Tracked) : Client → Prop
| .writing put' rest =>
    put' = put ∧
      ∃ written, settingsFiles = written ++ rest ∧
        (HasStaged put written w ∨
          (w.staged = [] ∧
            (written = [] ∨ w.store.staging = none)))
| .marking put' =>
    put' = put ∧
      (HasStaged put settingsFiles w ∨ w.staged = [])
| .answered _ =>
    (HasStaged put settingsFiles w ∧
        (AnswersRestart put →
          w.store.restartPending = true)) ∨
      w.staged = []
| _ => False

/- Without a session no file of the request is in one. -/
theorem PutHolds.staged_nil
    {c : Client}
    (hHolds : PutHolds put w c)
    (hNone : w.store.staging = none) :
    w.staged = [] := by
  have hEmpty : ∀ files, ¬HasStaged put files w := by
    rintro files ⟨-, session, hStaging, -⟩
    rw [hNone] at hStaging
    cases hStaging
  cases c with
  | writing put' rest =>
      rcases hHolds with ⟨-, _, -, hHas | ⟨hNil, -⟩⟩
      · exact (hEmpty _ hHas).elim
      · exact hNil
  | marking put' =>
      rcases hHolds with ⟨-, hHas | hNil⟩
      · exact (hEmpty _ hHas).elim
      · exact hNil
  | answered restartRequired =>
      rcases hHolds with ⟨hHas, -⟩ | hNil
      · exact (hEmpty _ hHas).elim
      · exact hNil
  | _ => exact hHolds.elim

/- Only the session and the record matter to it. -/
theorem PutHolds.of_same
    {w' : Tracked}
    {c : Client}
    (hHolds : PutHolds put w c)
    (hStaging : w'.store.staging = w.store.staging)
    (hStaged : w'.staged = w.staged) :
    PutHolds put w' c := by
  cases c with
  | writing put' rest =>
      simpa only [PutHolds, HasStaged, hStaging, hStaged]
        using hHolds
  | marking put' =>
      simpa only [PutHolds, HasStaged, hStaging, hStaged]
        using hHolds
  | answered restartRequired =>
      simpa only [PutHolds, HasStaged, State.restartPending,
        hStaging, hStaged] using hHolds
  | _ => exact hHolds.elim

/- Once the session is closed no file is in one. -/
theorem PutHolds.of_closed
    {w' : Tracked}
    {c : Client}
    (hHolds : PutHolds put w c)
    (hNone : w'.store.staging = none)
    (hStaged : w'.staged = []) :
    PutHolds put w' c := by
  cases c with
  | writing put' rest =>
      rcases hHolds with ⟨hPut, written, hFiles, -⟩
      exact ⟨hPut, written, hFiles,
        Or.inr ⟨hStaged, Or.inr hNone⟩⟩
  | marking put' => exact ⟨hHolds.1, Or.inr hStaged⟩
  | answered restartRequired => exact Or.inr hStaged
  | _ => exact hHolds.elim

/- A new session between two writes would hold a part. -/
theorem PutHolds.of_opened
    {w' : Tracked}
    {c : Client}
    (hHolds : PutHolds put w c)
    (hPart : partway c = false)
    (hStaged : w'.staged = []) :
    PutHolds put w' c := by
  cases c with
  | writing put' rest =>
      rcases hHolds with ⟨hPut, written, hFiles, -⟩
      have hRest : rest = settingsFiles := by
        simpa [partway] using hPart
      have hNil : written = [] := by
        rw [hRest] at hFiles
        simpa using hFiles
      exact ⟨hPut, written, hFiles,
        Or.inr ⟨hStaged, Or.inl hNil⟩⟩
  | marking put' => exact ⟨hHolds.1, Or.inr hStaged⟩
  | answered restartRequired => exact Or.inr hStaged
  | _ => exact hHolds.elim

end Api

end Soteria

------------------------------------------------------------
-- The Steps of the Request and of the Others
------------------------------------------------------------

namespace Soteria

namespace Api

open Store

variable {cfg : Config}
variable {put : SettingsPut}
variable {w : Tracked}

/- A step that keeps the session keeps the record. -/
theorem staged_next_same
    {c c' : Client}
    (hHolds : PutHolds put w c)
    (hStaging :
      (c'.next cfg w.store).1.staging = w.store.staging)
    (hNone : stagedBy w.store c' = []) :
    (Tracked.next cfg w c').1.staged = w.staged := by
  simp only [Tracked.next, hNone, List.append_nil]
  cases hSession : w.store.staging with
  | none =>
      rw [hHolds.staged_nil hSession]
      split <;> rfl
  | some session =>
      rw [if_pos]
      rw [State.stagingActive, hStaging, hSession]
      rfl

/- Where the request is once it has staged another file. -/
theorem putHolds_afterWrite
    {written rest : List ManagedFile}
    (hFiles : settingsFiles = written ++ rest)
    (hHas : HasStaged put written w) :
    PutHolds put w (Client.afterWrite put rest) := by
  cases rest with
  | cons file rest => exact ⟨rfl, written, hFiles, Or.inl hHas⟩
  | nil =>
      rw [List.append_nil] at hFiles
      rw [← hFiles] at hHas
      simp only [Client.afterWrite]
      cases hNeeds : put.needsRestart with
      | true => exact ⟨rfl, Or.inl hHas⟩
      | false =>
          refine Or.inl ⟨hHas, ?_⟩
          rintro ⟨hRestart, -⟩
          rw [hNeeds] at hRestart
          cases hRestart

/- A step of the request that stages a file. -/
theorem putHolds_write
    {file : ManagedFile}
    {rest : List ManagedFile}
    (hHolds : PutHolds put w (.writing put (file :: rest)))
    (hFault : put.writeFault file = none ∨ w.staged = []) :
    PutHolds put
      (Tracked.next cfg w (.writing put (file :: rest))).1
      (Tracked.next cfg w (.writing put (file :: rest))).2 := by
  have hHolds' := hHolds
  rcases hHolds' with ⟨-, written, hFiles, hStaged⟩
  cases hWrite : writeStaged (put.writeFault file) file.path
      (put.contents file) w.store with
  | error error =>
      simp only [Tracked.next, Client.next, hWrite, stagedBy,
        List.append_nil]
      right
      show (if w.store.stagingActive then w.staged else []) =
        []
      cases hStaging : w.store.staging with
      | none => simp [State.stagingActive, hStaging]
      | some session =>
          rcases hFault with hFault | hNil
          · rw [writeStaged_ok_iff.mpr
              ⟨session, hStaging, hFault, rfl⟩] at hWrite
            cases hWrite
          · simp [hNil]
  | ok s' =>
      rcases writeStaged_ok_iff.mp hWrite with
        ⟨session, hStaging, -, hState⟩
      subst hState
      have hBefore :
          w.staged = written ∧ ∀ name ∈ written,
            session.files name = some (put.contents name) := by
        rcases hStaged with hHas | ⟨hNil, hFirst | hNone⟩
        · rcases hHas with ⟨hRecord, other, hOther, hEach⟩
          rw [hStaging] at hOther
          cases hOther
          exact ⟨hRecord, hEach⟩
        · rw [hFirst]
          exact ⟨hNil, by simp⟩
        · rw [hStaging] at hNone
          cases hNone
      simp only [Tracked.next, Client.next, hWrite, stagedBy]
      have hAll :
          settingsFiles = (written ++ [file]) ++ rest := by
        rw [List.append_assoc]
        exact hFiles
      refine putHolds_afterWrite hAll ?_
      · refine ⟨congrArg (· ++ [file]) hBefore.1,
          ⟨session.files.set file (put.contents file),
            session.needsRestart⟩, rfl, ?_⟩
        · intro name hName
          by_cases hHead : name = file
          · rw [hHead]
            exact FileTree.set_self ..
          · show FileTree.set session.files file _ name = _
            rw [FileTree.set_of_ne _ _ hHead]
            refine hBefore.2 name ?_
            simpa [hHead] using hName

/- The step of the request that marks the restart. -/
theorem putHolds_mark
    (hHolds : PutHolds put w (.marking put)) :
    PutHolds put (Tracked.next cfg w (.marking put)).1
      (Tracked.next cfg w (.marking put)).2 := by
  rcases hMark : markRestart put.markFault w.store with
    ⟨error, s'⟩
  cases error with
  | none =>
      rcases markRestart_ok_iff.mp hMark with ⟨-, hState⟩
      subst hState
      simp only [Tracked.next, Client.next, hMark, stagedBy,
        List.append_nil]
      rcases hHolds.2 with ⟨hRecord, session, hStaging, hEach⟩
        | hNil
      · refine Or.inl ⟨⟨hRecord,
          ⟨session.files, true⟩, ?_, hEach⟩, fun _ => rfl⟩
        rw [hStaging]
        rfl
      · exact Or.inr hNil
  | some error =>
      simp only [Tracked.next, Client.next, hMark, stagedBy,
        List.append_nil]
      rcases hHolds.2 with hHas | hNil
      · have hHas' := hHas
        rcases hHas' with ⟨-, session, hStaging, -⟩
        have hSame : s' = w.store := by
          unfold markRestart at hMark
          rw [hStaging] at hMark
          simp only [Option.isNone_some, Bool.false_and,
            Bool.false_eq_true, if_false] at hMark
          split at hMark
          · cases hMark
          · exact (Prod.mk.inj hMark).2.symm
        subst hSame
        rw [if_pos (by simp [State.stagingActive, hStaging])]
        refine Or.inl ⟨hHas, ?_⟩
        rintro ⟨-, hFault⟩
        rw [markRestart_ok_iff.mpr ⟨hFault, rfl⟩] at hMark
        cases hMark
      · right
        show (if s'.stagingActive then w.staged else []) = []
        rw [hNil]
        split <;> rfl

/- A step of the request. -/
theorem putHolds_self
    {c : Client}
    (hHolds : PutHolds put w c)
    (hFault : ∀ file rest, c = .writing put (file :: rest) →
      put.writeFault file = none ∨ w.staged = []) :
    PutHolds put (Tracked.next cfg w c).1
      (Tracked.next cfg w c).2 := by
  cases c with
  | writing put' rest =>
      have hPut : put' = put := hHolds.1
      subst hPut
      cases rest with
      | cons file rest =>
          exact putHolds_write hHolds (hFault file rest rfl)
      | nil =>
          have hSame :
              (Tracked.next cfg w (.writing put' [])).1.staged =
                w.staged :=
            staged_next_same hHolds rfl rfl
          have hAfter :
              PutHolds put'
                (Tracked.next cfg w (.writing put' [])).1
                (.writing put' []) :=
            hHolds.of_same rfl hSame
          rcases hAfter with
            ⟨-, written, hFiles, hHas | ⟨hNil, -⟩⟩
          · exact putHolds_afterWrite hFiles hHas
          · show PutHolds put' _ (Client.afterWrite put' [])
            simp only [Client.afterWrite]
            split
            · exact ⟨rfl, Or.inr hNil⟩
            · exact Or.inr hNil
  | marking put' =>
      have hPut : put' = put := hHolds.1
      subst hPut
      exact putHolds_mark hHolds
  | answered restartRequired =>
      exact hHolds.of_same rfl
        (staged_next_same hHolds rfl rfl)
  | _ => exact hHolds.elim

end Api

end Soteria

------------------------------------------------------------
-- Runs
------------------------------------------------------------

namespace Soteria

namespace Api

open Store

variable {cfg : Config}
variable {put : SettingsPut}
variable {w : Tracked}

/- What a call of another client does to the session. -/
theorem managesSession_staging
    {c : Client}
    (hClient : managesSession c = true)
    (s : State) :
    (c.next cfg s).1.staging = s.staging ∨
      (c.next cfg s).1.staging = none ∨
      (s.staging = none ∧
        ∃ now faults, c = .request now (.begin faults)) := by
  cases c with
  | request now op =>
      cases op with
      | begin faults =>
          cases hStaging : s.staging with
          | none => exact Or.inr (Or.inr ⟨rfl, now, faults, rfl⟩)
          | some session =>
              left
              simp only [Client.next, apply, beginStaging,
                hStaging]
      | discard => exact Or.inr (Or.inl rfl)
      | commit input =>
          rcases commit_staging cfg now input s with
            hSame | hNone
          · exact Or.inl hSame
          · exact Or.inr (Or.inl hNone)
      | _ => cases hClient
  | done => exact Or.inl rfl
  | _ => cases hClient

theorem managesSession_stagedBy
    {c : Client}
    (hClient : managesSession c = true)
    (s : State) :
    stagedBy s c = [] := by
  cases c with
  | writing => cases hClient
  | _ => rfl

theorem managesSession_next
    {c : Client}
    (hClient : managesSession c = true)
    (s : State) :
    managesSession (c.next cfg s).2 = true := by
  cases c with
  | request now op =>
      cases op with
      | begin => rfl
      | discard => rfl
      | commit => rfl
      | _ => cases hClient
  | done => rfl
  | _ => cases hClient

/- A step of another client. -/
theorem putHolds_other
    {c other : Client}
    (hHolds : PutHolds put w c)
    (hOther : managesSession other = true)
    (hOpens : ∀ now faults,
      other = .request now (.begin faults) →
        partway c = true → w.store.staging ≠ none) :
    PutHolds put (Tracked.next cfg w other).1 c := by
  have hBy := managesSession_stagedBy hOther w.store
  have hStaging :
      (other.next cfg w.store).1.staging = w.store.staging ∨
        (other.next cfg w.store).1.staging = none ∨
        (w.store.staging = none ∧
          ∃ now faults,
            other = .request now (.begin faults)) :=
    managesSession_staging hOther w.store
  rcases hStaging with
    hSame | hNone | ⟨hClosed, now, faults, hBegin⟩
  · exact hHolds.of_same hSame
      (staged_next_same hHolds hSame hBy)
  · refine hHolds.of_closed hNone ?_
    simp only [Tracked.next]
    rw [if_neg]
    rw [State.stagingActive, hNone]
    simp
  · have hPart : partway c = false := by
      by_contra hPartway
      rw [Bool.not_eq_false] at hPartway
      exact hOpens now faults hBegin hPartway hClosed
    refine hHolds.of_opened hPart ?_
    simp only [Tracked.next, hBy, List.append_nil,
      hHolds.staged_nil hClosed]
    split <;> rfl

/- The request is client 0, the others manage the session. -/
def Interleaved
    (put : SettingsPut)
    (p : TrackedClients) : Prop :=
  PutHolds put p.shared (p.threads 0) ∧
    ∀ i, i ≠ 0 → managesSession (p.threads i) = true

theorem interleaved_advance
    {p : TrackedClients}
    {i : Nat}
    (hBefore : Interleaved put p)
    (hLeaves : LeavesWhole cfg put p i) :
    Interleaved put (p.advance (Tracked.next cfg) i) := by
  rcases hBefore with ⟨hHolds, hOthers⟩
  by_cases hSelf : i = 0
  · subst hSelf
    constructor
    · rw [Threads.Pool.advance_shared,
        Threads.Pool.advance_self]
      refine putHolds_self hHolds ?_
      intro file rest hWriting
      unfold LeavesWhole at hLeaves
      rw [hWriting] at hLeaves
      exact hLeaves
    · intro j hNe
      rw [Threads.Pool.advance_of_ne _ hNe]
      exact hOthers j hNe
  · constructor
    · rw [Threads.Pool.advance_shared,
        Threads.Pool.advance_of_ne _ (Ne.symm hSelf)]
      refine putHolds_other hHolds (hOthers i hSelf) ?_
      intro now faults hBegin hPart
      unfold LeavesWhole at hLeaves
      rw [hBegin] at hLeaves
      exact hLeaves hPart
    · intro j hNe
      by_cases hStep : j = i
      · subst hStep
        rw [Threads.Pool.advance_self]
        exact managesSession_next (hOthers j hNe) _
      · rw [Threads.Pool.advance_of_ne _ hStep]
        exact hOthers j hNe

theorem commitsWhole_of_interleaved
    {p : TrackedClients}
    {i : Nat}
    (hBefore : Interleaved put p)
    (hLeaves : LeavesWhole cfg put p i) :
    CommitsWhole cfg put p i := by
  intro now input hCommit out
  rintro ⟨changed, hStaged, hChanged⟩
  unfold LeavesWhole at hLeaves
  rw [hCommit] at hLeaves
  rcases hLeaves with hSpares | hRejects | ⟨hAnswered, hApplies⟩
  · refine (hChanged (commit_live_kept ?_)).elim
    intro session hStaging
    exact hSpares session hStaging changed hStaged
  · rcases hRejects with
      ⟨hDev, hVerdict, hCopy, hRollback, hExist⟩
    exact (hChanged (commit_rejected_kept hDev hVerdict hCopy
      hRollback (hExist changed hStaged))).elim
  · rcases hApplies with ⟨hDiff, hCopy, hVerdict, hRestarts⟩
    have hHolds := hBefore.1
    cases hClient : p.threads 0 with
    | answered restartRequired =>
        rw [hClient] at hHolds
        rcases hHolds with ⟨hHas, hMarked⟩ | hNil
        · rcases hHas with ⟨-, session, hStaging, hEach⟩
          rcases commit_applied hDiff hCopy hVerdict
              hStaging with
            hSame | ⟨hFiles, hRestart⟩
          · exact (hChanged (congrFun hSame changed)).elim
          · constructor
            · intro file hFile
              exact hFiles file _ (hEach file hFile)
            · intro hAnswers
              have hPending := hMarked hAnswers
              rw [State.restartPending, hStaging] at hPending
              exact hRestart hPending (hRestarts hAnswers).1
                (hRestarts hAnswers).2
        · rw [hNil] at hStaged
          cases hStaged
    | _ =>
        rw [hClient] at hAnswered
        cases hAnswered

/-
  In every run in which the session is left alone while the
  request stages its files and marks the restart, a commit
  makes all of them live or none, and restarts if it must.
-/
theorem settings_commit_whole_of_run
    (cfg : Config)
    (put : SettingsPut)
    (start : TrackedClients)
    (schedule : List Nat)
    (hPut : start.threads 0 = .writing put settingsFiles)
    (hOthers : ∀ i, i ≠ 0 →
      managesSession (start.threads i) = true)
    (hStaged : start.shared.staged = [])
    (hLeaves :
      Transition.Along
        (Threads.Pool.advance (Tracked.next cfg))
        (LeavesWhole cfg put) start schedule) :
    Transition.Along
      (Threads.Pool.advance (Tracked.next cfg))
      (CommitsWhole cfg put) start schedule := by
  have hStart : Interleaved put start := by
    refine ⟨?_, hOthers⟩
    rw [hPut]
    exact ⟨rfl, [], rfl, Or.inr ⟨hStaged, Or.inl rfl⟩⟩
  refine Transition.Along.of_invariant
    (I := Interleaved put) ?_ ?_ hStart hLeaves
  · intro p i hBefore hStep
    exact interleaved_advance hBefore hStep
  · intro p i hBefore hStep
    exact commitsWhole_of_interleaved hBefore hStep

/- What a request for another port is about to stage. -/
def portPut : SettingsPut where
  contents :=
    settingsContents listenerSession.certs "port = 49\n"
      (listenerSettings "4949")
  needsRestart := true
  writeFault := fun _ => none
  markFault := none

/- That request and a client that commits. -/
def portClients : TrackedClients where
  shared := ⟨listenerSession.store, []⟩
  threads := fun i =>
    if i = 0 then .writing portPut settingsFiles
    else if i = 1 then .request 2 (.commit acceptedInput)
    else .done

theorem portClients_others (i : Nat) (hNe : i ≠ 0) :
    managesSession (portClients.threads i) = true := by
  simp only [portClients, if_neg hNe]
  split <;> rfl

/- The commit comes once the request is answered. -/
theorem settings_commit_whole_after :
    Transition.Along
      (Threads.Pool.advance (Tracked.next plainConfig))
      (CommitsWhole plainConfig portPut) portClients
      [0, 0, 0, 0, 0, 1] := by
  refine settings_commit_whole_of_run plainConfig portPut
    portClients _ rfl portClients_others rfl ?_
  refine ⟨Or.inl rfl, Or.inl rfl, Or.inl rfl, Or.inl rfl,
    trivial, ?_, trivial⟩
  exact Or.inr (Or.inr
    ⟨rfl, rfl, rfl, Or.inr rfl, fun _ => ⟨rfl, rfl⟩⟩)

/-
  A commit between the first write and the second makes one
  of the four files live; one between the last write and the
  mark makes all of them live and does not restart.
-/
theorem commit_splits_settings :
    Reached plainConfig portClients.shared.store ∧
      planSettings zoneEnvironment listenerSession.certs
          listenerSession.store
          (settingsRequest (listenerSettings "4949")) =
        .ok portPut ∧
      ¬Transition.Along
        (Threads.Pool.advance (Tracked.next plainConfig))
        (CommitsWhole plainConfig portPut) portClients
        [0, 1] ∧
      ¬Transition.Along
        (Threads.Pool.advance (Tracked.next plainConfig))
        (CommitsWhole plainConfig portPut) portClients
        [0, 0, 0, 0, 1] := by
  refine ⟨?_, rfl, ?_, ?_⟩
  · have hFresh : Reached plainConfig listenerStore :=
      ⟨_, [], ⟨rfl, rfl, rfl⟩, .refl _⟩
    exact hFresh.apply 1 (.begin .none)
  · rintro ⟨-, hCommit, -⟩
    have hWhole := hCommit 2 acceptedInput rfl
      ⟨.dns, List.mem_singleton_self _, by decide +kernel⟩
    have hMavis := hWhole.1 .mavis (by decide)
    exact absurd hMavis (by decide +kernel)
  · rintro ⟨-, -, -, -, hCommit, -⟩
    have hWhole := hCommit 2 acceptedInput rfl
      ⟨.dns, by decide, by decide +kernel⟩
    rcases hWhole.2 ⟨rfl, rfl⟩ with ⟨error, hSignal⟩
    cases hSignal

end Api

end Soteria
