import Soteria.Store.Rollback

/-
  What a restore does to the live files and to the server.

  Restoring a backup and restoring the golden config are one
  pipeline over different sources, behind a check that is
  made before the mutex is taken. A rejected restore copies
  its own snapshot back, which holds exactly the live files
  of before. A successful one always signals a reload, also
  where it changed a file that only a restart applies.

  Main declarations:
    * `RestoreRequest`, `RestoreRequest.serve`
    * `RestoreRequest.check`, `RestoreRequest.locked`
    * `serve_eq`
    * `serve_cases`, `serve_succeeded`
    * `restore_rejected_noop`
    * `restore_restarts_iff`
-/

------------------------------------------------------------
-- Restore Requests
------------------------------------------------------------

namespace Soteria

namespace Store

/- The requests that restore files. -/
inductive RestoreRequest where
  | backup (id : Nat) (files : List Text)
  | golden

namespace RestoreRequest

/- Serve a request at clock second `now`. -/
def serve
    (cfg : Config)
    (now : Nat)
    (input : RestoreInput)
    (s : State) : RestoreRequest → Outcome RestoreError
| .backup id files => restore cfg now input id files s
| .golden => restoreGolden cfg now input s

/- The files a request copies. -/
def files : RestoreRequest → List ManagedFile
| .backup _ files =>
    if files = [] then managedFiles
    else files.filterMap (fileOfPath managedFiles)
| .golden => managedFiles

/- The directory a request copies them from. -/
def source (s : State) : RestoreRequest → Tree
| .backup id _ => s.backup id
| .golden => s.golden.getD FileTree.empty

/-
  The contents a request copies: its snapshot comes first, so
  the backup of the current second then holds the live files.
-/
def copied (now : Nat) (s : State) : RestoreRequest → Tree
| .backup id _ => if id = now then s.live else s.backup id
| .golden => s.golden.getD FileTree.empty

end RestoreRequest

end Store

end Soteria

------------------------------------------------------------
-- The Two Steps of a Restore
------------------------------------------------------------

namespace Soteria

namespace Store

namespace RestoreRequest

/- What a restore checks before it takes the mutex. -/
def check (s : State) :
    RestoreRequest → Option RestoreError
| .backup _ files =>
    if s.stagingActive then some .sessionOpen
    else
      (files.find? fun rel => !isManaged rel).map
        RestoreError.notManaged
| .golden =>
    if s.stagingActive then some .sessionOpen else none

/- What it does under the mutex. -/
def locked
    (cfg : Config)
    (now : Nat)
    (input : RestoreInput)
    (s : State)
    (r : RestoreRequest) : Outcome RestoreError :=
  match r with
  | .backup id _ =>
      if (s.backups.get? id).isNone then
        ⟨"", some .notFound, s, none⟩
      else
        restoreFrom cfg now input (fun s => s.backup id)
          r.files s
  | .golden =>
      match s.golden with
      | none => ⟨"", some .notFound, s, none⟩
      | some baseline =>
          restoreFrom cfg now input (fun _ => baseline)
            r.files s

end RestoreRequest

/- With nothing in between, the two steps are the request. -/
theorem serve_eq
    (cfg : Config)
    (now : Nat)
    (input : RestoreInput)
    (s : State)
    (r : RestoreRequest) :
    r.serve cfg now input s =
      match r.check s with
      | some error => ⟨"", some error, s, none⟩
      | none => r.locked cfg now input s := by
  cases r with
  | backup id files =>
      simp only [RestoreRequest.serve, restore,
        RestoreRequest.check, RestoreRequest.locked]
      by_cases hSession : s.stagingActive = true
      · simp only [hSession, if_true]
      · simp only [if_neg hSession]
        cases files.find? fun rel => !isManaged rel with
        | none => rfl
        | some rel => rfl
  | golden =>
      simp only [RestoreRequest.serve, restoreGolden,
        RestoreRequest.check, RestoreRequest.locked]
      by_cases hSession : s.stagingActive = true
      · simp only [hSession, if_true]
      · simp only [if_neg hSession]
        rfl

end Store

end Soteria

------------------------------------------------------------
-- What a Request Does
------------------------------------------------------------

namespace Soteria

namespace Store

variable {cfg : Config}
variable {now : Nat}
variable {input : RestoreInput}
variable {s : State}

/- The check refuses a request before anything is validated. -/
theorem check_ne_rejected
    {r : RestoreRequest}
    {error : RestoreError}
    (hCheck : r.check s = some error) :
    ∀ message, error ≠ .rejected message := by
  rintro message rfl
  cases r with
  | backup id files =>
      simp only [RestoreRequest.check] at hCheck
      split at hCheck
      · cases hCheck
      · rcases Option.map_eq_some_iff.mp hCheck with
          ⟨rel, _, hError⟩
        cases hError
  | golden =>
      simp only [RestoreRequest.check] at hCheck
      split at hCheck
      · cases hCheck
      · cases hCheck

/- A request is refused, or runs the pipeline of both. -/
theorem serve_cases
    (cfg : Config)
    (now : Nat)
    (input : RestoreInput)
    (s : State)
    (r : RestoreRequest) :
    (∃ error,
      (∀ message, error ≠ .rejected message) ∧
        r.serve cfg now input s = ⟨"", some error, s, none⟩) ∨
      ∃ source,
        r.serve cfg now input s =
            restoreFrom cfg now input source r.files s ∧
          ∀ backups,
            source { s with backups := backups } =
              r.source { s with backups := backups } := by
  rw [serve_eq]
  cases hCheck : r.check s with
  | some error =>
      exact Or.inl ⟨error, check_ne_rejected hCheck, rfl⟩
  | none =>
      cases r with
      | backup id files =>
          simp only [RestoreRequest.locked]
          split
          · exact Or.inl ⟨_, by simp, rfl⟩
          · exact Or.inr
              ⟨fun s => s.backup id, rfl, fun _ => rfl⟩
      | golden =>
          simp only [RestoreRequest.locked]
          split
          · exact Or.inl ⟨_, by simp, rfl⟩
          · rename_i golden hGolden
            refine Or.inr ⟨fun _ => golden, rfl, fun _ => ?_⟩
            simp [RestoreRequest.source, hGolden]

/- What is copied adds no file to the live ones. -/
theorem copied_within
    (now : Nat)
    (hCovered : Covered s)
    (r : RestoreRequest) :
    FileTree.Within (r.copied now s) s.live := by
  cases r with
  | backup id files =>
      simp only [RestoreRequest.copied]
      split
      · exact FileTree.Within.refl _
      · exact hCovered.backup id
  | golden =>
      simp only [RestoreRequest.copied]
      cases hGolden : s.golden with
      | none => exact FileTree.Within.empty _
      | some golden => exact hCovered.golden golden hGolden

/- The source as the pipeline reads it, after a snapshot. -/
theorem source_after_snapshot
    (now : Nat)
    (s : State)
    (r : RestoreRequest) :
    r.source { s with backups := s.backups.put now s.live } =
      r.copied now s := by
  cases r with
  | backup id files =>
      simp only [RestoreRequest.source, RestoreRequest.copied,
        State.backup]
      split
      · rename_i hNow
        subst hNow
        rw [Archive.get?_put_self]
        rfl
      · rename_i hNow
        rw [Archive.get?_put_of_ne _ _ hNow]
  | golden => rfl

/-
  A snapshot and copy loop that went through: the state and
  the live files a restore has before it validates them.
-/
theorem restore_copied
    {source : State → Tree}
    {r : RestoreRequest}
    {s' : State}
    {live : Tree}
    (hCovered : Covered s)
    (hSource : ∀ backups,
      source { s with backups := backups } =
        r.source { s with backups := backups })
    (hSnapshot :
      snapshotLocked input.faults.snapshot now s = (none, s'))
    (hCopy :
      FileTree.copyExisting input.faults.copy (source s')
        r.files s'.live = (live, none)) :
    s' = { s with backups := s.backups.put now s.live } ∧
      ∀ file, live file =
        if file ∈ r.files then
          (r.copied now s file).or (s.live file)
        else s.live file := by
  rw [hCovered.snapshot_eq hSnapshot] at hCopy ⊢
  rw [hSource, source_after_snapshot] at hCopy
  exact ⟨rfl, FileTree.copyExisting_of_ok hCopy⟩

/- What a restore that succeeds outside dev mode did. -/
theorem serve_succeeded
    {r : RestoreRequest}
    (hCovered : Covered s)
    (hDev : cfg.devMode = false)
    (hOk : (r.serve cfg now input s).error = none) :
    (r.serve cfg now input s).signal = some (.reload, none) ∧
      ∀ file, (r.serve cfg now input s).state.live file =
        if file ∈ r.files then
          (r.copied now s file).or (s.live file)
        else s.live file := by
  rcases serve_cases cfg now input s r with
    ⟨error, _, hRefused⟩ | ⟨source, hServe, hSource⟩
  · rw [hRefused] at hOk
    cases hOk
  · rw [hServe] at hOk ⊢
    have hResult :=
      restoreFrom_result cfg now input source r.files s
    generalize restoreFrom cfg now input source r.files s = out
      at *
    cases hResult with
    | devMode _ _ _ _ hOn =>
        rw [hDev] at hOn
        cases hOn
    | restored s' live hSnapshot hCopy =>
        rcases restore_copied hCovered hSource hSnapshot
            hCopy with
          ⟨rfl, hLive⟩
        exact ⟨rfl, hLive⟩
    | rejected _ _ _ _ rollback =>
        cases rollback <;> cases hOk
    | _ => cases hOk

end Store

end Soteria

------------------------------------------------------------
-- Rejected Restores
------------------------------------------------------------

namespace Soteria

namespace Store

variable {cfg : Config}
variable {now : Nat}
variable {input : RestoreInput}
variable {s : State}

/-
  Copying the snapshot back over the files a restore wrote
  gives the live files of before: no file is new, since a
  backup only has files that exist.
-/
theorem rollback_exact
    {r : RestoreRequest}
    {faults : Faults}
    {live rolledBack : Tree}
    (hCovered : Covered s)
    (hLive : ∀ file, live file =
      if file ∈ r.files then
        (r.copied now s file).or (s.live file)
      else s.live file)
    (hRollback :
      FileTree.copyExisting faults s.live managedFiles live =
        (rolledBack, none)) :
    rolledBack = s.live := by
  funext file
  rw [FileTree.copyExisting_of_ok hRollback,
    if_pos (mem_managedFiles file)]
  cases hFile : s.live file with
  | some content => rfl
  | none =>
      have hNone := copied_within now hCovered r file hFile
      rw [Option.none_or, hLive file, hNone, hFile]
      simp

/-
  A restore of any backup, of any list of files, or of the
  golden config, that the validator rejects leaves every
  live file as it was.
-/
theorem restore_rejected_noop
    (cfg : Config)
    (t : Timed)
    (now : Nat)
    (input : RestoreInput)
    (r : RestoreRequest)
    (message : Text)
    (hReachable : Reachable cfg t)
    (hRejected :
      (r.serve cfg now input t.store).error =
        some (.rejected message)) :
    (r.serve cfg now input t.store).state.live =
      t.store.live := by
  have hCovered := hReachable.covered
  rcases serve_cases cfg now input t.store r with
    ⟨error, hOther, hRefused⟩ | ⟨source, hServe, hSource⟩
  · rw [hRefused] at hRejected
    exact (hOther message (Option.some.inj hRejected)).elim
  · rw [hServe] at hRejected ⊢
    have hResult :=
      restoreFrom_result cfg now input source r.files t.store
    generalize
      restoreFrom cfg now input source r.files t.store = out
      at *
    cases hResult with
    | rejected s' live rolledBack error rollback hSnapshot
        hCopy _ _ hRollback =>
        rcases restore_copied hCovered hSource hSnapshot
            hCopy with
          ⟨rfl, hLive⟩
        cases rollback with
        | some fault => cases hRejected
        | none =>
            simp only [State.backup, Archive.get?_put_self,
              Option.getD_some] at hRollback
            exact rollback_exact hCovered hLive hRollback
    | _ => cases hRejected

/- A restore that meets no failure but a rejection. -/
def rejectedRestore : RestoreInput where
  faults := .none
  verdict := ⟨"", some "syntax error"⟩
  signalError := none

theorem recommittedStore_reachable :
    Reachable plainConfig ⟨recommittedStore, 2⟩ :=
  recommitStore_reachable.apply (Nat.le_succ 1)
    (.commit acceptedInput)

theorem restore_rejected_noop_overrides :
    ((RestoreRequest.backup 2
        ["agent-overrides.env"]).serve plainConfig 3
          rejectedRestore recommittedStore).state.live =
      recommittedStore.live :=
  restore_rejected_noop plainConfig ⟨recommittedStore, 2⟩ 3
    rejectedRestore (.backup 2 ["agent-overrides.env"])
    "syntax error" recommittedStore_reachable rfl

end Store

end Soteria

------------------------------------------------------------
-- Restores of Files That Need a Restart
------------------------------------------------------------

namespace Soteria

namespace Store

/-
  Each restored file that only a restart applies is live
  with the restored content already.
-/
def KeepsRestartFiles
    (now : Nat)
    (s : State)
    (r : RestoreRequest) : Prop :=
  ∀ file ∈ r.files, restartFile file = true →
    ∀ content, r.copied now s file = some content →
      s.live file = some content

/-
  A successful restore outside dev mode restarts the server
  whenever it changed a restart file exactly when it changed
  none of them: it only ever sends a reload.
-/
theorem restore_restarts_iff
    (cfg : Config)
    (s : State)
    (now : Nat)
    (input : RestoreInput)
    (r : RestoreRequest)
    (hReached : Reached cfg s)
    (hDev : cfg.devMode = false)
    (hOk : (r.serve cfg now input s).error = none) :
    ((∃ file, restartFile file = true ∧
        (r.serve cfg now input s).state.live file ≠
          s.live file) →
      (r.serve cfg now input s).signal =
        some (.restart, none)) ↔
      KeepsRestartFiles now s r := by
  rcases serve_succeeded hReached.covered hDev hOk with
    ⟨hSignal, hLive⟩
  constructor
  · intro hRestarts file hFile hRestart content hContent
    by_contra hNe
    have hChanged :
        (r.serve cfg now input s).state.live file ≠
          s.live file := by
      rw [hLive file, if_pos hFile, hContent]
      exact fun hSame => hNe hSame.symm
    have hSent := hRestarts ⟨file, hRestart, hChanged⟩
    rw [hSignal] at hSent
    cases hSent
  · rintro hKeeps ⟨file, hRestart, hChanged⟩
    refine (hChanged ?_).elim
    rw [hLive file]
    split
    · rename_i hFile
      cases hContent : r.copied now s file with
      | none => rfl
      | some content =>
          rw [hKeeps file hFile hRestart content hContent]
          rfl
    · rfl

theorem restore_restarts_main :
    ((∃ file, restartFile file = true ∧
        ((RestoreRequest.backup 2
          ["tac_plus-ng.cfg"]).serve plainConfig 3
            cleanRestore recommittedStore).state.live file ≠
          recommittedStore.live file) →
      ((RestoreRequest.backup 2
        ["tac_plus-ng.cfg"]).serve plainConfig 3
          cleanRestore recommittedStore).signal =
        some (.restart, none)) ↔
      KeepsRestartFiles 3 recommittedStore
        (.backup 2 ["tac_plus-ng.cfg"]) :=
  restore_restarts_iff plainConfig recommittedStore 3
    cleanRestore (.backup 2 ["tac_plus-ng.cfg"])
    recommittedStore_reachable.reached rfl rfl

/- Restoring the whole backup brings old overrides back. -/
theorem restore_reloads_overrides :
    Reached plainConfig recommittedStore ∧
      restartFile .overrides = true ∧
      ((RestoreRequest.backup 2 []).serve plainConfig 3
        cleanRestore recommittedStore).error = none ∧
      recommittedStore.live .overrides =
        some "TACACS_DEBUG=2" ∧
      ((RestoreRequest.backup 2 []).serve plainConfig 3
        cleanRestore recommittedStore).state.live .overrides =
          some "TACACS_DEBUG=1" ∧
      ((RestoreRequest.backup 2 []).serve plainConfig 3
        cleanRestore recommittedStore).signal =
          some (.reload, none) :=
  ⟨recommittedStore_reachable.reached, rfl, rfl, rfl, rfl,
    rfl⟩

end Store

end Soteria
