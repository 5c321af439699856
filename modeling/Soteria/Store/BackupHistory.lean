import Soteria.Store.Commit

/-
  The life of a backup over whole runs of requests.

  A request that takes a snapshot writes into the backup of
  the current second. Where that backup is an earlier
  request's, its files are overwritten, and a rejected
  commit deletes it. Every other request leaves a backup
  alone, or prunes it with enough newer ones left.

  Main declarations:
    * `takesSnapshot`, `BackupEffect`
    * `apply_backupEffect`
    * `Reachable.stamps`
    * `Pruned`, `backup_kept_or_pruned`
-/

------------------------------------------------------------
-- The Effect of a Request on the Backups
------------------------------------------------------------

namespace Soteria

namespace Store

/- The request gets as far as taking a snapshot. -/
def takesSnapshot (s : State) : Op → Bool
| .commit input =>
    match s.staging with
    | some session =>
        changedFiles input.faults.diff s.live session.files !=
          []
    | none => false
| .restore _ id files =>
    !s.stagingActive && files.all isManaged &&
      (s.backups.get? id).isSome
| .restoreGolden _ => !s.stagingActive && s.golden.isSome
| _ => false

/-
  What the backups of `s'` are, given those of `s`: a request
  writes the backup of its second and may then delete that
  one, or prune.
-/
inductive BackupEffect
    (cfg : Config)
    (now : Nat)
    (op : Op)
    (s s' : State) : Prop
| same (hSame : s'.backups = s.backups)
| put
    (files : Tree)
    (hTakes : takesSnapshot s op = true)
    (hPut : s'.backups = s.backups.put now files)
| undone
    (files : Tree)
    (hTakes : takesSnapshot s op = true)
    (hUndone :
      s'.backups = (s.backups.put now files).remove now)
| putPruned
    (files : Tree)
    (hTakes : takesSnapshot s op = true)
    (hPruned :
      s'.backups =
        (s.backups.put now files).prune (retention cfg s'))
| pruned
    (hPruned :
      s'.backups = s.backups.prune (retention cfg s'))

variable {cfg : Config}
variable {now : Nat}
variable {s : State}

/- A snapshot leaves the backups alone or is put. -/
theorem BackupEffect.of_snapshot
    {op : Op}
    {faults : SnapshotFaults}
    {error : Option Text}
    {s' : State}
    (hTakes : takesSnapshot s op = true)
    (hSnapshot : snapshotLocked faults now s = (error, s')) :
    BackupEffect cfg now op s s' := by
  have hState : (snapshotLocked faults now s).2 = s' := by
    rw [hSnapshot]
  rcases snapshotLocked_cases faults now s with hSame | hPut
  · rw [hState] at hSame
    exact .same (congrArg State.backups hSame)
  · rw [hState] at hPut
    exact .put _ hTakes (congrArg State.backups hPut)

theorem commitStaging_backupEffect (input : CommitInput) :
    BackupEffect cfg now (.commit input) s
      (commitStaging cfg now input s).state := by
  have hTakes :
      ∀ session, s.staging = some session →
        changedFiles input.faults.diff s.live session.files ≠
          [] →
        takesSnapshot s (.commit input) = true := by
    intro session hStaging hChanged
    simp [takesSnapshot, hStaging, hChanged]
  have hResult := commitStaging_result cfg now input s
  generalize commitStaging cfg now input s = out at *
  cases hResult with
  | inactive => exact .same rfl
  | unchanged => exact .same rfl
  | backupFailed session _ _ hStaging hChanged hSnapshot =>
      exact .of_snapshot (hTakes session hStaging hChanged)
        hSnapshot
  | copyFailed session _ _ _ hStaging hChanged hSnapshot =>
      rcases snapshotLocked_put hSnapshot with ⟨files, rfl⟩
      exact .put files (hTakes session hStaging hChanged) rfl
  | devMode session _ _ hStaging hChanged hSnapshot =>
      rcases snapshotLocked_put hSnapshot with ⟨files, rfl⟩
      exact .putPruned files (hTakes session hStaging hChanged)
        rfl
  | rejected session _ _ _ _ _ hStaging hChanged hSnapshot =>
      rcases snapshotLocked_put hSnapshot with ⟨files, rfl⟩
      exact .undone files (hTakes session hStaging hChanged) rfl
  | applyFailed session _ _ _ _ hStaging hChanged hSnapshot =>
      rcases snapshotLocked_put hSnapshot with ⟨files, rfl⟩
      exact .put files (hTakes session hStaging hChanged) rfl
  | committed session _ _ _ hStaging hChanged hSnapshot =>
      rcases snapshotLocked_put hSnapshot with ⟨files, rfl⟩
      exact .putPruned files (hTakes session hStaging hChanged)
        rfl

/- Both restores take a snapshot and never delete it. -/
theorem RestoreResult.backupEffect
    {op : Op}
    {input : RestoreInput}
    {source : State → Tree}
    {files : List ManagedFile}
    {out : Outcome RestoreError}
    (hTakes : takesSnapshot s op = true)
    (hResult :
      RestoreResult cfg now input source files s out) :
    BackupEffect cfg now op s out.state := by
  cases hResult with
  | snapshotFailed _ _ hSnapshot =>
      exact .of_snapshot hTakes hSnapshot
  | copyFailed _ _ _ hSnapshot =>
      rcases snapshotLocked_put hSnapshot with ⟨saved, rfl⟩
      exact .put saved hTakes rfl
  | devMode _ _ hSnapshot =>
      rcases snapshotLocked_put hSnapshot with ⟨saved, rfl⟩
      exact .putPruned saved hTakes rfl
  | rejected _ _ _ _ _ hSnapshot =>
      rcases snapshotLocked_put hSnapshot with ⟨saved, rfl⟩
      exact .put saved hTakes rfl
  | reloadFailed _ _ _ hSnapshot =>
      rcases snapshotLocked_put hSnapshot with ⟨saved, rfl⟩
      exact .put saved hTakes rfl
  | restored _ _ hSnapshot =>
      rcases snapshotLocked_put hSnapshot with ⟨saved, rfl⟩
      exact .putPruned saved hTakes rfl

theorem restore_backupEffect
    (input : RestoreInput)
    (id : Nat)
    (files : List Text) :
    BackupEffect cfg now (.restore input id files) s
      (restore cfg now input id files s).state := by
  unfold restore
  split
  · exact .same rfl
  · rename_i hSession
    split
    · exact .same rfl
    · rename_i hManaged
      split
      · exact .same rfl
      · rename_i hBackup
        have hAll : files.all isManaged = true := by
          rw [List.find?_eq_none] at hManaged
          rw [List.all_eq_true]
          intro rel hRel
          simpa using hManaged rel hRel
        have hTakes :
            takesSnapshot s (.restore input id files) =
              true := by
          simp only [takesSnapshot, hAll]
          simpa [Option.isSome_iff_ne_none] using
            And.intro hSession hBackup
        exact (restoreFrom_result ..).backupEffect hTakes

theorem restoreGolden_backupEffect (input : RestoreInput) :
    BackupEffect cfg now (.restoreGolden input) s
      (restoreGolden cfg now input s).state := by
  unfold restoreGolden
  split
  · exact .same rfl
  · rename_i hSession
    split
    · exact .same rfl
    · rename_i golden hGolden
      have hTakes :
          takesSnapshot s (.restoreGolden input) = true := by
        simp [takesSnapshot, hGolden, hSession]
      exact (restoreFrom_result ..).backupEffect hTakes

theorem apply_backupEffect (op : Op) :
    BackupEffect cfg now op s (apply cfg now s op) := by
  cases op with
  | begin faults =>
      rcases beginStaging_staging faults s with ⟨_, hEq⟩
      apply BackupEffect.same
      show (beginStaging faults s).2.backups = s.backups
      rw [hEq]
  | discard => exact .same rfl
  | write fault rel content =>
      rcases writeStaged_staging fault rel content s with
        ⟨_, hEq⟩
      apply BackupEffect.same
      show (orSame s _).backups = s.backups
      rw [hEq]
  | markRestart fault =>
      rcases markRestart_staging fault s with ⟨_, hEq⟩
      apply BackupEffect.same
      show (markRestart fault s).2.backups = s.backups
      rw [hEq]
  | commit input => exact commitStaging_backupEffect input
  | restore input id files =>
      exact restore_backupEffect input id files
  | saveGolden faults =>
      rcases saveGolden_golden faults s with ⟨_, hEq⟩
      apply BackupEffect.same
      show (saveGolden faults s).2.backups = s.backups
      rw [hEq]
  | restoreGolden input => exact restoreGolden_backupEffect input
  | setRetention fault count =>
      rcases setRetention_cases cfg fault count s with
        hSame | ⟨_, hSet⟩
      · exact .same (congrArg State.backups hSame)
      · apply BackupEffect.pruned
        show (orSame s _).backups =
          s.backups.prune (retention cfg (orSame s _))
        rw [hSet]
        rfl

end Store

end Soteria

------------------------------------------------------------
-- The Stamps of the Backups
------------------------------------------------------------

namespace Soteria

namespace Store

/- No backup is of a second after `clock`. -/
def StampsUpTo (clock : Nat) (s : State) : Prop :=
  ∀ e ∈ s.backups.entries, e.1 ≤ clock

variable {cfg : Config}
variable {now : Nat}
variable {op : Op}
variable {s s' : State}

theorem StampsUpTo.put
    {files : Tree}
    (hStamps : StampsUpTo now s) :
    ∀ e ∈ (s.backups.put now files).entries, e.1 ≤ now := by
  intro e he
  rcases Archive.fst_mem_putEntry he with hNow | hOld
  · exact Nat.le_of_eq hNow
  · exact hStamps e hOld

theorem BackupEffect.stamps
    (hEffect : BackupEffect cfg now op s s')
    (hStamps : StampsUpTo now s) :
    StampsUpTo now s' := by
  intro e he
  cases hEffect with
  | same hSame =>
      rw [hSame] at he
      exact hStamps e he
  | put files _ hPut =>
      rw [hPut] at he
      exact hStamps.put e he
  | undone files _ hUndone =>
      rw [hUndone] at he
      exact hStamps.put e (List.mem_of_mem_filter he)
  | putPruned files _ hPruned =>
      rw [hPruned] at he
      exact hStamps.put e (List.mem_of_mem_drop he)
  | pruned hPruned =>
      rw [hPruned] at he
      exact hStamps e (List.mem_of_mem_drop he)

/- Backups are never of a second still to come. -/
theorem Reachable.stamps
    {t : Timed}
    (hReachable : Reachable cfg t) :
    StampsUpTo t.clock t.store := by
  rcases hReachable with ⟨start, labels, hFresh, hRun⟩
  have hStart : StampsUpTo start.clock start.store := by
    intro e he
    rw [hFresh.2.1] at he
    cases he
  have hKeep :
      ∀ u label u', StampsUpTo u.clock u.store →
        Step cfg u label u' →
          StampsUpTo u'.clock u'.store := by
    rintro u label _ hStamps ⟨hNow, rfl⟩
    apply (apply_backupEffect label.op).stamps
    intro e he
    exact Nat.le_trans (hStamps e he) hNow
  exact hRun.invariant hKeep hStart

end Store

end Soteria

------------------------------------------------------------
-- Backups over Whole Runs
------------------------------------------------------------

namespace Soteria

namespace Store

open Transition (Run Guarded)

/-
  The condition on a request: if it takes a snapshot, the
  current second has no backup yet.
-/
def FreshSecond (t : Timed) (label : Label) : Prop :=
  takesSnapshot t.store label.op = true →
    t.store.backups.get? label.now = none

/-
  A backup is gone, with as many newer ones left as are to
  be kept.
-/
def Pruned (cfg : Config) (id : Nat) (s : State) : Prop :=
  s.backups.get? id = none ∧
    retention cfg s ≤ s.backups.newer id

variable {cfg : Config}

/- One request keeps a backup as it is, or prunes it. -/
theorem BackupEffect.kept_or_pruned
    {now id : Nat}
    {op : Op}
    {s s' : State}
    {files : Tree}
    (hEffect : BackupEffect cfg now op s s')
    (hFresh :
      takesSnapshot s op = true → s.backups.get? now = none)
    (hSome : s.backups.get? id = some files) :
    s'.backups.get? id = some files ∨ Pruned cfg id s' := by
  have hNe : takesSnapshot s op = true → id ≠ now := by
    rintro hTakes rfl
    rw [hFresh hTakes] at hSome
    cases hSome
  cases hEffect with
  | same hSame =>
      left
      rw [hSame]
      exact hSome
  | put saved hTakes hPut =>
      left
      rw [hPut, Archive.get?_put_of_ne _ _ (hNe hTakes)]
      exact hSome
  | undone saved hTakes hUndone =>
      left
      rw [hUndone, Archive.get?_remove_of_ne _ (hNe hTakes),
        Archive.get?_put_of_ne _ _ (hNe hTakes)]
      exact hSome
  | putPruned saved hTakes hPruned =>
      have hPut :
          (s.backups.put now saved).get? id = some files := by
        rw [Archive.get?_put_of_ne _ _ (hNe hTakes)]
        exact hSome
      unfold Pruned
      rw [hPruned]
      exact Archive.get?_prune_cases (retention cfg s') hPut
  | pruned hPruned =>
      unfold Pruned
      rw [hPruned]
      exact Archive.get?_prune_cases (retention cfg s') hSome

/-
  Over every run whose snapshots are each taken in a second
  of their own, a backup keeps its files until a request of
  the run prunes it, with enough newer ones left.
-/
theorem backup_kept_or_pruned
    (cfg : Config)
    (t t' : Timed)
    (labels : List Label)
    (hRun : Run (Guarded FreshSecond (Step cfg)) t labels t')
    (id : Nat)
    (files : Tree)
    (hSome : t.store.backups.get? id = some files) :
    t'.store.backups.get? id = some files ∨
      ∃ before label after u u',
        labels = before ++ label :: after ∧
        Run (Step cfg) t before u ∧
        Step cfg u label u' ∧
        Run (Step cfg) u' after t' ∧
        u.store.backups.get? id = some files ∧
        Pruned cfg id u'.store := by
  induction hRun with
  | refl => exact Or.inl hSome
  | @tail u u' labels label hRun hStep ih =>
      rcases hStep with ⟨hFresh, hStep⟩
      rcases ih with hKept |
        ⟨before, other, after, v, v', rfl, hBefore, hOther,
          hAfter, hHad, hPruned⟩
      · have hEffect :
            BackupEffect cfg label.now label.op u.store
              u'.store := by
          rw [hStep.2]
          exact apply_backupEffect label.op
        rcases hEffect.kept_or_pruned hFresh hKept with
          hStill | hPruned
        · exact Or.inl hStill
        · exact Or.inr
            ⟨labels, label, [], u, u', rfl, hRun.of_guarded,
              hStep, .refl _, hKept, hPruned⟩
      · refine Or.inr
          ⟨before, other, after ++ [label], v, v', ?_, hBefore,
            hOther, hAfter.tail hStep, hHad, hPruned⟩
        simp

/- A commit that meets no failure. -/
def acceptedInput : CommitInput where
  faults := .none
  verdict := ⟨"", none⟩
  signalError := none

/- The directory after the overrides are committed. -/
def committedStore : State :=
  apply plainConfig 1 overrideStore (.commit acceptedInput)

theorem committedStore_reachable :
    Reachable plainConfig ⟨committedStore, 1⟩ :=
  overrideStore_reachable.apply (Nat.le_refl 1)
    (.commit acceptedInput)

/- A second session then edits the overrides again. -/
def recommitStore : State :=
  apply plainConfig 1
    (apply plainConfig 1 committedStore (.begin .none))
    (.write none "agent-overrides.env" "TACACS_DEBUG=2")

theorem recommitStore_reachable :
    Reachable plainConfig ⟨recommitStore, 1⟩ :=
  (committedStore_reachable.apply (Nat.le_refl 1)
    (.begin .none)).apply (Nat.le_refl 1)
      (.write none "agent-overrides.env" "TACACS_DEBUG=2")

theorem backup_kept_next_second :
    (apply plainConfig 2 recommitStore
        (.commit rejectedInput)).backups.get? 1 =
        some plainStore.live ∨
      ∃ before label after u u',
        [⟨2, .commit rejectedInput⟩] =
          before ++ label :: after ∧
        Run (Step plainConfig) ⟨recommitStore, 1⟩ before u ∧
        Step plainConfig u label u' ∧
        Run (Step plainConfig) u' after
          ⟨apply plainConfig 2 recommitStore
            (.commit rejectedInput), 2⟩ ∧
        u.store.backups.get? 1 = some plainStore.live ∧
        Pruned plainConfig 1 u'.store := by
  have hStep :
      Guarded FreshSecond (Step plainConfig)
        ⟨recommitStore, 1⟩ ⟨2, .commit rejectedInput⟩
        ⟨apply plainConfig 2 recommitStore
          (.commit rejectedInput), 2⟩ :=
    ⟨fun _ => rfl, Nat.le_succ 1, rfl⟩
  have hSome :
      recommitStore.backups.get? 1 = some plainStore.live := by
    refine congrArg some (funext fun file => ?_)
    cases file <;> rfl
  exact backup_kept_or_pruned plainConfig
    ⟨recommitStore, 1⟩ _ _ (.single hStep) 1 _ hSome

/-
  A rejected commit in the second of an accepted one deletes
  the accepted commit's backup.
-/
theorem rejected_commit_deletes_backup :
    Reachable plainConfig ⟨recommitStore, 1⟩ ∧
      Step plainConfig ⟨recommitStore, 1⟩
        ⟨1, .commit rejectedInput⟩
        ⟨apply plainConfig 1 recommitStore
          (.commit rejectedInput), 1⟩ ∧
      (recommitStore.backups.get? 1).isSome = true ∧
      (apply plainConfig 1 recommitStore
        (.commit rejectedInput)).backups.get? 1 = none ∧
      ¬ Pruned plainConfig 1
        (apply plainConfig 1 recommitStore
          (.commit rejectedInput)) := by
  refine ⟨recommitStore_reachable, ⟨Nat.le_refl 1, rfl⟩, rfl,
    rfl, ?_⟩
  rintro ⟨_, hNewer⟩
  exact absurd hNewer (by decide)

end Store

end Soteria
