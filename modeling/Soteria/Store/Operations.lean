import Soteria.Foundation.Transition
import Soteria.Store.Restore

/-
  The store as a transition system: one step per request,
  each at a clock second that never goes back.

  Every request holds the store's mutex while it touches the
  directory, so whole requests are the steps of this system.

  Key definitions include:
    * `Op`, `apply`
    * `Step`, `Reachable`, `Reached`
    * `Covered`
-/

------------------------------------------------------------
-- Requests
------------------------------------------------------------

namespace Soteria

namespace Store

/- The requests that write to the config directory. -/
inductive Op where
  | begin (faults : BeginFaults)
  | discard
  | write (fault : Option Text) (rel content : Text)
  | markRestart (fault : Option (Text × Bool))
  | commit (input : CommitInput)
  | restore (input : RestoreInput) (id : Nat)
      (files : List Text)
  | saveGolden (faults : GoldenFaults)
  | restoreGolden (input : RestoreInput)
  | setRetention (fault : Option Text) (count : Int)

/- The directory after a request at clock second `now`. -/
def apply (cfg : Config) (now : Nat) (s : State) :
    Op → State
| .begin faults => (beginStaging faults s).2
| .discard => discardStaging s
| .write fault rel content =>
    orSame s (writeStaged fault rel content s)
| .markRestart fault => (markRestart fault s).2
| .commit input => (commitStaging cfg now input s).state
| .restore input id files =>
    (restore cfg now input id files s).state
| .saveGolden faults => (saveGolden faults s).2
| .restoreGolden input =>
    (restoreGolden cfg now input s).state
| .setRetention fault count =>
    orSame s (setRetention cfg fault count s)

/- The directory together with the clock. -/
structure Timed where
  store : State
  clock : Nat

/- A request with the second it is served in. -/
structure Label where
  now : Nat
  op : Op

/- One request, at a second not before the last one. -/
def Step (cfg : Config) (t : Timed) (l : Label)
    (t' : Timed) : Prop :=
  t.clock ≤ l.now ∧
    t' = ⟨apply cfg l.now t.store l.op, l.now⟩

/- No session, no backups and no golden config yet. -/
def Fresh (s : State) : Prop :=
  s.staging = none ∧ s.backups = .empty ∧ s.golden = none

/- The states requests lead to from a fresh directory. -/
def Reachable (cfg : Config) (t : Timed) : Prop :=
  ∃ start labels, Fresh start.store ∧
    Transition.Run (Step cfg) start labels t

/- One request, whatever the clock reads. -/
def Serves (cfg : Config) (s : State) (l : Label)
    (s' : State) : Prop :=
  s' = apply cfg l.now s l.op

/- The states requests lead to, also if the clock goes back. -/
def Reached (cfg : Config) (s : State) : Prop :=
  ∃ start labels, Fresh start ∧
    Transition.Run (Serves cfg) start labels s

theorem Reached.apply
    {cfg : Config}
    {s : State}
    (hReached : Reached cfg s)
    (now : Nat)
    (op : Op) :
    Reached cfg (Store.apply cfg now s op) := by
  rcases hReached with ⟨start, labels, hFresh, hRun⟩
  have hServes :
      Serves cfg s ⟨now, op⟩ (Store.apply cfg now s op) := rfl
  exact ⟨start, _, hFresh, hRun.tail hServes⟩

theorem Reachable.apply
    {cfg : Config}
    {t : Timed}
    {now : Nat}
    (hReachable : Reachable cfg t)
    (hNow : t.clock ≤ now)
    (op : Op) :
    Reachable cfg ⟨Store.apply cfg now t.store op, now⟩ := by
  rcases hReachable with ⟨start, labels, hFresh, hRun⟩
  have hStep :
      Step cfg t ⟨now, op⟩
        ⟨Store.apply cfg now t.store op, now⟩ :=
    ⟨hNow, rfl⟩
  exact ⟨start, _, hFresh, hRun.tail hStep⟩

end Store

end Soteria

------------------------------------------------------------
-- What Every Request Keeps
------------------------------------------------------------

namespace Soteria

namespace Store

open FileTree (Within)

/-
  Every file of a backup or of the golden config is also a
  live file.
-/
structure Covered (s : State) : Prop where
  backups : ∀ id files,
    s.backups.get? id = some files → Within files s.live
  golden : ∀ files,
    s.golden = some files → Within files s.live

theorem Covered.backup
    {s : State}
    (hCovered : Covered s)
    (id : Nat) :
    Within (s.backup id) s.live := by
  unfold State.backup
  cases hBackup : s.backups.get? id with
  | none => exact Within.empty _
  | some files => exact hCovered.backups id files hBackup

/- Growing the live files keeps the invariant. -/
theorem Covered.with_live
    {s : State}
    {live : Tree}
    (hCovered : Covered s)
    (hLive : Within s.live live) :
    Covered { s with live := live } where
  backups := fun id files hSome =>
    (hCovered.backups id files hSome).trans hLive
  golden := fun files hSome =>
    (hCovered.golden files hSome).trans hLive

theorem Covered.with_staging
    {s : State}
    (hCovered : Covered s)
    (staging : Option Session) :
    Covered { s with staging := staging } :=
  ⟨hCovered.backups, hCovered.golden⟩

theorem Covered.prune
    {s : State}
    (hCovered : Covered s)
    (cfg : Config) :
    Covered (pruneBackupsLocked cfg s) where
  backups := fun id files hSome =>
    hCovered.backups id files (Archive.get?_of_prune hSome)
  golden := hCovered.golden

theorem Covered.remove
    {s : State}
    (hCovered : Covered s)
    (id : Nat) :
    Covered { s with backups := s.backups.remove id } where
  backups := by
    intro other files hSome
    by_cases hSame : other = id
    · subst hSame
      simp at hSome
    · rw [Archive.get?_remove_of_ne _ hSame] at hSome
      exact hCovered.backups other files hSome
  golden := hCovered.golden

theorem Covered.snapshot
    {s : State}
    (hCovered : Covered s)
    (faults : SnapshotFaults)
    (now : Nat) :
    Covered (snapshotLocked faults now s).2 ∧
      (snapshotLocked faults now s).2.live = s.live := by
  rcases snapshotLocked_cases faults now s with hSame | hPut
  · rw [hSame]
    exact ⟨hCovered, rfl⟩
  · rw [hPut]
    refine ⟨⟨?_, hCovered.golden⟩, rfl⟩
    intro id files hSome
    by_cases hNow : id = now
    · subst hNow
      rw [Archive.get?_put_self] at hSome
      rw [← Option.some.inj hSome]
      exact FileTree.copyExisting_within (Within.refl _)
        (hCovered.backup id) _ _
    · rw [Archive.get?_put_of_ne _ _ hNow] at hSome
      exact hCovered.backups id files hSome

/-
  A snapshot that succeeds is exactly the live files, also
  where it writes into an older backup.
-/
theorem Covered.snapshot_eq
    {s s' : State}
    {faults : SnapshotFaults}
    {now : Nat}
    (hCovered : Covered s)
    (hSnapshot : snapshotLocked faults now s = (none, s')) :
    s' = { s with backups := s.backups.put now s.live } := by
  unfold snapshotLocked at hSnapshot
  split at hSnapshot
  · cases hSnapshot
  · rcases hCopy :
        FileTree.copyExisting faults.copy s.live managedFiles
          (s.backup now) with
      ⟨files, error⟩
    rw [hCopy] at hSnapshot
    rcases Prod.mk.inj hSnapshot with ⟨hError, hState⟩
    rw [Option.map_eq_none_iff] at hError
    rw [hError] at hCopy
    have hFiles : files = s.live := by
      funext file
      rw [FileTree.copyExisting_of_ok hCopy,
        if_pos (mem_managedFiles file)]
      cases hLive : s.live file with
      | some content => rfl
      | none => exact hCovered.backup now file hLive
    rw [← hState, hFiles]

end Store

end Soteria

------------------------------------------------------------
-- The Invariant over Whole Runs
------------------------------------------------------------

namespace Soteria

namespace Store

open FileTree (Within)

variable {cfg : Config}
variable {now : Nat}
variable {s : State}

theorem CommitResult.covered
    {input : CommitInput}
    {out : Outcome CommitError}
    (hResult : CommitResult cfg now input s out)
    (hCovered : Covered s) :
    Covered out.state := by
  have hSnap :=
    (hCovered.snapshot input.faults.snapshot now).1
  cases hResult with
  | inactive => exact hCovered
  | unchanged => exact hCovered.with_staging none
  | backupFailed _ _ _ _ _ hSnapshot =>
      rw [hSnapshot] at hSnap
      exact hSnap
  | copyFailed _ _ _ _ _ _ hSnapshot hCopy =>
      rw [hSnapshot] at hSnap
      exact hSnap.with_live (FileTree.within_copyAll hCopy)
  | devMode _ _ _ _ _ hSnapshot hCopy =>
      rw [hSnapshot] at hSnap
      exact ((hSnap.with_live
        (FileTree.within_copyAll hCopy)).with_staging
          none).prune cfg
  | rejected _ s' _ _ _ _ _ _ hSnapshot hCopy _ _ hRollback =>
      rw [hSnapshot] at hSnap
      have hGrow : Within s'.live _ :=
        (FileTree.within_copyAll hCopy).trans
          (FileTree.within_copyExisting hRollback)
      exact (hSnap.with_live hGrow).remove now
  | applyFailed _ _ _ _ _ _ _ hSnapshot hCopy =>
      rw [hSnapshot] at hSnap
      exact hSnap.with_live (FileTree.within_copyAll hCopy)
  | committed _ _ _ _ _ _ hSnapshot hCopy =>
      rw [hSnapshot] at hSnap
      exact ((hSnap.with_live
        (FileTree.within_copyAll hCopy)).with_staging
          none).prune cfg

theorem RestoreResult.covered
    {input : RestoreInput}
    {source : State → Tree}
    {files : List ManagedFile}
    {out : Outcome RestoreError}
    (hResult :
      RestoreResult cfg now input source files s out)
    (hCovered : Covered s) :
    Covered out.state := by
  have hSnap :=
    (hCovered.snapshot input.faults.snapshot now).1
  cases hResult with
  | snapshotFailed _ _ hSnapshot =>
      rw [hSnapshot] at hSnap
      exact hSnap
  | copyFailed _ _ _ hSnapshot hCopy =>
      rw [hSnapshot] at hSnap
      exact hSnap.with_live (FileTree.within_copyExisting hCopy)
  | devMode _ _ hSnapshot hCopy =>
      rw [hSnapshot] at hSnap
      exact (hSnap.with_live
        (FileTree.within_copyExisting hCopy)).prune cfg
  | rejected s' _ _ _ _ hSnapshot hCopy _ _ hRollback =>
      rw [hSnapshot] at hSnap
      exact hSnap.with_live
        ((FileTree.within_copyExisting hCopy).trans
          (FileTree.within_copyExisting hRollback))
  | reloadFailed _ _ _ hSnapshot hCopy =>
      rw [hSnapshot] at hSnap
      exact hSnap.with_live (FileTree.within_copyExisting hCopy)
  | restored _ _ hSnapshot hCopy =>
      rw [hSnapshot] at hSnap
      exact (hSnap.with_live
        (FileTree.within_copyExisting hCopy)).prune cfg

theorem restore_covered
    {input : RestoreInput}
    {id : Nat}
    {files : List Text}
    (hCovered : Covered s) :
    Covered (restore cfg now input id files s).state := by
  unfold restore
  split
  · exact hCovered
  · split
    · exact hCovered
    · split
      · exact hCovered
      · exact (restoreFrom_result ..).covered hCovered

theorem restoreGolden_covered
    {input : RestoreInput}
    (hCovered : Covered s) :
    Covered (restoreGolden cfg now input s).state := by
  unfold restoreGolden
  split
  · exact hCovered
  · split
    · exact hCovered
    · exact (restoreFrom_result ..).covered hCovered

theorem saveGolden_covered
    {faults : GoldenFaults}
    (hCovered : Covered s) :
    Covered (saveGolden faults s).2 := by
  unfold saveGolden
  split
  · exact hCovered
  · exact hCovered
  · split
    · exact hCovered
    · rename_i files hCopy
      split
      · refine ⟨hCovered.backups, ?_⟩
        intro left hLeft name hNone
        rcases Option.map_eq_some_iff.mp hLeft with
          ⟨old, hOld, rfl⟩
        simp [hCovered.golden old hOld name hNone]
      · split
        · exact ⟨hCovered.backups, by simp⟩
        · refine ⟨hCovered.backups, ?_⟩
          rintro _ ⟨⟩
          have hWithin :=
            FileTree.copyExisting_within
              (Within.refl s.live) (Within.empty s.live)
              faults.copy managedFiles
          rwa [hCopy] at hWithin

theorem apply_covered
    (op : Op)
    (hCovered : Covered s) :
    Covered (apply cfg now s op) := by
  cases op with
  | begin faults =>
      rcases beginStaging_staging faults s with ⟨staging, hEq⟩
      show Covered (beginStaging faults s).2
      rw [hEq]
      exact hCovered.with_staging staging
  | discard => exact hCovered.with_staging none
  | write fault rel content =>
      rcases writeStaged_staging fault rel content s with
        ⟨staging, hEq⟩
      show Covered (orSame s (writeStaged fault rel content s))
      rw [hEq]
      exact hCovered.with_staging staging
  | markRestart fault =>
      rcases markRestart_staging fault s with ⟨staging, hEq⟩
      show Covered (markRestart fault s).2
      rw [hEq]
      exact hCovered.with_staging staging
  | commit input =>
      exact (commitStaging_result ..).covered hCovered
  | restore input id files => exact restore_covered hCovered
  | saveGolden faults => exact saveGolden_covered hCovered
  | restoreGolden input => exact restoreGolden_covered hCovered
  | setRetention fault count =>
      rcases setRetention_cases cfg fault count s with
        hSame | ⟨_, hSet⟩
      · show Covered (orSame s (setRetention cfg fault count s))
        rw [hSame]
        exact hCovered
      · show Covered (orSame s (setRetention cfg fault count s))
        rw [hSet]
        have hRetain : Covered { s with retain := some count } :=
          ⟨hCovered.backups, hCovered.golden⟩
        exact hRetain.prune cfg

theorem Fresh.covered (hFresh : Fresh s) : Covered s := by
  rcases hFresh with ⟨_, hBackups, hGolden⟩
  constructor
  · intro id files hSome
    rw [hBackups] at hSome
    cases hSome
  · intro files hSome
    rw [hGolden] at hSome
    cases hSome

/- Every file ever backed up is still a live file. -/
theorem Reached.covered (hReached : Reached cfg s) :
    Covered s := by
  rcases hReached with ⟨start, labels, hFresh, hRun⟩
  have hKeep :
      ∀ u label u', Covered u → Serves cfg u label u' →
        Covered u' := by
    rintro u label _ hCovered rfl
    exact apply_covered label.op hCovered
  exact hRun.invariant hKeep hFresh.covered

/- A clock that never goes back is one of the cases. -/
theorem Reachable.reached
    {t : Timed}
    (hReachable : Reachable cfg t) :
    Reached cfg t.store := by
  rcases hReachable with ⟨start, labels, hFresh, hRun⟩
  have hKeep :
      ∀ u label u', Reached cfg u.store →
        Step cfg u label u' → Reached cfg u'.store := by
    rintro u label _ hReached ⟨_, rfl⟩
    exact hReached.apply label.now label.op
  exact hRun.invariant hKeep ⟨_, [], hFresh, .refl _⟩

theorem Reachable.covered
    {t : Timed}
    (hReachable : Reachable cfg t) :
    Covered t.store :=
  hReachable.reached.covered

end Store

end Soteria
