import Soteria.Foundation.Threads
import Soteria.Store.Restores

/-
  The requests of several clients, interleaved.

  A request that holds the store's mutex throughout is one
  step. A restore asks whether an edit session is open
  before it takes the mutex, so it has two; `PUT settings`
  stages its files and then marks the restart, each under
  the mutex or, for the mark, without it.

  Key definitions include:
    * `SettingsPut`, `settingsFiles`
    * `Client`, `Client.next`
-/

------------------------------------------------------------
-- Clients
------------------------------------------------------------

namespace Soteria

namespace Store

/- The files `PUT settings` stages, in order. -/
def settingsFiles : List ManagedFile :=
  [.dns, .mavis, .main, .overrides]

/-
  A `PUT settings` request about to stage: what it writes,
  whether it requires a restart, and which of its file
  accesses fail.
-/
structure SettingsPut where
  contents : ManagedFile → Text
  needsRestart : Bool
  writeFault : ManagedFile → Option Text
  markFault : Option (Text × Bool)

/-
  Where a client is: about to make a request, past the check
  of a restore, staging settings with some files left,
  about to mark the restart, or done. `PUT settings` answers
  whether a restart is required, or an error.
-/
inductive Client where
  | request (now : Nat) (op : Op)
  | entering (now : Nat) (input : RestoreInput)
      (r : RestoreRequest)
  | writing (put : SettingsPut) (rest : List ManagedFile)
  | marking (put : SettingsPut)
  | answered (restartRequired : Option Bool)
  | done

/- A client once `PUT settings` has the other files left. -/
def Client.afterWrite (put : SettingsPut) :
    List ManagedFile → Client
| [] =>
    if put.needsRestart then .marking put
    else .answered (some false)
| file :: rest => .writing put (file :: rest)

/- The check of a restore lets it wait for the mutex. -/
def Client.afterCheck
    (now : Nat)
    (input : RestoreInput)
    (r : RestoreRequest)
    (s : State) : Client :=
  match r.check s with
  | some _ => .done
  | none => .entering now input r

/- The next step of a client. -/
def Client.next (cfg : Config) (s : State) :
    Client → State × Client
| .request now (.restore input id files) =>
    (s, .afterCheck now input (.backup id files) s)
| .request now (.restoreGolden input) =>
    (s, .afterCheck now input .golden s)
| .request now op => (apply cfg now s op, .done)
| .entering now input r =>
    ((r.locked cfg now input s).state, .done)
| .writing put [] => (s, .afterWrite put [])
| .writing put (file :: rest) =>
    match writeStaged (put.writeFault file) file.path
        (put.contents file) s with
    | .ok s' => (s', .afterWrite put rest)
    | .error _ => (s, .answered none)
| .marking put =>
    match markRestart put.markFault s with
    | (none, s') => (s', .answered (some true))
    | (some _, s') => (s', .answered none)
| .answered restartRequired =>
    (s, .answered restartRequired)
| .done => (s, .done)

/- Clients over the config directory. -/
abbrev Clients := Threads.Pool State Client

end Store

end Soteria

------------------------------------------------------------
-- Which Steps Touch the Session
------------------------------------------------------------

namespace Soteria

namespace Store

variable {cfg : Config}
variable {now : Nat}
variable {s : State}

/- A commit keeps the session or closes it. -/
theorem commit_staging
    (cfg : Config)
    (now : Nat)
    (input : CommitInput)
    (s : State) :
    (commitStaging cfg now input s).state.staging =
        s.staging ∨
      (commitStaging cfg now input s).state.staging =
        none := by
  have hResult := commitStaging_result cfg now input s
  generalize commitStaging cfg now input s = out at *
  cases hResult with
  | inactive => exact Or.inl rfl
  | unchanged => exact Or.inr rfl
  | devMode => exact Or.inr rfl
  | committed => exact Or.inr rfl
  | backupFailed _ _ _ _ _ hSnapshot =>
      have hKept := snapshotLocked_staging hSnapshot
      exact Or.inl hKept
  | copyFailed _ _ _ _ _ _ hSnapshot =>
      have hKept := snapshotLocked_staging hSnapshot
      exact Or.inl hKept
  | rejected _ _ _ _ _ _ _ _ hSnapshot =>
      have hKept := snapshotLocked_staging hSnapshot
      exact Or.inl hKept
  | applyFailed _ _ _ _ _ _ _ hSnapshot =>
      have hKept := snapshotLocked_staging hSnapshot
      exact Or.inl hKept

/- A restore leaves the session alone. -/
theorem restoreFrom_staging
    (cfg : Config)
    (now : Nat)
    (input : RestoreInput)
    (source : State → Tree)
    (files : List ManagedFile)
    (s : State) :
    (restoreFrom cfg now input source files s).state.staging =
      s.staging := by
  have hResult :=
    restoreFrom_result cfg now input source files s
  generalize restoreFrom cfg now input source files s = out
    at *
  cases hResult with
  | snapshotFailed _ _ hSnapshot =>
      have hKept := snapshotLocked_staging hSnapshot
      exact hKept
  | copyFailed _ _ _ hSnapshot =>
      have hKept := snapshotLocked_staging hSnapshot
      exact hKept
  | devMode _ _ hSnapshot =>
      have hKept := snapshotLocked_staging hSnapshot
      exact hKept
  | rejected _ _ _ _ _ hSnapshot =>
      have hKept := snapshotLocked_staging hSnapshot
      exact hKept
  | reloadFailed _ _ _ hSnapshot =>
      have hKept := snapshotLocked_staging hSnapshot
      exact hKept
  | restored _ _ hSnapshot =>
      have hKept := snapshotLocked_staging hSnapshot
      exact hKept

theorem locked_staging
    (cfg : Config)
    (now : Nat)
    (input : RestoreInput)
    (r : RestoreRequest)
    (s : State) :
    (r.locked cfg now input s).state.staging = s.staging := by
  cases r with
  | backup id files =>
      simp only [RestoreRequest.locked]
      split
      · rfl
      · exact restoreFrom_staging ..
  | golden =>
      simp only [RestoreRequest.locked]
      split
      · rfl
      · exact restoreFrom_staging ..

/- The steps that can open a session. -/
def Client.mayOpen : Client → Bool
| .request _ (.begin _) => true
| .request _ (.markRestart _) => true
| .marking _ => true
| _ => false

/- No other step opens one. -/
theorem next_staging_none
    {c : Client}
    (hClient : c.mayOpen = false)
    (hStaging : s.staging = none) :
    (c.next cfg s).1.staging = none := by
  cases c with
  | request now op =>
      cases op with
      | begin => cases hClient
      | markRestart => cases hClient
      | discard => rfl
      | write fault rel content =>
          simp only [Client.next, apply, writeStaged, hStaging]
          split
          · exact hStaging
          · exact hStaging
      | commit input =>
          rcases commit_staging cfg now input s with
            hSame | hNone
          · exact hSame.trans hStaging
          · exact hNone
      | restore => exact hStaging
      | restoreGolden => exact hStaging
      | saveGolden faults =>
          rcases saveGolden_golden faults s with ⟨golden, hEq⟩
          show (saveGolden faults s).2.staging = none
          rw [hEq]
          exact hStaging
      | setRetention fault count =>
          show (orSame s
            (setRetention cfg fault count s)).staging = none
          rcases setRetention_cases cfg fault count s with
            hSame | ⟨_, hSet⟩
          · rw [hSame]
            exact hStaging
          · rw [hSet]
            exact hStaging
  | entering now input r =>
      exact (locked_staging cfg now input r s).trans hStaging
  | writing put rest =>
      cases rest with
      | nil => exact hStaging
      | cons file rest =>
          simp only [Client.next, writeStaged, hStaging]
          split
          · rename_i s' hWrite
            split at hWrite <;> cases hWrite
          · exact hStaging
  | marking => cases hClient
  | answered => exact hStaging
  | done => exact hStaging

end Store

end Soteria
