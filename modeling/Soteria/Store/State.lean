import Soteria.Foundation.Text
import Soteria.Foundation.FileTree
import Soteria.Foundation.Archive

/-
  The config directory the agent shares with the server: the
  managed live files, the staging area, the dated backups and
  the golden config, with the two operations every pipeline
  uses, taking a snapshot and pruning old ones.

  A backup id is the clock second it names. The temporary
  files of atomic writes are not part of the state.

  Key definitions include:
    * `ManagedFile`, `managedFiles`, `entityFiles`
    * `State`, `Config`
    * `snapshotLocked`
    * `retention`, `pruneBackupsLocked`
-/

------------------------------------------------------------
-- Managed Files
------------------------------------------------------------

namespace Soteria

namespace Store

/- The config files the agent manages. -/
inductive ManagedFile where
  | main
  | logging
  | dns
  | mavis
  | devices
  | users
  | groups
  | profiles
  | ruleset
  | tls
  | overrides
deriving DecidableEq

/- The path of a file below the config directory. -/
def ManagedFile.path : ManagedFile → Text
| .main => "tac_plus-ng.cfg"
| .logging => "conf.d/01-logging.cfg"
| .dns => "conf.d/02-dns.cfg"
| .mavis => "conf.d/03-mavis.cfg"
| .devices => "conf.d/04-devices.cfg"
| .users => "conf.d/05-local-users.cfg"
| .groups => "conf.d/06-groups.cfg"
| .profiles => "conf.d/07-profiles.cfg"
| .ruleset => "conf.d/08-ruleset.cfg"
| .tls => "conf.d/09-tls.cfg"
| .overrides => "agent-overrides.env"

/- `ManagedFiles`, in source order. -/
def managedFiles : List ManagedFile :=
  [.main, .logging, .dns, .mavis, .devices, .users, .groups,
    .profiles, .ruleset, .tls, .overrides]

/- `EntityFiles`: the files of the staging workflow. -/
def entityFiles : List ManagedFile :=
  [.main, .logging, .dns, .mavis, .devices, .users, .groups,
    .profiles, .ruleset, .tls, .overrides]

theorem mem_managedFiles (file : ManagedFile) :
    file ∈ managedFiles := by
  cases file <;> decide

theorem mem_entityFiles (file : ManagedFile) :
    file ∈ entityFiles := by
  cases file <;> decide

/- The managed or staged file a request names, if any. -/
def fileOfPath (files : List ManagedFile) (rel : Text) :
    Option ManagedFile :=
  files.find? fun file => file.path == rel

/- `isManaged`. -/
def isManaged (rel : Text) : Bool :=
  (fileOfPath managedFiles rel).isSome

end Store

end Soteria

------------------------------------------------------------
-- The State of the Config Directory
------------------------------------------------------------

namespace Soteria

namespace Store

/- A directory of managed files. -/
abbrev Tree := FileTree ManagedFile Text

/- Failing reads and writes, with the system's messages. -/
abbrev Faults := FileTree.Faults ManagedFile Text

abbrev CopyError := FileTree.CopyError ManagedFile Text

/- The staging directory, with its restart marker. -/
structure Session where
  files : Tree
  needsRestart : Bool

/-
  The directory's contents. The session is open when the
  staging directory exists; `retain` is the retention count
  of the settings file, when it can be read.
-/
structure State where
  live : Tree
  staging : Option Session
  backups : Archive Tree
  golden : Option Tree
  retain : Option Int

/- The settings of the process. -/
structure Config where
  devMode : Bool
  defaultRetain : Int
  restarter : Bool

/- The answer of the config validator. -/
structure Verdict where
  output : Text
  error : Option Text

/- A request to the server to load its configuration. -/
inductive Signal where
  | reload
  | restart
deriving DecidableEq

/-
  What a pipeline returns and does: the validator output, the
  error, the directory afterwards, and the signal it sent
  with the error of sending it.
-/
structure Outcome (ε : Type) where
  output : Text
  error : Option ε
  state : State
  signal : Option (Signal × Option Text)

/- The state a failed request leaves, or the new state. -/
def orSame {ε : Type} (s : State) : Except ε State → State
| .ok s' => s'
| .error _ => s

end Store

end Soteria

------------------------------------------------------------
-- Snapshots and Retention
------------------------------------------------------------

namespace Soteria

namespace Store

structure SnapshotFaults where
  mkdir : Option Text
  copy : Faults

def SnapshotFaults.none : SnapshotFaults where
  mkdir := Option.none
  copy := FileTree.Faults.none

/- The files of a backup; a missing one reads as empty. -/
def State.backup (s : State) (id : Nat) : Tree :=
  (s.backups.get? id).getD FileTree.empty

/-
  `snapshotLocked`: copy the live files into the backup of
  the current second. A backup that exists under that id is
  written into.
-/
def snapshotLocked
    (faults : SnapshotFaults)
    (now : Nat)
    (s : State) : Option Text × State :=
  match faults.mkdir with
  | some error => (some error, s)
  | none =>
      let (files, error) :=
        FileTree.copyExisting faults.copy s.live
          managedFiles (s.backup now)
      (error.map FileTree.CopyError.error,
        { s with backups := s.backups.put now files })

/- The retention count without a persisted setting. -/
def defaultRetention (cfg : Config) : Nat :=
  if 0 < cfg.defaultRetain then cfg.defaultRetain.toNat
  else 5

/- `Retention`: how many backups are kept. -/
def retention (cfg : Config) (s : State) : Nat :=
  match s.retain with
  | some count =>
      if 0 < count then count.toNat else defaultRetention cfg
  | none => defaultRetention cfg

/- `pruneBackupsLocked`. -/
def pruneBackupsLocked (cfg : Config) (s : State) : State :=
  { s with backups := s.backups.prune (retention cfg s) }

theorem retention_pos (cfg : Config) (s : State) :
    0 < retention cfg s := by
  have hDefault : 0 < defaultRetention cfg := by
    unfold defaultRetention
    split <;> omega
  unfold retention
  split
  · split <;> omega
  · exact hDefault

/- A snapshot touches only the backup of its second. -/
theorem snapshotLocked_cases
    (faults : SnapshotFaults)
    (now : Nat)
    (s : State) :
    (snapshotLocked faults now s).2 = s ∨
      (snapshotLocked faults now s).2 =
        { s with
          backups := s.backups.put now
            (FileTree.copyExisting faults.copy s.live
              managedFiles (s.backup now)).1 } := by
  unfold snapshotLocked
  split
  · exact Or.inl rfl
  · exact Or.inr rfl

/- A snapshot that reports no error was put in place. -/
theorem snapshotLocked_put
    {faults : SnapshotFaults}
    {now : Nat}
    {s s' : State}
    (hSnapshot : snapshotLocked faults now s = (none, s')) :
    ∃ files,
      s' = { s with backups := s.backups.put now files } := by
  unfold snapshotLocked at hSnapshot
  split at hSnapshot
  · cases hSnapshot
  · have hState := (Prod.mk.inj hSnapshot).2
    exact ⟨_, hState.symm⟩

/- Its backup then has every live file. -/
theorem snapshotLocked_backup
    {faults : SnapshotFaults}
    {now : Nat}
    {s s' : State}
    (hSnapshot : snapshotLocked faults now s = (none, s'))
    (file : ManagedFile) :
    s'.backup now file =
      (s.live file).or (s.backup now file) := by
  unfold snapshotLocked at hSnapshot
  split at hSnapshot
  · cases hSnapshot
  · rcases hCopy :
        FileTree.copyExisting faults.copy s.live managedFiles
          (s.backup now) with
      ⟨files, error⟩
    simp only [hCopy] at hSnapshot
    cases error with
    | some error => cases hSnapshot
    | none =>
        cases hSnapshot
        simp only [State.backup, Archive.get?_put_self,
          Option.getD_some]
        have hFile := FileTree.copyExisting_of_ok hCopy file
        rw [if_pos (mem_managedFiles file)] at hFile
        exact hFile

theorem snapshotLocked_live
    (faults : SnapshotFaults)
    (now : Nat)
    (s : State) :
    (snapshotLocked faults now s).2.live = s.live := by
  rcases snapshotLocked_cases faults now s with hSame | hPut
  · rw [hSame]
  · rw [hPut]

/- A snapshot leaves the edit session alone. -/
theorem snapshotLocked_staging
    {faults : SnapshotFaults}
    {now : Nat}
    {s s' : State}
    {error : Option Text}
    (hSnapshot : snapshotLocked faults now s = (error, s')) :
    s'.staging = s.staging := by
  have hState : (snapshotLocked faults now s).2 = s' := by
    rw [hSnapshot]
  rw [← hState]
  rcases snapshotLocked_cases faults now s with hSame | hPut
  · rw [hSame]
  · rw [hPut]

/- A snapshot without faults holds every live file. -/
theorem snapshotLocked_none
    (now : Nat)
    (s : State) :
    snapshotLocked .none now s =
      (none,
        { s with
          backups := s.backups.put now fun file =>
            (s.live file).or (s.backup now file) }) := by
  have hCopy :
      FileTree.copyExisting (FileTree.Faults.none : Faults)
          s.live managedFiles (s.backup now) =
        (fun file => (s.live file).or (s.backup now file),
          none) := by
    rw [FileTree.copyExisting_none]
    simp [mem_managedFiles]
  simp only [snapshotLocked, SnapshotFaults.none, hCopy,
    Option.map_none]

end Store

end Soteria
