import Soteria.Store.BackupHistory

/-
  Whether the server has loaded the live config.

  The directory is paired with a record of whether a live
  file has changed since the server was last told to load
  its configuration. A commit that changes files succeeds
  only after such a signal. A commit that finds nothing
  changed succeeds at once, also where an earlier change
  was never loaded.

  Main declarations:
    * `Server`, `ServerEvent`, `Server.after`
    * `CommitLoaded`, `ShortcutLoaded`
    * `commits_loaded_iff`
-/

------------------------------------------------------------
-- The Directory and Its Server
------------------------------------------------------------

namespace Soteria

namespace Store

/-
  The directory, and whether a live file has changed with no
  successful reload or restart since.
-/
structure Server where
  store : State
  behind : Bool

/-
  A request to the store at a clock second, or a reload
  request, with the error of signalling the server.
-/
inductive ServerEvent where
  | request (now : Nat) (op : Op)
  | reload (error : Option Text)

/- The signal a request sends, with its error. -/
def sentBy (cfg : Config) (now : Nat) (s : State) :
    Op → Option (Signal × Option Text)
| .commit input => (commitStaging cfg now input s).signal
| .restore input id files =>
    (restore cfg now input id files s).signal
| .restoreGolden input =>
    (restoreGolden cfg now input s).signal
| _ => none

/- Some managed file differs. -/
def liveDiffers (live live' : Tree) : Bool :=
  managedFiles.any fun file => live file != live' file

/-
  One event. A request sends its signal after it has written
  the live files, so a successful one loads them.
-/
def Server.after (cfg : Config) (u : Server) :
    ServerEvent → Server
| .request now op =>
    { store := apply cfg now u.store op
      behind :=
        match sentBy cfg now u.store op with
        | some (_, none) => false
        | _ =>
            u.behind || liveDiffers u.store.live
              (apply cfg now u.store op).live }
| .reload none => { u with behind := false }
| .reload (some _) => u

@[simp] theorem liveDiffers_self (live : Tree) :
    liveDiffers live live = false := by
  simp [liveDiffers]

/- A successful commit has left no change unloaded. -/
def CommitLoaded (cfg : Config) (u : Server) :
    ServerEvent → Prop
| .request now (.commit input) =>
    (commitStaging cfg now input u.store).error = none →
      (u.after cfg (.request now (.commit input))).behind =
        false
| _ => True

/-
  A commit whose session equals the live files is only asked
  for once the server has loaded them.
-/
def ShortcutLoaded (u : Server) : ServerEvent → Prop
| .request _ (.commit input) =>
    ∀ session, u.store.staging = some session →
      changedFiles input.faults.diff u.store.live
          session.files = [] →
        u.behind = false
| _ => True

end Store

end Soteria

------------------------------------------------------------
-- Successful Commits
------------------------------------------------------------

namespace Soteria

namespace Store

variable {cfg : Config}
variable {now : Nat}
variable {input : CommitInput}
variable {s : State}

/- An accepted commit without an error was loaded. -/
theorem applyCommit_sent
    {session : Session}
    {signalError : Option Text}
    {signal : Option (Signal × Option Text)}
    (hApply :
      applyCommit cfg session signalError = (none, signal)) :
    ∃ sent, signal = some (sent, none) := by
  unfold applyCommit at hApply
  split at hApply
  · split at hApply
    · cases hApply
    · cases signalError with
      | none => exact ⟨_, (Prod.mk.inj hApply).2.symm⟩
      | some error => cases hApply
  · cases signalError with
    | none => exact ⟨_, (Prod.mk.inj hApply).2.symm⟩
    | some error => cases hApply

/-
  A commit that succeeds outside dev mode took the shortcut
  of an unchanged session, or signalled the server.
-/
theorem commit_succeeded_cases
    (hDev : cfg.devMode = false)
    (hOk : (commitStaging cfg now input s).error = none) :
    (∃ session, s.staging = some session ∧
        changedFiles input.faults.diff s.live session.files =
          [] ∧
        (commitStaging cfg now input s).state.live = s.live ∧
        (commitStaging cfg now input s).signal = none) ∨
      ∃ session sent, s.staging = some session ∧
        changedFiles input.faults.diff s.live session.files ≠
          [] ∧
        (commitStaging cfg now input s).signal =
          some (sent, none) := by
  have hResult := commitStaging_result cfg now input s
  generalize commitStaging cfg now input s = out at *
  cases hResult with
  | unchanged session hStaging hChanged =>
      exact Or.inl ⟨session, hStaging, hChanged, rfl, rfl⟩
  | devMode _ _ _ _ _ _ _ hOn =>
      rw [hDev] at hOn
      cases hOn
  | rejected _ _ _ _ _ rollback =>
      cases rollback <;> cases hOk
  | committed session _ _ signal hStaging hChanged _ _ _ _
      hApply =>
      rcases applyCommit_sent hApply with ⟨sent, hSent⟩
      exact Or.inr
        ⟨session, sent, hStaging, hChanged, hSent⟩
  | _ => cases hOk

/- The shortcut of an unchanged session always succeeds. -/
theorem commit_unchanged
    {session : Session}
    (cfg : Config)
    (now : Nat)
    (hStaging : s.staging = some session)
    (hChanged :
      changedFiles input.faults.diff s.live session.files =
        []) :
    commitStaging cfg now input s =
      ⟨"no changes to commit", none,
        { s with staging := none }, none⟩ := by
  unfold commitStaging
  rw [hStaging]
  simp only [if_pos hChanged]

/- For one event, success without the shortcut suffices. -/
theorem commitLoaded_iff
    (hDev : cfg.devMode = false)
    (u : Server)
    (e : ServerEvent) :
    CommitLoaded cfg u e ↔ ShortcutLoaded u e := by
  cases e with
  | reload error => exact Iff.rfl
  | request now op =>
      cases op with
      | commit input =>
          constructor
          · intro hLoaded session hStaging hChanged
            have hCommit :=
              commit_unchanged cfg now hStaging hChanged
            have hAfter := hLoaded (by rw [hCommit])
            simp only [Server.after, sentBy, apply,
              hCommit, liveDiffers_self, Bool.or_false]
              at hAfter
            exact hAfter
          · intro hShortcut hOk
            rcases commit_succeeded_cases hDev hOk with
              ⟨session, hStaging, hChanged, hLive, hNone⟩ |
                ⟨session, sent, _, _, hSent⟩
            · have hBehind :=
                hShortcut session hStaging hChanged
              simp only [Server.after, sentBy, apply,
                hNone, hLive, liveDiffers_self, hBehind,
                Bool.or_false]
            · simp only [Server.after, sentBy, hSent]
      | _ => exact Iff.rfl

/-
  Along every run outside dev mode, each successful commit
  leaves the live files loaded exactly when no commit takes
  the shortcut while a change has not been loaded.
-/
theorem commits_loaded_iff
    (cfg : Config)
    (start : Server)
    (events : List ServerEvent)
    (hDev : cfg.devMode = false) :
    Transition.Along (Server.after cfg) (CommitLoaded cfg)
        start events ↔
      Transition.Along (Server.after cfg) ShortcutLoaded
        start events :=
  Transition.along_congr (commitLoaded_iff hDev) start events

/- A commit whose reload fails. -/
def unreloadedInput : CommitInput where
  faults := .none
  verdict := ⟨"", none⟩
  signalError := some "no such container"

/-
  A session adds overrides, its commit cannot reload the
  server, and the client commits again.
-/
def retriedCommit : List ServerEvent :=
  [.request 1 (.begin .none),
    .request 1 (.write none "agent-overrides.env"
      "TACACS_DEBUG=1"),
    .request 1 (.commit unreloadedInput),
    .request 2 (.commit acceptedInput)]

theorem commits_loaded_retry :
    Transition.Along (Server.after plainConfig)
        (CommitLoaded plainConfig) ⟨plainStore, false⟩
        retriedCommit ↔
      Transition.Along (Server.after plainConfig)
        ShortcutLoaded ⟨plainStore, false⟩ retriedCommit :=
  commits_loaded_iff plainConfig ⟨plainStore, false⟩
    retriedCommit rfl

/- The second commit reports success, nothing was loaded. -/
theorem retried_commit_not_loaded :
    Fresh plainStore ∧
      (commitStaging plainConfig 2 acceptedInput
        ((retriedCommit.take 3).foldl
          (Server.after plainConfig)
          ⟨plainStore, false⟩).store).error = none ∧
      (retriedCommit.foldl (Server.after plainConfig)
        ⟨plainStore, false⟩).behind = true ∧
      ¬Transition.Along (Server.after plainConfig)
        (CommitLoaded plainConfig) ⟨plainStore, false⟩
        retriedCommit := by
  have hOk :
      (commitStaging plainConfig 2 acceptedInput
        ((retriedCommit.take 3).foldl
          (Server.after plainConfig)
          ⟨plainStore, false⟩).store).error = none := rfl
  have hBehind :
      (retriedCommit.foldl (Server.after plainConfig)
        ⟨plainStore, false⟩).behind = true := rfl
  refine ⟨plainStore_fresh, hOk, hBehind, ?_⟩
  rintro ⟨_, _, _, hLast, _⟩
  have hLoaded := hLast hOk
  exact Bool.noConfusion (hBehind.symm.trans hLoaded)

end Store

end Soteria
