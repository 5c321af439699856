import Soteria.Store.Clients

/-
  Edit sessions under interleaved clients.

  A session is open when the staging directory exists. A
  `BeginStaging` call that fails after its first write, and
  a restart mark made after the session was closed, create
  that directory too. A restore asks for an open session
  before it takes the mutex, so one may be opened before its
  locked part runs.

  Main declarations:
    * `RestoreHarmless`, `OpensUnwatched`
    * `restores_harmless_of_run`
    * `Watched`, `OpenedByBegin`, `OpensByBegin`
    * `sessions_begun_of_run`
-/

------------------------------------------------------------
-- Restores and Open Sessions
------------------------------------------------------------

namespace Soteria

namespace Store

/- The client is about to take a step of a restore. -/
def Client.restores : Client → Bool
| .request _ (.restore ..) => true
| .request _ (.restoreGolden _) => true
| .entering .. => true
| _ => false

/- The client has passed the check of a restore. -/
def Client.waits : Client → Bool
| .entering .. => true
| _ => false

/-
  A step of a restore changes no live file while an edit
  session is open.
-/
def RestoreHarmless
    (cfg : Config)
    (p : Clients)
    (i : Nat) : Prop :=
  (p.threads i).restores = true →
    p.shared.stagingActive = true →
      (p.advance (Client.next cfg) i).shared.live =
        p.shared.live

/-
  A step opens an edit session only while no restore is
  between its check and its locked part.
-/
def OpensUnwatched
    (cfg : Config)
    (p : Clients)
    (i : Nat) : Prop :=
  p.shared.staging = none →
    (p.advance (Client.next cfg) i).shared.staging ≠ none →
      ∀ j, (p.threads j).waits = false

/- A waiting restore relies on no session being open. -/
def NoneOpen (_ : Nat) (s : State) (c : Client) : Prop :=
  c.waits = true → s.staging = none

variable {cfg : Config}

/- Only the check of a restore makes a client wait. -/
theorem noneOpen_next
    (i : Nat)
    (s : State)
    (c : Client) :
    NoneOpen i (c.next cfg s).1 (c.next cfg s).2 := by
  have hCheck :
      ∀ now input (r : RestoreRequest),
        NoneOpen i s (.afterCheck now input r s) := by
    intro now input r hWaits
    unfold Client.afterCheck at hWaits
    cases hPassed : r.check s with
    | some error =>
        rw [hPassed] at hWaits
        cases hWaits
    | none =>
        cases hStaging : s.staging with
        | none => rfl
        | some session =>
            cases r <;>
              simp [RestoreRequest.check, State.stagingActive,
                hStaging] at hPassed
  have hWrite :
      ∀ (put : SettingsPut) (rest : List ManagedFile),
        (Client.afterWrite put rest).waits = false := by
    intro put rest
    cases rest with
    | nil =>
        simp only [Client.afterWrite]
        split <;> rfl
    | cons => rfl
  intro hWaits
  cases c with
  | request now op =>
      cases op with
      | restore input id files => exact hCheck _ _ _ hWaits
      | restoreGolden input => exact hCheck _ _ _ hWaits
      | _ => cases hWaits
  | writing put rest =>
      cases rest with
      | nil =>
          simp only [Client.next, hWrite] at hWaits
          cases hWaits
      | cons file rest =>
          simp only [Client.next] at hWaits
          split at hWaits
          · rw [hWrite] at hWaits
            cases hWaits
          · cases hWaits
  | marking put =>
      simp only [Client.next] at hWaits
      split at hWaits <;> cases hWaits
  | _ => cases hWaits

theorem noneOpen_advance
    {p : Clients}
    {i : Nat}
    (hHolds : p.Holds NoneOpen)
    (hOpens : OpensUnwatched cfg p i) :
    (p.advance (Client.next cfg) i).Holds NoneOpen := by
  refine hHolds.advance (noneOpen_next i _ _) ?_
  intro j _ hOther hWaits
  by_contra hOpen
  have hNone := hOpens (hOther hWaits) hOpen j
  rw [hWaits] at hNone
  cases hNone

theorem restoreHarmless_of_noneOpen
    {p : Clients}
    {i : Nat}
    (hHolds : p.Holds NoneOpen) :
    RestoreHarmless cfg p i := by
  intro hRestores hActive
  rw [Threads.Pool.advance_shared]
  have hWaiting := hHolds i
  cases hClient : p.threads i with
  | request now op =>
      rw [hClient] at hRestores
      cases op <;> first | rfl | cases hRestores
  | entering now input r =>
      rw [hClient] at hWaiting
      have hNone := hWaiting rfl
      simp [State.stagingActive, hNone] at hActive
  | _ =>
      rw [hClient] at hRestores
      cases hRestores

/-
  In every run in which no session is opened while a restore
  waits for the mutex, no restore changes a live file under
  an open session.
-/
theorem restores_harmless_of_run
    (cfg : Config)
    (start : Clients)
    (schedule : List Nat)
    (hStart : ∀ i, (start.threads i).waits = false)
    (hOpens :
      Transition.Along
        (Threads.Pool.advance (Client.next cfg))
        (OpensUnwatched cfg) start schedule) :
    Transition.Along
      (Threads.Pool.advance (Client.next cfg))
      (RestoreHarmless cfg) start schedule := by
  have hHolds : start.Holds NoneOpen := by
    intro i hWaits
    rw [hStart i] at hWaits
    cases hWaits
  refine Transition.Along.of_invariant ?_ ?_ hHolds hOpens
  · intro p i hBefore hStep
    exact noneOpen_advance hBefore hStep
  · intro p i hBefore _
    exact restoreHarmless_of_noneOpen hBefore

/- One client restores a backup, another begins a session. -/
def restoreAndBegin : Clients where
  shared := recommittedStore
  threads := fun i =>
    if i = 0 then .request 3 (.restore cleanRestore 2 [])
    else if i = 1 then .request 3 (.begin .none)
    else .done

theorem restoreAndBegin_start (i : Nat) :
    (restoreAndBegin.threads i).waits = false := by
  simp only [restoreAndBegin]
  split
  · rfl
  · split <;> rfl

/- The restore ends before the session is opened. -/
theorem restores_harmless_in_turn :
    Transition.Along
      (Threads.Pool.advance (Client.next plainConfig))
      (RestoreHarmless plainConfig) restoreAndBegin
      [0, 0, 1] := by
  refine restores_harmless_of_run plainConfig
    restoreAndBegin [0, 0, 1] restoreAndBegin_start ?_
  have hEnds :
      ∀ j, (((restoreAndBegin.advance
        (Client.next plainConfig) 0).advance
          (Client.next plainConfig) 0).threads j).waits =
            false := by
    intro j
    by_cases hSelf : j = 0
    · subst hSelf
      rfl
    · rw [Threads.Pool.advance_of_ne _ hSelf,
        Threads.Pool.advance_of_ne _ hSelf]
      exact restoreAndBegin_start j
  refine ⟨?_, ?_, fun _ _ => hEnds, trivial⟩
  · intro _ hOpen
    exact (hOpen rfl).elim
  · intro _ hOpen
    exact (hOpen rfl).elim

/-
  The session is opened between the check and the locked
  part: the restore then changes the overrides under it.
-/
theorem restore_lands_under_session :
    Reached plainConfig recommittedStore ∧
      (∀ i, (restoreAndBegin.threads i).waits = false) ∧
      ¬Transition.Along
        (Threads.Pool.advance (Client.next plainConfig))
        (RestoreHarmless plainConfig) restoreAndBegin
        [0, 1, 0] := by
  refine ⟨recommittedStore_reachable.reached,
    restoreAndBegin_start, ?_⟩
  rintro ⟨_, _, hLast, _⟩
  have hLive := hLast rfl rfl
  have hFile := congrFun hLive .overrides
  exact absurd hFile (by decide)

end Store

end Soteria

------------------------------------------------------------
-- Who Opens an Edit Session
------------------------------------------------------------

namespace Soteria

namespace Store

/-
  The directory, and whether a `BeginStaging` call returned
  success since the last request that closed the session.
-/
structure Watched where
  store : State
  opened : Bool

/- The client is about to begin a session successfully. -/
def Client.begins (s : State) : Client → Bool
| .request _ (.begin faults) =>
    (beginStaging faults s).1.isNone
| _ => false

/- The next step of a client, with the record it leaves. -/
def Watched.next (cfg : Config) (w : Watched) (c : Client) :
    Watched × Client :=
  ({ store := (c.next cfg w.store).1
     opened :=
      if c.begins w.store then true
      else if w.store.stagingActive &&
          !(c.next cfg w.store).1.stagingActive then false
      else w.opened },
    (c.next cfg w.store).2)

/- An open session was begun by a successful call. -/
def OpenedByBegin (w : Watched) : Prop :=
  w.store.stagingActive = true → w.opened = true

/-
  No file access of a `BeginStaging` call fails, or the
  failing one comes before the first file is written.
-/
def FailsBeforeWriting
    (faults : BeginFaults)
    (s : State) : Prop :=
  (∀ file ∈ entityFiles,
    faults.copy.read file = none ∧
      (s.live file = none ∨
        faults.copy.write file = none)) ∨
    (faults.dirMade = false ∧
      ∀ file ∈ FileTree.passed faults.copy s.live entityFiles,
        s.live file = none)

/-
  A restart is marked only while a session is open, and a
  failing `BeginStaging` fails before it has written a file.
-/
def OpensByBegin
    (p : Threads.Pool Watched Client)
    (i : Nat) : Prop :=
  match p.threads i with
  | .request _ (.begin faults) =>
      FailsBeforeWriting faults p.shared.store
  | .request _ (.markRestart _) =>
      p.shared.store.stagingActive = true
  | .marking _ => p.shared.store.stagingActive = true
  | _ => True

variable {cfg : Config}

/- A call that fails before writing leaves no session. -/
theorem failed_begin_none
    {faults : BeginFaults}
    {s : State}
    (hEarly : FailsBeforeWriting faults s)
    (hStaging : s.staging = none)
    (hFailed : (beginStaging faults s).1 ≠ none) :
    (beginStaging faults s).2.staging = none := by
  have hOk :=
    FileTree.copyExisting_ok_iff faults.copy s.live
      entityFiles FileTree.empty
  have hFiles :=
    FileTree.copyExisting_apply faults.copy s.live
      entityFiles FileTree.empty
  unfold beginStaging at hFailed ⊢
  rw [hStaging] at hFailed ⊢
  simp only [] at hFailed ⊢
  rcases hCopy :
      FileTree.copyExisting faults.copy s.live entityFiles
        FileTree.empty with
    ⟨files, error⟩
  rw [hCopy] at hOk hFiles
  rw [hCopy] at hFailed
  have hError : error ≠ none := by
    rintro rfl
    refine hFailed ?_
    simp only []
    split <;> rfl
  rcases hEarly with hAll | ⟨hDir, hNone⟩
  · exact (hError (hOk.mpr hAll)).elim
  · have hEmpty :
        (entityFiles.any fun file => (files file).isSome) =
          false := by
      rw [List.any_eq_false]
      intro file _
      have hFile : files file = _ := hFiles file
      rw [hFile]
      split
      · rename_i hPassed
        simp [hNone file hPassed, FileTree.empty]
      · simp [FileTree.empty]
    have hMakes : faults.makesDir error = false := by
      unfold BeginFaults.makesDir
      split
      · exact hDir
      · rfl
    simp only [hMakes, hEmpty, Bool.or_false,
      Bool.false_eq_true, if_false]
    exact hStaging

/- A step that meets the condition keeps the record true. -/
theorem openedByBegin_advance
    {p : Threads.Pool Watched Client}
    {i : Nat}
    (hBefore : OpenedByBegin p.shared)
    (hOpens : OpensByBegin p i) :
    OpenedByBegin
      (p.advance (Watched.next cfg) i).shared := by
  intro hActive
  rw [Threads.Pool.advance_shared] at hActive ⊢
  unfold OpensByBegin at hOpens
  generalize p.threads i = c at *
  simp only [Watched.next] at hActive ⊢
  by_cases hBegins : c.begins p.shared.store = true
  · rw [if_pos hBegins]
  rw [if_neg hBegins, hActive]
  simp only [Bool.not_true, Bool.and_false,
    Bool.false_eq_true, if_false]
  refine hBefore ?_
  by_contra hClosed
  have hStaging : p.shared.store.staging = none := by
    simpa [State.stagingActive] using hClosed
  have hOpened :
      (c.next cfg p.shared.store).1.staging ≠ none := by
    intro hNone
    simp [State.stagingActive, hNone] at hActive
  cases hMay : c.mayOpen with
  | false => exact hOpened (next_staging_none hMay hStaging)
  | true =>
      cases c with
      | request now op =>
          cases op with
          | begin faults =>
              refine hOpened
                (failed_begin_none hOpens hStaging ?_)
              simpa [Client.begins] using hBegins
          | markRestart fault => exact hClosed hOpens
          | _ => cases hMay
      | marking put => exact hClosed hOpens
      | _ => cases hMay

/-
  In every run that meets the condition, a session that is
  open after a step was begun by a successful call since the
  last request that closed one.
-/
theorem sessions_begun_of_run
    (cfg : Config)
    (start : Threads.Pool Watched Client)
    (schedule : List Nat)
    (hStart : OpenedByBegin start.shared)
    (hOpens :
      Transition.Along
        (Threads.Pool.advance (Watched.next cfg))
        OpensByBegin start schedule) :
    Transition.Along
      (Threads.Pool.advance (Watched.next cfg))
      (fun p i =>
        OpenedByBegin
          (p.advance (Watched.next cfg) i).shared)
      start schedule := by
  refine Transition.Along.of_invariant
    (I := fun p => OpenedByBegin p.shared) ?_ ?_ hStart hOpens
  · intro p i hBefore hStep
    exact openedByBegin_advance hBefore hStep
  · intro p i hBefore hStep
    exact openedByBegin_advance hBefore hStep

/- Writing the staged copy of the overrides fails. -/
def halfBegun : BeginFaults where
  copy := overrideFault.faults.copy
  dirMade := false

/- One client begins a session, with the given failures. -/
def beginner (faults : BeginFaults) :
    Threads.Pool Watched Client where
  shared := ⟨recommittedStore, false⟩
  threads := fun i =>
    if i = 0 then .request 3 (.begin faults) else .done

theorem sessions_begun_without_faults :
    Transition.Along
      (Threads.Pool.advance (Watched.next plainConfig))
      (fun p i =>
        OpenedByBegin
          (p.advance (Watched.next plainConfig) i).shared)
      (beginner .none) [0] := by
  refine sessions_begun_of_run plainConfig (beginner .none)
    [0] ?_ ?_
  · intro hActive
    cases hActive
  · exact ⟨Or.inl fun _ _ => ⟨rfl, Or.inr rfl⟩, trivial⟩

/-
  A `BeginStaging` call that fails on its last file leaves a
  session open that no successful call began.
-/
theorem failed_begin_opens_session :
    Reached plainConfig recommittedStore ∧
      OpenedByBegin (beginner halfBegun).shared ∧
      (beginStaging halfBegun recommittedStore).1 =
        some "no space left on device" ∧
      ¬Transition.Along
        (Threads.Pool.advance (Watched.next plainConfig))
        (fun p i =>
          OpenedByBegin
            (p.advance (Watched.next plainConfig) i).shared)
        (beginner halfBegun) [0] := by
  refine ⟨recommittedStore_reachable.reached, ?_, rfl, ?_⟩
  · intro hActive
    cases hActive
  · rintro ⟨hFirst, _⟩
    cases hFirst rfl

end Store

end Soteria
