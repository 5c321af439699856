import Soteria.Api.Settings
import Soteria.Store.Applied

/-
  Which commits of settings restart the container.

  `PUT settings` marks a restart when the request differs
  from the settings read back. What it stages is rendered
  anew, so a file that does not read back the way it was
  written, or a certificate file that came or went, changes
  a file although the request changes nothing.

  Main declarations:
    * `SettingsServer`, `SettingsEvent`
    * `RestartDue`, `Steady`
    * `Settled`, `PutSafe`
    * `settings_restart_of_run`
-/

------------------------------------------------------------
-- Settings Sessions
------------------------------------------------------------

namespace Soteria

namespace Api

open Store Tacconfig

/- The config directory and the certificate files. -/
structure SettingsServer where
  store : State
  certs : LdapCerts

inductive SettingsEvent where
  | put (r : SettingsRequest)
  | putCert (u : CertUpload)
  | deleteCert (name : Text) (fault : Option Text)

/- One event of a session. -/
def SettingsServer.after
    (env : Environment)
    (u : SettingsServer) : SettingsEvent → SettingsServer
| .put r =>
    { u with store := (putSettings env u.certs u.store r).2 }
| .putCert upload =>
    { u with certs := (putLdapCert upload u.certs).2 }
| .deleteCert name fault =>
    { u with certs := (deleteLdapCert name fault u.certs).2 }

/- A `PUT settings` request is answered as staged. -/
def PutAccepted
    (env : Environment)
    (u : SettingsServer) : SettingsEvent → Prop
| .put r =>
    ∃ restart,
      (putSettings env u.certs u.store r).1 = .ok restart
| _ => True

/- The settings read back from live files. -/
def liveSettings (env : Environment) (live : Tree) :
    ServerSettings :=
  currentSettings env
    { live := live
      staging := none
      backups := .empty
      golden := none
      retain := none }

/-
  A change of the live files needs a restart: the LDAP
  backend changed while LDAP is on, or a setting the
  container reads when it starts.
-/
def RestartDue
    (env : Environment)
    (live live' : Tree) : Prop :=
  let old := liveSettings env live
  let new := liveSettings env live'
  (new.ldapEnabled = true ∧ live' .mavis ≠ live .mavis) ∨
    new.listenPort ≠ old.listenPort ∨
    new.tlsEnabled ≠ old.tlsEnabled ∨
    new.ldapEnabled ≠ old.ldapEnabled ∨
    new.timezone ≠ old.timezone ∨
    new.logrotate ≠ old.logrotate ∨
    new.monthlyArchive ≠ old.monthlyArchive

end Api

end Soteria

------------------------------------------------------------
-- Which Files the Settings Come From
------------------------------------------------------------

namespace Soteria

namespace Api

open Store Tacconfig

variable {env : Environment}
variable {s s' : State}

/- The toggles and the port a main config reads back as. -/
def mainSettings (content : Option Text) : ServerSettings :=
  match content with
  | some src => readMain src .zero
  | none => .zero

/- The time zone and the flags overrides read back as. -/
def overridesSettings
    (env : Environment)
    (content : Option Text) : ServerSettings :=
  match content with
  | some src => readOverrides src (readEnvironment env .zero)
  | none => readEnvironment env .zero

theorem whenRead_eq
    (s : State)
    (file : ManagedFile)
    (read : Text → ServerSettings → ServerSettings)
    (set : ServerSettings) :
    whenRead s file read set =
      match s.effective file with
      | some src => read src set
      | none => set := by
  unfold whenRead
  rw [readEffective_path]
  cases s.effective file with
  | some content => rfl
  | none => rfl

/- A field no reader of a file sets is kept. -/
theorem whenRead_keeps
    {α : Type}
    (field : ServerSettings → α)
    {read : Text → ServerSettings → ServerSettings}
    (hKeep : ∀ src set, field (read src set) = field set)
    (s : State)
    (file : ManagedFile)
    (set : ServerSettings) :
    field (whenRead s file read set) = field set := by
  rw [whenRead_eq]
  split
  · exact hKeep _ _
  · rfl

/- An overrides file sets the time zone and the flags. -/
theorem readOverrides_keeps
    {α : Type}
    (field : ServerSettings → α)
    (hKeep : ∀ src set, field (parseOverrides src set) =
      field set)
    (src : Text)
    (set : ServerSettings) :
    field (readOverrides src set) = field set := by
  unfold readOverrides
  split
  · exact hKeep src set
  · rfl

/- A field that only the main config sets. -/
theorem currentSettings_main
    {α : Type}
    (field : ServerSettings → α)
    (hDNS : ∀ src set, field (parseDNS src set) = field set)
    (hMavis : ∀ src set,
      field (parseMavis src set) = field set)
    (hMain : ∀ src set,
      field (readMain src set) = field (readMain src .zero))
    (hEnvironment : ∀ set,
      field (readEnvironment env set) = field set)
    (hOverrides : ∀ src set,
      field (parseOverrides src set) = field set) :
    field (currentSettings env s) =
      field (mainSettings (s.effective .main)) := by
  simp only [currentSettings]
  rw [whenRead_keeps field
      (readOverrides_keeps field hOverrides),
    hEnvironment, whenRead_eq]
  cases s.effective .main with
  | some src =>
      simp only [mainSettings]
      exact hMain _ _
  | none =>
      simp only [mainSettings]
      rw [whenRead_keeps field hMavis,
        whenRead_keeps field hDNS]

/- A field that the environment and the overrides set. -/
theorem currentSettings_overrides
    {α : Type}
    (field : ServerSettings → α)
    (hEnvironment : ∀ set,
      field (readEnvironment env set) =
        field (readEnvironment env .zero))
    (hOverrides : ∀ src set other,
      field set = field other →
        field (parseOverrides src set) =
          field (parseOverrides src other)) :
    field (currentSettings env s) =
      field (overridesSettings env
        (s.effective .overrides)) := by
  simp only [currentSettings]
  rw [whenRead_eq]
  cases s.effective .overrides with
  | none => exact hEnvironment _
  | some src =>
      simp only [overridesSettings, readOverrides]
      split
      · exact hOverrides _ _ _ (hEnvironment _)
      · exact hEnvironment _

theorem currentSettings_ldapEnabled :
    (currentSettings env s).ldapEnabled =
      (mainSettings (s.effective .main)).ldapEnabled :=
  currentSettings_main _ (fun _ _ => rfl) (fun _ _ => rfl)
    (fun _ _ => rfl) (fun _ => rfl) (fun _ _ => rfl)

theorem currentSettings_listenPort :
    (currentSettings env s).listenPort =
      (mainSettings (s.effective .main)).listenPort :=
  currentSettings_main _ (fun _ _ => rfl) (fun _ _ => rfl)
    (fun _ _ => rfl) (fun _ => rfl) (fun _ _ => rfl)

theorem currentSettings_tlsEnabled :
    (currentSettings env s).tlsEnabled =
      (mainSettings (s.effective .main)).tlsEnabled :=
  currentSettings_main _ (fun _ _ => rfl) (fun _ _ => rfl)
    (fun _ _ => rfl) (fun _ => rfl) (fun _ _ => rfl)

theorem currentSettings_timezone :
    (currentSettings env s).timezone =
      (overridesSettings env
        (s.effective .overrides)).timezone := by
  refine currentSettings_overrides _ (fun _ => rfl) ?_
  intro src set other hSame
  simp only [parseOverrides, hSame]

theorem currentSettings_logrotate :
    (currentSettings env s).logrotate =
      (overridesSettings env
        (s.effective .overrides)).logrotate :=
  currentSettings_overrides _ (fun _ => rfl)
    (fun _ _ _ _ => rfl)

theorem currentSettings_monthlyArchive :
    (currentSettings env s).monthlyArchive =
      (overridesSettings env
        (s.effective .overrides)).monthlyArchive :=
  currentSettings_overrides _ (fun _ => rfl)
    (fun _ _ _ _ => rfl)

/- The bind password is not read back. -/
theorem currentSettings_ldapPassword :
    (currentSettings env s).ldapPassword = [] := by
  have hDNS : ∀ src set,
      (parseDNS src set).ldapPassword = set.ldapPassword :=
    fun _ _ => rfl
  have hMavis : ∀ src set,
      (parseMavis src set).ldapPassword = set.ldapPassword :=
    fun _ _ => rfl
  have hMain : ∀ src set,
      (readMain src set).ldapPassword = set.ldapPassword :=
    fun _ _ => rfl
  have hOverrides : ∀ src set,
      (parseOverrides src set).ldapPassword =
        set.ldapPassword :=
    fun _ _ => rfl
  simp only [currentSettings]
  rw [whenRead_keeps _ (readOverrides_keeps _ hOverrides)]
  simp only [readEnvironment]
  rw [whenRead_keeps _ hMain, whenRead_keeps _ hMavis,
    whenRead_keeps _ hDNS]
  rfl

end Api

end Soteria

------------------------------------------------------------
-- Sessions That Keep the Restart Group
------------------------------------------------------------

namespace Soteria

namespace Api

open Store Tacconfig

variable {env : Environment}
variable {certs : LdapCerts}
variable {s s' : State}

/-
  The files a read finds differ from the live ones in no
  setting that needs a restart.
-/
structure Steady (env : Environment) (s : State) :
    Prop where
  main :
    mainSettings (s.effective .main) =
      mainSettings (s.live .main)
  overrides :
    overridesSettings env (s.effective .overrides) =
      overridesSettings env (s.live .overrides)
  mavis :
    (mainSettings (s.live .main)).ldapEnabled = true →
      s.effective .mavis = s.live .mavis

/-
  Writing back the settings just read, with the stored bind
  password and the certificate files that exist, changes
  none that needs a restart.
-/
structure Settled
    (env : Environment)
    (certs : LdapCerts)
    (s : State) : Prop where
  main : ∀ src,
    s.effective .main = some src →
      mainSettings
          (some (editMain src (currentSettings env s))) =
        mainSettings (some src)
  overrides :
    overridesSettings env
        (some (renderOverrides
          (keepPassword s (currentSettings env s)))) =
      overridesSettings env (s.effective .overrides)
  mavis :
    (currentSettings env s).ldapEnabled = true →
      s.effective .mavis =
        some (renderMavis certs
          (keepPassword s (currentSettings env s)))

/-
  A request is about to stage with the restart marked
  already, or it changes the restart group, or the files are
  settled and its bind password is not blank.
-/
def PutSafe
    (env : Environment)
    (u : SettingsServer) : SettingsEvent → Prop
| .put r =>
    u.store.restartPending = true ∨
      ∀ new, r.body = .ok new →
        changesRestartGroup (currentSettings env u.store) new
            (new.ldapPassword.trimSpace != []) = true ∨
          (Settled env u.certs u.store ∧
            (new.ldapEnabled = true →
              new.ldapPassword.trimSpace = [] →
                new.ldapPassword = []))
| _ => True

/- Requests in the restart group that change nothing. -/
theorem not_changesRestartGroup
    {cur new : ServerSettings}
    {supplied : Bool}
    (hSame : changesRestartGroup cur new supplied = false) :
    new.ldapEnabled = cur.ldapEnabled ∧
      new.listenPort = cur.listenPort ∧
      new.tlsEnabled = cur.tlsEnabled ∧
      new.timezone = cur.timezone ∧
      new.logrotate = cur.logrotate ∧
      new.monthlyArchive = cur.monthlyArchive ∧
      (new.ldapEnabled = true → supplied = false ∧
        new.ldapServerType = cur.ldapServerType ∧
        new.ldapHosts = cur.ldapHosts ∧
        new.ldapUser = cur.ldapUser ∧
        new.ldapBase = cur.ldapBase ∧
        new.ldapBaseGroup = cur.ldapBaseGroup ∧
        new.ldapFilter = cur.ldapFilter ∧
        new.ldapFilterGroup = cur.ldapFilterGroup ∧
        new.ldapTacMember = cur.ldapTacMember ∧
        new.ldapConnectTimeout = cur.ldapConnectTimeout ∧
        new.ldapTLSMode = cur.ldapTLSMode ∧
        new.ldapTLSVerify = cur.ldapTLSVerify) := by
  simp only [changesRestartGroup, Bool.or_eq_false_iff,
    bne_eq_false_iff_eq] at hSame
  rcases hSame with
    ⟨⟨⟨⟨⟨hLdap, hPort⟩, hTLS⟩, hZone⟩, hRotate⟩, hArchive⟩
  have hToggle : new.ldapEnabled = cur.ldapEnabled := by
    split at hLdap
    · rename_i hOn
      simp only [Bool.and_eq_true, Bool.not_eq_true',
        bne_eq_false_iff_eq] at hOn
      exact hOn.2
    · simpa using hLdap
  refine ⟨hToggle, hPort, hTLS, hZone, hRotate, hArchive, ?_⟩
  intro hOn
  rw [if_pos (by simp [hOn, ← hToggle])] at hLdap
  simp only [Bool.or_eq_false_iff,
    bne_eq_false_iff_eq] at hLdap
  tauto

end Api

end Soteria

------------------------------------------------------------
-- What a Request Stages
------------------------------------------------------------

namespace Soteria

namespace Api

open Store Tacconfig

variable {env : Environment}
variable {certs : LdapCerts}
variable {s s' : State}

/- The bind password in the config, if it can be read. -/
def storedPassword (s : State) : Text :=
  match s.effective .mavis with
  | some src => mavisPassword src
  | none => []

theorem keepPassword_eq (s : State) (new : ServerSettings) :
    keepPassword s new =
      { new with
        ldapPassword :=
          if new.ldapPassword = [] then storedPassword s
          else new.ldapPassword } := by
  unfold keepPassword storedPassword
  rw [readEffective_path]
  by_cases hEmpty : new.ldapPassword = []
  · simp only [if_pos hEmpty]
    cases s.effective .mavis with
    | some src => rfl
    | none =>
        simp only []
        rw [← hEmpty]
  · simp only [if_neg hEmpty]

/-
  A request that changes nothing in the restart group and
  whose bind password is not blank is rendered as the
  settings just read.
-/
theorem rendered_unchanged
    {cur new : ServerSettings}
    (hCur : cur.ldapPassword = [])
    (hSame :
      changesRestartGroup cur new
        (new.ldapPassword.trimSpace != []) = false)
    (hBlank :
      new.ldapEnabled = true →
        new.ldapPassword.trimSpace = [] →
          new.ldapPassword = []) :
    (∀ src, editMain src (keepPassword s new) =
        editMain src cur) ∧
      renderOverrides (keepPassword s new) =
        renderOverrides (keepPassword s cur) ∧
      (cur.ldapEnabled = true →
        renderMavis certs (keepPassword s new) =
          renderMavis certs (keepPassword s cur)) := by
  rcases not_changesRestartGroup hSame with
    ⟨hToggle, hPort, hTLS, hZone, hRotate, hArchive, hLdap⟩
  have hPassword :
      new.ldapEnabled = true → new.ldapPassword = [] := by
    intro hOn
    have hSupplied := (hLdap hOn).1
    exact hBlank hOn (by simpa using hSupplied)
  rw [keepPassword_eq, keepPassword_eq, hCur]
  refine ⟨?_, ?_, ?_⟩
  · intro src
    unfold editMain
    dsimp only
    rw [hToggle, hPort, hTLS]
  · unfold renderOverrides
    dsimp only
    rw [hZone, hRotate, hArchive]
    cases hOn : new.ldapEnabled with
    | false =>
        rw [← hToggle, hOn, if_neg Bool.false_ne_true,
          if_neg Bool.false_ne_true]
    | true =>
        rcases hLdap hOn with
          ⟨-, hType, hHosts, hUser, hBase, hGroup, hFilter,
            hFilterGroup, hMember, hTimeout, -, -⟩
        rw [← hToggle, hOn, hPassword hOn, hType, hHosts,
          hUser, hBase, hGroup, hFilter, hFilterGroup,
          hMember, hTimeout]
  · intro hCurOn
    have hOn : new.ldapEnabled = true := by
      rw [hToggle]
      exact hCurOn
    rcases hLdap hOn with
      ⟨-, hType, hHosts, hUser, hBase, hGroup, hFilter,
        hFilterGroup, hMember, hTimeout, hMode, hVerify⟩
    unfold renderMavis
    dsimp only
    rw [hPassword hOn, hType, hHosts, hUser, hBase, hGroup,
      hFilter, hFilterGroup, hMember, hTimeout, hMode,
      hVerify]

/- A loop without failures staged every file of its list. -/
theorem stageFiles_ok
    {put : SettingsPut}
    {files : List ManagedFile}
    {session : Session}
    (hStaging : s.staging = some session)
    (hStage : stageFiles put files s = (none, s')) :
    s' = { s with
      staging := some { session with
        files := fun file =>
          if file ∈ files then some (put.contents file)
          else session.files file } } := by
  induction files generalizing s session with
  | nil =>
      have hSame := (Prod.mk.inj hStage).2
      rw [← hSame]
      simp [← hStaging]
  | cons file rest ih =>
      simp only [stageFiles] at hStage
      split at hStage
      · rename_i next hWrite
        rcases writeStaged_ok_iff.mp hWrite with
          ⟨other, hOther, -, hNext⟩
        rw [hStaging] at hOther
        cases hOther
        have hRest :=
          ih (by rw [hNext]) hStage
        rw [hRest, hNext]
        simp only [State.mk.injEq, Option.some.injEq,
          Session.mk.injEq, and_true, true_and]
        funext name
        by_cases hName : name ∈ rest
        · simp [hName]
        · by_cases hHead : name = file
          · subst hHead
            simp [hName]
          · simp [hName, hHead, FileTree.set_of_ne]
      · cases hStage

/- What a request that is about to stage has read. -/
theorem planSettings_ok
    {r : SettingsRequest}
    {put : SettingsPut}
    (hPlan : planSettings env certs s r = .ok put) :
    ∃ new src, r.body = .ok new ∧
      s.effective .main = some src ∧
      put.contents =
        settingsContents certs src (keepPassword s new) ∧
      put.needsRestart =
        changesRestartGroup (currentSettings env s) new
          (new.ldapPassword.trimSpace != []) := by
  unfold planSettings at hPlan
  split at hPlan
  · cases hPlan
  rename_i new hBody
  split at hPlan
  · cases hPlan
  simp only [] at hPlan
  split at hPlan
  · cases hPlan
  split at hPlan
  · cases hPlan
  rename_i src hRead
  have hMain : s.effective .main = some src := by
    rw [readEffective_path] at hRead
    split at hRead
    · rename_i content hContent
      cases hRead
      exact hContent
    · cases hRead
  cases hPlan
  exact ⟨new, src, hBody, hMain, rfl, rfl⟩

/- What an accepted request read, and what it leaves. -/
theorem putSettings_ok
    {r : SettingsRequest}
    {session : Session}
    {restart : Bool}
    (hStaging : s.staging = some session)
    (hOk : (putSettings env certs s r).1 = .ok restart) :
    ∃ new src, r.body = .ok new ∧
      s.effective .main = some src ∧
      restart =
        changesRestartGroup (currentSettings env s) new
          (new.ldapPassword.trimSpace != []) ∧
      (putSettings env certs s r).2 = { s with
        staging := some
          ⟨fun file =>
            if file ∈ settingsFiles then
              some (settingsContents certs src
                (keepPassword s new) file)
            else session.files file,
          restart || session.needsRestart⟩ } := by
  unfold putSettings at hOk ⊢
  cases hPlan : planSettings env certs s r with
  | error error =>
      rw [hPlan] at hOk
      cases hOk
  | ok put =>
      rw [hPlan] at hOk
      rcases planSettings_ok hPlan with
        ⟨new, src, hBody, hMain, hContents, hNeeds⟩
      rcases hStage : stageFiles put settingsFiles s with
        ⟨error, next⟩
      simp only [hStage] at hOk ⊢
      cases error with
      | some error => cases hOk
      | none =>
          have hFiles := stageFiles_ok hStaging hStage
          rw [hContents] at hFiles
          refine ⟨new, src, hBody, hMain, ?_⟩
          rw [← hNeeds]
          cases hRestart : put.needsRestart with
          | false =>
              simp only [hRestart, Bool.false_eq_true,
                if_false] at hOk ⊢
              cases hOk
              exact ⟨rfl, hFiles⟩
          | true =>
              simp only [hRestart, if_true] at hOk ⊢
              rcases hMark : markRestart put.markFault next
                with ⟨fault, marked⟩
              simp only [hMark] at hOk ⊢
              cases fault with
              | some fault => cases hOk
              | none =>
                  cases hOk
                  refine ⟨rfl, ?_⟩
                  rw [(markRestart_ok_iff.mp hMark).2, hFiles]
                  rfl

end Api

end Soteria

------------------------------------------------------------
-- Commits of Settings
------------------------------------------------------------

namespace Soteria

namespace Api

open Store Tacconfig

variable {env : Environment}
variable {cfg : Config}
variable {now : Nat}
variable {input : CommitInput}
variable {live : Tree}
variable {s : State}

/-
  An open session over the live files that is marked for a
  restart, or differs from them in nothing that needs one.
-/
def KeepsRestart
    (env : Environment)
    (live : Tree)
    (s : State) : Prop :=
  s.live = live ∧
    ∃ session, s.staging = some session ∧
      (session.needsRestart = true ∨ Steady env s)

/- A session that has just been begun. -/
theorem keepsRestart_begun
    (env : Environment)
    (hStaging : s.staging = some ⟨s.live, false⟩) :
    KeepsRestart env s.live s := by
  have hEffective : s.effective = s.live := by
    funext file
    simp [State.effective, hStaging]
  refine ⟨rfl, _, hStaging, Or.inr ?_⟩
  constructor
  · rw [hEffective]
  · rw [hEffective]
  · intro _
    rw [hEffective]

theorem keepsRestart_put
    {u : SettingsServer}
    {r : SettingsRequest}
    (hKeeps : KeepsRestart env live u.store)
    (hOk : PutAccepted env u (.put r))
    (hSafe : PutSafe env u (.put r)) :
    KeepsRestart env live (u.after env (.put r)).store := by
  rcases hKeeps with ⟨hLive, session, hStaging, hMarked⟩
  rcases hOk with ⟨restart, hRestart⟩
  rcases putSettings_ok hStaging hRestart with
    ⟨new, src, hBody, hMain, hChanges, hState⟩
  have hAfter :
      (u.after env (.put r)).store = _ := hState
  rw [hAfter]
  refine ⟨hLive, _, rfl, ?_⟩
  cases hNeeds : session.needsRestart with
  | true =>
      left
      simp only [Bool.or_true]
  | false =>
      cases restart with
      | true =>
          left
          rfl
      | false =>
          right
          have hSteady : Steady env u.store := by
            rw [hNeeds] at hMarked
            simpa using hMarked
          have hPending :
              u.store.restartPending = false := by
            simp only [State.restartPending, hStaging, hNeeds]
          have hSettled :
              Settled env u.certs u.store ∧
                (new.ldapEnabled = true →
                  new.ldapPassword.trimSpace = [] →
                    new.ldapPassword = []) := by
            rcases hSafe with hPending' | hRequest
            · rw [hPending] at hPending'
              cases hPending'
            · rcases hRequest new hBody with hMarks | hKept
              · rw [← hChanges] at hMarks
                cases hMarks
              · exact hKept
          rcases hSettled with ⟨hSettled, hBlank⟩
          rcases @rendered_unchanged u.certs u.store _ _
              currentSettings_ldapPassword hChanges.symm hBlank
            with ⟨hEdited, hOverrides, hMavis⟩
          constructor
          · show mainSettings
                (some (editMain src
                  (keepPassword u.store new))) = _
            rw [hEdited src, hSettled.main src hMain, ← hMain]
            exact hSteady.main
          · show overridesSettings env
                (some (renderOverrides
                  (keepPassword u.store new))) = _
            rw [hOverrides, hSettled.overrides]
            exact hSteady.overrides
          · intro hOn
            have hCur :
                (currentSettings env
                  u.store).ldapEnabled = true := by
              rw [currentSettings_ldapEnabled, hSteady.main]
              exact hOn
            show some (renderMavis u.certs
                (keepPassword u.store new)) = _
            rw [hMavis hCur, ← hSettled.mavis hCur]
            exact hSteady.mavis hOn

/- What live files read back as. -/
theorem liveSettings_sources
    (env : Environment)
    (live : Tree) :
    (liveSettings env live).ldapEnabled =
        (mainSettings (live .main)).ldapEnabled ∧
      (liveSettings env live).listenPort =
        (mainSettings (live .main)).listenPort ∧
      (liveSettings env live).tlsEnabled =
        (mainSettings (live .main)).tlsEnabled ∧
      (liveSettings env live).timezone =
        (overridesSettings env
          (live .overrides)).timezone ∧
      (liveSettings env live).logrotate =
        (overridesSettings env
          (live .overrides)).logrotate ∧
      (liveSettings env live).monthlyArchive =
        (overridesSettings env
          (live .overrides)).monthlyArchive := by
  unfold liveSettings
  rw [currentSettings_ldapEnabled, currentSettings_listenPort,
    currentSettings_tlsEnabled, currentSettings_timezone,
    currentSettings_logrotate,
    currentSettings_monthlyArchive, effective_of_closed rfl]
  exact ⟨rfl, rfl, rfl, rfl, rfl, rfl⟩

/- Files that read back the same need no restart. -/
theorem not_restartDue
    {live' : Tree}
    (hMain :
      mainSettings (live' .main) =
        mainSettings (live .main))
    (hOverrides :
      overridesSettings env (live' .overrides) =
        overridesSettings env (live .overrides))
    (hMavis :
      (mainSettings (live .main)).ldapEnabled = true →
        live' .mavis = live .mavis) :
    ¬RestartDue env live live' := by
  rcases liveSettings_sources env live with
    ⟨hLdap, hPort, hTLS, hZone, hRotate, hArchive⟩
  rcases liveSettings_sources env live' with
    ⟨hLdap', hPort', hTLS', hZone', hRotate', hArchive'⟩
  rw [hMain] at hLdap' hPort' hTLS'
  rw [hOverrides] at hZone' hRotate' hArchive'
  unfold RestartDue
  simp only [hLdap, hPort, hTLS, hZone, hRotate, hArchive,
    hLdap', hPort', hTLS', hZone', hRotate', hArchive',
    ne_eq, not_true_eq_false, or_false]
  rintro ⟨hOn, hChanged⟩
  exact hChanged (hMavis hOn)

/- Applying a marked session without an error restarts. -/
theorem commit_restarts
    {session : Session}
    (hDev : cfg.devMode = false)
    (hStaging : s.staging = some session)
    (hMarked : session.needsRestart = true)
    (hOk : (commitStaging cfg now input s).error = none) :
    (commitStaging cfg now input s).state.live = s.live ∨
      (commitStaging cfg now input s).signal =
        some (.restart, none) := by
  have hResult := commitStaging_result cfg now input s
  generalize commitStaging cfg now input s = out at *
  cases hResult with
  | unchanged => exact Or.inl rfl
  | devMode _ _ _ _ _ _ _ hOn =>
      rw [hDev] at hOn
      cases hOn
  | rejected _ _ _ _ _ rollback =>
      cases rollback <;> cases hOk
  | committed other _ _ signal hOther _ _ _ _ _ hApply =>
      rw [hStaging] at hOther
      cases hOther
      right
      simp only [applyCommit, hMarked, if_true] at hApply
      split at hApply
      · cases hApply
      · cases hError : input.signalError with
        | none =>
            rw [hError] at hApply
            exact (Prod.mk.inj hApply).2.symm
        | some error =>
            rw [hError] at hApply
            cases hApply
  | _ => cases hOk

/- A commit of such a session restarts if one is due. -/
theorem restarts_of_keepsRestart
    (hDev : cfg.devMode = false)
    (hKeeps : KeepsRestart env live s)
    (hOk : (commitStaging cfg now input s).error = none)
    (hDue :
      RestartDue env s.live
        (commitStaging cfg now input s).state.live) :
    (commitStaging cfg now input s).signal =
      some (.restart, none) := by
  rcases hKeeps with ⟨-, session, hStaging, hKept⟩
  rcases hKept with hMarked | hSteady
  · rcases commit_restarts hDev hStaging hMarked hOk with
      hLive | hSignal
    · refine (not_restartDue ?_ ?_ ?_ hDue).elim
      · rw [hLive]
      · rw [hLive]
      · intro _
        rw [hLive]
    · exact hSignal
  · have hFiles := commit_live_succeeded hOk
    refine (not_restartDue ?_ ?_ ?_ hDue).elim
    · rcases hFiles .main with hSame | hStaged
      · rw [hSame]
      · rw [hStaged, hSteady.main]
    · rcases hFiles .overrides with hSame | hStaged
      · rw [hSame]
      · rw [hStaged, hSteady.overrides]
    · intro hOn
      rcases hFiles .mavis with hSame | hStaged
      · exact hSame
      · rw [hStaged, hSteady.mavis hOn]

/-
  In a session of accepted requests that are all safe,
  uploads and removals of certificates between them, a
  successful commit restarts the container if its changes
  need it.
-/
theorem settings_restart_of_run
    (env : Environment)
    (cfg : Config)
    (start : SettingsServer)
    (events : List SettingsEvent)
    (now : Nat)
    (input : CommitInput)
    (hDev : cfg.devMode = false)
    (hBegun :
      start.store.staging = some ⟨start.store.live, false⟩)
    (hRun :
      Transition.Along (SettingsServer.after env)
        (fun u e => PutAccepted env u e ∧ PutSafe env u e)
        start events)
    (hOk :
      (commitStaging cfg now input
        (events.foldl (SettingsServer.after env)
          start).store).error = none)
    (hDue :
      RestartDue env start.store.live
        (commitStaging cfg now input
          (events.foldl (SettingsServer.after env)
            start).store).state.live) :
    (commitStaging cfg now input
      (events.foldl (SettingsServer.after env)
        start).store).signal = some (.restart, none) := by
  have hKeeps :
      KeepsRestart env start.store.live
        (events.foldl (SettingsServer.after env)
          start).store := by
    refine Transition.Along.final
      (I := fun u =>
        KeepsRestart env start.store.live u.store)
      ?_ (keepsRestart_begun env hBegun) hRun
    rintro u e hBefore ⟨hAccepted, hSafe⟩
    cases e with
    | put r => exact keepsRestart_put hBefore hAccepted hSafe
    | putCert upload => exact hBefore
    | deleteCert name fault => exact hBefore
  rw [← hKeeps.1] at hDue
  exact restarts_of_keepsRestart hDev hKeeps hOk hDue

/- An agent whose time zone variable ends in a blank. -/
def zoneEnvironment : Environment where
  globalKey := []
  tz := "UTC "
  enableLogrotate := []
  enableMonthlyArchive := []

/- A main config with a listener, and a session on it. -/
def listenerStore : State where
  live := FileTree.empty.set .main "port = 49\n"
  staging := none
  backups := .empty
  golden := none
  retain := none

def listenerSession : SettingsServer where
  store :=
    (beginStaging .none listenerStore).2
  certs := ⟨false, false, false⟩

/- The settings of that agent, with the given port. -/
def listenerSettings (port : Text) : ServerSettings :=
  { ServerSettings.zero with
    listenPort := port
    timezone := "UTC "
    logrotate := true
    monthlyArchive := true }

def settingsRequest (new : ServerSettings) :
    SettingsRequest where
  body := .ok new
  hasFile := fun _ => false
  writeFault := fun _ => none
  markFault := none

/- The session once its one request is served. -/
def listenerAfter (port : Text) : State :=
  (listenerSession.after zoneEnvironment
    (.put (settingsRequest (listenerSettings port)))).store

theorem settings_restart_port :
    (commitStaging plainConfig 2 acceptedInput
      (listenerAfter "4949")).signal =
        some (.restart, none) := by
  refine settings_restart_of_run zoneEnvironment plainConfig
    listenerSession
    [.put (settingsRequest (listenerSettings "4949"))] 2
    acceptedInput rfl rfl ?_ rfl ?_
  · refine ⟨⟨⟨true, rfl⟩, Or.inr ?_⟩, trivial⟩
    rintro new hBody
    cases hBody
    left
    decide +kernel
  · refine Or.inr (Or.inl ?_)
    rw [(liveSettings_sources _ _).2.1,
      (liveSettings_sources _ _).2.1]
    decide +kernel

/-
  Sending back the settings as they were read stages a time
  zone that reads back without the blank: it changes and the
  container is not restarted.
-/
theorem zone_change_reloads :
    Reached plainConfig listenerSession.store ∧
      PutAccepted zoneEnvironment listenerSession
        (.put (settingsRequest (listenerSettings "49"))) ∧
      (commitStaging plainConfig 2 acceptedInput
        (listenerAfter "49")).error = none ∧
      RestartDue zoneEnvironment listenerSession.store.live
        (commitStaging plainConfig 2 acceptedInput
          (listenerAfter "49")).state.live ∧
      (commitStaging plainConfig 2 acceptedInput
        (listenerAfter "49")).signal =
          some (.reload, none) := by
  refine ⟨?_, ⟨false, rfl⟩, rfl, ?_, rfl⟩
  · have hFresh : Reached plainConfig listenerStore :=
      ⟨_, [], ⟨rfl, rfl, rfl⟩, .refl _⟩
    exact hFresh.apply 1 (.begin .none)
  · refine Or.inr (Or.inr (Or.inr (Or.inr (Or.inl ?_))))
    rw [(liveSettings_sources _ _).2.2.2.1,
      (liveSettings_sources _ _).2.2.2.1]
    decide +kernel

end Api

end Soteria
