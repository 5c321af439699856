import Mathlib.Logic.Function.Iterate
import Soteria.Store.Clients
import Soteria.Tacconfig.Settings

/-
  The handlers behind the settings page: reading the settings
  back from the config files, staging new ones, and the
  certificate files of the LDAP backend.

  `PUT settings` reads everything it needs, then stages four
  files and marks the restart. What it is about to stage is
  the `SettingsPut` that the interleaved model runs.

  Key definitions include:
    * `currentSettings`
    * `changesRestartGroup`
    * `SettingsRequest`, `planSettings`, `putSettings`
    * `putSettings_steps`
    * `putLdapCert`, `deleteLdapCert`
-/

------------------------------------------------------------
-- Reading the Settings
------------------------------------------------------------

namespace Soteria

namespace Api

open Store Tacconfig

/- The agent's shared key and environment variables. -/
structure Environment where
  globalKey : Text
  tz : Text
  enableLogrotate : Text
  enableMonthlyArchive : Text

/- `firstNonEmpty`. -/
def firstNonEmpty : List Text → Text
| [] => []
| v :: rest => if v != [] then v else firstNonEmpty rest

/- What is read from the main config. -/
def readMain (src : Text) (set : ServerSettings) :
    ServerSettings :=
  { set with
    ldapEnabled := mavisIncludeEnabled src
    listenPort := parseListenPort src
    tlsEnabled := Tacconfig.tlsEnabled src }

/- What does not depend on a file. -/
def readEnvironment
    (env : Environment)
    (set : ServerSettings) : ServerSettings :=
  { set with
    sharedKeySet := env.globalKey != []
    tlsPort := "300"
    timezone := firstNonEmpty [env.tz, "UTC"]
    logrotate := !env.enableLogrotate.equalFold "false"
    monthlyArchive :=
      !env.enableMonthlyArchive.equalFold "false" }

/- An empty overrides file counts as none. -/
def readOverrides (src : Text) (set : ServerSettings) :
    ServerSettings :=
  if src != [] then parseOverrides src set else set

/- A reader applied to a file that can be read. -/
def whenRead
    (s : State)
    (file : ManagedFile)
    (read : Text → ServerSettings → ServerSettings)
    (set : ServerSettings) : ServerSettings :=
  match readEffective s file.path with
  | .ok src => read src set
  | .error _ => set

/- `currentSettings`. -/
def currentSettings (env : Environment) (s : State) :
    ServerSettings :=
  let set := whenRead s .dns parseDNS .zero
  let set := whenRead s .mavis parseMavis set
  let set := whenRead s .main readMain set
  let set := readEnvironment env set
  whenRead s .overrides readOverrides set

end Api

end Soteria

------------------------------------------------------------
-- Staging New Settings
------------------------------------------------------------

namespace Soteria

namespace Api

open Store Tacconfig

/-
  The restart-group comparison of the settings before and
  after: LDAP, the listeners, and what the entrypoint reads.
-/
def changesRestartGroup
    (cur new : ServerSettings)
    (passwordSupplied : Bool) : Bool :=
  let ldapToggled := new.ldapEnabled != cur.ldapEnabled
  let ldapChanged :=
    if new.ldapEnabled && !ldapToggled then
      passwordSupplied ||
        new.ldapServerType != cur.ldapServerType ||
        new.ldapHosts != cur.ldapHosts ||
        new.ldapUser != cur.ldapUser ||
        new.ldapBase != cur.ldapBase ||
        new.ldapBaseGroup != cur.ldapBaseGroup ||
        new.ldapFilter != cur.ldapFilter ||
        new.ldapFilterGroup != cur.ldapFilterGroup ||
        new.ldapTacMember != cur.ldapTacMember ||
        new.ldapConnectTimeout != cur.ldapConnectTimeout ||
        new.ldapTLSMode != cur.ldapTLSMode ||
        new.ldapTLSVerify != cur.ldapTLSVerify
    else ldapToggled
  ldapChanged || new.listenPort != cur.listenPort ||
    new.tlsEnabled != cur.tlsEnabled ||
    new.timezone != cur.timezone ||
    new.logrotate != cur.logrotate ||
    new.monthlyArchive != cur.monthlyArchive

/-
  A `PUT settings` request: the decoded body, which files the
  server's container has, and the file accesses that fail.
-/
structure SettingsRequest where
  body : Except Text ServerSettings
  hasFile : Text → Bool
  writeFault : ManagedFile → Option Text
  markFault : Option (Text × Bool)

inductive SettingsError where
  | invalidBody (error : Text)
  | ldapIncomplete
  | tlsFileMissing (file : Text)
  | mainUnreadable (error : Text)
  | stage (error : StageError)
  | mark (error : Text)

/- The status and the message of the answer. -/
def SettingsError.response : SettingsError → Nat × Text
| .invalidBody error =>
    (400, "invalid request body: " ++ error)
| .ldapIncomplete =>
    (400, "LDAP hosts, bind DN and search base are required when LDAP is enabled")
| .tlsFileMissing file =>
    (400, "cannot enable TLS: /etc/tac_plus-ng/tls/" ++ file ++
      " not found - mount the tls/ directory with server.crt, server.key, ca.crt first")
| .mainUnreadable error => (500, error)
| .stage .stagingInactive =>
    (409, StageError.stagingInactive.message)
| .stage error => (500, error.message)
| .mark error => (500, error)

/- The first file TLS needs that the container lacks. -/
def missingTLSFile (hasFile : Text → Bool) : Option Text :=
  (["server.crt", "server.key", "ca.crt"] : List Text).find?
    fun file => !hasFile ("/etc/tac_plus-ng/tls/" ++ file)

/- The stored bind password stands in for an empty one. -/
def keepPassword (s : State) (new : ServerSettings) :
    ServerSettings :=
  if new.ldapPassword = [] then
    match readEffective s ManagedFile.mavis.path with
    | .ok src =>
        { new with ldapPassword := mavisPassword src }
    | .error _ => new
  else new

/- The three edits of the main config. -/
def editMain (src : Text) (new : ServerSettings) : Text :=
  setTLS
    (setListenPort (setMavisInclude src new.ldapEnabled)
      new.listenPort)
    new.tlsEnabled

/- The files the settings are written to. -/
def settingsContents
    (certs : LdapCerts)
    (mainCfg : Text)
    (new : ServerSettings) : ManagedFile → Text
| .dns => renderDNS new
| .mavis => renderMavis certs new
| .main => editMain mainCfg new
| .overrides => renderOverrides new
| _ => []

/- `putSettings` up to its first write. -/
def planSettings
    (env : Environment)
    (certs : LdapCerts)
    (s : State)
    (r : SettingsRequest) : Except SettingsError SettingsPut :=
  match r.body with
  | .error error => .error (.invalidBody error)
  | .ok new =>
      if new.ldapEnabled &&
          (new.ldapHosts == [] || new.ldapUser == [] ||
            new.ldapBase == []) then
        .error .ldapIncomplete
      else
        let cur := currentSettings env s
        match
          if new.tlsEnabled && !cur.tlsEnabled then
            missingTLSFile r.hasFile
          else none with
        | some file => .error (.tlsFileMissing file)
        | none =>
            match readEffective s ManagedFile.main.path with
            | .error error => .error (.mainUnreadable error)
            | .ok src =>
                .ok
                  { contents :=
                      settingsContents certs src
                        (keepPassword s new)
                    needsRestart :=
                      changesRestartGroup cur new
                        (new.ldapPassword.trimSpace != [])
                    writeFault := r.writeFault
                    markFault := r.markFault }

/- Stage the listed files, up to the first failure. -/
def stageFiles
    (put : SettingsPut) :
    List ManagedFile → State → Option StageError × State
| [], s => (none, s)
| file :: rest, s =>
    match writeStaged (put.writeFault file) file.path
        (put.contents file) s with
    | .ok s' => stageFiles put rest s'
    | .error error => (some error, s)

/-
  `putSettings`, with nothing in between: whether a restart
  is required, or the error, and the state afterwards.
-/
def putSettings
    (env : Environment)
    (certs : LdapCerts)
    (s : State)
    (r : SettingsRequest) : Except SettingsError Bool × State :=
  match planSettings env certs s r with
  | .error error => (.error error, s)
  | .ok put =>
      match stageFiles put settingsFiles s with
      | (some error, s) => (.error (.stage error), s)
      | (none, s) =>
          if put.needsRestart then
            match markRestart put.markFault s with
            | (some error, s) => (.error (.mark error), s)
            | (none, s) => (.ok true, s)
          else (.ok false, s)

end Api

end Soteria

------------------------------------------------------------
-- The Request as a Client
------------------------------------------------------------

namespace Soteria

namespace Api

open Store Tacconfig

variable {env : Environment}
variable {cfg : Config}

/- A client's next step, alone with the directory. -/
def stepAlone (cfg : Config) (u : State × Client) :
    State × Client :=
  u.2.next cfg u.1

/- Staging is one step of the client for each file. -/
theorem stageFiles_steps
    (cfg : Config)
    (put : SettingsPut)
    (file : ManagedFile)
    (rest : List ManagedFile)
    (s : State) :
    ∃ steps,
      (stepAlone cfg)^[steps]
          (s, .writing put (file :: rest)) =
        match stageFiles put (file :: rest) s with
        | (none, s') => (s', .afterWrite put [])
        | (some _, s') => (s', .answered none) := by
  induction rest generalizing file s with
  | nil =>
      refine ⟨1, ?_⟩
      simp only [Function.iterate_one, stepAlone, Client.next,
        stageFiles]
      cases writeStaged (put.writeFault file) file.path
          (put.contents file) s with
      | ok s' => rfl
      | error error => rfl
  | cons next rest ih =>
      cases hWrite : writeStaged (put.writeFault file)
          file.path (put.contents file) s with
      | error error =>
          refine ⟨1, ?_⟩
          simp only [Function.iterate_one, stepAlone,
            Client.next, stageFiles, hWrite]
      | ok s' =>
          rcases ih next s' with ⟨steps, hSteps⟩
          refine ⟨steps + 1, ?_⟩
          rw [Function.iterate_succ_apply]
          simp only [stepAlone, Client.next,
            Client.afterWrite, hWrite] at hSteps ⊢
          rw [stageFiles, hWrite]
          exact hSteps

/-
  Alone with the directory, the client that is about to
  stage ends with the state and the answer of the handler.
-/
theorem putSettings_steps
    {certs : LdapCerts}
    {s : State}
    {r : SettingsRequest}
    {put : SettingsPut}
    (cfg : Config)
    (hPlan : planSettings env certs s r = .ok put) :
    ∃ steps,
      (stepAlone cfg)^[steps] (s, .writing put settingsFiles) =
        ((putSettings env certs s r).2,
          .answered
            (putSettings env certs s r).1.toOption) := by
  rcases stageFiles_steps cfg put .dns
      [.mavis, .main, .overrides] s with
    ⟨steps, hSteps⟩
  unfold putSettings
  rw [hPlan]
  rcases hStage : stageFiles put settingsFiles s with
    ⟨error, s'⟩
  have hStaged :
      stageFiles put
        (.dns :: [.mavis, .main, .overrides]) s =
          (error, s') := hStage
  rw [hStaged] at hSteps
  simp only [hStage]
  cases error with
  | some error => exact ⟨steps, hSteps⟩
  | none =>
      simp only [Client.afterWrite] at hSteps
      cases hNeeds : put.needsRestart with
      | false =>
          rw [hNeeds] at hSteps
          exact ⟨steps, hSteps⟩
      | true =>
          rw [hNeeds] at hSteps
          refine ⟨1 + steps, ?_⟩
          rw [Function.iterate_add_apply]
          have hFiles :
              (stepAlone cfg)^[steps]
                  (s, .writing put settingsFiles) =
                (s', .marking put) := hSteps
          rw [hFiles, Function.iterate_one]
          simp only [stepAlone, Client.next, if_true]
          rcases markRestart put.markFault s' with
            ⟨fault, marked⟩
          cases fault with
          | none => rfl
          | some fault => rfl

end Api

end Soteria

------------------------------------------------------------
-- Certificates
------------------------------------------------------------

namespace Soteria

namespace Api

open Tacconfig

/- The files of the LDAP bundle. -/
inductive LdapCert where
  | ca
  | clientCert
  | clientKey
deriving DecidableEq

/- The entry of `ldapCertFiles` for a name. -/
def ldapCertOf (name : Text) : Option LdapCert :=
  if name = "ca" then some .ca
  else if name = "client-cert" then some .clientCert
  else if name = "client-key" then some .clientKey
  else none

/- The bundle once a file is there, or is not. -/
def withCert
    (certs : LdapCerts)
    (present : Bool) : LdapCert → LdapCerts
| .ca => { certs with ca := present }
| .clientCert => { certs with clientCert := present }
| .clientKey => { certs with clientKey := present }

/-
  An upload: the name in the path, the error the decoding of
  the body and the checks of its content end with, the error
  of storing the file and whether it is there all the same,
  and the error of loading the client certificate with its
  key.
-/
structure CertUpload where
  name : Text
  refused : Option Text
  storeFault : Option (Text × Bool)
  mismatch : Option Text

inductive CertError where
  | unknown (name hint : Text)
  | refused (error : Text)
  | io (error : Text)
  | mismatch (error : Text)

/- The status and the message of the answer. -/
def CertError.response : CertError → Nat × Text
| .unknown name hint =>
    (400, "unknown certificate " ++ name.quoted ++ hint)
| .refused error => (400, error)
| .io error => (500, error)
| .mismatch error =>
    (400, "client certificate and key do not match: " ++ error)

/-
  `putLdapCert`. A file that leaves a pair that does not
  match is removed again.
-/
def putLdapCert (u : CertUpload) (certs : LdapCerts) :
    Option CertError × LdapCerts :=
  match ldapCertOf u.name with
  | none =>
      (some (.unknown u.name
        " (want ca, client-cert or client-key)"), certs)
  | some cert =>
      match u.refused with
      | some error => (some (.refused error), certs)
      | none =>
          match u.storeFault with
          | some (error, made) =>
              (some (.io error),
                if made then withCert certs true cert
                else certs)
          | none =>
              let stored := withCert certs true cert
              match
                if stored.clientCert && stored.clientKey then
                  u.mismatch
                else none with
              | some error =>
                  (some (.mismatch error),
                    withCert stored false cert)
              | none => (none, stored)

/- `deleteLdapCert`, with the error of the removal. -/
def deleteLdapCert
    (name : Text)
    (fault : Option Text)
    (certs : LdapCerts) : Option CertError × LdapCerts :=
  match ldapCertOf name with
  | none => (some (.unknown name []), certs)
  | some cert =>
      match fault with
      | some error => (some (.io error), certs)
      | none => (none, withCert certs false cert)

end Api

end Soteria
