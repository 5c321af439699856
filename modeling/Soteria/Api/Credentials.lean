import Soteria.Api.Overrides
import Soteria.Tacconfig.Backend

/-
  The LDAP credentials in the two files they are written to.

  The overrides file has every credential in single quotes.
  The LDAP file has it without its double quotes, and what is
  read back can come from behind an earlier value instead.
  The stored password stands in for an empty one, so a wrong
  reading is written again with the next request.

  Key definitions include:
    * `Credential`, `credentials`
    * `exportedLine`, `assignedBy`
    * `Credential.Kept`
    * `AcceptedSettings.Agree`
    * `credentials_agree_iff`
-/

------------------------------------------------------------
-- Credentials
------------------------------------------------------------

namespace Soteria

namespace Tacconfig

/- A credential: its setting, and how a file is read for it. -/
structure Credential where
  key : Text
  setting : ServerSettings → Text
  stored : Text → Text

/- The settings of an LDAP file. -/
def readMavis (src : Text) : ServerSettings :=
  parseMavis src .zero

def credentials : List Credential :=
  [⟨"LDAP_PASSWD", ServerSettings.ldapPassword,
      mavisPassword⟩,
    ⟨"LDAP_USER", ServerSettings.ldapUser,
      fun src => (readMavis src).ldapUser⟩,
    ⟨"LDAP_BASE", ServerSettings.ldapBase,
      fun src => (readMavis src).ldapBase⟩,
    ⟨"LDAP_BASE_GROUP", ServerSettings.ldapBaseGroup,
      fun src => (readMavis src).ldapBaseGroup⟩,
    ⟨"LDAP_FILTER", ServerSettings.ldapFilter,
      fun src => (readMavis src).ldapFilter⟩,
    ⟨"LDAP_FILTER_GROUP", ServerSettings.ldapFilterGroup,
      fun src => (readMavis src).ldapFilterGroup⟩]

theorem mem_credentials_password :
    ⟨"LDAP_PASSWD", ServerSettings.ldapPassword,
      mavisPassword⟩ ∈ credentials :=
  List.mem_cons_self ..

/- The line of the overrides file for a variable. -/
def exportedLine (s : ServerSettings) (key : Text) :
    Option Text :=
  ((givenVariables s).lookup key).map fun v =>
    overrideLine key (shellQuote v)

/- What sourcing a text assigns to a variable. -/
def assignedBy (script key : Text) : Option Text :=
  (Shell.source script).bind fun commands =>
    Shell.lastAssigned commands key

/-
  The credential has no NUL, and no double quote; where it is
  read from behind another value it is what is read there.
-/
def Credential.Kept
    (c : Credential)
    (certs : LdapCerts)
    (s : ServerSettings) : Prop :=
  '\x00' ∉ c.setting s ∧
    match shadow c.key (mavisEntries certs s) with
    | none => '"' ∉ c.setting s
    | some start => c.setting s = start

/- On its own line a credential is without its quotes. -/
theorem ownValue_credential
    {c : Credential}
    (hc : c ∈ credentials)
    (certs : LdapCerts)
    (s : ServerSettings) :
    ownValue c.key (mavisEntries certs s) =
      (c.setting s).replaceChar '"' [] := by
  have hSetting : (c.key, c.setting s) ∈ mavisSettings certs s := by
    simp only [credentials, List.mem_cons, List.not_mem_nil,
      or_false] at hc
    rcases hc with rfl | rfl | rfl | rfl | rfl | rfl
    · exact List.mem_of_getElem? (i := 3) rfl
    · exact List.mem_of_getElem? (i := 2) rfl
    · exact List.mem_of_getElem? (i := 4) rfl
    · exact List.mem_of_getElem? (i := 5) rfl
    · exact List.mem_of_getElem? (i := 6) rfl
    · exact List.mem_of_getElem? (i := 7) rfl
  exact ownValue_setting hSetting

theorem stored_credential
    {c : Credential}
    (hc : c ∈ credentials)
    (src : Text) :
    c.stored src = mavisValue src c.key := by
  simp only [credentials, List.mem_cons, List.not_mem_nil,
    or_false] at hc
  rcases hc with rfl | rfl | rfl | rfl | rfl | rfl
  · rfl
  · rfl
  · rfl
  · rfl
  · rfl
  · rfl

theorem setenvKey_credential
    {c : Credential}
    (hc : c ∈ credentials) :
    SetenvKey c.key := by
  have hAll :
      ∀ key ∈ credentials.map Credential.key, SetenvKey key := by
    decide
  exact hAll c.key (List.mem_map_of_mem hc)

/- What the LDAP file has for a credential. -/
theorem stored_render
    {c : Credential}
    (hc : c ∈ credentials)
    (certs : LdapCerts)
    (s : ServerSettings) :
    c.stored (renderMavis certs s) = c.setting s ↔
      match shadow c.key (mavisEntries certs s) with
      | none => '"' ∉ c.setting s
      | some start => c.setting s = start := by
  rw [stored_credential hc,
    mavisValue_render (setenvKey_credential hc),
    readEntries_eq, ownValue_credential hc]
  cases shadow c.key (mavisEntries certs s) with
  | none => exact stored_eq_iff
  | some start => exact eq_comm

/- The variables of credentials are given with LDAP. -/
theorem lookup_credential
    {c : Credential}
    (hc : c ∈ credentials)
    {s : ServerSettings}
    (hLdap : s.ldapEnabled = true) :
    (givenVariables s).lookup c.key = some (c.setting s) := by
  unfold givenVariables
  rw [if_pos hLdap]
  simp only [credentials, List.mem_cons, List.not_mem_nil,
    or_false] at hc
  rcases hc with rfl | rfl | rfl | rfl | rfl | rfl
  · rfl
  · rfl
  · rfl
  · rfl
  · rfl
  · rfl

theorem overrideText_infix
    {vars : List (Text × Text)}
    {key v : Text}
    (hLookup : vars.lookup key = some v) :
    overrideLine key (shellQuote v) <:+:
      overrideText shellQuote vars := by
  induction vars with
  | nil => cases hLookup
  | cons a vars ih =>
      rcases a with ⟨name, value⟩
      rw [List.lookup_cons] at hLookup
      by_cases hName : key = name
      · subst hName
        rw [beq_self_eq_true] at hLookup
        cases hLookup
        exact (List.prefix_append _ _).isInfix
      · have hOther : (key == name) = false := by
          simpa using hName
        rw [hOther] at hLookup
        exact (ih hLookup).trans
          (List.suffix_append _ _).isInfix

/- The line is in the file. -/
theorem exportedLine_infix
    {s : ServerSettings}
    {key line : Text}
    (hLine : exportedLine s key = some line) :
    line <:+: renderOverrides s := by
  rcases Option.map_eq_some_iff.mp hLine with
    ⟨v, hLookup, rfl⟩
  rw [renderOverrides_eq]
  have hInfix := overrideText_infix hLookup
  exact (hInfix.trans (List.suffix_append _ _).isInfix).trans
    (List.suffix_append _ _).isInfix

/- A line exports its value, unless that has a NUL. -/
theorem assignedBy_line
    {key v : Text}
    (hKey : Shell.Name key) :
    assignedBy (overrideLine key (shellQuote v)) key = some v ↔
      '\x00' ∉ v := by
  rcases Shell.written_quoted v with
    ⟨w, hSpells, hTilde, hText⟩
  have hSources :
      Shell.Sources (overrideLine key (shellQuote v))
        [⟨[(key, Shell.Word.text w)], []⟩] :=
    Shell.Sources.assign hKey hSpells hTilde
  have hNul :
      '\x00' ∉ overrideLine key (shellQuote v) ↔ '\x00' ∉ v := by
    have hName : '\x00' ∉ key := by
      intro hMem
      exact absurd (hKey.chars _ hMem) (by decide)
    have hSign : '\x00' ∉ "=".toList := by decide
    have hEnd : '\x00' ∉ "\n".toList := by decide
    have hQuoted : '\x00' ∉ shellQuote v ↔ '\x00' ∉ v := by
      rw [← List.count_eq_zero, ← List.count_eq_zero,
        count_shellQuote (by decide) (by decide)]
    unfold overrideLine
    simp only [List.mem_append, not_or, hQuoted]
    exact ⟨fun h => h.1.2, fun h => ⟨⟨⟨hName, hSign⟩, h⟩, hEnd⟩⟩
  rw [← hNul]
  unfold assignedBy
  constructor
  · intro hAssigned
    rcases Option.bind_eq_some_iff.mp hAssigned with
      ⟨commands, hSource, _⟩
    exact Shell.nul_of_source hSource
  · intro hFree
    rw [hSources.source hFree, hText]
    show Shell.lastAssigned [⟨[(key, v)], []⟩] key = some v
    simp [Shell.lastAssigned]

theorem name_credential
    {c : Credential}
    (hc : c ∈ credentials) :
    Shell.Name c.key := by
  have hAll :
      ∀ key ∈ credentials.map Credential.key,
        Shell.Name key := by
    decide
  exact hAll c.key (List.mem_map_of_mem hc)

end Tacconfig

end Soteria

------------------------------------------------------------
-- Credentials of Accepted Settings
------------------------------------------------------------

namespace Soteria

namespace Api

open Store Tacconfig

/- The state behind the request. -/
def AcceptedSettings.after (a : AcceptedSettings) : State :=
  (putSettings a.env a.certs a.state a.request).2

/- The settings, with the stored password for an empty one. -/
def AcceptedSettings.kept (a : AcceptedSettings) :
    ServerSettings :=
  keepPassword a.state a.settings

/-
  Every credential is read back from the LDAP file as it was
  set, and exported as it was set. An empty password of any
  later request that finds the LDAP file as it is now is
  replaced by the one that was set.
-/
def AcceptedSettings.Agree (a : AcceptedSettings) : Prop :=
  ∃ mavis overrides,
    a.after.effective .mavis = some mavis ∧
      a.after.effective .overrides = some overrides ∧
        (∀ c ∈ credentials,
          c.stored mavis = c.setting a.kept ∧
            ∃ line,
              exportedLine a.kept c.key = some line ∧
                line <:+: overrides ∧
                  assignedBy line c.key =
                    some (c.setting a.kept)) ∧
          ∀ (later : State) (new : ServerSettings),
            later.effective .mavis = some mavis →
              new.ldapPassword = [] →
                (keepPassword later new).ldapPassword =
                  a.kept.ldapPassword

theorem AcceptedSettings.after_effective
    (a : AcceptedSettings) :
    a.after.effective .mavis =
        some (renderMavis a.certs a.kept) ∧
      a.after.effective .overrides =
        some (renderOverrides a.kept) := by
  rcases putSettings_ok a.staged a.accepted with
    ⟨new, src, hBody, _, _, hState⟩
  cases hBody.symm.trans a.body
  unfold AcceptedSettings.after AcceptedSettings.kept
  rw [hState]
  exact ⟨rfl, rfl⟩

theorem AcceptedSettings.kept_ldapEnabled
    (a : AcceptedSettings) :
    a.kept.ldapEnabled = a.settings.ldapEnabled := by
  unfold AcceptedSettings.kept
  rw [keepPassword_eq]

/- The password that stands in for an empty one. -/
theorem keepPassword_stored
    {later : State}
    {new : ServerSettings}
    {mavis : Text}
    (hFile : later.effective .mavis = some mavis)
    (hEmpty : new.ldapPassword = []) :
    (keepPassword later new).ldapPassword =
      mavisPassword mavis := by
  rw [keepPassword_eq]
  simp only [if_pos hEmpty]
  unfold storedPassword
  rw [hFile]

/-
  With LDAP, the credentials agree exactly if each of them
  has neither a NUL nor a double quote, and none is read from
  behind a value in front of it.
-/
theorem credentials_agree_iff (a : AcceptedSettings) :
    (a.settings.ldapEnabled = true → a.Agree) ↔
      (a.settings.ldapEnabled = true →
        ∀ c ∈ credentials, c.Kept a.certs a.kept) := by
  apply imp_congr_right
  intro hEnabled
  have hLdap := a.kept_ldapEnabled.trans hEnabled
  rcases a.after_effective with ⟨hMavis, hOverrides⟩
  constructor
  · rintro ⟨mavis, overrides, hFile, hOther, hEach, _⟩ c hc
    rw [← Option.some.inj (hMavis.symm.trans hFile)] at hEach
    rcases hEach c hc with ⟨hStored, line, hLine, _, hAssigned⟩
    unfold exportedLine at hLine
    rw [lookup_credential hc hLdap] at hLine
    cases hLine
    exact ⟨(assignedBy_line (name_credential hc)).mp hAssigned,
      (stored_render hc a.certs a.kept).mp hStored⟩
  · intro hKept
    have hStored :
        ∀ c ∈ credentials,
          c.stored (renderMavis a.certs a.kept) =
            c.setting a.kept :=
      fun c hc =>
        (stored_render hc a.certs a.kept).mpr (hKept c hc).2
    refine ⟨_, _, hMavis, hOverrides, ?_, ?_⟩
    · intro c hc
      have hLine :
          exportedLine a.kept c.key =
            some
              (overrideLine c.key
                (shellQuote (c.setting a.kept))) := by
        unfold exportedLine
        rw [lookup_credential hc hLdap]
        rfl
      refine ⟨hStored c hc, _, hLine, exportedLine_infix hLine,
        ?_⟩
      exact (assignedBy_line (name_credential hc)).mpr
        (hKept c hc).1
    · intro later new hFile hEmpty
      have hPassword := hStored _ mem_credentials_password
      simp only [] at hPassword
      rw [keepPassword_stored hFile hEmpty, hPassword]

/- Settings with LDAP, and the given user and password. -/
def directorySettings (user password : Text) : ServerSettings :=
  { listenerSettings "49" with
    ldapEnabled := true
    ldapHosts := "ldap.example"
    ldapUser := user
    ldapPassword := password
    ldapBase := "dc=example" }

/- The session has staged the live files. -/
theorem listenerSession_staged :
    listenerSession.store.staging =
      some ⟨listenerStore.live, false⟩ :=
  rfl

/- A password with a double quote. -/
def quotedPassword : AcceptedSettings where
  env := zoneEnvironment
  certs := listenerSession.certs
  state := listenerSession.store
  session := ⟨listenerStore.live, false⟩
  request :=
    settingsRequest (directorySettings "cn=agent" "a\"b")
  settings := directorySettings "cn=agent" "a\"b"
  restart := true
  staged := listenerSession_staged
  body := rfl
  accepted := rfl

/- A user that ends in the start of the password's line. -/
def shadowedPassword : AcceptedSettings where
  env := zoneEnvironment
  certs := listenerSession.certs
  state := listenerSession.store
  session := ⟨listenerStore.live, false⟩
  request :=
    settingsRequest
      (directorySettings "cn=agent\nsetenv LDAP_PASSWD = " "ab")
  settings :=
    directorySettings "cn=agent\nsetenv LDAP_PASSWD = " "ab"
  restart := true
  staged := listenerSession_staged
  body := rfl
  accepted := rfl

/-
  The quote is dropped from the stored password. Behind that
  user, the start of the password's own line is its password.
-/
theorem password_not_kept :
    quotedPassword.after.effective .mavis =
        some (renderMavis listenerSession.certs
          (directorySettings "cn=agent" "a\"b")) ∧
      mavisPassword
          (renderMavis listenerSession.certs
            (directorySettings "cn=agent" "a\"b")) = "ab" ∧
        ¬quotedPassword.Agree ∧
          mavisPassword
              (renderMavis listenerSession.certs
                (directorySettings
                  "cn=agent\nsetenv LDAP_PASSWD = " "ab")) =
            "\n    setenv LDAP_PASSWD      = " ∧
              ¬shadowedPassword.Agree := by
  have hKey : SetenvKey "LDAP_PASSWD" := by decide
  have hQuoted :
      mavisPassword
          (renderMavis listenerSession.certs
            (directorySettings "cn=agent" "a\"b")) = "ab" := by
    unfold mavisPassword
    rw [mavisValue_render hKey]
    decide +kernel
  have hShadowed :
      mavisPassword
          (renderMavis listenerSession.certs
            (directorySettings
              "cn=agent\nsetenv LDAP_PASSWD = " "ab")) =
        "\n    setenv LDAP_PASSWD      = " := by
    unfold mavisPassword
    rw [mavisValue_render hKey]
    decide +kernel
  refine ⟨quotedPassword.after_effective.1, hQuoted, ?_,
    hShadowed, ?_⟩
  · rintro ⟨mavis, overrides, hFile, _, hEach, _⟩
    cases hFile.symm.trans quotedPassword.after_effective.1
    have hStored := (hEach _ mem_credentials_password).1
    simp only [] at hStored
    have hSetting :
        quotedPassword.kept.ldapPassword = "a\"b" := rfl
    rw [hSetting] at hStored
    exact absurd (hQuoted.symm.trans hStored) (by decide)
  · rintro ⟨mavis, overrides, hFile, _, hEach, _⟩
    cases hFile.symm.trans shadowedPassword.after_effective.1
    have hStored := (hEach _ mem_credentials_password).1
    simp only [] at hStored
    have hSetting :
        shadowedPassword.kept.ldapPassword = "ab" := rfl
    rw [hSetting] at hStored
    exact absurd (hShadowed.symm.trans hStored) (by decide)

end Api

end Soteria
