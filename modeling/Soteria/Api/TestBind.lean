import Soteria.Api.Settings
import Soteria.Tacconfig.PlainSettings

/-
  The test of the LDAP settings, against what is deployed.

  Key definitions include:
    * `Config`, `Config.tlsMode`
    * `parseLdapHost`, `mavisLdapConfig`, `ldapHealthConfig`
    * `ModeKept`, `tested_mode_deployed_iff`
    * `StaysHome`, `stays_home_iff`
-/

------------------------------------------------------------
-- The LDAP Client
------------------------------------------------------------

namespace Text

/- `strings.FieldsFunc`. -/
def fieldsFunc (p : Char → Bool) (s : Text) : List Text :=
  (s.splitOnP p).filter fun field => field != []

end Text

namespace Soteria

namespace Ldapauth

/- `ldapauth.Config`. -/
structure Config where
  host : Text
  port : Text
  useTLS : Bool
  baseDN : Text
  bindDN : Text
  bindPassword : Text
  userFilter : Text
  groupBaseDN : Text
  serverType : Text
  groupFilter : Text
  memberAttr : Text
  connectTimeout : Text
  TLSMode : Text
  TLSVerify : Bool
  caFile : Text
  clientCertFile : Text
  clientKeyFile : Text

/- The mode in force, with the older flag behind it. -/
def Config.tlsMode (c : Config) : Text :=
  let m := c.TLSMode.trimSpace.toLower
  if m = "ldaps" ∨ m = "starttls" ∨ m = "none" then m
  else if c.useTLS then "ldaps"
  else "none"

end Ldapauth

end Soteria

------------------------------------------------------------
-- The Settings of a Test
------------------------------------------------------------

namespace Soteria

namespace Tacconfig

/- The mode that the settings ask for, known or not. -/
def askedMode (s : ServerSettings) : Text :=
  s.ldapTLSMode.trimSpace.toLower

end Tacconfig

end Soteria

namespace Soteria

namespace Api

open Store Tacconfig

/- The first entry of a host list. -/
def firstHost (hosts : Text) : Text :=
  (Text.fieldsFunc (fun c => c == ' ' || c == ',')
    hosts.trimSpace).headD []

/- Host and port, apart at the last colon. -/
def cutPort (h : Text) : Text × Text :=
  if ':' ∈ h then
    ((h.rdropWhile (· != ':')).dropLast,
      h.rtakeWhile (· != ':'))
  else (h, [])

/- `parseLdapHost`. -/
def parseLdapHost (hosts : Text) : Text × Text × Bool :=
  let h := firstHost hosts
  let useTLS := h.toLower.hasPrefix "ldaps://"
  let (host, port) := cutPort (stripScheme h)
  (host, port, useTLS)

/- The files of the bundle, empty where there is none. -/
structure TLSPaths where
  ca : Text
  clientCert : Text
  clientKey : Text

/- The stored bind password, if the file can be read. -/
def readPassword (s : State) : Option Text :=
  match readEffective s ManagedFile.mavis.path with
  | .ok src => some (mavisPassword src)
  | .error _ => none

/- `mavisLdapConfig`. -/
def mavisLdapConfig
    (paths : TLSPaths)
    (s : State)
    (new : ServerSettings) : Ldapauth.Config :=
  let pass :=
    if new.ldapPassword.trimSpace = [] then
      (readPassword s).getD new.ldapPassword
    else new.ldapPassword
  let (host, port, useTLS) := parseLdapHost new.ldapHosts
  { host := host
    port := port
    useTLS := useTLS
    baseDN := new.ldapBase
    bindDN := new.ldapUser
    bindPassword := pass
    userFilter := new.ldapFilter
    groupBaseDN := new.ldapBaseGroup
    serverType := new.ldapServerType
    groupFilter := new.ldapFilterGroup
    memberAttr := new.ldapTacMember
    connectTimeout := new.ldapConnectTimeout
    TLSMode := new.ldapTLSMode
    TLSVerify := new.ldapTLSVerify
    caFile := paths.ca
    clientCertFile := paths.clientCert
    clientKeyFile := paths.clientKey }

/- The stored configuration, as `ldapHealth` builds it. -/
def ldapHealthConfig
    (env : Environment)
    (paths : TLSPaths)
    (s : State) : Ldapauth.Config :=
  let set := currentSettings env s
  let (host, port, useTLS) := parseLdapHost set.ldapHosts
  { host := host
    port := port
    useTLS := useTLS
    baseDN := set.ldapBase
    bindDN := set.ldapUser
    bindPassword := (readPassword s).getD []
    userFilter := []
    groupBaseDN := []
    serverType := []
    groupFilter := []
    memberAttr := []
    connectTimeout := set.ldapConnectTimeout
    TLSMode := set.ldapTLSMode
    TLSVerify := set.ldapTLSVerify
    caFile := paths.ca
    clientCertFile := paths.clientCert
    clientKeyFile := paths.clientKey }

def KnownMode (m : Text) : Prop :=
  m = "ldaps" ∨ m = "starttls" ∨ m = "none"

instance (m : Text) : Decidable (KnownMode m) :=
  inferInstanceAs (Decidable (_ ∨ _ ∨ _))

/- The first host asks for LDAPS. -/
def firstIsLdaps (hosts : Text) : Bool :=
  (firstHost hosts).toLower.hasPrefix "ldaps://"

/- The mode that the settings stand for. -/
def modeInForce (set : ServerSettings) : Text :=
  if KnownMode (askedMode set) then askedMode set
  else if firstIsLdaps set.ldapHosts then "ldaps"
  else "none"

theorem mavisLdapConfig_tlsMode
    (paths : TLSPaths)
    (s : State)
    (new : ServerSettings) :
    (mavisLdapConfig paths s new).tlsMode = modeInForce new :=
  rfl

end Api

end Soteria

------------------------------------------------------------
-- The Mode That Is Deployed
------------------------------------------------------------

namespace Soteria

namespace Tacconfig

/- An entry in front of the variable's own has one behind it. -/
theorem shadow_ne_nil
    {key : Text}
    {entries : List SetenvEntry}
    (hOwn : (entries.find? fun e => e.key == key) ≠ none) :
    shadow key entries ≠ some [] := by
  induction entries with
  | nil => exact (Option.some_ne_none _).symm
  | cons e rest ih =>
      unfold shadow
      by_cases hKey : e.key = key
      · rw [if_pos hKey]
        exact (Option.some_ne_none _).symm
      · rw [List.find?_cons_of_neg (by simpa using hKey)] at hOwn
        rw [if_neg hKey]
        split
        · cases rest with
          | nil => exact absurd rfl hOwn
          | cons next others =>
              intro hNil
              exact absurd (Option.some.inj hNil) (by
                simp [startBehind])
        · exact ih hOwn

/-
  A value that is not the last of the file ends in the start
  of a line for the StartTLS flag.
-/
def ForgesFlag (certs : LdapCerts) (s : ServerSettings) :
    Prop :=
  (shadow "USE_STARTTLS" (mavisEntries certs s)).getD [] ≠ []

instance (certs : LdapCerts) (s : ServerSettings) :
    Decidable (ForgesFlag certs s) :=
  inferInstanceAs (Decidable (_ ≠ _))

/- The server type ends in the start of a line for the hosts. -/
def ForgesHosts (s : ServerSettings) : Bool :=
  endsInKey "LDAP_HOSTS" (s.ldapServerType.replaceChar '"' [])

/- The scheme of LDAPS is in the hosts as they are written. -/
def WritesLdaps (s : ServerSettings) : Bool :=
  (((mavisHosts s.ldapHosts
    s.ldapTLSMode.trimSpace.toLower).replaceChar '"'
      []).toLower).contains "ldaps://"

theorem flag_read
    (certs : LdapCerts)
    (s : ServerSettings) :
    mavisValue (renderMavis certs s) "USE_STARTTLS" ≠ [] ↔
      askedMode s = "starttls" ∨
        ForgesFlag certs s := by
  have hOwn :
      ownValue "USE_STARTTLS" (mavisEntries certs s) =
        Text.replaceChar
          (if askedMode s = "starttls" then
            ("1" : Text)
          else []) '"' [] := by
    have hAll :
        ∀ a ∈ mavisSettings certs s,
          ownValue a.1 (mavisEntries certs s) =
            a.2.replaceChar '"' [] :=
      fun a ha => ownValue_setting ha
    simp only [mavisSettings, List.forall_mem_cons] at hAll
    unfold askedMode
    exact hAll.2.2.2.2.2.2.2.2.2.2.1
  rw [mavisValue_render (by decide), readEntries_eq, hOwn]
  unfold ForgesFlag
  by_cases hMode : askedMode s = "starttls"
  · have hSome :
        shadow "USE_STARTTLS" (mavisEntries certs s) ≠ some [] := by
      refine shadow_ne_nil fun hNone => ?_
      have hMissing := ownValue_missing hNone
      rw [hOwn, if_pos hMode] at hMissing
      exact absurd hMissing (by decide)
    refine ⟨fun _ => Or.inl hMode, fun _ => ?_⟩
    rw [if_pos hMode]
    cases hShadow :
        shadow "USE_STARTTLS" (mavisEntries certs s) with
    | none => decide
    | some text =>
        rw [hShadow] at hSome
        exact fun hNil => hSome (congrArg some hNil)
  · rw [if_neg hMode, or_iff_right hMode]
    rfl

theorem hosts_read
    (certs : LdapCerts)
    (s : ServerSettings) :
    (mavisValue (renderMavis certs s)
        "LDAP_HOSTS").toLower.contains "ldaps://" =
      (!ForgesHosts s && WritesLdaps s) := by
  have hOwn :
      ownValue "LDAP_HOSTS" (mavisEntries certs s) =
        (mavisHosts s.ldapHosts
          (askedMode s)).replaceChar '"' [] :=
    rfl
  have hShadow :
      shadow "LDAP_HOSTS" (mavisEntries certs s) =
        if ForgesHosts s = true then
          some (("\n" : Text) ++
            "    setenv LDAP_HOSTS       = ")
        else none := by
    rfl
  rw [mavisValue_render (by decide), readEntries_eq, hOwn,
    hShadow]
  cases hForged : ForgesHosts s with
  | true =>
      have hGap :
          (Text.toLower (("\n" : Text) ++
            "    setenv LDAP_HOSTS       = ")).contains
              "ldaps://" = false := by
        decide +kernel
      rw [if_pos rfl, Option.getD_some, hGap]
      rfl
  | false => rfl

/- The mode that is read back from the file. -/
theorem deployed_mode
    (certs : LdapCerts)
    (s cur : ServerSettings) :
    (parseMavis (renderMavis certs s) cur).ldapTLSMode =
      if askedMode s = "starttls" ∨
          ForgesFlag certs s then ("starttls" : Text)
      else if !ForgesHosts s && WritesLdaps s then
        ("ldaps" : Text)
      else "none" := by
  have hFlag := flag_read certs s
  unfold parseMavis
  dsimp only
  rw [hosts_read]
  by_cases hStart :
      askedMode s = "starttls" ∨
        ForgesFlag certs s
  · rw [if_pos hStart, if_pos]
    exact bne_iff_ne.mpr (hFlag.mpr hStart)
  · rw [if_neg hStart, if_neg]
    exact fun hRead => hStart (hFlag.mp (bne_iff_ne.mp hRead))

end Tacconfig

end Soteria

------------------------------------------------------------
-- The Mode That Is Tested Is Deployed
------------------------------------------------------------

namespace Soteria

namespace Api

open Store Tacconfig

/-
  The scheme of LDAPS is in the hosts even after each of them
  has lost one scheme.
-/
def KeepsLdaps (new : ServerSettings) : Bool :=
  (((stripLdapScheme new.ldapHosts).replaceChar '"'
    []).toLower).contains "ldaps://"

theorem writesLdaps_iff (new : ServerSettings) :
    WritesLdaps new = true ↔
      if askedMode new = "ldaps" then
        (stripLdapScheme new.ldapHosts).fields ≠ []
      else KeepsLdaps new = true := by
  unfold WritesLdaps KeepsLdaps mavisHosts
  by_cases hMode : askedMode new = "ldaps"
  · rw [if_pos hMode, if_neg]
    · cases (stripLdapScheme new.ldapHosts).fields with
      | nil => exact iff_of_false (by decide) (fun h => h rfl)
      | cons host rest =>
          refine iff_of_true ?_ (List.cons_ne_nil _ _)
          rcases Text.prefix_join
              (("ldaps://" : Text) ++ host)
              (rest.map fun host => ("ldaps://" : Text) ++ host)
              " " with
            ⟨more, hMore⟩
          have hScheme :
              Text.replaceChar "ldaps://" '"' [] = "ldaps://" := by
            decide
          rw [List.map_cons, ← hMore, List.append_assoc,
            Text.replaceChar, List.flatMap_append,
            ← Text.replaceChar, hScheme, toLower_ldaps]
          refine Text.contains_iff.mpr ?_
          exact (List.prefix_append _ _).isInfix
    · simpa [askedMode] using hMode
  · rw [if_neg hMode, if_pos]
    simpa [askedMode] using hMode

/-
  What keeps the mode. StartTLS is kept always. LDAPS needs a
  host to put its scheme on, and no mode needs hosts without
  that scheme; without a known mode the scheme of the first
  host has to survive. No value may pass for the line of the
  flag or of the hosts.
-/
def ModeKept (certs : LdapCerts) (new : ServerSettings) :
    Prop :=
  askedMode new = "starttls" ∨
    (¬ ForgesFlag certs new ∧
      ((askedMode new = "ldaps" ∧ ForgesHosts new = false ∧
          (stripLdapScheme new.ldapHosts).fields ≠ []) ∨
        (askedMode new = "none" ∧
          (ForgesHosts new = true ∨ KeepsLdaps new = false)) ∨
        (¬ KnownMode (askedMode new) ∧
          (firstIsLdaps new.ldapHosts = true ↔
            ForgesHosts new = false ∧
              KeepsLdaps new = true))))

theorem ldaps_eq_pick_iff (b : Bool) :
    ("ldaps" : Text) =
        (if b then ("ldaps" : Text) else "none") ↔
      b = true := by
  cases b
  · decide
  · decide

theorem none_eq_pick_iff (b : Bool) :
    ("none" : Text) =
        (if b then ("ldaps" : Text) else "none") ↔
      b = false := by
  cases b
  · decide
  · decide

theorem pick_eq_pick_iff (b b' : Bool) :
    (if b then ("ldaps" : Text) else "none") =
        (if b' then ("ldaps" : Text) else "none") ↔
      (b = true ↔ b' = true) := by
  cases b
  · cases b' <;> decide
  · cases b' <;> decide

/- No test but one that asks for StartTLS uses it. -/
theorem tested_ne_starttls
    (paths : TLSPaths)
    (s : State)
    {new : ServerSettings}
    (hMode : askedMode new ≠ "starttls") :
    (mavisLdapConfig paths s new).tlsMode ≠ "starttls" := by
  rw [mavisLdapConfig_tlsMode, modeInForce]
  split
  · exact hMode
  · split
    · decide
    · decide

/-
  The mode of a test is the mode of the deployed file exactly
  if the settings keep it.
-/
theorem tested_mode_deployed_iff
    (paths : TLSPaths)
    (s : State)
    (certs : LdapCerts)
    (new cur : ServerSettings) :
    (mavisLdapConfig paths s new).tlsMode =
        (parseMavis (renderMavis certs new) cur).ldapTLSMode ↔
      ModeKept certs new := by
  rw [deployed_mode]
  unfold ModeKept
  by_cases hStart : askedMode new = "starttls"
  · have hKnown : KnownMode (askedMode new) :=
      Or.inr (Or.inl hStart)
    rw [if_pos (Or.inl hStart), mavisLdapConfig_tlsMode,
      modeInForce, if_pos hKnown]
    exact iff_of_true hStart (Or.inl hStart)
  refine Iff.trans ?_ (or_iff_right hStart).symm
  by_cases hForged : ForgesFlag certs new
  · rw [if_pos (Or.inr hForged)]
    exact iff_of_false (tested_ne_starttls paths s hStart)
      fun hKept => hKept.1 hForged
  rw [if_neg (not_or.mpr ⟨hStart, hForged⟩),
    and_iff_right hForged, mavisLdapConfig_tlsMode,
    modeInForce]
  have hWrites := writesLdaps_iff new
  by_cases hLdaps : askedMode new = "ldaps"
  · rw [if_pos hLdaps] at hWrites
    have hKnown : KnownMode (askedMode new) := Or.inl hLdaps
    rw [if_pos hKnown, hLdaps, ldaps_eq_pick_iff,
      Bool.and_eq_true, Bool.not_eq_true', hWrites]
    constructor
    · exact fun hBoth => Or.inl ⟨rfl, hBoth⟩
    · rintro (⟨_, hBoth⟩ | ⟨hOther, _⟩ | ⟨hUnknown, _⟩)
      · exact hBoth
      · exact absurd hOther (by decide)
      · exact absurd (Or.inl rfl) hUnknown
  rw [if_neg hLdaps] at hWrites
  by_cases hNone : askedMode new = "none"
  · have hKnown : KnownMode (askedMode new) :=
      Or.inr (Or.inr hNone)
    rw [if_pos hKnown, hNone, none_eq_pick_iff,
      Bool.and_eq_false_iff, Bool.not_eq_false',
      ← Bool.not_eq_true (WritesLdaps new), hWrites,
      Bool.not_eq_true]
    constructor
    · exact fun hEither => Or.inr (Or.inl ⟨rfl, hEither⟩)
    · rintro (⟨hOther, _⟩ | ⟨_, hEither⟩ | ⟨hUnknown, _⟩)
      · exact absurd hOther (by decide)
      · exact hEither
      · exact absurd (Or.inr (Or.inr rfl)) hUnknown
  have hUnknown : ¬ KnownMode (askedMode new) := by
    rintro (hOne | hTwo | hThree)
    · exact hLdaps hOne
    · exact hStart hTwo
    · exact hNone hThree
  rw [if_neg hUnknown, pick_eq_pick_iff, Bool.and_eq_true,
    Bool.not_eq_true', hWrites]
  constructor
  · exact fun hSame => Or.inr (Or.inr ⟨hUnknown, hSame⟩)
  · rintro (⟨hOther, _⟩ | ⟨hOther, _⟩ | ⟨_, hSame⟩)
    · exact absurd hOther hLdaps
    · exact absurd hOther hNone
    · exact hSame

/-
  Settings of an older client: the scheme is on the host, and
  no mode is set.
-/
def schemedSettings : ServerSettings :=
  { ServerSettings.zero with
    ldapEnabled := true
    ldapHosts := "ldaps://dc1.example.com"
    ldapUser := "cn=agent"
    ldapBase := "dc=example" }

/-
  The test of these settings is over LDAPS, and they are
  deployed in plain text.
-/
theorem tested_mode_not_deployed :
    (mavisLdapConfig ⟨[], [], []⟩
        ⟨.empty, none, .empty, none, none⟩
        schemedSettings).tlsMode = "ldaps" ∧
      (parseMavis
        (renderMavis ⟨false, false, false⟩ schemedSettings)
        .zero).ldapTLSMode = "none" := by
  constructor
  · rw [mavisLdapConfig_tlsMode]
    decide +kernel
  · rw [deployed_mode]
    decide +kernel

end Api

end Soteria

------------------------------------------------------------
-- Where the Stored Password Goes
------------------------------------------------------------

namespace Soteria

namespace Api

open Store Tacconfig

theorem cutPort_colon
    {h : Text}
    (hColon : ':' ∈ h) :
    h = (cutPort h).1 ++ ':' :: (cutPort h).2 ∧
      ':' ∉ (cutPort h).2 := by
  have hWhole :
      h.rdropWhile (· != ':') ++ h.rtakeWhile (· != ':') = h :=
    List.rdropWhile_append_rtakeWhile
  have hPort : ':' ∉ h.rtakeWhile (· != ':') := by
    intro hMem
    exact absurd (List.mem_rtakeWhile_imp hMem) (by decide)
  have hSome : h.rdropWhile (· != ':') ≠ [] := by
    intro hNone
    rw [hNone, List.nil_append] at hWhole
    rw [hWhole] at hPort
    exact hPort hColon
  have hLast :
      (h.rdropWhile (· != ':')).getLast hSome = ':' := by
    have hNot := List.rdropWhile_last_not (· != ':') h hSome
    simpa using hNot
  have hEnd := List.dropLast_append_getLast hSome
  rw [hLast] at hEnd
  unfold cutPort
  rw [if_pos hColon]
  refine ⟨?_, hPort⟩
  dsimp only
  rw [← List.singleton_append, ← List.append_assoc, hEnd, hWhole]

theorem cutPort_bare
    {h : Text}
    (hNone : ':' ∉ h) :
    cutPort h = (h, []) := by
  unfold cutPort
  rw [if_neg hNone]

/- An empty port is no port. -/
theorem cutPort_empty
    {h h' : Text}
    (hColon : ':' ∈ h)
    (hNone : ':' ∉ h')
    (hSame : cutPort h = cutPort h') :
    h = h' ++ ":" := by
  have hWhole := (cutPort_colon hColon).1
  rw [hSame, cutPort_bare hNone] at hWhole
  exact hWhole

theorem cutPort_append_colon
    {h : Text}
    (hNone : ':' ∉ h) :
    cutPort (h ++ ":") = cutPort h := by
  have hColon : ':' ∈ h ++ (":" : Text) :=
    List.mem_append_right _ (List.mem_singleton.mpr rfl)
  rw [cutPort_bare hNone]
  unfold cutPort
  rw [if_pos hColon]
  have hDrop :
      (h ++ (":" : Text)).rdropWhile (· != ':') =
        h ++ (":" : Text) :=
    List.rdropWhile_concat_neg _ _ _ (by decide)
  have hTake :
      (h ++ (":" : Text)).rtakeWhile (· != ':') = [] :=
    List.rtakeWhile_concat_neg _ _ _ (by decide)
  rw [hDrop, hTake]
  exact congrArg (·, []) List.dropLast_concat

/- The entries name the same host and port. -/
def SameHost (h h' : Text) : Prop :=
  h = h' ∨ (h = h' ++ ":" ∧ ':' ∉ h') ∨
    (h' = h ++ ":" ∧ ':' ∉ h)

theorem cutPort_eq_iff (h h' : Text) :
    cutPort h = cutPort h' ↔ SameHost h h' := by
  constructor
  · intro hSame
    by_cases hLeft : ':' ∈ h
    · by_cases hRight : ':' ∈ h'
      · left
        rw [(cutPort_colon hLeft).1, (cutPort_colon hRight).1,
          hSame]
      · exact Or.inr (Or.inl
          ⟨cutPort_empty hLeft hRight hSame, hRight⟩)
    · by_cases hRight : ':' ∈ h'
      · exact Or.inr (Or.inr
          ⟨cutPort_empty hRight hLeft hSame.symm, hLeft⟩)
      · left
        rw [cutPort_bare hLeft, cutPort_bare hRight] at hSame
        exact congrArg Prod.fst hSame
  · rintro (rfl | ⟨rfl, hNone⟩ | ⟨rfl, hNone⟩)
    · rfl
    · exact cutPort_append_colon hNone
    · exact (cutPort_append_colon hNone).symm

/- The caller has given none, and the stored one is used. -/
def CarriesStored
    (paths : TLSPaths)
    (s : State)
    (new : ServerSettings) : Prop :=
  new.ldapPassword.trimSpace = [] ∧
    ∃ password, readPassword s = some password ∧
      password ≠ [] ∧
      (mavisLdapConfig paths s new).bindPassword = password

/- The same server, and as safe a connection. -/
def SameDirectory (c home : Ldapauth.Config) : Prop :=
  c.host = home.host ∧ c.port = home.port ∧
    c.tlsMode = home.tlsMode

/- The stored password goes to the stored directory only. -/
def StaysHome
    (env : Environment)
    (paths : TLSPaths)
    (s : State)
    (new : ServerSettings) : Prop :=
  CarriesStored paths s new →
    SameDirectory (mavisLdapConfig paths s new)
      (ldapHealthConfig env paths s)

/- A request for the stored directory. -/
def AsksHome (set new : ServerSettings) : Prop :=
  SameHost (stripScheme (firstHost new.ldapHosts))
      (stripScheme (firstHost set.ldapHosts)) ∧
    modeInForce new = modeInForce set

theorem mavisLdapConfig_address
    (paths : TLSPaths)
    (s : State)
    (new : ServerSettings) :
    ((mavisLdapConfig paths s new).host,
        (mavisLdapConfig paths s new).port) =
      cutPort (stripScheme (firstHost new.ldapHosts)) := rfl

theorem ldapHealthConfig_address
    (env : Environment)
    (paths : TLSPaths)
    (s : State) :
    ((ldapHealthConfig env paths s).host,
        (ldapHealthConfig env paths s).port) =
      cutPort (stripScheme
        (firstHost (currentSettings env s).ldapHosts)) := rfl

theorem ldapHealthConfig_tlsMode
    (env : Environment)
    (paths : TLSPaths)
    (s : State) :
    (ldapHealthConfig env paths s).tlsMode =
      modeInForce (currentSettings env s) := rfl

theorem bindPassword_stored
    (paths : TLSPaths)
    {s : State}
    {new : ServerSettings}
    (hBlank : new.ldapPassword.trimSpace = [])
    {password : Text}
    (hStored : readPassword s = some password) :
    (mavisLdapConfig paths s new).bindPassword = password := by
  unfold mavisLdapConfig
  dsimp only
  rw [if_pos hBlank, hStored]
  rfl

/-
  The stored password stays with the stored directory exactly
  if the caller gives one, none is stored, or the caller asks
  for that directory.
-/
theorem stays_home_iff
    (env : Environment)
    (paths : TLSPaths)
    (s : State)
    (new : ServerSettings) :
    StaysHome env paths s new ↔
      new.ldapPassword.trimSpace ≠ [] ∨
        readPassword s = none ∨ readPassword s = some [] ∨
          AsksHome (currentSettings env s) new := by
  have hHome :
      SameDirectory (mavisLdapConfig paths s new)
          (ldapHealthConfig env paths s) ↔
        AsksHome (currentSettings env s) new := by
    unfold SameDirectory AsksHome
    rw [← cutPort_eq_iff, ← mavisLdapConfig_address paths s,
      ← ldapHealthConfig_address env paths, Prod.mk.injEq,
      and_assoc, mavisLdapConfig_tlsMode,
      ldapHealthConfig_tlsMode]
  constructor
  · intro hStays
    by_cases hBlank : new.ldapPassword.trimSpace = []
    · cases hStored : readPassword s with
      | none => exact Or.inr (Or.inl rfl)
      | some password =>
          by_cases hEmpty : password = []
          · exact Or.inr (Or.inr (Or.inl (congrArg some hEmpty)))
          · have hCarries : CarriesStored paths s new :=
              ⟨hBlank, password, hStored, hEmpty,
                bindPassword_stored paths hBlank hStored⟩
            exact Or.inr (Or.inr (Or.inr
              (hHome.mp (hStays hCarries))))
    · exact Or.inl hBlank
  · rintro (hGiven | hNone | hEmpty | hAsks)
    · exact fun hCarries => absurd hCarries.1 hGiven
    · rintro ⟨_, password, hStored, _⟩
      rw [hNone] at hStored
      exact absurd hStored.symm (Option.some_ne_none _)
    · rintro ⟨_, password, hStored, hSome, _⟩
      rw [hEmpty] at hStored
      exact absurd (Option.some.inj hStored).symm hSome
    · exact fun _ => hHome.mpr hAsks

/- A store with the LDAP file of these settings alone. -/
def directoryStore : State where
  live := FileTree.empty.set .mavis
    (renderMavis ⟨true, false, false⟩ directory)
  staging := none
  backups := .empty
  golden := none
  retain := none

theorem directoryStore_mavis :
    directoryStore.effective .mavis =
      some (renderMavis ⟨true, false, false⟩ directory) := rfl

theorem directoryStore_password :
    readPassword directoryStore =
      some directory.ldapPassword := by
  unfold readPassword
  rw [readEffective_path, directoryStore_mavis,
    ← mavisPassword_render plain_directory ⟨true, false, false⟩]

/- Where only the LDAP file is stored, it gives the hosts. -/
theorem currentSettings_hosts
    (env : Environment)
    {s : State}
    {src : Text}
    (hDNS : s.effective .dns = none)
    (hMavis : s.effective .mavis = some src)
    (hMain : s.effective .main = none)
    (hOverrides : s.effective .overrides = none) :
    (currentSettings env s).ldapHosts =
      (parseMavis src .zero).ldapHosts := by
  simp only [currentSettings, whenRead, readEffective_path,
    hDNS, hMavis, hMain, hOverrides]
  rfl

theorem directoryStore_hosts (env : Environment) :
    (currentSettings env directoryStore).ldapHosts =
      directory.ldapHosts := by
  rw [currentSettings_hosts env rfl directoryStore_mavis rfl
    rfl, parseMavis_render plain_directory]

/- A request for another server, without a password. -/
def strayRequest : ServerSettings :=
  { ServerSettings.zero with
    ldapHosts := "collector.example:389" }

def emptyPaths : TLSPaths :=
  ⟨[], [], []⟩

def plainEnvironment : Environment :=
  ⟨[], [], [], []⟩

/- The other server is sent the stored password. -/
theorem stored_password_sent_away :
    (mavisLdapConfig emptyPaths directoryStore
        strayRequest).host = "collector.example" ∧
      (mavisLdapConfig emptyPaths directoryStore
        strayRequest).bindPassword = "it's $ecret" ∧
      ¬ StaysHome plainEnvironment emptyPaths directoryStore
        strayRequest := by
  have hHost :
      (mavisLdapConfig emptyPaths directoryStore
        strayRequest).host = "collector.example" := by
    decide +kernel
  have hPassword :
      (mavisLdapConfig emptyPaths directoryStore
        strayRequest).bindPassword = directory.ldapPassword :=
    bindPassword_stored emptyPaths (by decide)
      directoryStore_password
  refine ⟨hHost, hPassword, fun hStays => ?_⟩
  have hSame := (hStays ⟨by decide, _, directoryStore_password,
    by decide, hPassword⟩).1
  have hHome :
      (ldapHealthConfig plainEnvironment emptyPaths
        directoryStore).host = "dc1.example" := by
    have hAddress :=
      ldapHealthConfig_address plainEnvironment emptyPaths
        directoryStore
    have hCut :
        cutPort (stripScheme (firstHost directory.ldapHosts)) =
          (("dc1.example" : Text), []) := by
      decide +kernel
    rw [directoryStore_hosts, hCut] at hAddress
    exact (Prod.mk.inj hAddress).1
  rw [hHost, hHome] at hSame
  exact absurd hSame (by decide)

end Api

end Soteria
