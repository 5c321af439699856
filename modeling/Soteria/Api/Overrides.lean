import Soteria.Api.SettingsRestart
import Soteria.Foundation.Assignments

/-
  The overrides file and the shell that sources it.

  Every value but the time zone is a flag or in single
  quotes, so the shell reads it as it was written. The time
  zone is written as it is: the file assigns what it was
  written from exactly if the time zone is a literal text.

  Key definitions include:
    * `overrideVariables`, `overrideText`
    * `InertOverrides`
    * `AcceptedSettings`
    * `overrides_inert_iff`
-/

------------------------------------------------------------
-- The File as Assignments
------------------------------------------------------------

namespace Soteria

namespace Tacconfig

/- The LDAP variables, each with its setting. -/
def ldapVariables (s : ServerSettings) : List (Text × Text) :=
  [("LDAP_SERVER_TYPE", s.ldapServerType),
    ("LDAP_HOSTS", s.ldapHosts),
    ("LDAP_USER", s.ldapUser),
    ("LDAP_PASSWD", s.ldapPassword),
    ("LDAP_BASE", s.ldapBase),
    ("LDAP_BASE_GROUP", s.ldapBaseGroup),
    ("LDAP_FILTER", s.ldapFilter),
    ("LDAP_FILTER_GROUP", s.ldapFilterGroup),
    ("LDAP_TACMEMBER", s.ldapTacMember),
    ("LDAP_CONNECT_TIMEOUT", s.ldapConnectTimeout)]

def zoneVariable (s : ServerSettings) : Text × Text :=
  ("TZ", s.timezone)

def flagVariables (s : ServerSettings) : List (Text × Text) :=
  [("ENABLE_LOGROTATE", boolText s.logrotate),
    ("ENABLE_MONTHLY_ARCHIVE", boolText s.monthlyArchive),
    ("ENABLE_LDAP", boolText s.ldapEnabled)]

/- The LDAP variables that the file has. -/
def givenVariables (s : ServerSettings) : List (Text × Text) :=
  if s.ldapEnabled then ldapVariables s else []

/- What the file is written from, in order. -/
def overrideVariables (s : ServerSettings) :
    List (Text × Text) :=
  (zoneVariable s :: flagVariables s) ++ givenVariables s

/- A line for each variable, with its value as it is written. -/
def overrideText
    (raw : Text → Text)
    (vars : List (Text × Text)) : Text :=
  vars.flatMap fun a => a.1 ++ "=" ++ raw a.2 ++ "\n"

def overridesHeading : Text :=
  "#" ++
    " Managed by soteria-agent - applied on container restart" ++
    "\n"

/-
  The file runs no command when it is sourced, and assigns
  the time zone and the LDAP settings.
-/
def InertOverrides (s : ServerSettings) (file : Text) : Prop :=
  ∃ commands,
    Shell.source file = some commands ∧
      Shell.runsCommand commands = false ∧
        ∀ a ∈ zoneVariable s :: givenVariables s,
          Shell.lastAssigned commands a.1 = some a.2

theorem renderOverrides_eq (s : ServerSettings) :
    renderOverrides s =
      overridesHeading ++
        (overrideText id (zoneVariable s :: flagVariables s) ++
          overrideText shellQuote (givenVariables s)) := by
  have hHeading :
      ("# Managed by soteria-agent - applied on container restart\n" : Text) =
        overridesHeading := by
    unfold overridesHeading
    repeat rw [String.toList_ofList]
    rfl
  unfold renderOverrides givenVariables
  rw [hHeading]
  unfold overrideText zoneVariable flagVariables overrideLine
  cases s.ldapEnabled with
  | false =>
      simp only [Bool.false_eq_true, if_false, List.flatMap_cons,
        List.flatMap_nil, List.append_assoc, List.append_nil, id]
  | true =>
      unfold ldapVariables
      simp only [if_true, List.flatMap_cons, List.flatMap_nil,
        List.append_assoc, List.append_nil, id]

theorem literal_boolText (b : Bool) :
    Shell.Literal (boolText b) := by
  cases b with
  | false => exact ⟨by decide, by decide, by decide⟩
  | true => exact ⟨by decide, by decide, by decide⟩

def overrideNames : List Text :=
  ["TZ", "ENABLE_LOGROTATE", "ENABLE_MONTHLY_ARCHIVE",
    "ENABLE_LDAP", "LDAP_SERVER_TYPE", "LDAP_HOSTS",
    "LDAP_USER", "LDAP_PASSWD", "LDAP_BASE",
    "LDAP_BASE_GROUP", "LDAP_FILTER", "LDAP_FILTER_GROUP",
    "LDAP_TACMEMBER", "LDAP_CONNECT_TIMEOUT"]

theorem names_overrides (s : ServerSettings) :
    (overrideVariables s).map Prod.fst <+: overrideNames := by
  unfold overrideVariables givenVariables
  cases s.ldapEnabled with
  | false => exact ⟨overrideNames.drop 4, rfl⟩
  | true => exact ⟨[], rfl⟩

/- Every name of the file can be assigned to. -/
theorem name_override
    {s : ServerSettings}
    {a : Text × Text}
    (ha : a ∈ overrideVariables s) :
    Shell.Name a.1 := by
  have hAll : ∀ name ∈ overrideNames, Shell.Name name := by
    unfold overrideNames
    repeat rw [String.toList_ofList]
    decide
  apply hAll
  exact (names_overrides s).subset (List.mem_map_of_mem ha)

/- No two variables of the file have the same name. -/
theorem nodup_overrides (s : ServerSettings) :
    ((overrideVariables s).map Prod.fst).Nodup := by
  have hAll : overrideNames.Nodup := by
    unfold overrideNames
    repeat rw [String.toList_ofList]
    decide
  exact hAll.sublist (names_overrides s).sublist

theorem zone_sublist (s : ServerSettings) :
    (zoneVariable s :: givenVariables s).Sublist
      (overrideVariables s) := by
  apply List.Sublist.cons_cons
  exact List.sublist_append_right (flagVariables s) _

end Tacconfig

end Soteria

------------------------------------------------------------
-- Literal Time Zones
------------------------------------------------------------

namespace Soteria

namespace Tacconfig

theorem sources_heading : Shell.Sources overridesHeading [] := by
  apply Shell.Sources.comment
  decide

/- With a literal time zone the file is what it is made of. -/
theorem sources_overrides
    {s : ServerSettings}
    (hLiteral : Shell.Literal s.timezone) :
    Shell.Sources (renderOverrides s)
      (Shell.assignAll (overrideVariables s)) := by
  have hPlain :
      Shell.Sources
        (overrideText id (zoneVariable s :: flagVariables s))
        (Shell.assignAll (zoneVariable s :: flagVariables s)) := by
    apply Shell.Sources.assigns
    intro a ha
    refine ⟨name_override (List.mem_append_left _ ha), ?_⟩
    apply Shell.Literal.written
    rcases List.mem_cons.mp ha with rfl | ha
    · exact hLiteral
    · simp only [flagVariables, List.mem_cons,
        List.not_mem_nil, or_false] at ha
      rcases ha with rfl | rfl | rfl
      · exact literal_boolText s.logrotate
      · exact literal_boolText s.monthlyArchive
      · exact literal_boolText s.ldapEnabled
  have hQuoted :
      Shell.Sources (overrideText shellQuote (givenVariables s))
        (Shell.assignAll (givenVariables s)) := by
    apply Shell.Sources.assigns
    intro a ha
    exact ⟨name_override (List.mem_append_right _ ha),
      Shell.written_quoted a.2⟩
  rw [renderOverrides_eq]
  unfold overrideVariables
  rw [Shell.assignAll_append]
  exact sources_heading.append (hPlain.append hQuoted)

end Tacconfig

end Soteria

------------------------------------------------------------
-- Other Time Zones
------------------------------------------------------------

namespace Soteria

namespace Tacconfig

theorem overrideText_cons
    (raw : Text → Text)
    (a : Text × Text)
    (vars : List (Text × Text)) :
    overrideText raw (a :: vars) =
      (a.1 ++ "=" ++ raw a.2 ++ "\n") ++ overrideText raw vars :=
  List.flatMap_cons

/- What the lines have of a character of a name. -/
theorem count_overrideText
    {z : Char}
    {raw : Text → Text}
    (hEquals : '=' ≠ z)
    (hLine : '\n' ≠ z)
    (hRaw : ∀ v, (raw v).count z = v.count z)
    (vars : List (Text × Text)) :
    (overrideText raw vars).count z =
      (vars.flatMap fun a => a.1 ++ a.2).count z := by
  induction vars with
  | nil => rfl
  | cons a vars ih =>
      have hFirst :
          (a.1 ++ "=" ++ raw a.2 ++ "\n").count z =
            (a.1 ++ a.2).count z := by
        have hSign : List.count z "=".toList = 0 :=
          List.count_cons_of_ne hEquals
        have hEnd : List.count z "\n".toList = 0 :=
          List.count_cons_of_ne hLine
        simp only [List.count_append, hSign, hEnd, hRaw,
          Nat.add_zero]
      rw [overrideText_cons, List.count_append, hFirst, ih,
        List.flatMap_cons]
      exact List.count_append.symm

theorem count_shellQuote
    {z : Char}
    (hQuote : '\'' ≠ z)
    (hEscape : '\\' ≠ z)
    (v : Text) :
    (shellQuote v).count z = v.count z := by
  have hNone : List.count z "'\\''".toList = 0 := by
    simp [hQuote, hEscape]
  have hInner :
      (v.replaceChar '\'' "'\\''").count z = v.count z := by
    induction v with
    | nil => rfl
    | cons c v ih =>
        unfold Text.replaceChar at ih ⊢
        rw [List.flatMap_cons, List.count_append, ih]
        by_cases hChar : c = '\''
        · subst hChar
          rw [if_pos rfl, hNone, Nat.zero_add]
          exact (List.count_cons_of_ne hQuote).symm
        · rw [if_neg hChar]
          rw [← List.count_append, List.singleton_append]
  have hOpen : List.count z "'".toList = 0 :=
    List.count_cons_of_ne hQuote
  unfold shellQuote
  rw [List.count_append, List.count_append, hInner, hOpen]
  omega

/- What the file has of a character that no line is made of. -/
theorem count_overrides
    {z : Char}
    (hLine : ∀ c ∈ ("=\n'\\" : Text), c ≠ z)
    (s : ServerSettings) :
    (overrideText id (flagVariables s) ++
        overrideText shellQuote (givenVariables s)).count z =
      ((flagVariables s).flatMap fun a => a.1 ++ a.2).count z +
        ((givenVariables s).flatMap
          fun a => a.1 ++ a.2).count z := by
  have hEquals : '=' ≠ z := hLine _ (by decide)
  have hEnd : '\n' ≠ z := hLine _ (by decide)
  have hQuote : '\'' ≠ z := hLine _ (by decide)
  have hEscape : '\\' ≠ z := hLine _ (by decide)
  have hPlain : ∀ v, (id v : Text).count z = v.count z :=
    fun _ => rfl
  rw [List.count_append,
    count_overrideText hEquals hEnd hPlain,
    count_overrideText hEquals hEnd
      (count_shellQuote hQuote hEscape)]

/- The flags have neither a `Z` nor a NUL. -/
theorem count_flags
    {z : Char}
    (hz : z = 'Z' ∨ z = '\x00')
    (s : ServerSettings) :
    ((flagVariables s).flatMap fun a => a.1 ++ a.2).count z =
      0 := by
  unfold flagVariables boolText
  rcases hz with rfl | rfl
  · cases s.logrotate <;> cases s.monthlyArchive <;>
      cases s.ldapEnabled <;> rfl
  · cases s.logrotate <;> cases s.monthlyArchive <;>
      cases s.ldapEnabled <;> rfl

/- None of the values has a NUL. -/
def NulFree (s : ServerSettings) : Prop :=
  ∀ a ∈ zoneVariable s :: givenVariables s, '\x00' ∉ a.2

/- A NUL of the file is one of its values. -/
theorem nul_overrides (s : ServerSettings) :
    '\x00' ∉ renderOverrides s ↔ NulFree s := by
  have hNames :
      ∀ name ∈ overrideNames, List.count '\x00' name = 0 := by
    unfold overrideNames
    repeat rw [String.toList_ofList]
    decide
  have hFile :
      (renderOverrides s).count '\x00' =
        ((zoneVariable s :: givenVariables s).flatMap
          fun a => a.1 ++ a.2).count '\x00' := by
    have hHeading : overridesHeading.count '\x00' = 0 := by
      unfold overridesHeading
      repeat rw [String.toList_ofList]
      decide
    have hLines := count_overrides (z := '\x00') (by decide) s
    rw [count_flags (Or.inr rfl), List.count_append] at hLines
    have hZone :
        (overrideText id
            (zoneVariable s :: flagVariables s)).count '\x00' =
          ((zoneVariable s).1 ++ (zoneVariable s).2).count
              '\x00' +
            (overrideText id (flagVariables s)).count '\x00' := by
      rw [overrideText_cons, List.count_append]
      congr 1
      have hSign : List.count '\x00' "=".toList = 0 := rfl
      have hEnd : List.count '\x00' "\n".toList = 0 := rfl
      simp only [List.count_append, hSign, hEnd, Nat.add_zero,
        id]
    rw [renderOverrides_eq, List.count_append, hHeading,
      List.count_append, hZone, List.flatMap_cons]
    simp only [List.count_append] at hLines ⊢
    omega
  rw [← List.count_eq_zero, hFile, List.count_eq_zero]
  constructor
  · intro hNone a ha hNul
    apply hNone
    exact List.mem_flatMap.mpr
      ⟨a, ha, List.mem_append_right _ hNul⟩
  · intro hFree hNul
    rcases List.mem_flatMap.mp hNul with ⟨a, ha, hMem⟩
    rcases List.mem_append.mp hMem with hMem | hMem
    · have hName : a.1 ∈ overrideNames :=
        (names_overrides s).subset
          (List.mem_map_of_mem ((zone_sublist s).subset ha))
      exact List.count_eq_zero.mp (hNames a.1 hName) hMem
    · exact hFree a ha hMem

theorem inert_of_literal
    {s : ServerSettings}
    (hLiteral : Shell.Literal s.timezone)
    (hFree : NulFree s) :
    InertOverrides s (renderOverrides s) := by
  have hSources := sources_overrides hLiteral
  have hNul := (nul_overrides s).mpr hFree
  refine ⟨_, hSources.source hNul, ?_, ?_⟩
  · exact Shell.runsCommand_assignAll _
  · intro a ha
    apply Shell.lastAssigned_assignAll (nodup_overrides s)
    exact (zone_sublist s).subset ha

theorem literal_of_inert
    {s : ServerSettings}
    (hInert : InertOverrides s (renderOverrides s)) :
    Shell.Literal s.timezone := by
  rcases hInert with ⟨commands, hSource, _, hLast⟩
  have hName : Shell.Name "TZ" := by decide
  have hNext : Shell.Name "ENABLE_LOGROTATE" := by decide
  have hNames :
      ((zoneVariable s :: givenVariables s).map
        Prod.fst).Nodup :=
    (nodup_overrides s).sublist ((zone_sublist s).map Prod.fst)
  -- the line behind the time zone, and the others
  let others : Text :=
    boolText s.logrotate ++ "\n" ++
      (overrideText id (flagVariables s).tail ++
        overrideText shellQuote (givenVariables s))
  have hFlags :
      overrideText id (flagVariables s) =
        "ENABLE_LOGROTATE" ++ "=" ++ boolText s.logrotate ++
            "\n" ++
          overrideText id (flagVariables s).tail := rfl
  have hScript :
      renderOverrides s =
        overridesHeading ++
          ("TZ" ++ "=" ++
            (s.timezone ++
              ("\n" ++ ("ENABLE_LOGROTATE" ++ "=") ++
                others))) := by
    rw [renderOverrides_eq]
    have hZone :
        overrideText id (zoneVariable s :: flagVariables s) =
          "TZ" ++ "=" ++ s.timezone ++ "\n" ++
            overrideText id (flagVariables s) := rfl
    rw [hZone, hFlags]
    simp [others]
  rw [hScript] at hSource
  apply Shell.literal_of_assigned (z := 'Z') sources_heading
    hName hNext hNames (List.mem_cons_self ..) (by decide) ?_
    hSource hLast
  have hOthers :
      ("\n" ++ ("ENABLE_LOGROTATE" ++ "=") ++ others).count 'Z' =
        ((givenVariables s).flatMap
          fun a => a.1 ++ a.2).count 'Z' := by
    have hLines := count_overrides (z := 'Z') (by decide) s
    rw [count_flags (Or.inl rfl), Nat.zero_add] at hLines
    have hLine : List.count 'Z' "\n".toList = 0 := rfl
    have hText :
        "\n" ++ ("ENABLE_LOGROTATE" ++ "=") ++ others =
          "\n" ++ (overrideText id (flagVariables s) ++
            overrideText shellQuote (givenVariables s)) := by
      rw [hFlags]
      simp [others]
    rw [hText, List.count_append, hLines, hLine, Nat.zero_add]
  have hAll :
      ((zoneVariable s :: givenVariables s).flatMap
          fun a => a.1 ++ a.2).count 'Z' =
        List.count 'Z' "TZ".toList + s.timezone.count 'Z' +
          ((givenVariables s).flatMap
            fun a => a.1 ++ a.2).count 'Z' := by
    rw [List.flatMap_cons, List.count_append]
    unfold zoneVariable
    rw [List.count_append]
  rw [hAll, List.count_append, List.count_append, hOthers]
  omega

end Tacconfig

end Soteria

------------------------------------------------------------
-- Settings That Are Accepted
------------------------------------------------------------

namespace Soteria

namespace Api

open Store Tacconfig

/- Settings that the handler has answered as staged. -/
structure AcceptedSettings where
  env : Environment
  certs : LdapCerts
  state : State
  session : Session
  request : SettingsRequest
  settings : ServerSettings
  restart : Bool
  staged : state.staging = some session
  body : request.body = .ok settings
  accepted :
    (putSettings env certs state request).1 = .ok restart

/- The overrides file afterwards. -/
def AcceptedSettings.file (a : AcceptedSettings) : Option Text :=
  (putSettings a.env a.certs a.state a.request).2.effective
    .overrides

/-
  The overrides file assigns the settings as they are kept,
  with the stored password for an empty one, and it runs no
  command.
-/
def AcceptedSettings.Inert (a : AcceptedSettings) : Prop :=
  ∃ file,
    a.file = some file ∧
      InertOverrides (keepPassword a.state a.settings) file

theorem AcceptedSettings.file_eq (a : AcceptedSettings) :
    a.file =
      some (renderOverrides (keepPassword a.state a.settings)) := by
  rcases putSettings_ok a.staged a.accepted with
    ⟨new, src, hBody, _, _, hState⟩
  cases hBody.symm.trans a.body
  unfold AcceptedSettings.file
  rw [hState]
  rfl

theorem keepPassword_timezone
    (s : State)
    (new : ServerSettings) :
    (keepPassword s new).timezone = new.timezone := by
  unfold keepPassword
  split
  · split <;> rfl
  · rfl

/-
  The overrides file of accepted settings is inert exactly if
  the time zone is a literal text, and no value has a NUL.
-/
theorem overrides_inert_iff (a : AcceptedSettings) :
    a.Inert ↔
      Shell.Literal a.settings.timezone ∧
        NulFree (keepPassword a.state a.settings) := by
  rw [← keepPassword_timezone a.state a.settings]
  constructor
  · rintro ⟨file, hFile, hInert⟩
    cases hFile.symm.trans a.file_eq
    refine ⟨literal_of_inert hInert, ?_⟩
    rcases hInert with ⟨commands, hSource, _⟩
    exact (nul_overrides _).mp (Shell.nul_of_source hSource)
  · rintro ⟨hLiteral, hFree⟩
    exact ⟨_, a.file_eq, inert_of_literal hLiteral hFree⟩

/- Settings with another command in the time zone. -/
def rebootSettings : AcceptedSettings where
  env := zoneEnvironment
  certs := listenerSession.certs
  state := listenerSession.store
  session := ⟨listenerStore.live, false⟩
  request :=
    settingsRequest
      { listenerSettings "49" with timezone := "UTC\nreboot" }
  settings :=
    { listenerSettings "49" with timezone := "UTC\nreboot" }
  restart := true
  staged := rfl
  body := rfl
  accepted := rfl

/- What the shell makes of the file they leave. -/
def rebootCommands : List Shell.Command :=
  [⟨[("TZ", "UTC")], []⟩, ⟨[], ["reboot"]⟩,
    ⟨[("ENABLE_LOGROTATE", "true")], []⟩,
    ⟨[("ENABLE_MONTHLY_ARCHIVE", "true")], []⟩,
    ⟨[("ENABLE_LDAP", "false")], []⟩]

/- The container runs that command when it starts. -/
theorem overrides_run_command :
    rebootSettings.file.bind Shell.source =
        some rebootCommands ∧
      ¬rebootSettings.Inert := by
  have hSource :
      rebootSettings.file.bind Shell.source =
        some rebootCommands := by
    decide +kernel
  refine ⟨hSource, ?_⟩
  rintro ⟨file, hFile, commands, hCommands, hRuns, _⟩
  rw [hFile, Option.bind_some, hCommands] at hSource
  cases hSource
  exact absurd hRuns (by decide)

end Api

end Soteria
