import Soteria.Foundation.Words
import Soteria.Tacconfig.ReadBack

/-
  Settings that read back as they were written.

  The text fields have no quotes and no line ends, so each
  value of the LDAP file is read from its own line, and the
  hosts are words whose scheme is put on and taken off again.

  Key definitions include:
    * `PlainSettings`
    * `parseDNS_render`, `parseMavis_render`
    * `parseOverrides_render`
    * `settings_read_back`
-/

------------------------------------------------------------
-- Plain Settings
------------------------------------------------------------

namespace Soteria

namespace Tacconfig

/- The text fields that the settings files carry. -/
def ServerSettings.texts (s : ServerSettings) : List Text :=
  [s.ldapServerType, s.ldapHosts, s.ldapUser, s.ldapPassword,
    s.ldapBase, s.ldapFilter, s.ldapBaseGroup,
    s.ldapFilterGroup, s.ldapTacMember, s.ldapConnectTimeout,
    s.ldapTLSMode, s.dnsServer, s.dnsTimeout, s.timezone]

/- Some digits. -/
structure Decimal (v : Text) : Prop where
  nonempty : v ≠ []
  digits : ∀ c ∈ v, Regex.digit c = true

/- A host without a scheme. -/
structure BareHost (host : Text) : Prop where
  word : Text.Word host
  noLdaps : host.toLower.contains "ldaps://" = false
  noLdap : host.toLower.hasPrefix "ldap://" = false

/- Settings whose fields are as their forms have them. -/
structure PlainSettings (s : ServerSettings) : Prop where
  texts : ∀ v ∈ s.texts, '"' ∉ v ∧ '\n' ∉ v
  dnsServer : s.dnsServer.trimSpace = s.dnsServer
  timezone : s.timezone.trimSpace = s.timezone
  someTimezone : s.timezone ≠ []
  dnsTimeout : Decimal s.dnsTimeout
  ldapConnectTimeout : Decimal s.ldapConnectTimeout
  ldapTLSMode :
    s.ldapTLSMode = "none" ∨
      (s.ldapTLSMode = "ldaps" ∧ s.ldapHosts ≠ []) ∨
        s.ldapTLSMode = "starttls"
  ldapTLSVerify :
    s.ldapTLSMode = "none" → s.ldapTLSVerify = false
  ldapHosts :
    ∃ hosts,
      s.ldapHosts = Text.join hosts " " ∧
        ∀ host ∈ hosts, BareHost host

end Tacconfig

end Soteria

------------------------------------------------------------
-- 02-dns.cfg
------------------------------------------------------------

namespace Soteria

namespace Tacconfig

/- The file is silent on the servers if there are none. -/
theorem parseDNS_render
    {s : ServerSettings}
    (hPlain : PlainSettings s)
    (cur : ServerSettings) :
    parseDNS (renderDNS s) cur =
      { cur with
        dnsServer :=
          if s.dnsServer = [] then cur.dnsServer
          else s.dnsServer
        dnsReverseLookup := s.dnsReverseLookup
        dnsTimeout := s.dnsTimeout } := by
  have hServer : s.dnsServer ∈ s.texts := by
    simp [ServerSettings.texts]
  have hText := hPlain.texts s.dnsServer hServer
  have hTrim := hPlain.dnsServer
  rw [← hTrim] at hText
  have hWord : timeoutWord s = s.dnsTimeout :=
    if_neg hPlain.dnsTimeout.nonempty
  have hDigits := hPlain.dnsTimeout.digits
  have hLine : '\n' ∉ timeoutWord s := by
    rw [hWord]
    exact newline_notMem_digits hDigits
  have hAnswer :
      (reverseWord s == "yes") = s.dnsReverseLookup := by
    unfold reverseWord
    cases s.dnsReverseLookup with
    | false => rfl
    | true => rfl
  unfold parseDNS
  rw [firstGroup_dnsServers hText.1 hText.2 hLine,
    firstGroup_dnsReverse hText.2,
    firstGroup_dnsTimeout hText.2 hDigits, hTrim, hWord]
  simp only [hAnswer]
  by_cases hEmpty : s.dnsServer = []
  · simp only [if_pos hEmpty]
  · simp only [if_neg hEmpty, hTrim]

end Tacconfig

end Soteria

------------------------------------------------------------
-- 03-mavis.cfg
------------------------------------------------------------

namespace Soteria

namespace Tacconfig

/- One line does not end in the start of another. -/
theorem endsInKey_oneLine
    {key v : Text}
    (hLine : '\n' ∉ v) :
    endsInKey key v = false := by
  unfold endsInKey
  rw [List.any_eq_false]
  intro t ht hBoth
  rcases Bool.and_eq_true_iff.mp hBoth with ⟨hHead, _⟩
  have hMem : '\n' ∈ t := by
    apply List.mem_of_mem_head?
    simpa using hHead
  exact hLine (((List.mem_tails _ _).mp ht).subset hMem)

/- Values of one line are read from their own lines. -/
theorem readEntries_oneLine
    {entries : List SetenvEntry}
    (key : Text)
    (hLines : ∀ e ∈ entries, '\n' ∉ e.stored) :
    readEntries key entries = ownValue key entries := by
  have hNone : shadow key entries = none := by
    induction entries with
    | nil => rfl
    | cons e rest ih =>
        have hFirst : endsInKey key e.stored = false :=
          endsInKey_oneLine (hLines e (List.mem_cons_self ..))
        unfold shadow
        rw [hFirst, if_neg Bool.false_ne_true,
          ih fun x hx => hLines x (List.mem_cons_of_mem _ hx),
          ite_self]
  rw [readEntries_eq, hNone]
  rfl

theorem mem_of_mem_stored
    {e : SetenvEntry}
    {c : Char}
    (hMem : c ∈ e.stored) :
    c ∈ e.value := by
  rcases List.mem_flatMap.mp hMem with ⟨d, hd, hc⟩
  split at hc
  · cases hc
  · rw [List.mem_singleton.mp hc]
    exact hd

/- The characters of the options are one of these kinds. -/
theorem notMem_tlsOptions
    {c : Char}
    {certs : LdapCerts}
    {verify : Bool}
    (hAll :
      ∀ ca client : Bool,
        c ∉ mavisTLSOptions ⟨ca, client, true⟩ verify) :
    c ∉ mavisTLSOptions certs verify := by
  rcases certs with ⟨ca, clientCert, clientKey⟩
  have hClient :
      mavisTLSOptions ⟨ca, clientCert, clientKey⟩ verify =
        mavisTLSOptions ⟨ca, clientCert && clientKey, true⟩
          verify := by
    unfold mavisTLSOptions
    simp only [Bool.and_true]
  rw [hClient]
  exact hAll ca (clientCert && clientKey)

theorem plain_tlsOptions
    (certs : LdapCerts)
    (verify : Bool) :
    '"' ∉ mavisTLSOptions certs verify ∧
      '\n' ∉ mavisTLSOptions certs verify := by
  have hAll :
      ∀ verify ca client : Bool,
        '"' ∉ mavisTLSOptions ⟨ca, client, true⟩ verify ∧
          '\n' ∉ mavisTLSOptions ⟨ca, client, true⟩ verify := by
    unfold mavisTLSOptions
    repeat rw [String.toList_ofList]
    decide +kernel
  exact ⟨notMem_tlsOptions fun ca client =>
      (hAll verify ca client).1,
    notMem_tlsOptions fun ca client =>
      (hAll verify ca client).2⟩

/- They say that the certificate is verified if it is. -/
theorem verify_tlsOptions
    (certs : LdapCerts)
    (verify : Bool) :
    (mavisTLSOptions certs verify).contains
        "verify => 'require'" =
      verify := by
  cases verify with
  | true =>
      apply Text.contains_iff.mpr
      apply List.IsPrefix.isInfix
      unfold mavisTLSOptions
      simp only [if_true, List.singleton_append]
      exact Text.prefix_join _ _ _
  | false =>
      rw [Bool.eq_false_iff]
      intro hContains
      have hInfix := Text.contains_iff.mp hContains
      have hLetter : 'q' ∈ ("verify => 'require'" : Text) := by
        decide
      have hNone : 'q' ∉ mavisTLSOptions certs false := by
        apply notMem_tlsOptions
        unfold mavisTLSOptions
        repeat rw [String.toList_ofList]
        decide +kernel
      exact hNone (hInfix.subset hLetter)

end Tacconfig

end Soteria

------------------------------------------------------------
-- Hosts
------------------------------------------------------------

namespace Soteria

namespace Tacconfig

theorem stripScheme_bare
    {host : Text}
    (hBare : BareHost host) :
    stripScheme host = host := by
  have hNoPrefix : host.toLower.hasPrefix "ldaps://" = false := by
    rw [Bool.eq_false_iff]
    intro hPrefix
    have hInfix :=
      (List.isPrefixOf_iff_prefix.mp hPrefix).isInfix
    have hContains := Text.contains_iff.mpr hInfix
    rw [hBare.noLdaps] at hContains
    cases hContains
  unfold stripScheme
  rw [hNoPrefix, if_neg Bool.false_ne_true, hBare.noLdap,
    if_neg Bool.false_ne_true]

theorem toLower_ldaps (s : Text) :
    Text.toLower ("ldaps://" ++ s) = "ldaps://" ++ s.toLower := by
  unfold Text.toLower
  rw [List.map_append]
  rfl

theorem stripScheme_ldaps (host : Text) :
    stripScheme ("ldaps://" ++ host) = host := by
  have hPrefix :
      (Text.toLower ("ldaps://" ++ host)).hasPrefix
        "ldaps://" = true := by
    rw [toLower_ldaps]
    apply List.isPrefixOf_iff_prefix.mpr
    exact List.prefix_append _ _
  unfold stripScheme
  rw [if_pos hPrefix]
  rfl

theorem word_ldaps
    {host : Text}
    (hWord : Text.Word host) :
    Text.Word ("ldaps://" ++ host) := by
  refine ⟨by simp, ?_⟩
  intro c hc
  rcases List.mem_append.mp hc with hScheme | hHost
  · have hAll :
        ∀ d ∈ ("ldaps://" : Text), Text.isSpace d = false := by
      decide
    exact hAll c hScheme
  · exact hWord.noSpace c hHost

/- Bare hosts stay as they are. -/
theorem stripLdapScheme_bare
    {hosts : List Text}
    (hBare : ∀ host ∈ hosts, BareHost host) :
    stripLdapScheme (Text.join hosts " ") =
      Text.join hosts " " := by
  have hFields :=
    Text.fields_join fun host hHost => (hBare host hHost).word
  have hSame : hosts.map stripScheme = hosts := by
    rw [List.map_congr_left fun host hHost =>
      stripScheme_bare (hBare host hHost)]
    exact List.map_id' hosts
  unfold stripLdapScheme
  rw [hFields, hSame]

/- The scheme that is put on each host is taken off again. -/
theorem stripLdapScheme_ldaps
    {hosts : List Text}
    (hBare : ∀ host ∈ hosts, BareHost host) :
    stripLdapScheme
        (Text.join
          (hosts.map fun host => "ldaps://" ++ host) " ") =
      Text.join hosts " " := by
  have hWords :
      ∀ w ∈ hosts.map fun host => ("ldaps://" : Text) ++ host,
        Text.Word w := by
    intro w hw
    rcases List.mem_map.mp hw with ⟨host, hHost, rfl⟩
    exact word_ldaps (hBare host hHost).word
  have hSame :
      (hosts.map fun host => ("ldaps://" : Text) ++ host).map
          stripScheme =
        hosts := by
    rw [List.map_map]
    apply List.map_id''
    exact stripScheme_ldaps
  unfold stripLdapScheme
  rw [Text.fields_join hWords, hSame]

theorem mavisHosts_bare
    {hosts : List Text}
    (hBare : ∀ host ∈ hosts, BareHost host)
    (mode : Text) :
    mavisHosts (Text.join hosts " ") mode =
      if mode = "ldaps" then
        Text.join
          (hosts.map fun host => "ldaps://" ++ host) " "
      else Text.join hosts " " := by
  have hFields :=
    Text.fields_join fun host hHost => (hBare host hHost).word
  unfold mavisHosts
  rw [stripLdapScheme_bare hBare, hFields]
  by_cases hMode : mode = "ldaps"
  · rw [if_pos hMode, if_neg (by simp [hMode])]
  · rw [if_neg hMode, if_pos (by simpa using hMode)]

theorem stripLdapScheme_mavisHosts
    {hosts : List Text}
    (hBare : ∀ host ∈ hosts, BareHost host)
    (mode : Text) :
    stripLdapScheme (mavisHosts (Text.join hosts " ") mode) =
      Text.join hosts " " := by
  rw [mavisHosts_bare hBare]
  split
  · exact stripLdapScheme_ldaps hBare
  · exact stripLdapScheme_bare hBare

/- The scheme is in the file exactly if it was put there. -/
theorem contains_mavisHosts
    {hosts : List Text}
    (hBare : ∀ host ∈ hosts, BareHost host)
    (mode : Text) :
    (mavisHosts (Text.join hosts " ") mode).toLower.contains
        "ldaps://" =
      true ↔ mode = "ldaps" ∧ hosts ≠ [] := by
  rw [mavisHosts_bare hBare, Text.contains_iff]
  have hSome : ("ldaps://" : Text) ≠ [] := by decide
  have hBlank : ' ' ∉ ("ldaps://" : Text) := by decide
  by_cases hMode : mode = "ldaps"
  · rw [if_pos hMode]
    constructor
    · intro hInfix
      refine ⟨hMode, ?_⟩
      rintro rfl
      exact hSome (List.infix_nil.mp hInfix)
    · rintro ⟨_, hHosts⟩
      rcases List.exists_cons_of_ne_nil hHosts with
        ⟨host, rest, rfl⟩
      have hFirst :
          ∃ behind,
            Text.join
                ((host :: rest).map
                  fun host => ("ldaps://" : Text) ++ host) " " =
              "ldaps://" ++ behind := by
        rw [List.map_cons]
        rcases Text.prefix_join ("ldaps://" ++ host) _ " " with
          ⟨more, hMore⟩
        exact ⟨_, by rw [← hMore, List.append_assoc]⟩
      rcases hFirst with ⟨behind, hJoin⟩
      rw [hJoin, toLower_ldaps]
      exact (List.prefix_append _ _).isInfix
  · rw [if_neg hMode, Text.toLower_join]
    constructor
    · intro hInfix
      rcases Text.infix_join hInfix hSome hBlank with
        ⟨w, hw, hPart⟩
      rcases List.mem_map.mp hw with ⟨host, hHost, rfl⟩
      have hContains := Text.contains_iff.mpr hPart
      rw [(hBare host hHost).noLdaps] at hContains
      cases hContains
    · rintro ⟨hMode', _⟩
      exact (hMode hMode').elim

end Tacconfig

end Soteria

------------------------------------------------------------
-- Values of the LDAP File
------------------------------------------------------------

namespace Soteria

namespace Tacconfig

/- Another character of the hosts is one of theirs. -/
theorem notMem_mavisHosts
    {hosts : List Text}
    {c : Char}
    (hBare : ∀ host ∈ hosts, BareHost host)
    (mode : Text)
    (hBlank : c ≠ ' ')
    (hScheme : c ∉ ("ldaps://" : Text))
    (hHosts : c ∉ Text.join hosts " ") :
    c ∉ mavisHosts (Text.join hosts " ") mode := by
  rw [mavisHosts_bare hBare]
  split
  · intro hMem
    rcases Text.mem_joined hMem with hSpace | ⟨w, hw, hc⟩
    · exact hBlank hSpace
    · rcases List.mem_map.mp hw with ⟨host, hHost, rfl⟩
      rcases List.mem_append.mp hc with hc | hc
      · exact hScheme hc
      · exact hHosts (Text.mem_joined_of_mem hHost hc)
  · exact hHosts

theorem PlainSettings.hosts
    {s : ServerSettings}
    (hPlain : PlainSettings s)
    (mode : Text) :
    '"' ∉ mavisHosts s.ldapHosts mode ∧
      '\n' ∉ mavisHosts s.ldapHosts mode := by
  have hHosts : s.ldapHosts ∈ s.texts := by
    simp [ServerSettings.texts]
  rcases hPlain.texts s.ldapHosts hHosts with ⟨hQuote, hLine⟩
  rcases hPlain.ldapHosts with ⟨hosts, hJoin, hBare⟩
  rw [hJoin] at hQuote hLine ⊢
  exact ⟨notMem_mavisHosts hBare mode (by decide) (by decide)
      hQuote,
    notMem_mavisHosts hBare mode (by decide) (by decide) hLine⟩

/- No variable has a quote or a line end in its value. -/
theorem PlainSettings.variables
    {s : ServerSettings}
    (hPlain : PlainSettings s)
    (certs : LdapCerts) :
    ∀ a ∈ mavisSettings certs s, '"' ∉ a.2 ∧ '\n' ∉ a.2 := by
  have hTexts := hPlain.texts
  simp only [ServerSettings.texts, List.mem_cons,
    List.not_mem_nil, or_false, forall_eq_or_imp,
    forall_eq] at hTexts
  rcases hTexts with ⟨hType, _, hUser, hPassword, hBase, hFilter,
    hBaseGroup, hFilterGroup, hMember, hTimeout, _⟩
  have hChoice :
      ∀ (c : Prop) [Decidable c] (x y : Text),
        ('"' ∉ x ∧ '\n' ∉ x) → ('"' ∉ y ∧ '\n' ∉ y) →
          '"' ∉ (if c then x else y) ∧
            '\n' ∉ (if c then x else y) := by
    intro c _ x y hx hy
    split
    · exact hx
    · exact hy
  intro a ha
  simp only [mavisSettings, List.mem_cons, List.not_mem_nil,
    or_false] at ha
  rcases ha with rfl | rfl | rfl | rfl | rfl | rfl | rfl | rfl |
    rfl | rfl | rfl | rfl
  · exact hType
  · exact hPlain.hosts _
  · exact hUser
  · exact hPassword
  · exact hBase
  · exact hBaseGroup
  · exact hFilter
  · exact hFilterGroup
  · exact hChoice _ _ _ (by decide) hTimeout
  · exact hMember
  · exact hChoice _ _ _ (by decide) (by decide)
  · exact hChoice _ _ _ (plain_tlsOptions certs _) (by decide)

/- The values of the lines are those of the variables. -/
theorem value_mavisEntries
    {certs : LdapCerts}
    {s : ServerSettings}
    {P : Text → Prop}
    (hSub : P "sub")
    (hAll : ∀ a ∈ mavisSettings certs s, P a.2) :
    ∀ e ∈ mavisEntries certs s, P e.value := by
  simp only [mavisSettings, List.forall_mem_cons] at hAll
  rcases hAll with ⟨hType, hHosts, hUser, hPassword, hBase,
    hBaseGroup, hFilter, hFilterGroup, hTimeout, hMember,
    hStartTLS, hOptions, _⟩
  unfold mavisEntries
  simp only [List.forall_mem_append, List.forall_mem_cons]
  have hNone :
      ∀ e ∈ ([] : List SetenvEntry), P e.value := by
    intro e he
    cases he
  refine ⟨⟨hType, hHosts, hUser, hPassword, hBase, hSub, hNone⟩,
    ?_, ⟨hBaseGroup, hSub, hNone⟩, ?_, ⟨hTimeout, hNone⟩, ?_,
    ?_, ?_⟩
  · split
    · exact hNone
    · exact List.forall_mem_cons.mpr ⟨hFilter, hNone⟩
  · split
    · exact hNone
    · exact List.forall_mem_cons.mpr ⟨hFilterGroup, hNone⟩
  · split
    · exact hNone
    · exact List.forall_mem_cons.mpr ⟨hMember, hNone⟩
  · split
    · rename_i hMode
      rw [if_pos hMode] at hStartTLS
      exact List.forall_mem_cons.mpr ⟨hStartTLS, hNone⟩
    · exact hNone
  · split
    · rename_i hMode
      rw [if_pos hMode] at hOptions
      exact List.forall_mem_cons.mpr ⟨hOptions, hNone⟩
    · exact hNone

/- Each variable is read back from its own line. -/
theorem PlainSettings.mavisValue
    {s : ServerSettings}
    (hPlain : PlainSettings s)
    (certs : LdapCerts)
    {a : Text × Text}
    (ha : a ∈ mavisSettings certs s)
    (hKey : SetenvKey a.1) :
    mavisValue (renderMavis certs s) a.1 = a.2 := by
  have hLines :
      ∀ e ∈ mavisEntries certs s, '\n' ∉ e.stored := by
    have hValues :
        ∀ e ∈ mavisEntries certs s, '\n' ∉ e.value :=
      value_mavisEntries (P := fun v => '\n' ∉ v) (by decide)
        fun a ha => (hPlain.variables certs a ha).2
    intro e he hMem
    exact hValues e he (mem_of_mem_stored hMem)
  rw [mavisValue_render hKey, readEntries_oneLine a.1 hLines,
    ownValue_setting ha, stored_eq_iff]
  exact (hPlain.variables certs a ha).1

/- The mode is written as it is. -/
theorem PlainSettings.mode
    {s : ServerSettings}
    (hPlain : PlainSettings s) :
    s.ldapTLSMode.trimSpace.toLower = s.ldapTLSMode := by
  rcases hPlain.ldapTLSMode with hNone | ⟨hLdaps, _⟩ | hStart
  · rw [hNone]
    decide
  · rw [hLdaps]
    decide
  · rw [hStart]
    decide

/- The mode is found in the flag, or in the hosts. -/
theorem PlainSettings.mode_read
    {s : ServerSettings}
    (hPlain : PlainSettings s) :
    (if (if s.ldapTLSMode = "starttls" then ("1" : Text)
          else []) != [] then ("starttls" : Text)
      else if
        (mavisHosts s.ldapHosts
            s.ldapTLSMode).toLower.contains "ldaps://" then
        "ldaps"
      else "none") = s.ldapTLSMode := by
  rcases hPlain.ldapHosts with ⟨hosts, hJoin, hBare⟩
  have hContains := contains_mavisHosts hBare s.ldapTLSMode
  rw [← hJoin] at hContains
  rcases hPlain.ldapTLSMode with hNone | ⟨hLdaps, hSome⟩ | hStart
  · rw [hNone] at hContains ⊢
    have hMissing :
        ¬(mavisHosts s.ldapHosts "none").toLower.contains
          "ldaps://" = true := by
      intro hThere
      exact absurd (hContains.mp hThere).1 (by decide)
    rw [if_neg hMissing, if_neg (by decide)]
  · have hHosts : hosts ≠ [] := by
      rintro rfl
      exact hSome hJoin
    rw [hLdaps] at hContains ⊢
    rw [if_pos (hContains.mpr ⟨rfl, hHosts⟩),
      if_neg (by decide)]
  · rw [hStart, if_pos (by decide)]

theorem PlainSettings.verify_read
    {s : ServerSettings}
    (hPlain : PlainSettings s)
    (certs : LdapCerts) :
    Text.contains
        (if s.ldapTLSMode = "ldaps" ∨
            s.ldapTLSMode = "starttls" then
          mavisTLSOptions certs s.ldapTLSVerify
        else []) "verify => 'require'" =
      s.ldapTLSVerify := by
  rcases hPlain.ldapTLSMode with hNone | ⟨hLdaps, _⟩ | hStart
  · rw [hPlain.ldapTLSVerify hNone, hNone, if_neg (by decide)]
    rfl
  · rw [if_pos (Or.inl hLdaps), verify_tlsOptions]
  · rw [if_pos (Or.inr hStart), verify_tlsOptions]

/- The file as it is read: the password only as set or not. -/
theorem parseMavis_render
    {s : ServerSettings}
    (hPlain : PlainSettings s)
    (certs : LdapCerts)
    (cur : ServerSettings) :
    parseMavis (renderMavis certs s) cur =
      { cur with
        ldapServerType := s.ldapServerType
        ldapHosts := s.ldapHosts
        ldapUser := s.ldapUser
        ldapPasswordSet := s.ldapPassword != []
        ldapBase := s.ldapBase
        ldapFilter := s.ldapFilter
        ldapBaseGroup := s.ldapBaseGroup
        ldapFilterGroup := s.ldapFilterGroup
        ldapTacMember := s.ldapTacMember
        ldapConnectTimeout := s.ldapConnectTimeout
        ldapTLSMode := s.ldapTLSMode
        ldapTLSVerify := s.ldapTLSVerify } := by
  have hValue :
      ∀ a ∈ mavisSettings certs s, SetenvKey a.1 →
        Tacconfig.mavisValue (renderMavis certs s) a.1 = a.2 :=
    fun a ha hKey => hPlain.mavisValue certs ha hKey
  simp only [mavisSettings, List.forall_mem_cons] at hValue
  rcases hValue with ⟨hType, hHosts, hUser, hPassword, hBase,
    hBaseGroup, hFilter, hFilterGroup, hTimeout, hMember,
    hStartTLS, hOptions, _⟩
  have hTimeoutValue :
      (if s.ldapConnectTimeout = [] then ("5" : Text)
        else s.ldapConnectTimeout) = s.ldapConnectTimeout :=
    if_neg hPlain.ldapConnectTimeout.nonempty
  rw [hTimeoutValue] at hTimeout
  have hHostsRead :
      stripLdapScheme (mavisHosts s.ldapHosts s.ldapTLSMode) =
        s.ldapHosts := by
    rcases hPlain.ldapHosts with ⟨hosts, hJoin, hBare⟩
    rw [hJoin]
    exact stripLdapScheme_mavisHosts hBare s.ldapTLSMode
  unfold parseMavis
  simp only [hType (by decide), hHosts (by decide),
    hUser (by decide), hPassword (by decide),
    hBase (by decide), hBaseGroup (by decide),
    hFilter (by decide), hFilterGroup (by decide),
    hTimeout (by decide), hMember (by decide),
    hStartTLS (by decide), hOptions (by decide),
    hTimeoutValue, hPlain.mode, hHostsRead, hPlain.mode_read,
    hPlain.verify_read certs]

theorem mavisPassword_render
    {s : ServerSettings}
    (hPlain : PlainSettings s)
    (certs : LdapCerts) :
    mavisPassword (renderMavis certs s) = s.ldapPassword := by
  have hValue :
      ∀ a ∈ mavisSettings certs s, SetenvKey a.1 →
        Tacconfig.mavisValue (renderMavis certs s) a.1 = a.2 :=
    fun a ha hKey => hPlain.mavisValue certs ha hKey
  simp only [mavisSettings, List.forall_mem_cons] at hValue
  exact hValue.2.2.2.1 (by decide)

end Tacconfig

end Soteria

------------------------------------------------------------
-- agent-overrides.env
------------------------------------------------------------

namespace Soteria

namespace Tacconfig

open Regex (Pattern startsLine)

/- The line of a variable. -/
def overridePattern (key : Text) : Pattern :=
  .all [.lineStart, .lit key, .lit "=",
    .group 1 (.many true Regex.dot), .lineEnd]

theorem anchored_override (key : Text) :
    (overridePattern key).Anchored :=
  Pattern.anchored_lineStart.seq _

/- A line of the variable has its value. -/
theorem groupFrom_override
    {key v rest : Text}
    (hLine : '\n' ∉ v) :
    groupFrom (overridePattern key) (some '\n')
        (overrideLine key v ++ rest) =
      some v := by
  have hText :
      overrideLine key v ++ rest =
        key ++ ("=" ++ (v ++ '\n' :: rest)) := by
    simp [overrideLine]
  have hAll : ∀ c ∈ v, Regex.dot c = true := by
    intro c hc
    unfold Regex.dot
    rw [bne_iff_ne]
    rintro rfl
    exact hLine hc
  have hStop :
      ∀ c ∈ ('\n' :: rest).head?, Regex.dot c = false := by
    intro c hc
    cases hc
    rfl
  rw [hText]
  apply groupFrom_first
  exact Pattern.first_seq
    (Pattern.first_lineStart (Or.inr rfl))
    (Pattern.first_seq (Pattern.first_lit key _)
      (Pattern.first_seq (Pattern.first_lit "=" _)
        (Pattern.first_seq
          (Pattern.first_group (Pattern.first_many hAll hStop))
          (Pattern.first_seq
            (Pattern.first_lineEnd (Or.inr rfl))
            Pattern.first_empty))))

/- The line of another variable is passed over. -/
theorem groupFrom_otherVariable
    {key name v rest : Text}
    (hKey : '=' ∉ key)
    (hName : '=' ∉ name)
    (hOther : key ≠ name)
    (hNameLine : '\n' ∉ name)
    (hLine : '\n' ∉ v) :
    groupFrom (overridePattern key) (some '\n')
        (overrideLine name v ++ rest) =
      groupFrom (overridePattern key) (some '\n') rest := by
  have hText :
      overrideLine name v ++ rest =
        (name ++ '=' :: v) ++ '\n' :: rest := by
    simp [overrideLine]
  have hWhole : '\n' ∉ name ++ '=' :: v := by
    simp only [List.mem_append, List.mem_cons, not_or]
    exact ⟨hNameLine, by decide, hLine⟩
  rw [hText]
  apply groupFrom_line (anchored_override key) hWhole
  apply List.eq_nil_iff_forall_not_mem.mpr
  intro m hMem
  rcases Pattern.mem_run_iff.mp hMem with ⟨hInput, hTakes⟩
  rcases hTakes with ⟨_, _, _, _, ⟨_, rfl, rfl⟩,
    ⟨_, _, _, _, hKeyText, ⟨_, z, _, _, hSign, _, rfl, rfl⟩,
      rfl, rfl⟩, hAll, _⟩
  rw [hAll, (Pattern.takes_lit.mp hKeyText).1,
    (Pattern.takes_lit.mp hSign).1] at hInput
  have hSame :
      name ++ '=' :: (v ++ '\n' :: rest) =
        key ++ '=' :: (z ++ m.rest) := by
    simpa using hInput
  exact hOther (Text.cut_unique hName hKey hSame).1.symm

theorem trimChar_self
    {v : Text}
    {c : Char}
    (hNone : c ∉ v) :
    v.trimChar c = v := by
  have hHead : v.dropWhile (· == c) = v := by
    rw [List.dropWhile_eq_self_iff]
    intro hSome hFirst
    have hChar : v[0] = c := by simpa using hFirst
    exact hNone (hChar ▸ List.getElem_mem hSome)
  unfold Text.trimChar
  rw [hHead, List.rdropWhile_eq_self_iff]
  intro hSome hLast
  have hChar : v.getLast hSome = c := by simpa using hLast
  exact hNone (hChar ▸ List.getLast_mem hSome)

/- A value without quotes is read back if it is trimmed. -/
theorem overrideVal_of_group
    {src key v : Text}
    (hGroup :
      firstGroup (overridePattern key) src = some v)
    (hTrim : v.trimSpace = v)
    (hQuote : '"' ∉ v) :
    overrideVal src key = v := by
  unfold overrideVal
  unfold overridePattern at hGroup
  rw [hGroup]
  simp only [hTrim, trimChar_self hQuote]

/- The variables that are read back are at the top. -/
theorem renderOverrides_top (s : ServerSettings) :
    ∃ rest,
      renderOverrides s =
        ("# Managed by soteria-agent - applied on container restart" :
            Text) ++
          '\n' :: (overrideLine "TZ" s.timezone ++
            (overrideLine "ENABLE_LOGROTATE"
                (boolText s.logrotate) ++
              (overrideLine "ENABLE_MONTHLY_ARCHIVE"
                  (boolText s.monthlyArchive) ++ rest))) := by
  have hHeading :
      "# Managed by soteria-agent - applied on container restart\n".toList =
        ("# Managed by soteria-agent - applied on container restart" :
          Text) ++ ['\n'] := by
    repeat rw [String.toList_ofList]
    rfl
  unfold renderOverrides
  rw [hHeading]
  simp only [List.append_assoc, List.singleton_append]
  exact ⟨_, rfl⟩

/- The comment on top is passed over for each of them. -/
theorem groupFrom_overridesHeading
    {key rest : Text}
    (hHead : ∀ c ∈ key.head?, c ≠ '#')
    (hSome : key ≠ []) :
    firstGroup (overridePattern key)
        (("# Managed by soteria-agent - applied on container restart" :
          Text) ++ '\n' :: rest) =
      groupFrom (overridePattern key) (some '\n') rest := by
  have hLine :
      '\n' ∉
        ("# Managed by soteria-agent - applied on container restart" :
          Text) :=
    Text.notMem_literal (by decide)
  apply groupFrom_line (anchored_override key) hLine
  rcases List.exists_cons_of_ne_nil hSome with ⟨c, cs, rfl⟩
  apply List.eq_nil_iff_forall_not_mem.mpr
  intro m hMem
  rcases Pattern.mem_run_iff.mp hMem with ⟨hInput, hTakes⟩
  rcases hTakes with ⟨_, _, _, _, ⟨_, rfl, rfl⟩,
    ⟨_, _, _, _, hKeyText, _, rfl, _⟩, hAll, _⟩
  have hSign :
      ("# Managed by soteria-agent - applied on container restart" :
        Text) =
        '#' ::
          (" Managed by soteria-agent - applied on container restart" :
            Text) := by
    repeat rw [String.toList_ofList]
  rw [hAll, (Pattern.takes_lit.mp hKeyText).1, hSign] at hInput
  simp only [List.nil_append, List.cons_append,
    List.cons.injEq] at hInput
  exact hHead c rfl hInput.1.symm

theorem boolText_plain (b : Bool) :
    (boolText b).trimSpace = boolText b ∧
      '"' ∉ boolText b ∧ '\n' ∉ boolText b := by
  cases b with
  | false => exact ⟨by decide, by decide, by decide⟩
  | true => exact ⟨by decide, by decide, by decide⟩

theorem boolText_read (b : Bool) :
    (!(boolText b).equalFold "false") = b := by
  cases b with
  | false => decide
  | true => decide

/- The variables, as they are read back. -/
theorem overrideVal_timezone
    {s : ServerSettings}
    (hPlain : PlainSettings s) :
    overrideVal (renderOverrides s) "TZ" = s.timezone := by
  have hZone : s.timezone ∈ s.texts := by
    simp [ServerSettings.texts]
  rcases hPlain.texts s.timezone hZone with ⟨hQuote, hLine⟩
  rcases renderOverrides_top s with ⟨rest, hText⟩
  apply overrideVal_of_group ?_ hPlain.timezone hQuote
  rw [hText,
    groupFrom_overridesHeading (by decide) (by decide)]
  exact groupFrom_override hLine

theorem overrideVal_logrotate
    {s : ServerSettings}
    (hPlain : PlainSettings s) :
    overrideVal (renderOverrides s) "ENABLE_LOGROTATE" =
      boolText s.logrotate := by
  have hZone : s.timezone ∈ s.texts := by
    simp [ServerSettings.texts]
  have hZoneLine := (hPlain.texts s.timezone hZone).2
  rcases boolText_plain s.logrotate with ⟨hTrim, hQuote, hLine⟩
  rcases renderOverrides_top s with ⟨rest, hText⟩
  apply overrideVal_of_group ?_ hTrim hQuote
  rw [hText,
    groupFrom_overridesHeading (by decide) (by decide),
    groupFrom_otherVariable (by decide) (by decide)
      (by decide) (by decide) hZoneLine]
  exact groupFrom_override hLine

theorem overrideVal_monthlyArchive
    {s : ServerSettings}
    (hPlain : PlainSettings s) :
    overrideVal (renderOverrides s) "ENABLE_MONTHLY_ARCHIVE" =
      boolText s.monthlyArchive := by
  have hZone : s.timezone ∈ s.texts := by
    simp [ServerSettings.texts]
  have hZoneLine := (hPlain.texts s.timezone hZone).2
  have hRotateLine := (boolText_plain s.logrotate).2.2
  rcases boolText_plain s.monthlyArchive with
    ⟨hTrim, hQuote, hLine⟩
  rcases renderOverrides_top s with ⟨rest, hText⟩
  apply overrideVal_of_group ?_ hTrim hQuote
  rw [hText,
    groupFrom_overridesHeading (by decide) (by decide),
    groupFrom_otherVariable (by decide) (by decide)
      (by decide) (by decide) hZoneLine,
    groupFrom_otherVariable (by decide) (by decide)
      (by decide) (by decide) hRotateLine]
  exact groupFrom_override hLine

theorem parseOverrides_render
    {s : ServerSettings}
    (hPlain : PlainSettings s)
    (cur : ServerSettings) :
    parseOverrides (renderOverrides s) cur =
      { cur with
        timezone := s.timezone
        logrotate := s.logrotate
        monthlyArchive := s.monthlyArchive } := by
  have hSome : (s.timezone != []) = true := by
    simpa using hPlain.someTimezone
  unfold parseOverrides
  rw [overrideVal_timezone hPlain,
    overrideVal_logrotate hPlain,
    overrideVal_monthlyArchive hPlain, hSome, boolText_read,
    boolText_read]
  rfl

end Tacconfig

end Soteria

------------------------------------------------------------
-- Settings Read Back
------------------------------------------------------------

namespace Soteria

namespace Tacconfig

/-
  Every field that is read from one of the files is as it was
  written, and no other field is changed. The password is read
  by itself. Without servers the file has no line for them, and
  what was there before stays.
-/
theorem settings_read_back
    {s : ServerSettings}
    (hPlain : PlainSettings s)
    (certs : LdapCerts)
    (cur : ServerSettings) :
    parseDNS (renderDNS s) cur =
        { cur with
          dnsServer :=
            if s.dnsServer = [] then cur.dnsServer
            else s.dnsServer
          dnsReverseLookup := s.dnsReverseLookup
          dnsTimeout := s.dnsTimeout } ∧
      parseMavis (renderMavis certs s) cur =
        { cur with
          ldapServerType := s.ldapServerType
          ldapHosts := s.ldapHosts
          ldapUser := s.ldapUser
          ldapPasswordSet := s.ldapPassword != []
          ldapBase := s.ldapBase
          ldapFilter := s.ldapFilter
          ldapBaseGroup := s.ldapBaseGroup
          ldapFilterGroup := s.ldapFilterGroup
          ldapTacMember := s.ldapTacMember
          ldapConnectTimeout := s.ldapConnectTimeout
          ldapTLSMode := s.ldapTLSMode
          ldapTLSVerify := s.ldapTLSVerify } ∧
        mavisPassword (renderMavis certs s) = s.ldapPassword ∧
          parseOverrides (renderOverrides s) cur =
            { cur with
              timezone := s.timezone
              logrotate := s.logrotate
              monthlyArchive := s.monthlyArchive } := by
  exact ⟨parseDNS_render hPlain cur,
    parseMavis_render hPlain certs cur,
    mavisPassword_render hPlain certs,
    parseOverrides_render hPlain cur⟩

/- Settings as an administrator fills them in. -/
def directory : ServerSettings :=
  { ServerSettings.zero with
    ldapEnabled := true
    ldapServerType := "microsoft"
    ldapHosts := "dc1.example dc2.example:636"
    ldapUser := "cn=agent,dc=example"
    ldapPassword := "it's $ecret"
    ldapBase := "dc=example"
    ldapFilter := "(&(objectClass=user)(uid=%s))"
    ldapConnectTimeout := "5"
    ldapTLSMode := "ldaps"
    ldapTLSVerify := true
    dnsServer := "10.0.0.53"
    dnsTimeout := "3"
    timezone := "Europe/Athens"
    monthlyArchive := true }

theorem plain_directory : PlainSettings directory where
  texts := by decide
  dnsServer := by decide
  timezone := by decide
  someTimezone := by decide
  dnsTimeout := ⟨by decide, by decide⟩
  ldapConnectTimeout := ⟨by decide, by decide⟩
  ldapTLSMode := Or.inr (Or.inl ⟨rfl, by decide⟩)
  ldapTLSVerify := by
    intro hNone
    exact absurd hNone (by decide)
  ldapHosts := by
    refine ⟨["dc1.example", "dc2.example:636"], rfl, ?_⟩
    intro host hHost
    simp only [List.mem_cons, List.not_mem_nil,
      or_false] at hHost
    rcases hHost with rfl | rfl
    · exact ⟨⟨by decide, by decide⟩, by decide, by decide⟩
    · exact ⟨⟨by decide, by decide⟩, by decide, by decide⟩

theorem directory_reads_back :
    PlainSettings directory ∧
      parseMavis (renderMavis ⟨true, false, false⟩ directory)
          .zero =
        { ServerSettings.zero with
          ldapServerType := "microsoft"
          ldapHosts := "dc1.example dc2.example:636"
          ldapUser := "cn=agent,dc=example"
          ldapPasswordSet := true
          ldapBase := "dc=example"
          ldapFilter := "(&(objectClass=user)(uid=%s))"
          ldapConnectTimeout := "5"
          ldapTLSMode := "ldaps"
          ldapTLSVerify := true } :=
  ⟨plain_directory,
    (settings_read_back plain_directory ⟨true, false, false⟩
      .zero).2.1⟩

end Tacconfig

end Soteria
