import Soteria.Dns.ReverseNames
import Soteria.Foundation.Words
import Soteria.Tacconfig.Records

/-
  The log destinations, rendered and parsed.

  The two toggles are not written. They are read from the
  assignments of the log types to destinations.

  Key definitions include:
    * `LoggingConfig`
    * `parseLogging`, `validateLogging`, `renderLogging`
    * `ReadAs`
    * `logging_round_trip`
-/

------------------------------------------------------------
-- Reading
------------------------------------------------------------

namespace Soteria

namespace Tacconfig

structure LoggingConfig where
  fileLogEnabled : Bool
  syslogEnabled : Bool
  syslogHost : Text
  syslogPort : Int
  syslogTimestamp : Text
deriving DecidableEq

/- `strings.Cut` at a character: what is before and after. -/
def cut (s : Text) (c : Char) : Option (Text × Text) :=
  match s.dropWhile (· ≠ c) with
  | [] => none
  | _ :: after => some (s.takeWhile (· ≠ c), after)

/-
  The `%d` verb of `fmt.Sscanf`: blanks, a sign and as many
  digits as there are. A number of more than 64 bits is an
  error.
-/
def scanInt (s : Text) : Option Int :=
  let s : Text :=
    s.dropWhile fun c => Text.isSpace c && c != '\n'
  let signs :=
    if s.hasPrefix "-" || s.hasPrefix "+" then 1 else 0
  let digits := (s.drop signs).takeWhile Regex.digit
  (Text.parseInt (s.take signs ++ digits)).filter fun n =>
    -9223372036854775808 ≤ n ∧ n < 9223372036854775808

/- What the block of the export says. -/
def readExport
    (cfg : LoggingConfig) : Node → LoggingConfig
| .block name label children _ _ =>
    if name ≠ "log" ∨ label ≠ "external_syslog" then cfg
    else
      let cfg :=
        match cut (assignValue "destination" children) ':' with
        | some (host, port) =>
            { cfg with
              syslogHost := host
              syslogPort :=
                (scanInt port).getD cfg.syslogPort }
        | none => cfg
      let ts := assignValue "timestamp" children
      if ts ≠ [] then { cfg with syslogTimestamp := ts }
      else cfg
| _ => cfg

/- What an assignment of a log type says. -/
def readAssigned
    (cfg : LoggingConfig) : Node → LoggingConfig
| .assign name value _ _ =>
    if name.hasSuffix " log" then
      { cfg with
        syslogEnabled :=
          cfg.syslogEnabled || value == "external_syslog"
        fileLogEnabled :=
          cfg.fileLogEnabled || value.hasSuffix "_log" }
    else cfg
| _ => cfg

/- What a file that says nothing is read as. -/
def LoggingConfig.unset : LoggingConfig where
  fileLogEnabled := false
  syslogEnabled := false
  syslogHost := []
  syslogPort := 0
  syslogTimestamp := "RFC3164"

/- `ParseLogging`. -/
def parseLogging (src : Text) :
    Except ParseError LoggingConfig :=
  (parse src).map fun parsed =>
    parsed.1.foldl readAssigned
      (parsed.1.foldl readExport .unset)

end Tacconfig

end Soteria

------------------------------------------------------------
-- Checking and Writing
------------------------------------------------------------

namespace Soteria

namespace Tacconfig

def hostChar (c : Char) : Bool :=
  ('a' ≤ c && c ≤ 'z') || ('A' ≤ c && c ≤ 'Z') ||
    ('0' ≤ c && c ≤ '9') || c == '-' || c == '_'

/- `isHostname`: labels with dots between them. -/
def isHostname (s : Text) : Bool :=
  (s.splitOn '.').all fun label =>
    label != [] && label.all hostChar

/- `ValidateLogging`: the error, if there is one. -/
def validateLogging (cfg : LoggingConfig) : Option Text :=
  if !cfg.fileLogEnabled && !cfg.syslogEnabled then
    some
      "at least one log destination must be enabled (local files or remote syslog)"
  else if !cfg.syslogEnabled then none
  else if cfg.syslogTimestamp ≠ "" ∧
      cfg.syslogTimestamp ≠ "RFC3164" ∧
      cfg.syslogTimestamp ≠ "RFC5424" then
    some "syslog timestamp must be RFC3164 or RFC5424"
  else if cfg.syslogHost = "" then
    some
      "syslog collector host is required when export is enabled"
  else if cfg.syslogHost.containsAny
      " \t\"\x7b\x7d()=#:" then
    some
      ("syslog host " ++ cfg.syslogHost.quoted ++
        " contains invalid characters")
  else if Dns.parseAddr cfg.syslogHost = none ∧
      isHostname cfg.syslogHost = false then
    some
      ("syslog host " ++ cfg.syslogHost.quoted ++
        " is not a valid IP address or hostname")
  else if cfg.syslogPort < 1 ∨ 65535 < cfg.syslogPort then
    some "syslog port must be between 1 and 65535"
  else none

/- The definition of a destination. -/
def renderDestination
    (name destination timestamp : Text) : Text :=
  "log " ++ name ++ " \x7b\n    destination = " ++
    destination ++ "\n    timestamp   = " ++ timestamp ++
    "\n\x7d\n"

/- The timestamp of the export. -/
def LoggingConfig.timestamp (cfg : LoggingConfig) : Text :=
  if cfg.syslogTimestamp ≠ "RFC5424" then "RFC3164"
  else cfg.syslogTimestamp

/- `RenderLogging`. -/
def renderLogging (cfg : LoggingConfig) : Text :=
  banner "01-logging.cfg" "Log destinations and assignments" ++
    "# Suppress non-session logs from appearing in terminal/syslogd\n" ++
    "syslog default = deny\n" ++ "\n" ++
    renderDestination "authentication_log"
      "/var/log/tac_plus/authentication/%Y/%m/authentication-%m-%d-%Y.log"
      "RFC5424" ++ "\n" ++
    renderDestination "authorization_log"
      "/var/log/tac_plus/authorization/%Y/%m/authorization-%m-%d-%Y.log"
      "RFC5424" ++ "\n" ++
    renderDestination "accounting_log"
      "/var/log/tac_plus/accounting/%Y/%m/accounting-%m-%d-%Y.log"
      "RFC5424" ++
    (if cfg.syslogEnabled then
      "\n" ++
        renderDestination "external_syslog"
          (cfg.syslogHost ++ ":" ++ Text.ofInt cfg.syslogPort)
          cfg.timestamp
    else []) ++
    "\n# Assignments\n" ++
    (if cfg.fileLogEnabled then
      ("authentication log = authentication_log\nauthorization log  = authorization_log\naccounting log     = accounting_log\n" : Text)
    else []) ++
    (if cfg.syslogEnabled then
      ("authentication log = external_syslog\nauthorization log  = external_syslog\naccounting log     = external_syslog\n" : Text)
    else [])

end Tacconfig

end Soteria

------------------------------------------------------------
-- Hosts and Ports
------------------------------------------------------------

namespace Soteria

namespace Tacconfig

/- The characters of hosts, addresses and ports. -/
def HostText (s : Text) : Prop :=
  ∀ c ∈ s, hostChar c = true ∨ c = '.'

theorem plain_of_hostChar
    {c : Char}
    (hHost : hostChar c = true ∨ c = '.') :
    delimiter c = false ∧ c ≠ ':' := by
  have hNot :
      ∀ d ∈ (" \t\r\n#\"\x7b\x7d()=:" : Text),
        hostChar d = false ∧ d ≠ '.' := by
    decide
  have hOther : c ∉ (" \t\r\n#\"\x7b\x7d()=:" : Text) := by
    intro hMem
    rcases hNot c hMem with ⟨hChar, hDot⟩
    rcases hHost with hIs | hIs
    · rw [hChar] at hIs
      cases hIs
    · exact hDot hIs
  constructor
  · have hPart :
        ∀ d ∈ (" \t\r\n#\"\x7b\x7d()=" : Text),
          d ∈ (" \t\r\n#\"\x7b\x7d()=:" : Text) := by
      decide
    rw [delimiter, List.contains_eq_mem, decide_eq_false_iff_not]
    exact fun hMem => hOther (hPart c hMem)
  · rintro rfl
    exact hOther (by decide)

theorem hostChar_of_digit
    {c : Char}
    (hDigit : Regex.digit c = true) :
    hostChar c = true := by
  have hRange : ('0' ≤ c && c ≤ '9') = true := hDigit
  unfold hostChar
  rw [hRange]
  simp

theorem hostText_ofNat (n : Nat) : HostText (Text.ofNat n) :=
  fun _ hMem =>
    Or.inl (hostChar_of_digit (Text.digit_of_mem_ofNat hMem))

theorem hostText_joined
    {labels : List Text}
    (hLabels : ∀ label ∈ labels, HostText label) :
    HostText (Text.join labels ['.']) := by
  intro c hMem
  rcases Text.mem_joined hMem with hDot | ⟨label, hLabel, hc⟩
  · exact Or.inr hDot
  · exact hLabels label hLabel c hc

theorem isHostname_hostText
    {s : Text}
    (hHost : isHostname s = true) :
    HostText s := by
  have hJoined : Text.join (s.splitOn '.') ['.'] = s :=
    List.intercalate_splitOn '.'
  rw [← hJoined]
  apply hostText_joined
  intro label hLabel c hc
  have hAll := List.all_eq_true.mp hHost label hLabel
  rw [Bool.and_eq_true] at hAll
  exact Or.inl (List.all_eq_true.mp hAll.2 c hc)

/- An address without colons is a dotted quad. -/
theorem parseAddr_hostText
    {s : Text}
    (hColon : ':' ∉ s)
    (hParsed : Dns.parseAddr s ≠ none) :
    HostText s := by
  unfold Dns.parseAddr at hParsed
  split at hParsed
  · rcases Option.ne_none_iff_exists'.mp hParsed with
      ⟨octets, hOctets⟩
    rw [(Dns.parseIPv4Fields_eq_some.mp hOctets).1]
    apply hostText_joined
    intro label hLabel
    rcases List.mem_map.mp hLabel with ⟨n, -, rfl⟩
    exact hostText_ofNat n
  · rename_i hFound
    exact absurd (List.mem_of_find?_eq_some hFound) hColon
  · exact absurd rfl hParsed

/- What is checked of an export. -/
structure Exportable (cfg : LoggingConfig) : Prop where
  host : HostText cfg.syslogHost
  port : 1 ≤ cfg.syslogPort ∧ cfg.syslogPort ≤ 65535
  timestamp :
    cfg.syslogTimestamp = [] ∨
      cfg.syslogTimestamp = "RFC3164" ∨
        cfg.syslogTimestamp = "RFC5424"

theorem exportable_of_valid
    {cfg : LoggingConfig}
    (hValid : validateLogging cfg = none)
    (hExport : cfg.syslogEnabled = true) :
    Exportable cfg := by
  unfold validateLogging at hValid
  rw [hExport] at hValid
  simp only [Bool.not_true, Bool.and_false, Bool.false_eq_true,
    if_false] at hValid
  split_ifs at hValid with hStamp hNone hChars hName hPort
  have hColon : ':' ∉ cfg.syslogHost := by
    intro hMem
    apply hChars
    unfold Text.containsAny
    rw [List.any_eq_true]
    exact ⟨':', hMem, by decide⟩
  have hHost : HostText cfg.syslogHost := by
    by_cases hAddr : Dns.parseAddr cfg.syslogHost = none
    · have hNamed : isHostname cfg.syslogHost = true := by
        by_contra hNot
        exact hName ⟨hAddr, by simpa using hNot⟩
      exact isHostname_hostText hNamed
    · exact parseAddr_hostText hColon hAddr
  have hStamps :
      cfg.syslogTimestamp = [] ∨
        cfg.syslogTimestamp = "RFC3164" ∨
          cfg.syslogTimestamp = "RFC5424" := by
    by_contra hOther
    simp only [not_or] at hOther
    exact hStamp hOther
  exact ⟨hHost, by omega, hStamps⟩

/- A port is read as it was written. -/
theorem scanInt_ofInt
    {n : Int}
    (hLow : 0 ≤ n)
    (hHigh : n < 9223372036854775808) :
    scanInt (Text.ofInt n) = some n := by
  rcases Int.eq_ofNat_of_zero_le hLow with ⟨m, rfl⟩
  have hAll : ∀ c ∈ Text.ofNat m, Regex.digit c = true :=
    fun _ hMem => Text.digit_of_mem_ofNat hMem
  have hText : Text.ofInt (m : Int) = Text.ofNat m := rfl
  have hParsed := Text.parseInt_ofInt (m : Int)
  rw [hText] at hParsed ⊢
  have hDigits :
      (Text.ofNat m).takeWhile Regex.digit = Text.ofNat m :=
    List.takeWhile_eq_self_iff.mpr hAll
  rcases List.exists_cons_of_ne_nil (Text.ofNat_ne_nil m) with
    ⟨c, rest, hCons⟩
  have hFirst : Regex.digit c = true :=
    hAll c (by rw [hCons]; exact List.mem_cons_self ..)
  have hBlank := Text.isSpace_of_digit hFirst
  have hDrop :
      (Text.ofNat m).dropWhile
          (fun c => Text.isSpace c && c != '\n') =
        Text.ofNat m := by
    rw [hCons, List.dropWhile_cons_of_neg]
    simp [hBlank]
  have hSigns :
      (Text.hasPrefix (Text.ofNat m) "-" ||
        Text.hasPrefix (Text.ofNat m) "+") = false := by
    have hNe : c ≠ '-' ∧ c ≠ '+' := by
      constructor
      · rintro rfl
        exact absurd hFirst (by decide)
      · rintro rfl
        exact absurd hFirst (by decide)
    rw [hCons]
    simp [Text.hasPrefix, List.isPrefixOf, Ne.symm hNe.1,
      Ne.symm hNe.2]
  unfold scanInt
  simp only [hDrop, hSigns, Bool.false_eq_true, if_false,
    List.drop_zero, List.take_zero, List.nil_append, hDigits,
    hParsed]
  rw [Option.filter_some, if_pos]
  simp only [decide_eq_true_eq]
  omega

theorem cut_at
    {host : Text}
    {c : Char}
    (hHost : c ∉ host)
    (port : Text) :
    cut (host ++ c :: port) c = some (host, port) := by
  have hAll : ∀ d ∈ host, decide (d ≠ c) = true := by
    intro d hd
    rw [decide_eq_true_eq]
    rintro rfl
    exact hHost hd
  unfold cut
  rw [List.dropWhile_append_of_pos hAll,
    List.dropWhile_cons_of_neg (by simp),
    List.takeWhile_append_of_pos hAll,
    List.takeWhile_cons_of_neg (by simp), List.append_nil]

end Tacconfig

end Soteria

------------------------------------------------------------
-- What a Text Is Read As
------------------------------------------------------------

namespace Soteria

namespace Tacconfig

/-
  The text is lines whose blocks change the config in one
  way, and whose assignments in another.
-/
def ReadAs
    (s : Text)
    (exported assigned : LoggingConfig → LoggingConfig) :
    Prop :=
  ∃ height nodes remarks,
    Lays s height nodes remarks ∧
      ∀ line cfg,
        (nodes line).foldl readExport cfg = exported cfg ∧
          (nodes line).foldl readAssigned cfg = assigned cfg

theorem ReadAs.append
    {a b : Text}
    {exported assigned exported' assigned' :
      LoggingConfig → LoggingConfig}
    (hFirst : ReadAs a exported assigned)
    (hSecond : ReadAs b exported' assigned') :
    ReadAs (a ++ b) (fun cfg => exported' (exported cfg))
      (fun cfg => assigned' (assigned cfg)) := by
  rcases hFirst with ⟨height, nodes, remarks, hLays, hRead⟩
  rcases hSecond with ⟨height', nodes', remarks', hLays', hRead'⟩
  refine ⟨_, _, _, hLays.append hLays', ?_⟩
  intro line cfg
  rw [List.foldl_append, List.foldl_append,
    (hRead line cfg).1, (hRead line cfg).2,
    (hRead' _ _).1, (hRead' _ _).2]
  exact ⟨rfl, rfl⟩

theorem ReadAs.congr
    {s : Text}
    {exported assigned exported' assigned' :
      LoggingConfig → LoggingConfig}
    (hRead : ReadAs s exported assigned)
    (hExported : ∀ cfg, exported cfg = exported' cfg)
    (hAssigned : ∀ cfg, assigned cfg = assigned' cfg) :
    ReadAs s exported' assigned' := by
  rwa [funext hExported, funext hAssigned] at hRead

theorem readAs_nil : ReadAs [] id id :=
  ⟨_, _, _, Lays.nil, fun _ _ => ⟨rfl, rfl⟩⟩

theorem readAs_blank : ReadAs "\n" id id :=
  ⟨_, _, _, Lays.blank, fun _ _ => ⟨rfl, rfl⟩⟩

theorem readAs_remarks
    {s : Text}
    {height : Nat}
    (hRemarks : OnlyRemarks s height) :
    ReadAs s id id := by
  rcases hRemarks with ⟨remarks, hLays, -⟩
  exact ⟨_, _, _, hLays, fun _ _ => ⟨rfl, rfl⟩⟩

/- An assignment to a name of two words. -/
theorem readAs_assign
    {name more pad value : Text}
    (hName : PlainWord name)
    (hIf : name ≠ "if")
    (hMore : PlainWord more)
    (hPad : Indent pad)
    (hNonempty : pad ≠ [])
    (hValue : PlainWord value) :
    ReadAs (name ++ " " ++ more ++ pad ++ "= " ++ value ++ "\n")
      id
      (fun cfg =>
        readAssigned cfg
          (.assign (name ++ " " ++ more) value 0 0)) := by
  have hLead :=
    hName.exact.gap hMore.exact indent_blank (by simp)
  have hAll :=
    Lays.assign indent_nil hLead hPad hNonempty hValue.exact rfl
      hIf (by simp [Token.isText])
      (by simp [Token.isValue, Token.isText])
  simp only [List.append_eq, List.nil_append, lineOf_cons_cons,
    lineOf_single] at hAll
  exact ⟨_, _, _, hAll, fun _ _ => ⟨rfl, rfl⟩⟩

theorem plainWord_destination :
    PlainWord ("destination" : Text) :=
  ⟨by decide, by decide⟩

theorem plainWord_timestamp : PlainWord ("timestamp" : Text) :=
  ⟨by decide, by decide⟩

theorem plainWord_externalSyslog :
    PlainWord ("external_syslog" : Text) :=
  ⟨by decide, by decide⟩

/- The block of a destination. -/
theorem readAs_destination
    {name destination timestamp : Text}
    (hName : PlainWord name)
    (hDestination : PlainWord destination)
    (hTimestamp : PlainWord timestamp) :
    ReadAs (renderDestination name destination timestamp)
      (fun cfg =>
        readExport cfg
          (.block "log" name
            [.assign "destination" destination 0 0,
              .assign "timestamp" timestamp 0 0] 0 0))
      id := by
  have hLog : PlainWord ("log" : Text) := ⟨by decide, by decide⟩
  have hThree : Indent "   " := by
    decide
  have hHead :=
    heading_label hLog (by decide) (by decide)
      (hName.lexesTo 0) (by simp [Token.isText])
  have hExact :=
    hLog.exact.gap hName.exact indent_blank (by simp)
  have hFirst :=
    LaysAssigns.word plainWord_destination (by decide)
      indent_blank (by simp) hDestination.valueLine
  have hSecond :=
    LaysAssigns.word plainWord_timestamp (by decide) hThree
      (by simp) hTimestamp.valueLine
  have hAll := Lays.block hHead hExact (hFirst.append hSecond)
  rw [lineOf_single] at hAll
  have hText :
      renderDestination name destination timestamp =
        "log" ++ " " ++ name ++ " \x7b\n" ++
          ("    " ++
              ("destination" ++ " " ++ "= " ++ destination) ++
                "\n" ++
            ("    " ++
              ("timestamp" ++ "   " ++ "= " ++ timestamp) ++
                "\n")) ++ "\x7d\n" := by
    have hStart : ("log " : Text) = "log" ++ " " := rfl
    have hOpen :
        (" \x7b\n    destination = " : Text) =
          " \x7b\n" ++
            ("    " ++ ("destination" ++ (" " ++ "= "))) := by
      repeat rw [String.toList_ofList]
      rfl
    have hMiddle :
        ("\n    timestamp   = " : Text) =
          "\n" ++ ("    " ++ ("timestamp" ++ ("   " ++ "= "))) := by
      repeat rw [String.toList_ofList]
      rfl
    have hEnd : ("\n\x7d\n" : Text) = "\n" ++ "\x7d\n" := rfl
    unfold renderDestination
    rw [hStart, hOpen, hMiddle, hEnd]
    simp only [List.append_assoc]
  rw [hText]
  exact ⟨_, _, _, hAll, fun _ _ => ⟨rfl, rfl⟩⟩

theorem ReadAs.parseLogging
    {s : Text}
    {exported assigned : LoggingConfig → LoggingConfig}
    (hRead : ReadAs s exported assigned) :
    Tacconfig.parseLogging s =
      .ok (assigned (exported .unset)) := by
  rcases hRead with ⟨height, nodes, remarks, hLays, hNodes⟩
  unfold Tacconfig.parseLogging
  rw [hLays.parse]
  apply congrArg Except.ok
  dsimp only
  rw [(hNodes 1 _).1, (hNodes 1 _).2]

end Tacconfig

end Soteria

------------------------------------------------------------
-- The Round Trip
------------------------------------------------------------

namespace Soteria

namespace Tacconfig

/- The file logs are not the export. -/
theorem readAssigned_file
    {name value : Text}
    {start finish : Nat}
    (hName : name.hasSuffix " log" = true)
    (hFile : value.hasSuffix "_log" = true)
    (hOther : value ≠ "external_syslog")
    (cfg : LoggingConfig) :
    readAssigned cfg (.assign name value start finish) =
      { cfg with fileLogEnabled := true } := by
  have hNot : (value == ("external_syslog" : Text)) = false :=
    beq_eq_false_iff_ne.mpr hOther
  unfold readAssigned
  dsimp only
  rw [if_pos hName, hFile, hNot, Bool.or_false, Bool.or_true]

theorem readAssigned_export
    {name : Text}
    {start finish : Nat}
    (hName : name.hasSuffix " log" = true)
    (cfg : LoggingConfig) :
    readAssigned cfg
        (.assign name "external_syslog" start finish) =
      { cfg with syslogEnabled := true } := by
  have hNot :
      Text.hasSuffix "external_syslog" "_log" = false := by
    decide
  unfold readAssigned
  dsimp only
  rw [if_pos hName, hNot, beq_self_eq_true, Bool.or_false,
    Bool.or_true]

/- The definition of a file log says nothing of the export. -/
theorem readAs_fileLog
    {name destination : Text}
    (hName : PlainWord name)
    (hOther : name ≠ "external_syslog")
    (hDestination : PlainWord destination) :
    ReadAs (renderDestination name destination "RFC5424") id
      id := by
  have hStamp : PlainWord ("RFC5424" : Text) :=
    ⟨by decide, by decide⟩
  have hAll := readAs_destination hName hDestination hStamp
  have hSame :
      (fun cfg =>
        readExport cfg
          (.block "log" name
            [.assign "destination" destination 0 0,
              .assign "timestamp" "RFC5424" 0 0] 0 0)) =
        id := by
    funext cfg
    unfold readExport
    dsimp only
    rw [if_pos (Or.inr hOther)]
    rfl
  rwa [hSame] at hAll

/- The definition of the export is read as it was written. -/
theorem readAs_export
    {cfg : LoggingConfig}
    (hExportable : Exportable cfg) :
    ReadAs
      (renderDestination "external_syslog"
        (cfg.syslogHost ++ ":" ++ Text.ofInt cfg.syslogPort)
        cfg.timestamp)
      (fun read =>
        { read with
          syslogHost := cfg.syslogHost
          syslogPort := cfg.syslogPort
          syslogTimestamp := cfg.timestamp })
      id := by
  have hPort := hExportable.port
  have hPortText : HostText (Text.ofInt cfg.syslogPort) := by
    rcases Int.eq_ofNat_of_zero_le
        (show 0 ≤ cfg.syslogPort by omega) with ⟨m, hNat⟩
    rw [hNat]
    exact hostText_ofNat m
  have hStamp :
      PlainWord cfg.timestamp ∧ cfg.timestamp ≠ [] := by
    unfold LoggingConfig.timestamp
    split
    · exact ⟨⟨by decide, by decide⟩, by decide⟩
    · rename_i hSame
      rw [not_not.mp hSame]
      exact ⟨⟨by decide, by decide⟩, by decide⟩
  have hColon : ':' ∉ cfg.syslogHost := fun hMem =>
    (plain_of_hostChar (hExportable.host _ hMem)).2 rfl
  have hDestination :
      PlainWord
        (cfg.syslogHost ++ ":" ++
          Text.ofInt cfg.syslogPort) := by
    refine ⟨by simp, ?_⟩
    intro c hc
    rcases List.mem_append.mp hc with hc | hc
    · rcases List.mem_append.mp hc with hc | hc
      · exact (plain_of_hostChar (hExportable.host c hc)).1
      · rw [List.mem_singleton.mp hc]
        decide
    · exact (plain_of_hostChar (hPortText c hc)).1
  have hAll :=
    readAs_destination plainWord_externalSyslog hDestination
      hStamp.1
  have hSame :
      (fun read =>
        readExport read
          (.block "log" "external_syslog"
            [.assign "destination"
                (cfg.syslogHost ++ ":" ++
                  Text.ofInt cfg.syslogPort) 0 0,
              .assign "timestamp" cfg.timestamp 0 0] 0 0)) =
        fun read =>
          { read with
            syslogHost := cfg.syslogHost
            syslogPort := cfg.syslogPort
            syslogTimestamp := cfg.timestamp } := by
    funext read
    have hIs :
        ¬ (("log" : Text) ≠ "log" ∨
          ("external_syslog" : Text) ≠ "external_syslog") := by
      decide
    have hCut :
        cut
            (cfg.syslogHost ++ ":" ++
              Text.ofInt cfg.syslogPort) ':' =
          some (cfg.syslogHost, Text.ofInt cfg.syslogPort) := by
      rw [List.append_assoc]
      exact cut_at hColon _
    have hScan : scanInt (Text.ofInt cfg.syslogPort) =
        some cfg.syslogPort :=
      scanInt_ofInt (by omega) (by omega)
    have hDest :
        assignValue "destination"
            [.assign "destination"
                (cfg.syslogHost ++ ":" ++
                  Text.ofInt cfg.syslogPort) 0 0,
              .assign "timestamp" cfg.timestamp 0 0] =
          cfg.syslogHost ++ ":" ++ Text.ofInt cfg.syslogPort :=
      if_pos rfl
    have hTime :
        assignValue "timestamp"
            [.assign "destination"
                (cfg.syslogHost ++ ":" ++
                  Text.ofInt cfg.syslogPort) 0 0,
              .assign "timestamp" cfg.timestamp 0 0] =
          cfg.timestamp := rfl
    unfold readExport
    dsimp only
    rw [if_neg hIs, hDest, hTime, hCut]
    dsimp only
    rw [if_pos hStamp.2, hScan]
    rfl
  rwa [hSame] at hAll

/- The three log types, each of which switches the same. -/
theorem readAs_logTypes
    {a b c : Text}
    {switch : LoggingConfig → LoggingConfig}
    (ha : PlainWord a)
    (hb : PlainWord b)
    (hc : PlainWord c)
    (hSwitch :
      ∀ name value, name.hasSuffix " log" = true →
        value ∈ [a, b, c] → ∀ cfg,
          readAssigned cfg (.assign name value 0 0) =
            switch cfg)
    (hTwice : ∀ cfg, switch (switch cfg) = switch cfg) :
    ReadAs
      ("authentication log = " ++ a ++ "\n" ++
        ("authorization log  = " ++ b ++ "\n" ++
          ("accounting log     = " ++ c ++ "\n")))
      id switch := by
  have hTwo : Indent "  " := by
    decide
  have hFive : Indent "     " := by
    decide
  have hLog : PlainWord ("log" : Text) := ⟨by decide, by decide⟩
  have hFirst : ReadAs
      ("authentication" ++ " " ++ "log" ++ " " ++ "= " ++ a ++
        "\n") id _ :=
    readAs_assign ⟨by decide, by decide⟩ (by decide) hLog
      indent_blank (by decide) ha
  have hSecond : ReadAs
      ("authorization" ++ " " ++ "log" ++ "  " ++ "= " ++ b ++
        "\n") id _ :=
    readAs_assign ⟨by decide, by decide⟩ (by decide) hLog
      hTwo (by decide) hb
  have hThird : ReadAs
      ("accounting" ++ " " ++ "log" ++ "     " ++ "= " ++ c ++
        "\n") id _ :=
    readAs_assign ⟨by decide, by decide⟩ (by decide) hLog
      hFive (by decide) hc
  have hAll := hFirst.append (hSecond.append hThird)
  have hSame :
      (fun cfg =>
        readAssigned
          (readAssigned
            (readAssigned cfg
              (.assign ("authentication" ++ " " ++ "log") a 0 0))
            (.assign ("authorization" ++ " " ++ "log") b 0 0))
          (.assign ("accounting" ++ " " ++ "log") c 0 0)) =
        switch := by
    funext cfg
    rw [hSwitch _ a (by decide) (by simp),
      hSwitch _ b (by decide) (by simp),
      hSwitch _ c (by decide) (by simp), hTwice, hTwice]
  rw [hSame] at hAll
  exact hAll

theorem readAs_fileAssigned :
    ReadAs
      ("authentication log = authentication_log\nauthorization log  = authorization_log\naccounting log     = accounting_log\n" : Text)
      id (fun cfg => { cfg with fileLogEnabled := true }) := by
  have hValues :
      ∀ value ∈ [("authentication_log" : Text),
        "authorization_log", "accounting_log"],
        PlainWord value ∧ Text.hasSuffix value "_log" = true ∧
          value ≠ "external_syslog" := by
    unfold PlainWord
    decide
  have hText :
      ("authentication log = authentication_log\nauthorization log  = authorization_log\naccounting log     = accounting_log\n" : Text) =
        "authentication log = " ++ "authentication_log" ++
          "\n" ++
          ("authorization log  = " ++ "authorization_log" ++
            "\n" ++
            ("accounting log     = " ++ "accounting_log" ++
              "\n")) := by
    repeat rw [String.toList_ofList]
    rfl
  rw [hText]
  exact readAs_logTypes (hValues _ (by simp)).1
    (hValues _ (by simp)).1 (hValues _ (by simp)).1
    (fun _ value hName hMem cfg =>
      readAssigned_file hName (hValues value hMem).2.1
        (hValues value hMem).2.2 cfg)
    fun _ => rfl

theorem readAs_exportAssigned :
    ReadAs
      ("authentication log = external_syslog\nauthorization log  = external_syslog\naccounting log     = external_syslog\n" : Text)
      id (fun cfg => { cfg with syslogEnabled := true }) := by
  have hSame :
      ∀ value ∈ [("external_syslog" : Text), "external_syslog",
        "external_syslog"], value = "external_syslog" := by
    decide
  have hText :
      ("authentication log = external_syslog\nauthorization log  = external_syslog\naccounting log     = external_syslog\n" : Text) =
        "authentication log = " ++ "external_syslog" ++ "\n" ++
          ("authorization log  = " ++ "external_syslog" ++
            "\n" ++
            ("accounting log     = " ++ "external_syslog" ++
              "\n")) := by
    repeat rw [String.toList_ofList]
    rfl
  rw [hText]
  refine readAs_logTypes plainWord_externalSyslog
    plainWord_externalSyslog plainWord_externalSyslog ?_
    fun _ => rfl
  intro name value hName hMem cfg
  rw [hSame value hMem]
  exact readAssigned_export hName cfg

/- What is written where a toggle is on. -/
theorem ReadAs.onlyIf
    {s : Text}
    {exported assigned : LoggingConfig → LoggingConfig}
    {toggle : Bool}
    (hRead : toggle = true → ReadAs s exported assigned) :
    ReadAs (if toggle then s else [])
      (fun cfg => if toggle then exported cfg else cfg)
      (fun cfg => if toggle then assigned cfg else cfg) := by
  cases toggle with
  | false => exact readAs_nil
  | true => exact hRead rfl

/- The whole file. -/
theorem readAs_renderLogging
    {cfg : LoggingConfig}
    (hExportable : cfg.syslogEnabled = true → Exportable cfg) :
    ReadAs (renderLogging cfg)
      (fun read =>
        if cfg.syslogEnabled then
          { read with
            syslogHost := cfg.syslogHost
            syslogPort := cfg.syslogPort
            syslogTimestamp := cfg.timestamp }
        else read)
      (fun read =>
        { read with
          fileLogEnabled :=
            cfg.fileLogEnabled || read.fileLogEnabled
          syslogEnabled :=
            cfg.syslogEnabled || read.syslogEnabled }) := by
  have hBanner :=
    readAs_remarks
      (@onlyRemarks_banner "01-logging.cfg"
        "Log destinations and assignments" (by decide)
        (by decide))
  have hRemark :=
    readAs_remarks
      (onlyRemarks_literal (by decide) (by decide) :
        OnlyRemarks
          (commentLine
            "Suppress non-session logs from appearing in terminal/syslogd")
          1)
  have hTitle :=
    readAs_remarks
      (@onlyRemarks_commentLine "Assignments" (by decide)
        (by decide))
  have hDefault : ReadAs _ id id :=
    @readAs_assign "syslog" "default" " " "deny"
      ⟨by decide, by decide⟩ (by decide) ⟨by decide, by decide⟩
      indent_blank (by decide) ⟨by decide, by decide⟩
  have hAuthentication :=
    @readAs_fileLog "authentication_log"
      "/var/log/tac_plus/authentication/%Y/%m/authentication-%m-%d-%Y.log"
      ⟨by decide, by decide⟩ (by decide)
      (plainWord_literal ⟨by decide, by decide⟩)
  have hAuthorization :=
    @readAs_fileLog "authorization_log"
      "/var/log/tac_plus/authorization/%Y/%m/authorization-%m-%d-%Y.log"
      ⟨by decide, by decide⟩ (by decide)
      (plainWord_literal ⟨by decide, by decide⟩)
  have hAccounting :=
    @readAs_fileLog "accounting_log"
      "/var/log/tac_plus/accounting/%Y/%m/accounting-%m-%d-%Y.log"
      ⟨by decide, by decide⟩ (by decide)
      (plainWord_literal ⟨by decide, by decide⟩)
  have hExport :=
    ReadAs.onlyIf fun hOn =>
      readAs_blank.append (readAs_export (hExportable hOn))
  have hFiles :=
    @ReadAs.onlyIf _ _ _ cfg.fileLogEnabled
      fun _ => readAs_fileAssigned
  have hExports :=
    @ReadAs.onlyIf _ _ _ cfg.syslogEnabled
      fun _ => readAs_exportAssigned
  have hAll :=
    (((((((((((((hBanner.append hRemark).append
      hDefault).append readAs_blank).append
        hAuthentication).append readAs_blank).append
          hAuthorization).append readAs_blank).append
            hAccounting).append hExport).append
              readAs_blank).append hTitle).append
                hFiles).append hExports)
  have hTitleLine :
      ("\n# Assignments\n" : Text) =
        "\n" ++ commentLine "Assignments" := by
    unfold commentLine
    repeat rw [String.toList_ofList]
    rfl
  have hRemarkLine :
      ("# Suppress non-session logs from appearing in terminal/syslogd\n" : Text) =
        commentLine
          "Suppress non-session logs from appearing in terminal/syslogd" := by
    unfold commentLine
    repeat rw [String.toList_ofList]
    rfl
  have hDefaultLine :
      ("syslog default = deny\n" : Text) =
        "syslog" ++ " " ++ "default" ++ " " ++ "= " ++ "deny" ++
          "\n" := by
    repeat rw [String.toList_ofList]
    rfl
  unfold renderLogging
  rw [hTitleLine, hRemarkLine, hDefaultLine]
  simp only [List.append_assoc] at hAll ⊢
  apply hAll.congr
  · intro read
    cases cfg.fileLogEnabled <;> cases cfg.syslogEnabled <;> rfl
  · intro read
    cases cfg.fileLogEnabled <;> cases cfg.syslogEnabled <;> rfl

/-
  An accepted config is read with its toggles, and with its
  export where it is on. An assignment to one kind of
  destination leaves the toggle of the other alone.
-/
theorem logging_round_trip
    {cfg : LoggingConfig}
    (hValid : validateLogging cfg = none) :
    (∃ read,
      parseLogging (renderLogging cfg) = .ok read ∧
        read.fileLogEnabled = cfg.fileLogEnabled ∧
        read.syslogEnabled = cfg.syslogEnabled ∧
        (cfg.syslogEnabled = true →
          read.syslogHost = cfg.syslogHost ∧
            read.syslogPort = cfg.syslogPort ∧
            read.syslogTimestamp =
              if cfg.syslogTimestamp = [] then
                ("RFC3164" : Text)
              else cfg.syslogTimestamp)) ∧
      ∀ (read : LoggingConfig) (name value : Text)
          (start finish : Nat),
        (value = "external_syslog" →
          (readAssigned read
              (.assign name value start finish)).fileLogEnabled =
            read.fileLogEnabled) ∧
        (Text.hasSuffix value "_log" = true →
          (readAssigned read
              (.assign name value start finish)).syslogEnabled =
            read.syslogEnabled) := by
  constructor
  · have hRead :=
      readAs_renderLogging (exportable_of_valid hValid)
    refine ⟨_, hRead.parseLogging, ?_, ?_, ?_⟩
    · cases cfg.syslogEnabled <;>
        exact Bool.or_false cfg.fileLogEnabled
    · cases cfg.syslogEnabled <;> rfl
    · intro hOn
      have hStamp := (exportable_of_valid hValid hOn).timestamp
      rw [hOn]
      refine ⟨rfl, rfl, ?_⟩
      show cfg.timestamp = _
      unfold LoggingConfig.timestamp
      rcases hStamp with hStamp | hStamp | hStamp
      · rw [hStamp]
        rfl
      · rw [hStamp]
        rfl
      · rw [hStamp]
        rfl
  · intro read name value start finish
    unfold readAssigned
    dsimp only
    split
    · constructor
      · rintro rfl
        exact Bool.or_false _
      · intro hFile
        have hOther :
            (value == ("external_syslog" : Text)) = false := by
          rw [beq_eq_false_iff_ne]
          rintro rfl
          exact absurd hFile (by decide)
        dsimp only
        rw [hOther, Bool.or_false]
    · exact ⟨fun _ => rfl, fun _ => rfl⟩

/- An export beside the file logs, without a timestamp. -/
theorem sampleLogging_round_trip :
    ∃ read,
      parseLogging
          (renderLogging ⟨true, true, "10.0.0.1", 514, []⟩) =
        .ok read ∧
      read.fileLogEnabled = true ∧ read.syslogEnabled = true ∧
        (true = true →
          read.syslogHost = "10.0.0.1" ∧ read.syslogPort = 514 ∧
            read.syslogTimestamp = "RFC3164") :=
  (@logging_round_trip ⟨true, true, "10.0.0.1", 514, []⟩
    (by decide +kernel)).1

end Tacconfig

end Soteria
