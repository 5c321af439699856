import Soteria.Dns.ReverseNames
import Soteria.Foundation.Words
import Soteria.Tacconfig.Devices

/-
  The lines of the AAA logs and the entries that are read
  from them.

  Key definitions include:
    * `LogEntry`, `parseLine`
    * `mapResult`, `classify`
    * `logLine`, `result_independent_iff`
-/

------------------------------------------------------------
-- Entries
------------------------------------------------------------

namespace Soteria

namespace Logsvc

open Tacconfig (Device)

structure LogEntry where
  timestamp : Text
  type : Text
  user : Text
  device : Text
  deviceIP : Text
  result : Text
  port : Text
  service : Text
  command : Text
  detail : Text

/- `netip.ParsePrefix`: the address and its prefix length. -/
def parsePrefix (s : Text) : Option (List Nat × Nat) :=
  let addr := s.takeWhile (· ≠ '/')
  match s.drop addr.length, Dns.parseAddr addr with
  | _ :: digits, some bytes =>
      if digits = [] || !digits.all Regex.digit then none
      else if digits.head? = some '0' && digits.length ≠ 1 then
        none
      else if 8 * bytes.length < Text.digitsValue digits then
        none
      else some (bytes, Text.digitsValue digits)
  | _, _ => none

/-
  A device is better than the best one so far if its network
  has the address and is smaller.
-/
def betterDevice
    (addr : List Nat)
    (best : Int × Text)
    (d : Device) : Int × Text :=
  match parsePrefix d.address with
  | none => best
  | some (bytes, bits) =>
      if bits ≠ 0 && bytes.length = addr.length &&
          Dns.maskBytes bits bytes = Dns.maskBytes bits addr &&
          best.1 < bits
      then (bits, d.name)
      else best

/-
  `resolveDevice`. An address with a zone is in no network,
  as one that cannot be read.
-/
def resolveDevice (ip : Text) (devices : List Device) : Text :=
  match Dns.parseAddr ip with
  | none => ip
  | some addr =>
      (devices.foldl (betterDevice addr) (-1, ip)).2

/- `mapResult`. -/
def mapResult (s : Text) : Text :=
  let verdict := s.lowered
  if verdict = "permit" then "success"
  else if verdict = "deny" || verdict = "denied" ||
      verdict = "reject" then "failure"
  else if verdict = [] then "error"
  else s

/- The words of a failure. -/
def failureWords : List Text :=
  ["fail", "deny", "denied", "reject"]

/- The words of a success. -/
def successWords : List Text :=
  ["succ", "permit", "pass"]

/- `classify`. -/
def classify (logType line : Text) : Text :=
  let l := line.lowered
  if failureWords.any l.contains then "failure"
  else if successWords.any l.contains then "success"
  else if logType = "accounting" then "success"
  else "error"

/-
  `parseLine`; how a timestamp is shown depends on the clock
  of the machine.
-/
def parseLine
    (formatTimestamp : Text → Text)
    (logType line : Text)
    (devices : List Device) : LogEntry :=
  let fields := line.splitOn '\t'
  let field := fun i => Text.trimSpace (fields.getD i [])
  let head := field 0
  let deviceIP :=
    Text.trimSpace ((head.dropWhile (· ≠ ' ')).drop 1)
  let e : LogEntry :=
    { timestamp := formatTimestamp (head.takeWhile (· ≠ ' '))
      type := logType
      user := field 1
      device :=
        if head.dropWhile (· ≠ ' ') = [] then []
        else resolveDevice deviceIP devices
      deviceIP := deviceIP
      result := []
      port := field 2
      service := []
      command := []
      detail := [] }
  if logType = "authorization" && 6 ≤ fields.length then
    { e with
      result := mapResult (field 5)
      service := field 6
      command := field 7
      detail := field 4 }
  else if logType = "accounting" && 6 ≤ fields.length then
    { e with
      result := "success"
      detail := field 4
      service := field 5
      command := field 6 }
  else if 5 ≤ fields.length then
    { e with
      result := classify logType line
      detail :=
        Text.trimSpace (Text.join (fields.drop 4) " ") }
  else
    { e with
      result := classify logType line
      detail :=
        Text.trimSpace
          (Text.join (fields.drop (min 2 fields.length)) " ") }

end Logsvc

end Soteria

------------------------------------------------------------
-- Results
------------------------------------------------------------

namespace Soteria

namespace Logsvc

open Tacconfig (Device)

variable {formatTimestamp : Text → Text}
variable {logType line : Text}
variable {devices : List Device}

/- The layouts that have a field for the result. -/
def HasVerdict (logType : Text) (count : Nat) : Prop :=
  (logType = "authorization" ∨ logType = "accounting") ∧
    6 ≤ count

instance (logType : Text) (count : Nat) :
    Decidable (HasVerdict logType count) :=
  inferInstanceAs (Decidable (_ ∧ _))

/- The result of a layout that has a field for it. -/
def verdict (logType : Text) (fields : List Text) : Text :=
  if logType = "authorization" then
    mapResult (Text.trimSpace (fields.getD 5 []))
  else "success"

/- The result is in its field, or looked for in the line. -/
theorem parseLine_result :
    (parseLine formatTimestamp logType line devices).result =
      if HasVerdict logType (line.splitOn '\t').length then
        verdict logType (line.splitOn '\t')
      else classify logType line := by
  unfold parseLine HasVerdict verdict
  by_cases hCount : 6 ≤ (line.splitOn '\t').length
  · by_cases hAuthz : logType = "authorization"
    · simp [hCount, hAuthz]
    · by_cases hAcct : logType = "accounting"
      · subst hAcct
        simp [hCount]
      · simp only [hCount, hAuthz, hAcct, decide_false,
          Bool.false_and, Bool.false_eq_true, if_false,
          false_or, false_and]
        split
        · rfl
        · rfl
  · simp only [hCount, decide_false, Bool.and_false,
      Bool.false_eq_true, if_false, and_false]
    split
    · rfl
    · rfl

/- A line with these fields. -/
def logLine
    (head user port addr : Text)
    (rest : List Text) : Text :=
  Text.join (head :: user :: port :: addr :: rest) "\t"

/- A field that is not blank and has no tab in it. -/
structure LogField (s : Text) : Prop where
  single : '\t' ∉ s
  shown : s.trimSpace ≠ []

variable {head user port addr : Text}
variable {rest : List Text}

theorem splitOn_logLine
    (hSingle :
      ∀ f ∈ head :: user :: port :: addr :: rest, '\t' ∉ f) :
    (logLine head user port addr rest).splitOn '\t' =
      head :: user :: port :: addr :: rest :=
  List.splitOn_intercalate '\t' hSingle (by simp)

/- A word without tabs is looked for in each field. -/
theorem logLine_contains_iff
    {word : Text}
    (hSome : word ≠ [])
    (hWord : '\t' ∉ word) :
    (logLine head user port addr rest).lowered.contains word =
        true ↔
      ∃ f ∈ head :: user :: port :: addr :: rest,
        f.lowered.contains word = true := by
  have hLowered :
      (logLine head user port addr rest).lowered =
        Text.join
          ((head :: user :: port :: addr :: rest).map
            Text.lowered) ['\t'] :=
    Text.map_joined (by decide) _
  rw [hLowered, Text.contains_iff,
    Text.infix_joined_iff hSome hWord]
  simp only [List.mem_map, Text.contains_iff,
    exists_exists_and_eq_and]

theorem failureWords_plain :
    ∀ w ∈ failureWords, w ≠ [] ∧ '\t' ∉ w := by
  decide

/- A failure is reported for a word of it in any field. -/
theorem classify_failure_iff :
    classify logType (logLine head user port addr rest) =
        "failure" ↔
      ∃ f ∈ head :: user :: port :: addr :: rest,
        ∃ w ∈ failureWords, f.lowered.contains w = true := by
  have hAny :
      failureWords.any
          (logLine head user port addr rest).lowered.contains =
          true ↔
        ∃ f ∈ head :: user :: port :: addr :: rest,
          ∃ w ∈ failureWords,
            f.lowered.contains w = true := by
    rw [List.any_eq_true]
    constructor
    · rintro ⟨w, hw, hContains⟩
      rcases failureWords_plain w hw with ⟨hSome, hTab⟩
      rcases (logLine_contains_iff hSome hTab).mp hContains with
        ⟨f, hf, hField⟩
      exact ⟨f, hf, w, hw, hField⟩
    · rintro ⟨f, hf, w, hw, hField⟩
      rcases failureWords_plain w hw with ⟨hSome, hTab⟩
      exact ⟨w, hw,
        (logLine_contains_iff hSome hTab).mpr ⟨f, hf, hField⟩⟩
  rw [← hAny]
  unfold classify
  simp only
  split
  · rename_i hFails
    exact iff_of_true rfl hFails
  · rename_i hFails
    refine iff_of_false ?_ hFails
    split
    · decide
    · split
      · decide
      · decide

/-
  Whoever the user is and wherever the request comes from,
  the line with this head and these last fields has the same
  result.
-/
def Independent
    (formatTimestamp : Text → Text)
    (logType head : Text)
    (rest : List Text)
    (devices : List Device) : Prop :=
  ∀ user port addr user' port' addr' : Text,
    LogField user → LogField port → LogField addr →
      LogField user' → LogField port' → LogField addr' →
        (parseLine formatTimestamp logType
            (logLine head user port addr rest)
            devices).result =
          (parseLine formatTimestamp logType
            (logLine head user' port' addr' rest)
            devices).result

/- The result of a line with these fields. -/
theorem logLine_result
    (hSingle :
      ∀ f ∈ head :: user :: port :: addr :: rest, '\t' ∉ f) :
    (parseLine formatTimestamp logType
        (logLine head user port addr rest) devices).result =
      if HasVerdict logType (rest.length + 4) then
        verdict logType
          (head :: user :: port :: addr :: rest)
      else
        classify logType
          (logLine head user port addr rest) := by
  rw [parseLine_result, splitOn_logLine hSingle]
  rfl

/- A verdict is read behind the fields of the user. -/
theorem verdict_eq
    (user' port' addr' : Text) :
    verdict logType (head :: user :: port :: addr :: rest) =
      verdict logType
        (head :: user' :: port' :: addr' :: rest) := rfl

/-
  The result of a line does not depend on the user, the port
  and the address exactly if it has a field of its own, or if
  another field has a word of a failure in it.
-/
theorem result_independent_iff
    (hHead : '\t' ∉ head)
    (hRest : ∀ f ∈ rest, '\t' ∉ f) :
    Independent formatTimestamp logType head rest devices ↔
      HasVerdict logType (rest.length + 4) ∨
        ∃ f ∈ head :: rest, ∃ w ∈ failureWords,
          f.lowered.contains w = true := by
  have hSingle :
      ∀ user port addr : Text,
        '\t' ∉ user → '\t' ∉ port → '\t' ∉ addr →
          ∀ f ∈ head :: user :: port :: addr :: rest,
            '\t' ∉ f := by
    intro user port addr hUser hPort hAddr f hf
    simp only [List.mem_cons] at hf
    rcases hf with rfl | rfl | rfl | rfl | hf
    · exact hHead
    · exact hUser
    · exact hPort
    · exact hAddr
    · exact hRest f hf
  constructor
  · intro hSame
    by_contra hNeither
    rw [not_or] at hNeither
    rcases hNeither with ⟨hVerdict, hWords⟩
    have hx : LogField "x" := ⟨by decide, by decide⟩
    have hFail : LogField "fail" := ⟨by decide, by decide⟩
    have hBoth :=
      hSame "fail" "x" "x" "x" "x" "x" hFail hx hx hx hx hx
    rw [logLine_result (hSingle _ _ _ hFail.single hx.single
        hx.single),
      logLine_result (hSingle _ _ _ hx.single hx.single
        hx.single),
      if_neg hVerdict, if_neg hVerdict] at hBoth
    have hFailure :
        classify logType (logLine head "fail" "x" "x" rest) =
          "failure" := by
      apply classify_failure_iff.mpr
      exact ⟨"fail", by simp, "fail", by decide, by decide⟩
    rw [hFailure] at hBoth
    rcases classify_failure_iff.mp hBoth.symm with
      ⟨f, hf, w, hw, hContains⟩
    simp only [List.mem_cons] at hf
    rcases hf with rfl | rfl | rfl | rfl | hf
    · exact hWords ⟨f, by simp, w, hw, hContains⟩
    · revert w
      decide
    · revert w
      decide
    · revert w
      decide
    · exact hWords
        ⟨f, List.mem_cons_of_mem _ hf, w, hw, hContains⟩
  · intro hCondition user port addr user' port' addr' hUser
      hPort hAddr hUser' hPort' hAddr'
    rw [logLine_result (hSingle _ _ _ hUser.single
        hPort.single hAddr.single),
      logLine_result (hSingle _ _ _ hUser'.single
        hPort'.single hAddr'.single)]
    rcases hCondition with hVerdict | ⟨f, hf, hWord⟩
    · rw [if_pos hVerdict, if_pos hVerdict]
      exact verdict_eq user' port' addr'
    · have hFailure :
          ∀ u p a : Text,
            classify logType (logLine head u p a rest) =
              "failure" := by
        intro u p a
        apply classify_failure_iff.mpr
        refine ⟨f, ?_, hWord⟩
        rcases List.mem_cons.mp hf with rfl | hf
        · simp
        · simp [hf]
      rw [hFailure, hFailure,
        verdict_eq user' port' addr']

/- The head and the message of a log of authentications. -/
def sampleHead : Text :=
  "2026-01-05T10:00:00+00:00 10.0.0.1"

def sampleMessage : Text :=
  "shell login succeeded"

theorem result_independent_iff_sample :
    '\t' ∉ sampleHead ∧
      (Independent id "authentication" sampleHead
          [sampleMessage] [] ↔
        HasVerdict "authentication" 5 ∨
          ∃ f ∈ [sampleHead, sampleMessage],
            ∃ w ∈ failureWords,
              f.lowered.contains w = true) :=
  have hHead : '\t' ∉ sampleHead := by decide
  ⟨hHead, result_independent_iff hHead (by decide)⟩

/- The login of a user `failsafe` is reported as a failure. -/
theorem failsafe_login_fails :
    LogField "alice" ∧ LogField "failsafe" ∧
      LogField "vty0" ∧ LogField "10.9.9.9" ∧
        (parseLine id "authentication"
            (logLine sampleHead "alice" "vty0" "10.9.9.9"
              [sampleMessage]) []).result = "success" ∧
          (parseLine id "authentication"
            (logLine sampleHead "failsafe" "vty0" "10.9.9.9"
              [sampleMessage]) []).result = "failure" := by
  refine ⟨⟨by decide, by decide⟩, ⟨by decide, by decide⟩,
    ⟨by decide, by decide⟩, ⟨by decide, by decide⟩,
    by decide +kernel, by decide +kernel⟩

end Logsvc

end Soteria
