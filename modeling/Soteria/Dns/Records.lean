import Soteria.Dns.Addresses

/-
  Resource records and zones, and what a list of records has
  to satisfy before it is written.

  Key definitions include:
    * `Record`, `Zone`
    * `isReverse`, `kindOf`, `networkOf`, `ptrOwner`
    * `nextSerial`
    * `RecordError`, `validateRecords`
-/

------------------------------------------------------------
-- Records and Zones
------------------------------------------------------------

namespace Soteria

namespace Dns

/- A record, with its owner relative to the zone. -/
structure Record where
  name : Text
  type : Text
  ttl : Int
  value : Text
deriving DecidableEq

/- A zone with its SOA data. -/
structure Zone where
  name : Text
  kind : Text
  network : Text
  primaryNS : Text
  admin : Text
  serial : Int
  ttl : Int
  records : List Record
deriving DecidableEq

/- `recordTypes`. -/
def recordTypes : List Text :=
  ["A", "AAAA", "CNAME", "TXT", "NS", "MX", "PTR", "SRV"]

/- `isReverse`. -/
def isReverse (name : Text) : Bool :=
  name.hasSuffix ".in-addr.arpa" || name.hasSuffix ".ip6.arpa"

/- `kindOf`. -/
def kindOf (name : Text) : Text :=
  if isReverse name then "reverse" else "forward"

/- `networkOf`: the CIDR of an IPv4 reverse zone. -/
def networkOf (name : Text) : Text :=
  if !name.hasSuffix ".in-addr.arpa" then []
  else
    let labels :=
      ((name.trimSuffix ".in-addr.arpa").splitOn '.').reverse
    match labels.length with
    | 3 => Text.join labels "." ++ ".0/24".toList
    | 2 => Text.join labels "." ++ ".0.0/16".toList
    | 1 => Text.join labels "." ++ ".0.0.0/8".toList
    | _ => []

/- `HostOctet`. -/
def hostOctet (ip : Text) : Text :=
  match ip.splitOn '.' with
  | [_, _, _, last] => last
  | _ => ip

/-
  `PtrOwner`: the octets that the zone does not cover, the
  last one first.
-/
def ptrOwner (ip zoneName : Text) : Text :=
  let zoneBase := zoneName.trimSuffix ".in-addr.arpa"
  if zoneBase = zoneName then hostOctet ip
  else
    let n := (zoneBase.splitOn '.').length
    let octets := ip.splitOn '.'
    if octets.length ≠ 4 || n < 1 || 3 < n then hostOctet ip
    else Text.join (octets.drop n).reverse "."

/-
  `nextSerial`; `today` is the date of the clock with two
  zeros.
-/
def nextSerial (today old : Int) : Int :=
  let base := clamp64 today
  if base ≤ old then wrap64 (old + 1) else wrap64 (base + 1)

/- It is one more, short of the last number of 64 bits. -/
theorem lt_nextSerial
    {today old : Int}
    (hDate : today < 0x7fffffffffffffff)
    (hOld : old < 0x7fffffffffffffff) :
    old < nextSerial today old := by
  have hBase :
      -0x8000000000000000 ≤ clamp64 today ∧
        clamp64 today < 0x7fffffffffffffff := by
    unfold clamp64
    omega
  unfold nextSerial
  dsimp only
  split
  · rw [wrap64_of_fits (by omega) (by omega)]
    omega
  · rw [wrap64_of_fits (by omega) (by omega)]
    omega

theorem clamp64_nextSerial (today old : Int) :
    clamp64 (nextSerial today old) = nextSerial today old := by
  unfold nextSerial
  dsimp only
  split
  · exact clamp64_wrap64 _
  · exact clamp64_wrap64 _

end Dns

end Soteria

------------------------------------------------------------
-- Validation
------------------------------------------------------------

namespace Soteria

namespace Dns

/- Why a list of records is rejected. -/
inductive RecordError where
  | unsupportedType (name type : Text)
  | missing (type : Text)
  | nameWhitespace (name : Text)
  | valueNewline (name : Text)
  | notIPv4 (name value : Text)
  | notIPv6 (name value : Text)

/- The text of the error. -/
def RecordError.message : RecordError → Text
| .unsupportedType name type =>
    "record " ++ name.quoted ++ ": unsupported type " ++
      type.quoted
| .missing type =>
    "record of type " ++ type ++
      ": name and value are required"
| .nameWhitespace name =>
    "record " ++ name.quoted ++
      ": name must not contain whitespace"
| .valueNewline name =>
    "record " ++ name.quoted ++
      ": value must not contain a newline"
| .notIPv4 name value =>
    "record " ++ name.quoted ++ ": " ++ value.quoted ++
      " is not a valid IPv4 address"
| .notIPv6 name value =>
    "record " ++ name.quoted ++ ": " ++ value.quoted ++
      " is not a valid IPv6 address"

/- The type of a record as it is checked. -/
def Record.checkedType (r : Record) : Text :=
  r.type.trimSpace.toUpper

/- The address of a record is of this family. -/
def addressOf (v4 : Bool) (value : Text) : Bool :=
  match parseIP value with
  | some ip => ip.isV4 == v4
  | none => false

/- The checks of one record, in order. -/
def validateRecord (r : Record) : Option RecordError :=
  let t := r.checkedType
  if t ∉ recordTypes then
    some (.unsupportedType r.name r.type)
  else if r.name.trimSpace = [] || r.value.trimSpace = [] then
    some (.missing t)
  else if r.name.containsAny " \t\r\n" then
    some (.nameWhitespace r.name)
  else if r.value.containsAny "\r\n" then
    some (.valueNewline r.name)
  else if t = "A" && !addressOf true r.value then
    some (.notIPv4 r.name r.value)
  else if t = "AAAA" && !addressOf false r.value then
    some (.notIPv6 r.name r.value)
  else none

/- `validateRecords`: the first error, if there is one. -/
def validateRecords (records : List Record) :
    Option RecordError :=
  records.findSome? validateRecord

theorem validateRecords_eq_none {records : List Record} :
    validateRecords records = none ↔
      ∀ r ∈ records, validateRecord r = none :=
  List.findSome?_eq_none_iff

/- What holds of a record that is accepted. -/
structure Accepted (r : Record) : Prop where
  type : r.checkedType ∈ recordTypes
  name : r.name.trimSpace ≠ []
  value : r.value.trimSpace ≠ []
  nameChars : ∀ c ∈ r.name, c ∉ (" \t\r\n" : Text)
  valueChars : ∀ c ∈ r.value, c ∉ ("\r\n" : Text)
  v4 : r.checkedType = "A" → addressOf true r.value = true
  v6 : r.checkedType = "AAAA" → addressOf false r.value = true

/- A check that is passed, and those behind it. -/
theorem check_eq_none
    {ε : Type}
    {failed : Prop}
    [Decidable failed]
    {error : ε}
    {later : Option ε} :
    (if failed then some error else later) = none ↔
      ¬ failed ∧ later = none := by
  by_cases hFailed : failed
  · simp [hFailed]
  · simp [hFailed]

theorem not_containsAny {s chars : Text} :
    ¬ s.containsAny chars = true ↔ ∀ c ∈ s, c ∉ chars := by
  simp [Text.containsAny]

/- A record without an error is accepted, and conversely. -/
theorem validateRecord_eq_none {r : Record} :
    validateRecord r = none ↔ Accepted r := by
  have hFamily :
      ∀ (t : Text) (v4 : Bool),
        ¬ (decide (r.checkedType = t) &&
            !addressOf v4 r.value) = true ↔
          (r.checkedType = t → addressOf v4 r.value = true) := by
    intro t v4
    by_cases hType : r.checkedType = t
    · simp [hType]
    · simp [hType]
  simp only [validateRecord, check_eq_none, not_containsAny,
    hFamily, not_not, Bool.or_eq_true, decide_eq_true_eq,
    not_or, and_true]
  constructor
  · rintro ⟨hType, ⟨hName, hValue⟩, hNames, hValues, h4, h6⟩
    refine ⟨hType, hName, hValue, hNames, hValues, h4, h6⟩
  · intro h
    exact ⟨h.type, ⟨h.name, h.value⟩, h.nameChars,
      h.valueChars, h.v4, h.v6⟩

end Dns

end Soteria
