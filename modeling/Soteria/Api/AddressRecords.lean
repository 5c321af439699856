import Soteria.Dns.Literals
import Soteria.Api.DnsSync

/-
  The data of address records, as they are accepted and as a
  sync makes them from the addresses NetBox has.

  The family of an address is that of its bytes. An address
  with colons that stands for one of IPv4 makes a record of
  type `A`, in which a name server does not read it.

  Key definitions include:
    * `IPResult.entry`
    * `AddressData`, `Synced`, `ColonFree`
    * `address_data_iff`
-/

------------------------------------------------------------
-- The Addresses of NetBox
------------------------------------------------------------

namespace Soteria

namespace Api

open Dns

/- An address in an answer, with what it is assigned to. -/
structure IPResult where
  address : Text
  dnsName : Text
  device : Option Text
  virtualMachine : Option Text

/- The entry for a result of `IPsInPrefix`, if it has one. -/
def IPResult.entry (r : IPResult) : Option IPEntry :=
  let ipStr := r.address.takeWhile (· ≠ '/')
  match parseIP ipStr with
  | none => none
  | some ip =>
      some
        { ip := ipStr
          isV6 := !ip.isV4
          dnsName := r.dnsName.trimSpace
          deviceName := (r.device.or r.virtualMachine).getD [] }

end Api

end Soteria

------------------------------------------------------------
-- Data That a Name Server Reads
------------------------------------------------------------

namespace Soteria

namespace Api

open Dns

/- The value is one that a zone file may have for the type. -/
structure AddressData (r : Record) : Prop where
  v4 : r.checkedType = "A" → DottedQuad r.value
  v6 : r.checkedType = "AAAA" → IPv6Literal r.value

/- The record is one that a sync makes of a result. -/
def Synced (r : Record) : Prop :=
  ∃ (result : IPResult) (e : IPEntry) (zoneName : Text),
    result.entry = some e ∧ e.toRecord zoneName = r

/- A record of type `A` has no address with colons. -/
def ColonFree (r : Record) : Prop :=
  r.checkedType = "A" → ':' ∉ r.value

variable {value : Text}
variable {ip : IP}
variable {r : Record}

/- What is read as an address has dots or colons first. -/
theorem parseIP_cases
    (hParsed : parseIP value = some ip) :
    (∃ v4, parseIPv4Fields value = some v4 ∧ ip = mapped v4) ∨
      (':' ∈ value ∧ parseIPv6 value = some ip) := by
  unfold parseIP at hParsed
  split at hParsed
  · rcases Option.map_eq_some_iff.mp hParsed with
      ⟨v4, hQuad, rfl⟩
    exact Or.inl ⟨v4, hQuad, rfl⟩
  · rename_i hFind
    exact Or.inr ⟨List.mem_of_find?_eq_some hFind, hParsed⟩
  · cases hParsed

/- An address is a dotted quad if it has no colon. -/
theorem dottedQuad_iff
    (hParsed : parseIP value = some ip) :
    DottedQuad value ↔ ':' ∉ value := by
  constructor
  · exact DottedQuad.colon_not_mem
  · intro hNone
    rcases parseIP_cases hParsed with
      ⟨v4, hQuad, -⟩ | ⟨hColon, -⟩
    · exact (dottedQuad_of_parse hQuad).1
    · exact absurd hColon hNone

/- An address that is not one of IPv4 is a literal. -/
theorem literal_of_parseIP
    (hParsed : parseIP value = some ip)
    (hFamily : ip.isV4 = false) :
    IPv6Literal value := by
  rcases parseIP_cases hParsed with
    ⟨v4, -, rfl⟩ | ⟨hColon, hGroups⟩
  · have hMapped : (mapped v4).isV4 = true := by
      simp [IP.isV4, mapped]
    rw [hMapped] at hFamily
    cases hFamily
  · exact literal_of_parseIPv6 (List.ne_nil_of_mem hColon)
      hGroups

theorem addressOf_iff
    {v4 : Bool} :
    addressOf v4 value = true ↔
      ∃ ip, parseIP value = some ip ∧ ip.isV4 = v4 := by
  unfold addressOf
  cases parseIP value with
  | none => simp
  | some ip => simp

/- The data of a record whose address has its family. -/
theorem addressData_iff
    (hV4 : r.checkedType = "A" → addressOf true r.value = true)
    (hV6 :
      r.checkedType = "AAAA" →
        addressOf false r.value = true) :
    AddressData r ↔ ColonFree r := by
  constructor
  · intro hData hType
    exact (hData.v4 hType).colon_not_mem
  · intro hFree
    refine ⟨fun hType => ?_, fun hType => ?_⟩
    · rcases addressOf_iff.mp (hV4 hType) with
        ⟨ip, hParsed, -⟩
      exact (dottedQuad_iff hParsed).mpr (hFree hType)
    · rcases addressOf_iff.mp (hV6 hType) with
        ⟨ip, hParsed, hFamily⟩
      exact literal_of_parseIP hParsed hFamily

theorem IPResult.entry_ip
    {result : IPResult}
    {e : IPEntry}
    (hEntry : result.entry = some e) :
    ∃ ip, parseIP e.ip = some ip ∧ e.isV6 = !ip.isV4 := by
  unfold IPResult.entry at hEntry
  dsimp only at hEntry
  split at hEntry
  · cases hEntry
  · rename_i ip hParsed
    cases hEntry
    exact ⟨ip, hParsed, rfl⟩

theorem checkedType_toRecord
    (zoneName : Text)
    (e : IPEntry) :
    (e.toRecord zoneName).checkedType =
      if e.isV6 then "AAAA" else "A" := by
  unfold Record.checkedType IPEntry.toRecord IPEntry.recordType
  cases e.isV6 with
  | true =>
      show Text.toUpper (Text.trimSpace "AAAA") = "AAAA"
      decide
  | false =>
      show Text.toUpper (Text.trimSpace "A") = "A"
      decide

/- A sync chooses the type by the family, as it is checked. -/
theorem entry_data_iff
    {result : IPResult}
    {e : IPEntry}
    (hEntry : result.entry = some e)
    (zoneName : Text) :
    AddressData (e.toRecord zoneName) ↔
      ColonFree (e.toRecord zoneName) := by
  rcases result.entry_ip hEntry with ⟨ip, hParsed, hFamily⟩
  apply addressData_iff
  · intro hType
    rw [checkedType_toRecord] at hType
    refine addressOf_iff.mpr ⟨ip, hParsed, ?_⟩
    cases hV4 : ip.isV4 with
    | true => rfl
    | false =>
        rw [hFamily, hV4] at hType
        exact absurd hType (by decide)
  · intro hType
    rw [checkedType_toRecord] at hType
    refine addressOf_iff.mpr ⟨ip, hParsed, ?_⟩
    cases hV4 : ip.isV4 with
    | false => rfl
    | true =>
        rw [hFamily, hV4] at hType
        exact absurd hType (by decide)

/-
  Records that are accepted, and those that a sync makes,
  have the data of their types exactly where no record of
  type `A` has an address with colons.
-/
theorem address_data_iff
    (records : List Record)
    (hRecords :
      validateRecords records = none ∨
        ∀ r ∈ records, Synced r) :
    (∀ r ∈ records, AddressData r) ↔
      ∀ r ∈ records, ColonFree r := by
  have hEach :
      ∀ r ∈ records, (AddressData r ↔ ColonFree r) := by
    intro r hr
    rcases hRecords with hValid | hSynced
    · have hAccepted :=
        validateRecord_eq_none.mp
          (validateRecords_eq_none.mp hValid r hr)
      exact addressData_iff hAccepted.v4 hAccepted.v6
    · rcases hSynced r hr with
        ⟨result, e, zoneName, hEntry, rfl⟩
      exact entry_data_iff hEntry zoneName
  exact forall₂_congr hEach

def quadRecord : Record where
  name := "sw1"
  type := "A"
  ttl := 0
  value := "10.0.0.1"

/- An address with dots is accepted and has no colon. -/
theorem address_data_quad :
    validateRecords [quadRecord] = none ∧
      ∀ r ∈ [quadRecord], AddressData r := by
  have hValid : validateRecords [quadRecord] = none := by decide
  refine ⟨hValid,
    (address_data_iff [quadRecord] (Or.inl hValid)).mpr ?_⟩
  intro r hr hType
  rw [List.mem_singleton] at hr
  subst hr
  decide

/- An address of IPv4 in the form of one of IPv6. -/
def mappedRecord : Record where
  name := "sw1"
  type := "A"
  ttl := 0
  value := "::ffff:10.0.0.1"

def mappedResult : IPResult where
  address := "::ffff:10.0.0.1/128"
  dnsName := "sw1"
  device := none
  virtualMachine := none

/-
  It is accepted as the data of an `A` record, and a sync
  makes such a record of it.
-/
theorem mapped_address_accepted :
    validateRecords [mappedRecord] = none ∧
      (mappedResult.entry.map fun e => e.toRecord "lab") =
          some mappedRecord ∧
        ¬ AddressData mappedRecord := by
  refine ⟨by decide, by decide, fun hData => ?_⟩
  have hQuad := hData.v4 (by decide)
  exact absurd hQuad.colon_not_mem (by decide)

end Api

end Soteria
