import Soteria.Dns.Provider
import Soteria.Foundation.Keyed

/-
  The handler that merges the addresses NetBox has into the
  records of a zone.

  A record is looked for by owner and type only. A host with
  several addresses gets one record, with the address that
  came last, and a record behind the first of an owner stays.

  Key definitions include:
    * `IPEntry`, `Netbox`
    * `forwardOwner`, `forwardRecord`, `ptrRecord`
    * `upsert`, `Plan`, `planWith`
    * `sotRecords`, `planSync`, `syncZoneFromSot`
    * `Lossless`, `Covered`
    * `sync_lossless_iff`
-/

------------------------------------------------------------
-- The Source of Truth
------------------------------------------------------------

namespace Soteria

namespace Api

open Dns

/- An address with the names NetBox has for it. -/
structure IPEntry where
  ip : Text
  isV6 : Bool
  dnsName : Text
  deviceName : Text

/- `Name`: the DNS name, or the name of the device. -/
def IPEntry.name (e : IPEntry) : Text :=
  if e.dnsName ≠ [] then e.dnsName else e.deviceName

/- What NetBox answers, or the error of a query. -/
structure Netbox where
  prefixesByTag : Text → Except Text (List Text)
  ipsInPrefix : Text → Except Text (List IPEntry)

/- The addresses in the prefixes with a tag. -/
def Netbox.entriesWithTag
    (nb : Netbox)
    (tag : Text) : Except Text (List IPEntry) := do
  let prefixes ← nb.prefixesByTag tag
  let lists ← prefixes.mapM nb.ipsInPrefix
  pure lists.flatten

/- `validDNS`: `^[A-Za-z0-9_.@*-]+$`. -/
def validDNS (s : Text) : Bool :=
  s != [] && s.all fun c =>
    Regex.word c || c ∈ ['.', '@', '*', '-']

/- `fqdn`. -/
def fqdn (name domain : Text) : Text :=
  let name := name.trimSpace.trimSuffix "."
  if name = [] then []
  else if name.contains "." then name ++ ".".toList
  else if domain ≠ [] then
    name ++ ".".toList ++ domain.trimSuffix "." ++ ".".toList
  else name ++ ".".toList

/- `forwardOwner`. -/
def forwardOwner (name zoneName : Text) : Text :=
  let name := name.trimSpace.trimSuffix "."
  if name = [] then []
  else if name = zoneName then "@"
  else if name.hasSuffix ('.' :: zoneName) then
    name.trimSuffix ('.' :: zoneName)
  else if name.contains "." then []
  else name

/- The type of the record for an address. -/
def IPEntry.recordType (e : IPEntry) : Text :=
  if e.isV6 then "AAAA" else "A"

/- The entry has an owner in the zone that can be written. -/
def IPEntry.hasOwner (zoneName : Text) (e : IPEntry) : Bool :=
  validDNS (forwardOwner e.name zoneName)

/- The record of an entry in a forward zone. -/
def IPEntry.toRecord (zoneName : Text) (e : IPEntry) :
    Record where
  name := forwardOwner e.name zoneName
  type := e.recordType
  ttl := 0
  value := e.ip

/- The record a forward zone gets, unless it is skipped. -/
def forwardRecord
    (zoneName : Text)
    (e : IPEntry) : Option Record :=
  if e.hasOwner zoneName then some (e.toRecord zoneName)
  else none

/- The record a reverse zone gets, unless it is skipped. -/
def ptrRecord
    (zoneName domain : Text)
    (e : IPEntry) : Option Record :=
  let value := fqdn e.name domain
  if validDNS value then
    some
      { name := ptrOwner e.ip zoneName
        type := "PTR"
        ttl := 0
        value := value }
  else none

end Api

end Soteria

------------------------------------------------------------
-- Merging
------------------------------------------------------------

namespace Soteria

namespace Api

open Dns

/- What a record is looked for by. -/
def recordKey (r : Record) : Text × Text :=
  (r.name, r.type)

/- An existing record gets the value of the new one. -/
def changeValue (r new : Record) : Record :=
  { r with value := new.value }

/-
  `upsert`: the list with the record, and whether one was
  changed for it.
-/
def upsert
    (records : List Record)
    (new : Record) : List Record × Bool :=
  (Keyed.upsert recordKey changeValue records new,
    records.any fun r => recordKey r = recordKey new)

/- What a sync is going to write and to answer. -/
structure Plan where
  records : List Record
  added : List Record
  updated : List Record
  skipped : Nat

/- One entry is merged, or skipped. -/
def Plan.merge (p : Plan) : Option Record → Plan
| none => { p with skipped := p.skipped + 1 }
| some new =>
    let (records, wasUpdate) := upsert p.records new
    if wasUpdate then
      { p with
        records := records
        updated := p.updated ++ [new] }
    else
      { p with records := records, added := p.added ++ [new] }

/- The records are merged one after the other. -/
def planWith
    (records : List Record)
    (news : List (Option Record)) : Plan :=
  news.foldl Plan.merge ⟨records, [], [], 0⟩

theorem merge_some (p : Plan) (new : Record) :
    (p.merge (some new)).records =
        Keyed.upsert recordKey changeValue p.records new ∧
      ((p.merge (some new)).added ≠ [] ∨
        (p.merge (some new)).updated ≠ []) := by
  unfold Plan.merge upsert
  simp only
  split
  · exact ⟨rfl, Or.inr (by simp)⟩
  · exact ⟨rfl, Or.inl (by simp)⟩

/-
  The records of a plan are the merged ones; where nothing
  is merged there is nothing to answer.
-/
theorem foldl_merge
    (news : List (Option Record))
    (p : Plan) :
    (news.foldl Plan.merge p).records =
        Keyed.upsertAll recordKey changeValue p.records
          (news.filterMap id) ∧
      (news.filterMap id ≠ [] ∨ p.added ≠ [] ∨
          p.updated ≠ [] →
        (news.foldl Plan.merge p).added ≠ [] ∨
          (news.foldl Plan.merge p).updated ≠ []) := by
  induction news generalizing p with
  | nil => exact ⟨rfl, by simp⟩
  | cons new news ih =>
      rcases ih (p.merge new) with ⟨hRecords, hPlanned⟩
      cases new with
      | none =>
          rw [List.foldl_cons, List.filterMap_cons]
          exact ⟨hRecords, hPlanned⟩
      | some new =>
          rcases merge_some p new with ⟨hMerged, hNew⟩
          rw [List.foldl_cons, List.filterMap_cons]
          refine ⟨?_, fun _ => hPlanned (Or.inr hNew)⟩
          rw [hRecords, hMerged]
          rfl

/- Entries that are skipped add nothing. -/
theorem foldl_merge_none
    {news : List (Option Record)}
    (hNone : ∀ new ∈ news, new = none)
    (p : Plan) :
    (news.foldl Plan.merge p).added = p.added ∧
      (news.foldl Plan.merge p).updated = p.updated := by
  induction news generalizing p with
  | nil => exact ⟨rfl, rfl⟩
  | cons new news ih =>
      have hFirst : new = none :=
        hNone new (List.mem_cons_self ..)
      subst hFirst
      exact ih (fun n hn => hNone n (List.mem_cons_of_mem _ hn))
        (p.merge none)

theorem planWith_records
    (records : List Record)
    (news : List (Option Record)) :
    (planWith records news).records =
      Keyed.upsertAll recordKey changeValue records
        (news.filterMap id) :=
  (foldl_merge news ⟨records, [], [], 0⟩).1

/- A plan without changes leaves the records. -/
theorem planWith_unchanged
    {records : List Record}
    {news : List (Option Record)}
    (hAdded : (planWith records news).added = [])
    (hUpdated : (planWith records news).updated = []) :
    (planWith records news).records = records := by
  have hNone : news.filterMap id = [] := by
    by_contra hSome
    rcases (foldl_merge news ⟨records, [], [], 0⟩).2
        (Or.inl hSome) with h | h
    · exact h hAdded
    · exact h hUpdated
  rw [planWith_records, hNone]
  rfl

end Api

end Soteria

------------------------------------------------------------
-- The Handler
------------------------------------------------------------

namespace Soteria

namespace Api

open Dns

/- The status and the message of a failed request. -/
abbrev Failure := Nat × Text

structure SyncBody where
  tag : Text
  domain : Text
  dryRun : Bool

structure SyncAnswer where
  dryRun : Bool
  added : List Record
  updated : List Record
  skipped : Nat
deriving DecidableEq

/- The backends of the server, where they are configured. -/
structure SotServer where
  dns : Option BindProvider
  netbox : Option Netbox

/- `dnsReady` and `sotReady`. -/
def SotServer.sotReady (s : SotServer) :
    Except Failure (BindProvider × Netbox) :=
  match s.dns, s.netbox with
  | none, _ =>
      .error (503, "DNS management is not configured (the bind9 project is not mounted into the agent)")
  | some _, none =>
      .error (424, "NetBox source of truth is not configured (set AGENT_NETBOX_URL/TOKEN on the agent)")
  | some b, some nb => .ok (b, nb)

/- The decoded body of a request. -/
def decoded {α : Type} : Except Text α → Except Failure α
| .ok body => .ok body
| .error error =>
    .error (400, "invalid request body: " ++ error)

/- The records NetBox has for a zone of this kind. -/
def sotRecords
    (nb : Netbox)
    (name kind : Text)
    (body : SyncBody) : Except Failure (List (Option Record)) :=
  if kind = "reverse" then
    let network := networkOf name
    if network = [] then
      .error (400,
        "cannot derive a network CIDR from " ++ name.quoted)
    else
      match nb.ipsInPrefix network with
      | .error error => .error (424, error)
      | .ok ips =>
          .ok ((ips.filter fun ip => !ip.isV6).map
            (ptrRecord name body.domain))
  else if body.tag.trimSpace = [] then
    .error (400, "a tag is required for forward zones")
  else
    match nb.entriesWithTag body.tag with
    | .error error => .error (424, error)
    | .ok ips => .ok (ips.map (forwardRecord name))

/- What a sync of a zone is going to do. -/
def planSync
    (b : BindProvider)
    (nb : Netbox)
    (e : Surroundings)
    (name : Text)
    (body : SyncBody)
    (disk : Disk) : Except Failure Plan :=
  match b.readZone e name disk with
  | .error error => .error (404, error.message)
  | .ok zone =>
      (sotRecords nb name zone.kind body).map
        (planWith zone.records)

/- The planned records are written, if there are changes. -/
def finishSync
    (b : BindProvider)
    (e : Surroundings)
    (name : Text)
    (dryRun : Bool)
    (plan : Plan)
    (disk : Disk) : Except Failure SyncAnswer × Disk :=
  let answer : SyncAnswer :=
    ⟨dryRun, plan.added, plan.updated, plan.skipped⟩
  if dryRun || (plan.added = [] && plan.updated = []) then
    (.ok answer, disk)
  else
    match b.replaceRecords e name plan.records disk with
    | (.error error, disk) => (.error (400, error.message), disk)
    | (.ok _, disk) => (.ok answer, disk)

/-
  `syncZoneFromSot`; the zone is read in the surroundings `e`
  and written, after the queries, in those of `e'`.
-/
def syncZoneFromSot
    (s : SotServer)
    (e e' : Surroundings)
    (name : Text)
    (body : Except Text SyncBody)
    (disk : Disk) : Except Failure SyncAnswer × Disk :=
  match s.sotReady with
  | .error failure => (.error failure, disk)
  | .ok (b, nb) =>
      match decoded body with
      | .error failure => (.error failure, disk)
      | .ok body =>
          match planSync b nb e name body disk with
          | .error failure => (.error failure, disk)
          | .ok plan =>
              finishSync b e' name body.dryRun plan disk

end Api

end Soteria

------------------------------------------------------------
-- What a Sync Leaves
------------------------------------------------------------

namespace Soteria

namespace Api

open Dns

/- The entry is for the same owner and address family. -/
def sameOwner (zoneName : Text) (e f : IPEntry) : Bool :=
  forwardOwner f.name zoneName = forwardOwner e.name zoneName &&
    f.isV6 = e.isV6

/- The record is for the owner and family of the entry. -/
def matchesEntry
    (zoneName : Text)
    (e : IPEntry)
    (r : Record) : Bool :=
  r.name = forwardOwner e.name zoneName &&
    r.type = e.recordType

/- The record is for no entry that has an owner. -/
def unmatched
    (zoneName : Text)
    (entries : List IPEntry)
    (r : Record) : Bool :=
  entries.all fun e =>
    !(e.hasOwner zoneName && matchesEntry zoneName e r)

/-
  Every address has its record, and the records that are for
  no entry are there as before.
-/
structure Lossless
    (zoneName : Text)
    (entries : List IPEntry)
    (before after : List Record) : Prop where
  listed :
    ∀ e ∈ entries, e.hasOwner zoneName = true →
      ∃ r ∈ after, r.name = forwardOwner e.name zoneName ∧
        r.type = e.recordType ∧ r.value = e.ip
  kept :
    after.filter (unmatched zoneName entries) =
      before.filter (unmatched zoneName entries)

/-
  Every entry is the last of its owner and family, or has
  the address of a record behind the first of them.
-/
def Covered
    (zoneName : Text)
    (entries : List IPEntry)
    (before : List Record) : Prop :=
  ∀ e ∈ entries, e.hasOwner zoneName = true →
    ((entries.filter (sameOwner zoneName e)).getLast?.map
        IPEntry.ip = some e.ip) ∨
      ∃ r ∈ (before.filter (matchesEntry zoneName e)).tail,
        r.value = e.ip

variable {zoneName : Text}
variable {entries : List IPEntry}
variable {before : List Record}

/- The plan for a forward zone with these records. -/
def forwardPlan
    (zoneName : Text)
    (before : List Record)
    (entries : List IPEntry) : Plan :=
  planWith before (entries.map (forwardRecord zoneName))

theorem forwardPlan_records :
    (forwardPlan zoneName before entries).records =
      Keyed.upsertAll recordKey changeValue before
        (entries.filterMap (forwardRecord zoneName)) := by
  rw [forwardPlan, planWith_records, List.filterMap_map]
  rfl

theorem changes_value :
    Keyed.Changes recordKey Record.value changeValue where
  key_eq := fun _ _ => rfl
  val_eq := fun _ _ => rfl

theorem recordType_inj {e f : IPEntry} :
    e.recordType = f.recordType ↔ e.isV6 = f.isV6 := by
  unfold IPEntry.recordType
  cases e.isV6 with
  | true =>
      cases f.isV6 with
      | true => simp
      | false => decide
  | false =>
      cases f.isV6 with
      | true => decide
      | false => simp

theorem matchesEntry_iff {e : IPEntry} {r : Record} :
    matchesEntry zoneName e r = true ↔
      recordKey r = recordKey (e.toRecord zoneName) := by
  simp [matchesEntry, recordKey, IPEntry.toRecord]

theorem sameOwner_iff {e f : IPEntry} :
    sameOwner zoneName e f = true ↔
      recordKey (f.toRecord zoneName) =
        recordKey (e.toRecord zoneName) := by
  simp [sameOwner, recordKey, IPEntry.toRecord,
    recordType_inj]

/- The new records of an entry's owner are its entries'. -/
theorem rowsOf_forwardRecord
    {e : IPEntry}
    (hOwner : e.hasOwner zoneName = true) :
    Keyed.rowsOf recordKey (recordKey (e.toRecord zoneName))
        (entries.filterMap (forwardRecord zoneName)) =
      (entries.filter (sameOwner zoneName e)).map
        (IPEntry.toRecord zoneName) := by
  induction entries with
  | nil => rfl
  | cons f entries ih =>
      unfold Keyed.rowsOf at ih ⊢
      by_cases hSame : sameOwner zoneName e f = true
      · have hKey := sameOwner_iff.mp hSame
        have hName :
            forwardOwner f.name zoneName =
              forwardOwner e.name zoneName :=
          congrArg Prod.fst hKey
        have hOther : f.hasOwner zoneName = true := by
          unfold IPEntry.hasOwner at hOwner ⊢
          rw [hName]
          exact hOwner
        simp [forwardRecord, hOther, hSame, hKey, ih]
      · have hKey :
            recordKey (f.toRecord zoneName) ≠
              recordKey (e.toRecord zoneName) :=
          fun h => hSame (sameOwner_iff.mpr h)
        by_cases hOther : f.hasOwner zoneName = true
        · simp [forwardRecord, hOther, hSame, hKey, ih]
        · simp [forwardRecord, hOther, hSame, ih]

theorem rowsOf_before {e : IPEntry} :
    Keyed.rowsOf recordKey (recordKey (e.toRecord zoneName))
        before =
      before.filter (matchesEntry zoneName e) := by
  unfold Keyed.rowsOf
  apply List.filter_congr
  intro r _
  rw [Bool.eq_iff_iff, decide_eq_true_iff]
  exact matchesEntry_iff.symm

/- Which addresses of an owner the merged list has. -/
theorem listed_iff
    {e : IPEntry}
    (hMem : e ∈ entries)
    (hOwner : e.hasOwner zoneName = true) :
    (∃ r ∈ (forwardPlan zoneName before entries).records,
        r.name = forwardOwner e.name zoneName ∧
          r.type = e.recordType ∧ r.value = e.ip) ↔
      ((entries.filter (sameOwner zoneName e)).getLast?.map
          IPEntry.ip = some e.ip) ∨
        ∃ r ∈ (before.filter (matchesEntry zoneName e)).tail,
          r.value = e.ip := by
  have hSelf : e ∈ entries.filter (sameOwner zoneName e) :=
    List.mem_filter.mpr ⟨hMem, sameOwner_iff.mpr rfl⟩
  cases hLast :
      (entries.filter (sameOwner zoneName e)).getLast? with
  | none =>
      rw [List.getLast?_eq_none_iff] at hLast
      rw [hLast] at hSelf
      cases hSelf
  | some last =>
      have hNews :
          (Keyed.rowsOf recordKey
              (recordKey (e.toRecord zoneName))
              (entries.filterMap
                (forwardRecord zoneName))).getLast? =
            some (last.toRecord zoneName) := by
        rw [rowsOf_forwardRecord hOwner, List.getLast?_map,
          hLast]
        rfl
      have hKey :
          ∀ r : Record,
            recordKey r = recordKey (e.toRecord zoneName) ↔
              r.name = forwardOwner e.name zoneName ∧
                r.type = e.recordType :=
        fun r => Prod.mk.injEq .. ▸ Iff.rfl
      have hValues :=
        @Keyed.value_mem_upsertAll_iff _ _ _ _ _ _ _
          changes_value before _ _ _ hNews e.ip
      rw [rowsOf_before] at hValues
      rw [forwardPlan_records]
      simp only [hKey, and_assoc] at hValues
      rw [hValues]
      simp [IPEntry.toRecord, eq_comm]

/- No entry that has an owner has this key. -/
def unmatchedKey
    (zoneName : Text)
    (entries : List IPEntry)
    (k : Text × Text) : Bool :=
  entries.all fun e =>
    !(e.hasOwner zoneName &&
      decide (k = recordKey (e.toRecord zoneName)))

theorem unmatched_eq
    (zoneName : Text)
    (entries : List IPEntry) :
    unmatched zoneName entries =
      fun r => unmatchedKey zoneName entries (recordKey r) := by
  funext r
  have hMatches :
      ∀ e : IPEntry, matchesEntry zoneName e r =
        decide (recordKey r =
          recordKey (e.toRecord zoneName)) := by
    intro e
    rw [Bool.eq_iff_iff, decide_eq_true_iff]
    exact matchesEntry_iff
  simp only [unmatched, unmatchedKey, hMatches]

/- Records of other owners and types are not touched. -/
theorem kept_of_plan :
    (forwardPlan zoneName before entries).records.filter
        (unmatched zoneName entries) =
      before.filter (unmatched zoneName entries) := by
  have hNews :
      ∀ new ∈ entries.filterMap (forwardRecord zoneName),
        unmatchedKey zoneName entries (recordKey new) =
          false := by
    intro new hNew
    rcases List.mem_filterMap.mp hNew with ⟨e, hMem, hRecord⟩
    unfold forwardRecord at hRecord
    split at hRecord
    · rename_i hOwner
      cases hRecord
      rw [unmatchedKey, List.all_eq_false]
      exact ⟨e, hMem, by simp [hOwner]⟩
    · cases hRecord
  rw [forwardPlan_records, unmatched_eq]
  exact Keyed.filter_upsertAll changes_value hNews before

/- A merged list loses nothing where all is covered. -/
theorem lossless_iff :
    Lossless zoneName entries before
        (forwardPlan zoneName before entries).records ↔
      Covered zoneName entries before := by
  constructor
  · intro hLossless e hMem hOwner
    exact (listed_iff hMem hOwner).mp
      (hLossless.listed e hMem hOwner)
  · intro hCovered
    refine ⟨fun e hMem hOwner => ?_, kept_of_plan⟩
    exact (listed_iff hMem hOwner).mpr
      (hCovered e hMem hOwner)

end Api

end Soteria

------------------------------------------------------------
-- Syncing a Forward Zone
------------------------------------------------------------

namespace Soteria

namespace Api

open Dns

variable {s : SotServer}
variable {b : BindProvider}
variable {nb : Netbox}
variable {e e' : Surroundings}
variable {name : Text}
variable {body : SyncBody}
variable {disk disk' : Disk}

theorem sotReady_ok
    (hReady : s.sotReady = .ok (b, nb)) :
    s.dns = some b ∧ s.netbox = some nb := by
  unfold SotServer.sotReady at hReady
  split at hReady
  · cases hReady
  · cases hReady
  · cases hReady
    exact ⟨by assumption, by assumption⟩

/- A plan merges the records of NetBox into the zone's. -/
theorem planSync_ok
    {plan : Plan}
    (hPlan : planSync b nb e name body disk = .ok plan) :
    ∃ zone news,
      b.readZone e name disk = .ok zone ∧
        sotRecords nb name (kindOf name) body = .ok news ∧
          plan = planWith zone.records news := by
  unfold planSync at hPlan
  cases hRead : b.readZone e name disk with
  | error error =>
      rw [hRead] at hPlan
      cases hPlan
  | ok zone =>
      rcases BindProvider.readZone_ok hRead with
        ⟨path, content, _, hZone⟩
      have hKind : zone.kind = kindOf name := by
        rw [hZone]
        rfl
      rw [hRead] at hPlan
      simp only [hKind] at hPlan
      cases hNews : sotRecords nb name (kindOf name) body with
      | error failure =>
          rw [hNews] at hPlan
          cases hPlan
      | ok news =>
          rw [hNews] at hPlan
          cases hPlan
          exact ⟨zone, news, rfl, rfl, rfl⟩

/- The plan for a forward zone merges what NetBox has. -/
theorem planSync_forward
    {plan : Plan}
    (hForward : kindOf name ≠ "reverse")
    (hPlan : planSync b nb e name body disk = .ok plan) :
    ∃ zone entries,
      b.readZone e name disk = .ok zone ∧
        nb.entriesWithTag body.tag = .ok entries ∧
          plan = forwardPlan name zone.records entries := by
  rcases planSync_ok hPlan with ⟨zone, news, hRead, hNews, rfl⟩
  unfold sotRecords at hNews
  rw [if_neg hForward] at hNews
  split at hNews
  · cases hNews
  · cases hEntries : nb.entriesWithTag body.tag with
    | error error =>
        rw [hEntries] at hNews
        cases hNews
    | ok entries =>
        rw [hEntries] at hNews
        cases hNews
        exact ⟨zone, entries, hRead, rfl, rfl⟩

/-
  The records of a plan are written, or they are those the
  zone has.
-/
def CarriedOut
    (b : BindProvider)
    (e : Surroundings)
    (name : Text)
    (plan : Plan)
    (zone : Zone)
    (disk disk' : Disk) : Prop :=
  (disk' = disk ∧ plan.records = zone.records) ∨
    b.replaceRecords e name plan.records disk = (.ok (), disk')

theorem finishSync_ok
    {plan : Plan}
    {answer : SyncAnswer}
    (hOk : (finishSync b e name false plan disk).1 = .ok answer) :
    (plan.added = [] ∧ plan.updated = [] ∧
        (finishSync b e name false plan disk).2 = disk) ∨
      b.replaceRecords e name plan.records disk =
        (.ok (), (finishSync b e name false plan disk).2) := by
  unfold finishSync at hOk ⊢
  by_cases hNone : plan.added = [] ∧ plan.updated = []
  · left
    exact ⟨hNone.1, hNone.2, by simp [hNone]⟩
  · right
    have hSome :
        (false || (decide (plan.added = []) &&
          decide (plan.updated = []))) = false := by
      simpa using hNone
    simp only [hSome, Bool.false_eq_true, if_false] at hOk ⊢
    split at hOk
    · cases hOk
    · rename_i hReplace
      rw [hReplace]

theorem syncZoneFromSot_ok
    {answer : SyncAnswer}
    (hRun : body.dryRun = false)
    (hOk :
      (syncZoneFromSot s e e' name (.ok body) disk).1 =
        .ok answer) :
    ∃ b nb plan,
      s.dns = some b ∧ s.netbox = some nb ∧
        planSync b nb e name body disk = .ok plan ∧
          (plan.added = [] ∧ plan.updated = [] ∧
              (syncZoneFromSot s e e' name (.ok body)
                disk).2 = disk ∨
            b.replaceRecords e' name plan.records disk =
              (.ok (), (syncZoneFromSot s e e' name (.ok body)
                disk).2)) := by
  unfold syncZoneFromSot at hOk ⊢
  cases hReady : s.sotReady with
  | error failure =>
      rw [hReady] at hOk
      cases hOk
  | ok ready =>
      rcases ready with ⟨b, nb⟩
      rcases sotReady_ok hReady with ⟨hDns, hNetbox⟩
      cases hPlan : planSync b nb e name body disk with
      | error failure =>
          simp only [hReady, decoded, hPlan] at hOk
          cases hOk
      | ok plan =>
          simp only [hReady, decoded, hPlan, hRun] at hOk ⊢
          exact ⟨b, nb, plan, hDns, hNetbox, hPlan,
            finishSync_ok hOk⟩

/-
  A sync of a forward zone keeps every address of NetBox and
  every record of another owner, exactly if no address of an
  owner is replaced by another one of the same family.
-/
theorem sync_lossless_iff
    {answer : SyncAnswer}
    (hForward : kindOf name = "forward")
    (hRun : body.dryRun = false)
    (hOk :
      (syncZoneFromSot s e e' name (.ok body) disk).1 =
        .ok answer) :
    ∃ b nb plan zone entries,
      s.dns = some b ∧ s.netbox = some nb ∧
        planSync b nb e name body disk = .ok plan ∧
          b.readZone e name disk = .ok zone ∧
            nb.entriesWithTag body.tag = .ok entries ∧
              CarriedOut b e' name plan zone disk
                (syncZoneFromSot s e e' name (.ok body)
                  disk).2 ∧
                (Lossless name entries zone.records
                    plan.records ↔
                  Covered name entries zone.records) := by
  rcases syncZoneFromSot_ok hRun hOk with
    ⟨b, nb, plan, hDns, hNetbox, hPlan, hDone⟩
  have hNotReverse : kindOf name ≠ "reverse" := by
    rw [hForward]
    decide
  rcases planSync_forward hNotReverse hPlan with
    ⟨zone, entries, hRead, hEntries, hSame⟩
  refine ⟨b, nb, plan, zone, entries, hDns, hNetbox, hPlan,
    hRead, hEntries, ?_, ?_⟩
  · rcases hDone with ⟨hAdded, hUpdated, hDisk⟩ | hReplace
    · left
      subst hSame
      exact ⟨hDisk, planWith_unchanged hAdded hUpdated⟩
    · exact Or.inr hReplace
  · rw [hSame]
    exact lossless_iff

/- A disk with one zone, registered by its file name. -/
def labDisk (content : Text) : Disk :=
  (FileTree.empty.set ("/named.conf.local" : Text)
    ("zone \"lab\" \x7b file \"db.lab\"; \x7d;" : Text)).set
    ("/zones/db.lab" : Text) content

def labProvider : BindProvider where
  zonesDir := "/zones"
  bindZonesDir := []
  namedLocal := "/named.conf.local"
  available := by decide

/- A host with two addresses. -/
def labHosts : List IPEntry :=
  [⟨"10.0.0.1", false, "web", []⟩,
    ⟨"10.0.0.2", false, "web.lab", []⟩]

def labNetbox : Netbox where
  prefixesByTag := fun _ => .ok ["10.0.0.0/24"]
  ipsInPrefix := fun _ => .ok labHosts

def labServer : SotServer :=
  ⟨some labProvider, some labNetbox⟩

def labBody : SyncBody :=
  ⟨"dns", [], false⟩

/- A sync that changes the one record of a host twice. -/
theorem sync_lossless_iff_lab :
    kindOf "lab" = "forward" ∧
      labBody.dryRun = false ∧
        ∃ b nb plan zone entries,
          labServer.dns = some b ∧
            labServer.netbox = some nb ∧
              planSync b nb (.calm 2026010100) "lab" labBody
                  (labDisk "web IN A 10.0.0.9\n") =
                .ok plan ∧
              b.readZone (.calm 2026010100) "lab"
                  (labDisk "web IN A 10.0.0.9\n") = .ok zone ∧
                nb.entriesWithTag labBody.tag = .ok entries ∧
                  CarriedOut b (.calm 2026010100) "lab" plan
                    zone (labDisk "web IN A 10.0.0.9\n")
                    (syncZoneFromSot labServer
                      (.calm 2026010100) (.calm 2026010100)
                      "lab" (.ok labBody)
                      (labDisk "web IN A 10.0.0.9\n")).2 ∧
                    (Lossless "lab" entries zone.records
                        plan.records ↔
                      Covered "lab" entries zone.records) := by
  have hOk :
      (syncZoneFromSot labServer (.calm 2026010100)
          (.calm 2026010100) "lab" (.ok labBody)
          (labDisk "web IN A 10.0.0.9\n")).1 =
        .ok ⟨false, [],
          [⟨"web", "A", 0, "10.0.0.1"⟩,
            ⟨"web", "A", 0, "10.0.0.2"⟩], 0⟩ := by
    decide +kernel
  exact ⟨by decide, rfl,
    sync_lossless_iff (by decide) rfl hOk⟩

/- Two addresses of a host are added and one is written. -/
theorem second_address_replaces_first :
    (syncZoneFromSot labServer (.calm 2026010100)
        (.calm 2026010100) "lab" (.ok labBody)
        (labDisk [])).1 =
      .ok ⟨false, [⟨"web", "A", 0, "10.0.0.1"⟩],
        [⟨"web", "A", 0, "10.0.0.2"⟩], 0⟩ ∧
      ((planSync labProvider labNetbox (.calm 2026010100)
          "lab" labBody (labDisk [])).toOption.map
            Plan.records =
        some [⟨"web", "A", 0, "10.0.0.2"⟩]) ∧
      ¬ Lossless "lab" labHosts []
        [⟨"web", "A", 0, "10.0.0.2"⟩] := by
  refine ⟨by decide +kernel, by decide +kernel, ?_⟩
  intro hLossless
  rcases hLossless.listed ⟨"10.0.0.1", false, "web", []⟩
      (List.mem_cons_self ..) (by decide) with
    ⟨r, hMem, _, _, hValue⟩
  rw [List.mem_singleton.mp hMem] at hValue
  exact absurd hValue (by decide)

end Api

end Soteria
