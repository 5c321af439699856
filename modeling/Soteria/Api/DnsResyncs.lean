import Soteria.Api.DnsSync

/-
  Syncing a zone again with the same answer of NetBox.

  A record counts as updated when its owner and type are in
  the zone, whatever its value is. So every record of NetBox
  is written and reported on every sync.

  Key definitions include:
    * `storedValue`, `wouldChange`
    * `Repeats`, `PreviewsChanges`
    * `sync_idempotent_iff`
-/

------------------------------------------------------------
-- What Is Reported
------------------------------------------------------------

namespace Soteria

namespace Api

open Dns

/- The value in the place that a new record takes. -/
def storedValue
    (records : List Record)
    (new : Record) : Option Text :=
  (records.find? fun r => recordKey r = recordKey new).map
    Record.value

/- The zone has another value for the owner and type. -/
def wouldChange (records : List Record) (new : Record) :
    Bool :=
  match storedValue records new with
  | some value => value ≠ new.value
  | none => false

theorem upsert_wasUpdate (records : List Record) (new : Record) :
    (upsert records new).2 =
      (storedValue records new).isSome := by
  rw [storedValue, Option.isSome_map, List.isSome_find?]
  rfl

/- A merged record takes no other record's place. -/
theorem storedValue_upsert
    (records : List Record)
    {new other : Record}
    (hOther : recordKey other ≠ recordKey new) :
    storedValue (upsert records new).1 other =
      storedValue records other := by
  have hRows :=
    @Keyed.filter_upsert _ _ _ _ _ _ _ changes_value records
      new (fun k => decide (k = recordKey other))
      (by simpa using Ne.symm hOther)
  unfold storedValue
  rw [← List.head?_filter, ← List.head?_filter]
  exact congrArg (fun rows => rows.head?.map Record.value)
    hRows

/-
  Where no two records have an owner and type in common, the
  updates are those that had a place before.
-/
theorem foldl_merge_updated
    {news : List (Option Record)}
    (hDistinct :
      ((news.filterMap id).map recordKey).Nodup)
    (p : Plan) :
    (news.foldl Plan.merge p).updated =
      p.updated ++ (news.filterMap id).filter fun new =>
        (storedValue p.records new).isSome := by
  induction news generalizing p with
  | nil => simp
  | cons new news ih =>
      cases new with
      | none =>
          rw [List.foldl_cons, ih (by simpa using hDistinct)]
          rfl
      | some new =>
          have hYielded :
              (some new :: news).filterMap id =
                new :: news.filterMap id := rfl
          rw [hYielded, List.map_cons, List.nodup_cons]
            at hDistinct
          have hMerged :
              (p.merge (some new)).records =
                (upsert p.records new).1 ∧
                (p.merge (some new)).updated =
                  p.updated ++
                    if (storedValue p.records new).isSome
                    then [new] else [] := by
            rw [← upsert_wasUpdate]
            unfold Plan.merge
            simp only
            split
            · simp
            · simp
          have hRest :
              ∀ other ∈ news.filterMap id,
                (storedValue (upsert p.records new).1
                    other).isSome =
                  (storedValue p.records other).isSome := by
            intro other hMem
            rw [storedValue_upsert]
            intro hKey
            apply hDistinct.1
            rw [← hKey]
            exact List.mem_map_of_mem hMem
          rw [List.foldl_cons, ih hDistinct.2, hMerged.1,
            hMerged.2, hYielded,
            List.filter_cons, List.append_assoc,
            List.filter_congr hRest]
          split
          · rfl
          · rfl

/- Nothing is reported exactly if nothing is merged. -/
theorem planWith_empty_iff
    {records : List Record}
    {news : List (Option Record)} :
    ((planWith records news).added = [] ∧
        (planWith records news).updated = []) ↔
      news.filterMap id = [] := by
  constructor
  · rintro ⟨hAdded, hUpdated⟩
    by_contra hSome
    rcases (foldl_merge news ⟨records, [], [], 0⟩).2
        (Or.inl hSome) with h | h
    · exact h hAdded
    · exact h hUpdated
  · intro hNone
    apply foldl_merge_none
    intro new hMem
    cases new with
    | none => rfl
    | some r =>
        have hYielded : r ∈ news.filterMap id :=
          List.mem_filterMap.mpr ⟨some r, hMem, rfl⟩
        rw [hNone] at hYielded
        cases hYielded

end Api

end Soteria

------------------------------------------------------------
-- Syncing Twice
------------------------------------------------------------

namespace Soteria

namespace Api

open Dns

variable {s : SotServer}
variable {b : BindProvider}
variable {nb : Netbox}
variable {e e₁ e₂ : Surroundings}
variable {name : Text}
variable {body : SyncBody}
variable {disk : Disk}

/- The records NetBox has for the zone of this name. -/
def yielded
    (nb : Netbox)
    (name : Text)
    (body : SyncBody) : Except Failure (List Record) :=
  (sotRecords nb name (kindOf name) body).map fun news =>
    news.filterMap id

/- The sync reports nothing and does not touch the disk. -/
def Repeats
    (s : SotServer)
    (e e' : Surroundings)
    (name : Text)
    (body : SyncBody)
    (disk : Disk) : Prop :=
  ∃ skipped,
    syncZoneFromSot s e e' name (.ok body) disk =
      (.ok ⟨body.dryRun, [], [], skipped⟩, disk)

/-
  A dry run reports the records of NetBox that would change a
  value of the zone as the updated ones.
-/
def PreviewsChanges
    (s : SotServer)
    (e e' : Surroundings)
    (name : Text)
    (body : SyncBody)
    (records news : List Record)
    (disk : Disk) : Prop :=
  ∃ answer,
    syncZoneFromSot s e e' name
        (.ok { body with dryRun := true }) disk =
      (.ok answer, disk) ∧
      answer.updated = news.filter (wouldChange records)

theorem syncZoneFromSot_planned
    {plan : Plan}
    (hDns : s.dns = some b)
    (hNetbox : s.netbox = some nb)
    (hPlan : planSync b nb e name body disk = .ok plan) :
    syncZoneFromSot s e e₁ name (.ok body) disk =
      finishSync b e₁ name body.dryRun plan disk := by
  unfold syncZoneFromSot SotServer.sotReady
  simp only [hDns, hNetbox, decoded, hPlan]

theorem planSync_eq
    {zone : Zone}
    {news : List (Option Record)}
    (hRead : b.readZone e name disk = .ok zone)
    (hNews :
      sotRecords nb name (kindOf name) body = .ok news) :
    planSync b nb e name body disk =
      .ok (planWith zone.records news) := by
  rcases BindProvider.readZone_ok hRead with
    ⟨path, content, _, hZone⟩
  have hKind : zone.kind = kindOf name := by
    rw [hZone]
    rfl
  unfold planSync
  rw [hRead]
  simp only [hKind, hNews]
  rfl

/- An answer lists what the plan lists. -/
theorem finishSync_answer
    {plan : Plan}
    {dryRun : Bool}
    {answer : SyncAnswer}
    {disk' : Disk}
    (hOk :
      finishSync b e name dryRun plan disk =
        (.ok answer, disk')) :
    answer = ⟨dryRun, plan.added, plan.updated,
      plan.skipped⟩ := by
  unfold finishSync at hOk
  simp only at hOk
  split at hOk
  · exact (Except.ok.inj (Prod.mk.inj hOk).1).symm
  · split at hOk
    · cases (Prod.mk.inj hOk).1
    · exact (Except.ok.inj (Prod.mk.inj hOk).1).symm

/- A dry run is answered from the plan. -/
theorem finishSync_dry (plan : Plan) :
    finishSync b e name true plan disk =
      (.ok ⟨true, plan.added, plan.updated, plan.skipped⟩,
        disk) := by
  unfold finishSync
  simp

/- A plan without changes is answered at once. -/
theorem finishSync_empty
    {plan : Plan}
    {dryRun : Bool}
    (hNone : plan.added = [] ∧ plan.updated = []) :
    finishSync b e name dryRun plan disk =
      (.ok ⟨dryRun, [], [], plan.skipped⟩, disk) := by
  unfold finishSync
  simp [hNone]

end Api

end Soteria

------------------------------------------------------------
-- Idempotence
------------------------------------------------------------

namespace Soteria

namespace Api

open Dns

variable {s : SotServer}
variable {b : BindProvider}
variable {nb : Netbox}
variable {e e₁ e₂ : Surroundings}
variable {name : Text}
variable {body : SyncBody}
variable {zone : Zone}
variable {news : List (Option Record)}
variable {disk : Disk}

/-
  A sync with nothing to merge repeats, and a sync that
  repeats had nothing to merge.
-/
theorem repeats_iff
    (hRun : body.dryRun = false)
    (hDns : s.dns = some b)
    (hNetbox : s.netbox = some nb)
    (hRead : b.readZone e name disk = .ok zone)
    (hNews :
      sotRecords nb name (kindOf name) body = .ok news) :
    Repeats s e e₂ name body
        (syncZoneFromSot s e e₁ name (.ok body) disk).2 ↔
      news.filterMap id = [] := by
  constructor
  · rintro ⟨skipped, hAgain⟩
    have hSecond := congrArg Prod.fst hAgain
    rcases syncZoneFromSot_ok hRun hSecond with
      ⟨b', nb', plan, hDns', hNetbox', hPlan, -⟩
    rw [hDns] at hDns'
    rw [hNetbox] at hNetbox'
    cases hDns'
    cases hNetbox'
    rcases planSync_ok hPlan with
      ⟨zone', news', -, hNews', hMerged⟩
    rw [hNews] at hNews'
    cases hNews'
    rw [syncZoneFromSot_planned hDns hNetbox hPlan] at hAgain
    have hAnswer := finishSync_answer hAgain
    rw [hMerged] at hAnswer
    apply planWith_empty_iff.mp
    exact ⟨(congrArg SyncAnswer.added hAnswer).symm,
      (congrArg SyncAnswer.updated hAnswer).symm⟩
  · intro hNone
    have hPlan := planSync_eq hRead hNews
    have hEmpty :
        (planWith zone.records news).added = [] ∧
          (planWith zone.records news).updated = [] :=
      planWith_empty_iff.mpr hNone
    have hRuns :
        ∀ e', syncZoneFromSot s e e' name (.ok body) disk =
          (.ok ⟨body.dryRun, [], [],
            (planWith zone.records news).skipped⟩, disk) := by
      intro e'
      rw [syncZoneFromSot_planned hDns hNetbox hPlan]
      exact finishSync_empty hEmpty
    rw [hRuns e₁]
    exact ⟨_, hRuns e₂⟩

theorem wouldChange_iff {records : List Record} {new : Record} :
    wouldChange records new = true ↔
      (storedValue records new).isSome = true ∧
        storedValue records new ≠ some new.value := by
  unfold wouldChange
  cases storedValue records new with
  | none => simp
  | some value => simp

/- A dry run is exact where no value is stored already. -/
theorem previewsChanges_iff
    (hDns : s.dns = some b)
    (hNetbox : s.netbox = some nb)
    (hRead : b.readZone e name disk = .ok zone)
    (hNews : sotRecords nb name (kindOf name) body = .ok news)
    (hDistinct :
      ((news.filterMap id).map recordKey).Nodup) :
    PreviewsChanges s e e₁ name body zone.records
        (news.filterMap id) disk ↔
      ∀ new ∈ news.filterMap id,
        storedValue zone.records new ≠ some new.value := by
  have hDry :
      syncZoneFromSot s e e₁ name
          (.ok { body with dryRun := true }) disk =
        (.ok ⟨true, (planWith zone.records news).added,
          (planWith zone.records news).updated,
          (planWith zone.records news).skipped⟩, disk) := by
    have hPlan :
        planSync b nb e name { body with dryRun := true }
            disk = .ok (planWith zone.records news) :=
      planSync_eq hRead hNews
    rw [syncZoneFromSot_planned hDns hNetbox hPlan]
    exact finishSync_dry _
  have hUpdated :
      (planWith zone.records news).updated =
        (news.filterMap id).filter fun new =>
          (storedValue zone.records new).isSome :=
    foldl_merge_updated hDistinct ⟨zone.records, [], [], 0⟩
  unfold PreviewsChanges
  rw [hDry]
  constructor
  · rintro ⟨answer, hAnswer, hExact⟩ new hMem hStored
    cases hAnswer
    dsimp only at hExact
    have hReported :
        new ∈ (planWith zone.records news).updated := by
      rw [hUpdated, List.mem_filter]
      exact ⟨hMem, by rw [hStored]; rfl⟩
    rw [hExact, List.mem_filter, wouldChange_iff]
      at hReported
    exact hReported.2.2 hStored
  · intro hFresh
    refine ⟨_, rfl, ?_⟩
    dsimp only
    rw [hUpdated]
    apply List.filter_congr
    intro new hMem
    rw [Bool.eq_iff_iff, wouldChange_iff]
    exact (and_iff_left (hFresh new hMem)).symm

/-
  After a sync, the same sync with the same answer of NetBox
  reports and writes nothing exactly if NetBox has no record
  for the zone at all. A dry run, after a sync or not, lists
  exactly the records that would change a value, where their
  owners and types are distinct, exactly if none of them has
  its value already.
-/
theorem sync_idempotent_iff :
    (∀ answer,
      body.dryRun = false →
      (syncZoneFromSot s e e₁ name (.ok body) disk).1 =
        .ok answer →
      ∃ b nb zone news,
        s.dns = some b ∧ s.netbox = some nb ∧
          b.readZone e name disk = .ok zone ∧
            yielded nb name body = .ok news ∧
              (Repeats s e e₂ name body
                  (syncZoneFromSot s e e₁ name (.ok body)
                    disk).2 ↔
                news = [])) ∧
      ∀ b nb zone news,
        s.dns = some b →
        s.netbox = some nb →
        b.readZone e name disk = .ok zone →
        yielded nb name body = .ok news →
        (news.map recordKey).Nodup →
        (PreviewsChanges s e e₂ name body zone.records news
            disk ↔
          ∀ new ∈ news,
            storedValue zone.records new ≠
              some new.value) := by
  constructor
  · intro answer hRun hFirst
    rcases syncZoneFromSot_ok hRun hFirst with
      ⟨b, nb, plan, hDns, hNetbox, hPlan, -⟩
    rcases planSync_ok hPlan with ⟨zone, news, hRead, hNews, -⟩
    refine ⟨b, nb, zone, news.filterMap id, hDns, hNetbox,
      hRead, ?_, repeats_iff hRun hDns hNetbox hRead hNews⟩
    unfold yielded
    rw [hNews]
    rfl
  · intro b nb zone news hDns hNetbox hRead hYielded
    unfold yielded at hYielded
    cases hNews : sotRecords nb name (kindOf name) body with
    | error error =>
        rw [hNews] at hYielded
        cases hYielded
    | ok records =>
        rw [hNews] at hYielded
        cases hYielded
        exact previewsChanges_iff hDns hNetbox hRead hNews

/- NetBox with one address of one host. -/
def oneHostNetbox : Netbox where
  prefixesByTag := fun _ => .ok ["10.0.0.0/24"]
  ipsInPrefix := fun _ =>
    .ok [⟨"10.0.0.1", false, "web", []⟩]

def oneHostServer : SotServer :=
  ⟨some labProvider, some oneHostNetbox⟩

/- A zone file with its SOA record and no other one. -/
def bareZone : Text :=
  "@ IN SOA ns.lab. root.lab. (\n2026010100\n300 )\n"

theorem sync_idempotent_iff_lab :
    ∃ b nb zone news,
      oneHostServer.dns = some b ∧
        oneHostServer.netbox = some nb ∧
          b.readZone (.calm 2026010100) "lab"
                (labDisk bareZone) = .ok zone ∧
            yielded nb "lab" labBody = .ok news ∧
              (Repeats oneHostServer (.calm 2026010100)
                  (.calm 2026010100) "lab" labBody
                  (syncZoneFromSot oneHostServer
                    (.calm 2026010100) (.calm 2026010100)
                    "lab" (.ok labBody) (labDisk bareZone)).2 ↔
                news = []) ∧
                ((news.map recordKey).Nodup →
                  (PreviewsChanges oneHostServer
                      (.calm 2026010100) (.calm 2026010100)
                      "lab" labBody zone.records news
                      (labDisk bareZone) ↔
                    ∀ new ∈ news,
                      storedValue zone.records new ≠
                        some new.value)) := by
  have hFirst :
      (syncZoneFromSot oneHostServer (.calm 2026010100)
          (.calm 2026010100) "lab" (.ok labBody)
          (labDisk bareZone)).1 =
        .ok ⟨false, [⟨"web", "A", 0, "10.0.0.1"⟩], [], 0⟩ := by
    decide +kernel
  have hBoth :=
    @sync_idempotent_iff oneHostServer (.calm 2026010100)
      (.calm 2026010100) (.calm 2026010100) "lab" labBody
      (labDisk bareZone)
  rcases hBoth.1 _ rfl hFirst with
    ⟨b, nb, zone, news, hDns, hNetbox, hRead, hNews, hRepeats⟩
  exact ⟨b, nb, zone, news, hDns, hNetbox, hRead, hNews,
    hRepeats, hBoth.2 b nb zone news hDns hNetbox hRead hNews⟩

/- A sync that reports an update is no repetition. -/
theorem not_repeats_of_updated
    {dryRun : Bool}
    {added updated : List Record}
    {r : Record}
    {skipped : Nat}
    (hAnswer :
      (syncZoneFromSot s e e₁ name (.ok body) disk).1 =
        .ok ⟨dryRun, added, r :: updated, skipped⟩) :
    ¬ Repeats s e e₁ name body disk := by
  rintro ⟨others, hRepeated⟩
  rw [hRepeated] at hAnswer
  cases hAnswer

/- A sync of the host, and the same one again. -/
def hostSync : Except Failure SyncAnswer × Disk :=
  syncZoneFromSot oneHostServer
    (.calm 2026010100) (.calm 2026010100) "lab"
    (.ok labBody) (labDisk bareZone)

def hostSyncAgain : Except Failure SyncAnswer × Disk :=
  syncZoneFromSot oneHostServer
    (.calm 2026010100) (.calm 2026010100) "lab"
    (.ok labBody) hostSync.2

/- Evaluated together, so that each sync is run once. -/
theorem hostSyncs_eq :
    hostSync.1 =
        .ok ⟨false, [⟨"web", "A", 0, "10.0.0.1"⟩], [], 0⟩ ∧
      hostSyncAgain.1 =
        .ok ⟨false, [], [⟨"web", "A", 0, "10.0.0.1"⟩], 0⟩ ∧
      ((labProvider.readZone (.calm 2026010100) "lab"
          hostSync.2).toOption.map fun z =>
            (z.serial, z.records.map Record.value)) =
        some (2026010101, [("10.0.0.1" : Text)]) ∧
      ((labProvider.readZone (.calm 2026010100) "lab"
          hostSyncAgain.2).toOption.map fun z =>
            (z.serial, z.records.map Record.value)) =
        some (2026010102, [("10.0.0.1" : Text)]) ∧
      (syncZoneFromSot oneHostServer (.calm 2026010100)
          (.calm 2026010100) "lab"
          (.ok { labBody with dryRun := true }) hostSync.2).1 =
        .ok ⟨true, [], [⟨"web", "A", 0, "10.0.0.1"⟩], 0⟩ := by
  decide +kernel

/-
  The second sync of a host reports an update, although the
  zone has its address, and gives the zone another serial. A
  dry run reports it as well.
-/
theorem second_sync_updates :
    let first := syncZoneFromSot oneHostServer
      (.calm 2026010100) (.calm 2026010100) "lab"
      (.ok labBody) (labDisk bareZone)
    let second := syncZoneFromSot oneHostServer
      (.calm 2026010100) (.calm 2026010100) "lab"
      (.ok labBody) first.2
    first.1 =
        .ok ⟨false, [⟨"web", "A", 0, "10.0.0.1"⟩], [], 0⟩ ∧
      second.1 =
        .ok ⟨false, [], [⟨"web", "A", 0, "10.0.0.1"⟩], 0⟩ ∧
      ¬ Repeats oneHostServer (.calm 2026010100)
          (.calm 2026010100) "lab" labBody first.2 ∧
      ((labProvider.readZone (.calm 2026010100) "lab"
          first.2).toOption.map fun z =>
            (z.serial, z.records.map Record.value)) =
        some (2026010101, [("10.0.0.1" : Text)]) ∧
      ((labProvider.readZone (.calm 2026010100) "lab"
          second.2).toOption.map fun z =>
            (z.serial, z.records.map Record.value)) =
        some (2026010102, [("10.0.0.1" : Text)]) ∧
      (syncZoneFromSot oneHostServer (.calm 2026010100)
          (.calm 2026010100) "lab"
          (.ok { labBody with dryRun := true }) first.2).1 =
        .ok ⟨true, [], [⟨"web", "A", 0, "10.0.0.1"⟩], 0⟩ := by
  have hSyncs := hostSyncs_eq
  unfold hostSyncAgain hostSync at hSyncs
  dsimp only at hSyncs ⊢
  rcases hSyncs with ⟨hFirst, hSecond, hAfter, hAgain, hDry⟩
  exact ⟨hFirst, hSecond, not_repeats_of_updated hSecond,
    hAfter, hAgain, hDry⟩

end Api

end Soteria
