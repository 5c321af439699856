import Soteria.Api.DnsSync
import Soteria.Foundation.Transition

/-
  A sync of a zone and a `PUT` of its records at the same
  time.

  The sync reads the zone without the lock of the provider,
  waits for NetBox and then replaces the whole record set.
  Replacing is one turn: the lock is held, and the file a
  reader sees changes at once, by a rename.

  Key definitions include:
    * `putDNSRecords`
    * `SyncPut`, `SyncPut.step`
    * `NothingToWrite`, `PutApart`
    * `sync_put_serial`
-/

------------------------------------------------------------
-- The Two Requests
------------------------------------------------------------

namespace Soteria

namespace Api

open Dns

/- `putDNSRecords`. -/
def putDNSRecords
    (s : SotServer)
    (e : Surroundings)
    (name : Text)
    (body : Except Text (List Record))
    (disk : Disk) : Except Failure Unit × Disk :=
  match s.dns with
  | none =>
      (.error (503, "DNS management is not configured (the bind9 project is not mounted into the agent)"), disk)
  | some b =>
      match decoded body with
      | .error failure => (.error failure, disk)
      | .ok records =>
          match b.replaceRecords e name records disk with
          | (.error error, disk) =>
              (.error (400, error.message), disk)
          | (.ok _, disk) => (.ok (), disk)

/- The requests, and what the server has for each. -/
structure SyncPut where
  dns : BindProvider
  netbox : Netbox
  name : Text
  sync : SyncBody
  records : List Record
  reading : Surroundings
  writing : Surroundings
  putting : Surroundings

namespace SyncPut

def server (r : SyncPut) : SotServer :=
  ⟨some r.dns, some r.netbox⟩

/- The sync alone. -/
def runSync (r : SyncPut) (disk : Disk) :
    Except Failure SyncAnswer × Disk :=
  syncZoneFromSot r.server r.reading r.writing r.name
    (.ok r.sync) disk

/- The `PUT` alone. -/
def runPut (r : SyncPut) (disk : Disk) :
    Except Failure Unit × Disk :=
  putDNSRecords r.server r.putting r.name (.ok r.records) disk

end SyncPut

/- How far a sync is. -/
inductive SyncPhase where
  | start
  | read (zone : Zone)
  | planned (plan : Plan)
  | answered (answer : Except Failure SyncAnswer)

/- The disk, the sync, and the answer to the `PUT`. -/
structure SyncPutState where
  disk : Disk
  sync : SyncPhase
  put : Option (Except Failure Unit)

inductive SyncPutTurn where
  | sync
  | put

namespace SyncPut

/-
  The sync reads the zone, then queries NetBox, then writes;
  the `PUT` has one turn.
-/
def step
    (r : SyncPut)
    (u : SyncPutState) : SyncPutTurn → SyncPutState
| .sync =>
    match u.sync with
    | .start =>
        match r.dns.readZone r.reading r.name u.disk with
        | .error error =>
            { u with sync := .answered (.error
                (404, error.message)) }
        | .ok zone => { u with sync := .read zone }
    | .read zone =>
        match sotRecords r.netbox r.name zone.kind r.sync with
        | .error failure =>
            { u with sync := .answered (.error failure) }
        | .ok news =>
            { u with
              sync := .planned (planWith zone.records news) }
    | .planned plan =>
        let done :=
          finishSync r.dns r.writing r.name r.sync.dryRun plan
            u.disk
        { u with sync := .answered done.1, disk := done.2 }
    | .answered _ => u
| .put =>
    match u.put with
    | none =>
        { u with
          put := some (r.runPut u.disk).1
          disk := (r.runPut u.disk).2 }
    | some _ => u

/- Neither request has begun. -/
def start (disk : Disk) : SyncPutState :=
  ⟨disk, .start, none⟩

/-
  The sync writes nothing: it is a dry run, or NetBox has no
  entry with a record in the zone.
-/
def NothingToWrite (r : SyncPut) : Prop :=
  r.sync.dryRun = true ∨
    ∀ news,
      sotRecords r.netbox r.name (kindOf r.name) r.sync =
          .ok news →
        ∀ new ∈ news, new = none

/-
  If the `PUT` comes between the reading and the writing of
  the sync, the sync writes nothing.
-/
def PutApart (r : SyncPut) (u : SyncPutState) :
    SyncPutTurn → Prop
| .sync => True
| .put =>
    match u.sync with
    | .start => True
    | .read _ => r.NothingToWrite
    | .planned _ => r.NothingToWrite
    | .answered _ => True

end SyncPut

end Api

end Soteria

------------------------------------------------------------
-- Serial Outcomes
------------------------------------------------------------

namespace Soteria

namespace Api

open Dns

namespace SyncPut

variable {r : SyncPut}
variable {disk : Disk}

/- A sync that is as far as this, alone on a disk. -/
def Alone (r : SyncPut) (disk : Disk) :
    SyncPhase → Disk → Prop
| .start, now => now = disk
| .read zone, now =>
    now = disk ∧
      r.dns.readZone r.reading r.name disk = .ok zone
| .planned plan, now =>
    now = disk ∧
      planSync r.dns r.netbox r.reading r.name r.sync disk =
        .ok plan
| .answered answer, now => r.runSync disk = (answer, now)

/- A sync that will not write, on a disk that has changed. -/
def Ahead (r : SyncPut) (disk : Disk) : SyncPhase → Prop
| .start => False
| .read zone =>
    r.dns.readZone r.reading r.name disk = .ok zone
| .planned plan =>
    planSync r.dns r.netbox r.reading r.name r.sync disk =
      .ok plan
| .answered answer => r.runSync disk = (answer, disk)

/- What a run reaches in which the requests stay apart. -/
inductive Serial (r : SyncPut) (disk : Disk) :
    SyncPutState → Prop where
  | syncing {phase : SyncPhase} {now : Disk} :
      r.Alone disk phase now → Serial r disk ⟨now, phase, none⟩
  | putFirst {phase : SyncPhase} {now : Disk} :
      r.Alone (r.runPut disk).2 phase now →
        Serial r disk ⟨now, phase, some (r.runPut disk).1⟩
  | putLast {answer : Except Failure SyncAnswer} {mid : Disk} :
      r.runSync disk = (answer, mid) →
        Serial r disk
          ⟨(r.runPut mid).2, .answered answer,
            some (r.runPut mid).1⟩
  | putWithin {phase : SyncPhase} :
      r.Ahead disk phase → r.NothingToWrite →
        Serial r disk
          ⟨(r.runPut disk).2, phase, some (r.runPut disk).1⟩

/- A sync that writes nothing leaves the disk. -/
theorem finishSync_nothing
    {plan : Plan}
    (now : Disk)
    (hNothing : r.NothingToWrite)
    (hPlan :
      planSync r.dns r.netbox r.reading r.name r.sync disk =
        .ok plan) :
    finishSync r.dns r.writing r.name r.sync.dryRun plan now =
      (.ok ⟨r.sync.dryRun, plan.added, plan.updated,
        plan.skipped⟩, now) := by
  unfold finishSync
  rcases hNothing with hDry | hNone
  · simp [hDry]
  · have hEmpty : plan.added = [] ∧ plan.updated = [] := by
      unfold planSync at hPlan
      cases hRead : r.dns.readZone r.reading r.name disk with
      | error error =>
          rw [hRead] at hPlan
          cases hPlan
      | ok zone =>
          rcases BindProvider.readZone_ok hRead with
            ⟨path, content, _, hZone⟩
          have hKind : zone.kind = kindOf r.name := by
            rw [hZone]
            rfl
          rw [hRead] at hPlan
          dsimp only at hPlan
          rw [hKind] at hPlan
          cases hNews :
              sotRecords r.netbox r.name (kindOf r.name)
                r.sync with
          | error failure =>
              rw [hNews] at hPlan
              cases hPlan
          | ok news =>
              rw [hNews] at hPlan
              cases hPlan
              exact foldl_merge_none (hNone news hNews) _
    simp [hEmpty]

/- A step of the sync does not touch the other answer. -/
theorem step_sync_put (r : SyncPut) (u : SyncPutState) :
    (r.step u .sync).put = u.put := by
  rcases u with ⟨now, phase, put⟩
  cases phase with
  | start =>
      cases hRead : r.dns.readZone r.reading r.name now with
      | error error => simp only [step, hRead]
      | ok zone => simp only [step, hRead]
  | read zone =>
      cases hNews :
          sotRecords r.netbox r.name zone.kind r.sync with
      | error failure => simp only [step, hNews]
      | ok news => simp only [step, hNews]
  | planned plan => rfl
  | answered answer => rfl

theorem runSync_of_readError
    {error : DnsError}
    (hRead :
      r.dns.readZone r.reading r.name disk = .error error) :
    r.runSync disk =
      (.error (404, error.message), disk) := by
  simp [runSync, server, syncZoneFromSot, SotServer.sotReady,
    decoded, planSync, hRead]

theorem runSync_of_queryError
    {zone : Zone}
    {failure : Failure}
    (hRead : r.dns.readZone r.reading r.name disk = .ok zone)
    (hNews :
      sotRecords r.netbox r.name zone.kind r.sync =
        .error failure) :
    r.runSync disk = (.error failure, disk) := by
  simp [runSync, server, syncZoneFromSot, SotServer.sotReady,
    decoded, planSync, hRead, hNews, Except.map]

theorem planSync_of_news
    {zone : Zone}
    {news : List (Option Record)}
    (hRead : r.dns.readZone r.reading r.name disk = .ok zone)
    (hNews :
      sotRecords r.netbox r.name zone.kind r.sync = .ok news) :
    planSync r.dns r.netbox r.reading r.name r.sync disk =
      .ok (planWith zone.records news) := by
  simp [planSync, hRead, hNews, Except.map]

theorem runSync_of_plan
    {plan : Plan}
    (hPlan :
      planSync r.dns r.netbox r.reading r.name r.sync disk =
        .ok plan) :
    r.runSync disk =
      finishSync r.dns r.writing r.name r.sync.dryRun plan
        disk := by
  simp [runSync, server, syncZoneFromSot, SotServer.sotReady,
    decoded, hPlan]

/- A sync that runs alone goes on as it would. -/
theorem alone_step
    {phase : SyncPhase}
    {now : Disk}
    (put : Option (Except Failure Unit))
    (hAlone : r.Alone disk phase now) :
    r.Alone disk (r.step ⟨now, phase, put⟩ .sync).sync
      (r.step ⟨now, phase, put⟩ .sync).disk := by
  cases phase with
  | start =>
      have hNow : now = disk := hAlone
      subst hNow
      cases hRead : r.dns.readZone r.reading r.name now with
      | error error =>
          simp only [step, hRead]
          exact runSync_of_readError hRead
      | ok zone =>
          simp only [step, hRead]
          exact ⟨rfl, hRead⟩
  | read zone =>
      rcases hAlone with ⟨rfl, hRead⟩
      cases hNews :
          sotRecords r.netbox r.name zone.kind r.sync with
      | error failure =>
          simp only [step, hNews]
          exact runSync_of_queryError hRead hNews
      | ok news =>
          simp only [step, hNews]
          exact ⟨rfl, planSync_of_news hRead hNews⟩
  | planned plan =>
      rcases hAlone with ⟨rfl, hPlan⟩
      exact runSync_of_plan hPlan
  | answered answer => exact hAlone

/- A sync that writes nothing goes on as if alone. -/
theorem ahead_step
    {phase : SyncPhase}
    (now : Disk)
    (put : Option (Except Failure Unit))
    (hNothing : r.NothingToWrite)
    (hAhead : r.Ahead disk phase) :
    r.Ahead disk (r.step ⟨now, phase, put⟩ .sync).sync ∧
      (r.step ⟨now, phase, put⟩ .sync).disk = now := by
  cases phase with
  | start => exact hAhead.elim
  | read zone =>
      cases hNews :
          sotRecords r.netbox r.name zone.kind r.sync with
      | error failure =>
          simp only [step, hNews, and_true]
          exact runSync_of_queryError hAhead hNews
      | ok news =>
          simp only [step, hNews, and_true]
          exact planSync_of_news hAhead hNews
  | planned plan =>
      have hHere := finishSync_nothing disk hNothing hAhead
      have hThere := finishSync_nothing now hNothing hAhead
      refine ⟨?_, ?_⟩
      · show r.runSync disk = _
        rw [runSync_of_plan hAhead, hHere]
        simp only [hThere]
      · simp only [step, hThere]
  | answered answer => exact ⟨hAhead, rfl⟩

/- Turns that keep the requests apart keep a run serial. -/
theorem serial_step
    {u : SyncPutState}
    {turn : SyncPutTurn}
    (hSerial : Serial r disk u)
    (hApart : r.PutApart u turn) :
    Serial r disk (r.step u turn) := by
  cases turn with
  | sync =>
      have hPut := step_sync_put r u
      generalize hNext : r.step u .sync = next at hPut ⊢
      rcases next with ⟨now', phase', put'⟩
      cases hSerial with
      | @syncing phase now hAlone =>
          have hStep := alone_step none hAlone
          rw [hNext] at hStep
          subst hPut
          exact .syncing hStep
      | @putFirst phase now hAlone =>
          have hStep :=
            alone_step (some (r.runPut disk).1) hAlone
          rw [hNext] at hStep
          subst hPut
          exact .putFirst hStep
      | putLast hSync =>
          rw [← hNext]
          exact .putLast hSync
      | @putWithin phase hAhead hNothing =>
          have hStep :=
            ahead_step (r.runPut disk).2
              (some (r.runPut disk).1) hNothing hAhead
          rw [hNext] at hStep
          rcases hStep with ⟨hAhead', rfl⟩
          subst hPut
          exact .putWithin hAhead' hNothing
  | put =>
      cases hSerial with
      | @syncing phase now hAlone =>
          cases phase with
          | start =>
              have hNow : now = disk := hAlone
              subst hNow
              exact @Serial.putFirst r now .start _ rfl
          | read zone =>
              rcases hAlone with ⟨rfl, hRead⟩
              exact @Serial.putWithin r now (.read zone) hRead
                hApart
          | planned plan =>
              rcases hAlone with ⟨rfl, hPlan⟩
              exact @Serial.putWithin r now (.planned plan) hPlan
                hApart
          | answered answer => exact .putLast hAlone
      | putFirst hAlone => exact .putFirst hAlone
      | putLast hSync => exact .putLast hSync
      | putWithin hAhead hNothing =>
          exact .putWithin hAhead hNothing

/- The two orders of running the requests one by one. -/
def InSomeOrder (r : SyncPut) (disk disk' : Disk) : Prop :=
  disk' = (r.runPut (r.runSync disk).2).2 ∨
    disk' = (r.runSync (r.runPut disk).2).2

/-
  In every run in which a sync with something to write is
  not overtaken, the files are as after the two requests in
  one of the two orders.
-/
theorem sync_put_serial
    {turns : List SyncPutTurn}
    (hApart :
      Transition.Along r.step r.PutApart (start disk) turns)
    {answer : SyncAnswer}
    (hSync :
      (turns.foldl r.step (start disk)).sync =
        .answered (.ok answer))
    (hPut : (turns.foldl r.step (start disk)).put =
      some (.ok ())) :
    r.InSomeOrder disk
      (turns.foldl r.step (start disk)).disk := by
  have hEnd :
      Serial r disk (turns.foldl r.step (start disk)) := by
    refine Transition.Along.final
      (fun _ _ hBefore hStep => serial_step hBefore hStep)
      ?_ hApart
    exact @Serial.syncing r disk .start _ rfl
  generalize turns.foldl r.step (start disk) = u at *
  cases hEnd with
  | syncing hAlone => cases hPut
  | putFirst hAlone =>
      right
      dsimp only at hSync
      subst hSync
      have hRun : r.runSync (r.runPut disk).2 = (.ok answer, _) :=
        hAlone
      rw [hRun]
  | putLast hRun =>
      left
      rw [hRun]
  | putWithin hAhead hNothing =>
      left
      dsimp only at hSync
      subst hSync
      have hRun : r.runSync disk = (.ok answer, disk) := hAhead
      rw [hRun]

/- A sync of `web` and a `PUT` of `mail`. -/
def labRequests : SyncPut where
  dns := labProvider
  netbox := labNetbox
  name := "lab"
  sync := labBody
  records := [⟨"mail", "A", 0, "10.0.0.5"⟩]
  reading := .calm 2026010100
  writing := .calm 2026010100
  putting := .calm 2026010100

def labStart : SyncPutState :=
  start (labDisk "db IN A 10.0.0.8\n")

/- The records of the zone on a disk. -/
def labRecords (disk : Disk) : Option (List Record) :=
  (disk "/zones/db.lab".toList).map parseRecords

/- The requests one after the other. -/
theorem sync_put_serial_lab :
    Transition.Along labRequests.step labRequests.PutApart
        labStart [.sync, .sync, .sync, .put] ∧
      labRequests.InSomeOrder (labDisk "db IN A 10.0.0.8\n")
        ([.sync, .sync, .sync, .put].foldl labRequests.step
          labStart).disk := by
  have hApart :
      Transition.Along labRequests.step labRequests.PutApart
        labStart [.sync, .sync, .sync, .put] :=
    ⟨trivial, trivial, trivial, trivial, trivial⟩
  exact ⟨hApart, sync_put_serial hApart rfl rfl⟩

/-
  A `PUT` between the reading and the writing of a sync is
  overwritten, although both are answered with success.
-/
theorem put_overwritten :
    let final :=
      [SyncPutTurn.sync, .put, .sync, .sync].foldl
        labRequests.step labStart
    (final.put.map Except.isOk = some true ∧
        (match final.sync with
          | .answered answer => answer.isOk
          | _ => false) = true) ∧
      labRecords final.disk =
        some [⟨"db", "A", 0, "10.0.0.8"⟩,
          ⟨"web", "A", 0, "10.0.0.2"⟩] ∧
        labRecords (labRequests.runPut
            (labRequests.runSync labStart.disk).2).2 =
          some [⟨"mail", "A", 0, "10.0.0.5"⟩] ∧
          labRecords (labRequests.runSync
              (labRequests.runPut labStart.disk).2).2 =
            some [⟨"mail", "A", 0, "10.0.0.5"⟩,
              ⟨"web", "A", 0, "10.0.0.2"⟩] := by
  decide +kernel

end SyncPut

end Api

end Soteria
