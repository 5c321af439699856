import Mathlib.Data.List.Nodup
import Soteria.Api.EntityBlocks
import Soteria.Foundation.Updates

/-
  A `PUT devices` and a `PUT device-groups` request at the
  same time.

  Both read the device file twice and then stage all of it,
  with the lock held for the staging only. A request that
  stages while the other has read but not yet staged makes
  the other overwrite what it has not seen.

  Key definitions include:
    * `DevicePut`, `DevicePut.update`
    * `update_run_iff`
    * `devicePuts`, `NoLostUpdate`
    * `device_puts_serial`
    * `stale_devices_drop_groups`
-/

------------------------------------------------------------
-- Requests as Updates
------------------------------------------------------------

namespace Soteria

namespace Api

open Store Tacconfig Threads

/- The requests that stage the device file. -/
inductive DevicePut where
  | devices (body : List Device)
  | deviceGroups (body : List DeviceGroup)

def DevicePut.entities : DevicePut → Entities
| .devices body => .devices body
| .deviceGroups body => .deviceGroups body

/- The request, with whether staging the file fails. -/
def DevicePut.request
    (put : DevicePut)
    (fault : Option Text) : EntityRequest where
  body := .ok put.entities
  crypt := fun _ _ => .noSalt []
  writeFault := fault

/- What the request stages, from the lists it has read. -/
def DevicePut.content
    (globalKey : Text)
    (devices : List Device)
    (groups : List DeviceGroup) :
    DevicePut → Except EntityError Text
| .devices body =>
    devicesContent globalKey devices groups body
| .deviceGroups body =>
    deviceGroupsContent globalKey devices groups body

abbrev DeviceUpdate :=
  Update State (List Device) (List DeviceGroup) Text

/- The turns of the request: its two reads and its write. -/
def DevicePut.update
    (globalKey : Text)
    (put : DevicePut)
    (fault : Option Text) : DeviceUpdate where
  readFirst s := (loadDevices globalKey s).toOption
  readSecond s := (loadDeviceGroups globalKey s).toOption
  compute devices groups :=
    (put.content globalKey devices groups).toOption
  write content s :=
    (writeStaged fault ManagedFile.devices.path content
      s).toOption

variable {globalKey : Text}
variable {put : DevicePut}
variable {fault : Option Text}
variable {s s' : State}

theorem planEntities_put (s : State) :
    planEntities globalKey (fun _ _ => .noSalt []) s
        put.entities =
      (do
        let devices ← loadDevices globalKey s
        let groups ← loadDeviceGroups globalKey s
        put.content globalKey devices groups) := by
  cases put <;> rfl

theorem entities_file :
    put.entities.file = .devices := by
  cases put <;> rfl

theorem update_run_iff :
    (put.update globalKey fault).run s = some s' ↔
      ∃ devices groups content,
        loadDevices globalKey s = .ok devices ∧
          loadDeviceGroups globalKey s = .ok groups ∧
            put.content globalKey devices groups =
                .ok content ∧
              writeStaged fault ManagedFile.devices.path
                  content s = .ok s' := by
  constructor
  · intro hRun
    unfold Update.run DevicePut.update at hRun
    dsimp only at hRun
    split at hRun
    · rename_i devices groups hDevices hGroups
      rcases Option.bind_eq_some_iff.mp hRun with
        ⟨content, hContent, hWrite⟩
      exact ⟨devices, groups, content,
        toOption_eq_some_iff.mp hDevices,
        toOption_eq_some_iff.mp hGroups,
        toOption_eq_some_iff.mp hContent,
        toOption_eq_some_iff.mp hWrite⟩
    · cases hRun
  · rintro ⟨devices, groups, content, hDevices, hGroups,
      hContent, hWrite⟩
    simp only [Update.run, DevicePut.update, hDevices, hGroups,
      Except.toOption, hContent, Option.bind_some, hWrite]

/- The update alone does what the handler does. -/
theorem putEntities_of_run
    (hRun : (put.update globalKey fault).run s = some s') :
    putEntities globalKey s (put.request fault) =
      (.ok (), s') := by
  rcases update_run_iff.mp hRun with
    ⟨devices, groups, content, hDevices, hGroups, hContent,
      hWrite⟩
  have hPlan :
      planEntities globalKey (put.request fault).crypt s
          put.entities = .ok content := by
    have hPlanned :
        (do
          let devices ← loadDevices globalKey s
          let groups ← loadDeviceGroups globalKey s
          put.content globalKey devices groups) =
          .ok content :=
      bind_ok_iff.mpr ⟨devices, hDevices,
        bind_ok_iff.mpr ⟨groups, hGroups, hContent⟩⟩
    exact (planEntities_put s).trans hPlanned
  unfold putEntities
  have hBody :
      (put.request fault).body = .ok put.entities := rfl
  have hFault : (put.request fault).writeFault = fault := rfl
  rw [hBody]
  dsimp only
  rw [hPlan]
  dsimp only
  rw [entities_file, hFault]
  unfold commitEntities
  rw [hWrite]

end Api

end Soteria

------------------------------------------------------------
-- Two Requests
------------------------------------------------------------

namespace Soteria

namespace Api

open Store Tacconfig Threads

abbrev DeviceUpdaters :=
  Updaters State (List Device) (List DeviceGroup) Text

/- The update of each thread; only the first two have turns. -/
def putUpdates
    (globalKey : Text)
    (first second : DevicePut)
    (faults : Option Text × Option Text)
    (i : Nat) : DeviceUpdate :=
  if i = 0 then first.update globalKey faults.1
  else second.update globalKey faults.2

/- Two requests that start on the same files. -/
def devicePuts
    (globalKey : Text)
    (s : State)
    (first second : DevicePut)
    (faults : Option Text × Option Text) :
    DeviceUpdaters where
  shared := s
  threads i :=
    { update := putUpdates globalKey first second faults i
      turn := if i < 2 then .first else .ended false }

/- The device file after one request and then the other. -/
def afterBoth
    (globalKey : Text)
    (s : State)
    (first second : EntityRequest) : Option Text :=
  (putEntities globalKey
    (putEntities globalKey s first).2 second).2.effective
    .devices

/-
  If both requests are answered as staged, the file is as
  after one of them and then the other.
-/
def NoLostUpdate
    (globalKey : Text)
    (s : State)
    (first second : EntityRequest)
    (p : DeviceUpdaters) : Prop :=
  (p.threads 0).turn = .ended true →
    (p.threads 1).turn = .ended true →
      p.shared.effective .devices =
          afterBoth globalKey s first second ∨
        p.shared.effective .devices =
          afterBoth globalKey s second first

theorem order_of_two
    {order : List Nat}
    (hNodup : order.Nodup)
    (hMem : ∀ i, i ∈ order ↔ i ∈ [0, 1]) :
    order = [0, 1] ∨ order = [1, 0] := by
  have hPerm : order.Perm [0, 1] :=
    (List.perm_ext_iff_of_nodup hNodup (by decide)).mpr hMem
  rcases List.length_eq_two.mp hPerm.length_eq with
    ⟨i, j, rfl⟩
  have hi := (hMem i).mp (by simp)
  have hj := (hMem j).mp (by simp)
  have hNe : i ≠ j := by simpa using hNodup
  simp only [List.mem_cons, List.not_mem_nil, or_false]
    at hi hj
  rcases hi with rfl | rfl
  · rcases hj with rfl | rfl
    · exact (hNe rfl).elim
    · exact Or.inl rfl
  · rcases hj with rfl | rfl
    · exact Or.inr rfl
    · exact (hNe rfl).elim

/- Two updates in order are two requests in order. -/
theorem afterBoth_of_runInOrder
    {globalKey : Text}
    {updates : Nat → DeviceUpdate}
    {s s' : State}
    {i j : Nat}
    {a b : DevicePut}
    {fault fault' : Option Text}
    (hFirst : updates i = a.update globalKey fault)
    (hSecond : updates j = b.update globalKey fault')
    (hRun : runInOrder updates [i, j] s = some s') :
    s'.effective .devices =
      afterBoth globalKey s (a.request fault)
        (b.request fault') := by
  rcases Option.bind_eq_some_iff.mp hRun with ⟨mid, hOne, hRest⟩
  rcases Option.bind_eq_some_iff.mp hRest with
    ⟨last, hTwo, hEnd⟩
  cases hEnd
  rw [hFirst] at hOne
  rw [hSecond] at hTwo
  unfold afterBoth
  rw [putEntities_of_run hOne, putEntities_of_run hTwo]

/-
  In every run in which no request stages what the other,
  having read already, would read differently, no update is
  lost.
-/
theorem device_puts_serial
    (globalKey : Text)
    (s : State)
    (devices : List Device)
    (groups : List DeviceGroup)
    (faults : Option Text × Option Text)
    (schedule : List Nat)
    (hLeaves :
      Transition.Along (Pool.advance Updater.next) LeavesFresh
        (devicePuts globalKey s (.devices devices)
          (.deviceGroups groups) faults)
        schedule) :
    NoLostUpdate globalKey s
      ((DevicePut.devices devices).request faults.1)
      ((DevicePut.deviceGroups groups).request faults.2)
      (schedule.foldl (Pool.advance Updater.next)
        (devicePuts globalKey s (.devices devices)
          (.deviceGroups groups) faults)) := by
  intro hFirst hSecond
  have hTurns :
      ∀ i,
        ((devicePuts globalKey s (.devices devices)
            (.deviceGroups groups) faults).threads
          i).turn = .first ∨
        ((devicePuts globalKey s (.devices devices)
            (.deviceGroups groups) faults).threads
          i).turn = .ended false := by
    intro i
    simp only [devicePuts]
    by_cases hTwo : i < 2
    · exact Or.inl (if_pos hTwo)
    · exact Or.inr (if_neg hTwo)
  rcases serial_of_fresh (fun _ => rfl) hTurns hLeaves with
    ⟨order, hNodup, hWritten, hRun⟩
  have hMem : ∀ i, i ∈ order ↔ i ∈ [0, 1] := by
    intro i
    rw [hWritten]
    constructor
    · intro hEnded
      by_contra hNot
      have hIdle :
          ((devicePuts globalKey s (.devices devices)
              (.deviceGroups groups) faults).threads
            i).turn = .ended false := by
        refine if_neg fun hTwo => hNot ?_
        simp only [List.mem_cons, List.not_mem_nil, or_false]
        omega
      rw [ended_of_schedule hIdle] at hEnded
      cases hEnded
    · intro hTwo
      simp only [List.mem_cons, List.not_mem_nil, or_false]
        at hTwo
      rcases hTwo with rfl | rfl
      · exact hFirst
      · exact hSecond
  rcases order_of_two hNodup hMem with rfl | rfl
  · exact Or.inl (afterBoth_of_runInOrder rfl rfl hRun)
  · exact Or.inr (afterBoth_of_runInOrder rfl rfl hRun)

end Api

end Soteria

------------------------------------------------------------
-- A Lost Update
------------------------------------------------------------

namespace Soteria

namespace Api

open Store Tacconfig Threads

def coreGroup : DeviceGroup where
  name := "core"
  description := []
  keyType := "global"
  key := []
  members := 0

/- The two requests that stage a device and a group. -/
def plainPuts : DeviceUpdaters :=
  devicePuts "k" emptySession (.devices [plainDevice])
    (.deviceGroups [coreGroup]) (none, none)

/- One after the other, both are in the file. -/
theorem plainPuts_serial :
    NoLostUpdate "k" emptySession
      ((DevicePut.devices [plainDevice]).request none)
      ((DevicePut.deviceGroups [coreGroup]).request none)
      (([0, 0, 0] ++ [1, 1, 1]).foldl
        (Pool.advance Updater.next) plainPuts) := by
  refine device_puts_serial "k" emptySession [plainDevice]
    [coreGroup] (none, none) _ ?_
  refine leavesFresh_one_by_one rfl fun i => ?_
  simp only [devicePuts]
  by_cases hTwo : i < 2
  · exact Or.inl (if_pos hTwo)
  · exact Or.inr ⟨false, if_neg hTwo⟩

theorem plainDevice_content
    (devices : List Device)
    (groups : List DeviceGroup) :
    devicesContent "k" devices groups [plainDevice] =
      .ok (renderDevices [plainDevice] groups "k") := by
  have hCheck :
      checkDevice (devices.map fun d => (d.name, d.key)) groups
          plainDevice = .ok plainDevice :=
    rfl
  exact map_ok_iff.mpr
    ⟨_, mapM_ok_iff.mpr (.cons hCheck .nil), rfl⟩

/- What the group is staged with, where it is staged. -/
theorem coreGroup_content
    {devices : List Device}
    {groups : List DeviceGroup}
    {content : Text}
    (hContent :
      deviceGroupsContent "k" devices groups [coreGroup] =
        .ok content) :
    content = renderDevices devices [coreGroup] "k" := by
  have hCheck :
      checkDeviceGroup (groups.map fun g => (g.name, g.key))
          coreGroup = .ok coreGroup :=
    rfl
  have hChecked := mapM_ok_iff.mpr (.cons hCheck .nil)
  unfold deviceGroupsContent at hContent
  rw [hChecked] at hContent
  dsimp only at hContent
  split at hContent
  · cases hContent
  · cases hContent
    rfl

/- A file that has the device too is a longer one. -/
theorem coreGroup_shorter
    (devices : List Device)
    (groups : List DeviceGroup)
    (hLonger :
      (renderDeviceGroup "k" coreGroup).length <
        (groups.flatMap (renderDeviceGroup "k")).length +
          ((orderDevices devices).flatMap
            (renderDevice "k")).length) :
    renderDevices devices groups "k" ≠
      renderDevices [] [coreGroup] "k" := by
  intro hSame
  have hLength := congrArg List.length hSame
  simp only [renderDevices, List.length_append,
    List.flatMap_cons, List.flatMap_nil, orderDevices,
    List.filter_nil, List.append_nil] at hLength hLonger
  omega

/- Staging a file in an open session. -/
theorem writeStaged_open
    {s : State}
    {session : Session}
    (hOpen : s.staging = some session)
    (file : ManagedFile)
    (content : Text) :
    ∃ s' session',
      writeStaged none file.path content s = .ok s' ∧
        s'.staging = some session' ∧
          s'.effective file = some content := by
  refine ⟨_, _, writeStaged_ok_iff.mpr
    ⟨session, hOpen, rfl, rfl⟩, rfl, ?_⟩
  simp [State.effective]

/- What a staged source is read as. -/
theorem loadDevices_of_effective
    {s : State}
    {src : Text}
    {devices : List Device}
    (hFile : s.effective .devices = some src)
    (hParse : parseDevices src "k" = .ok devices) :
    loadDevices "k" s = .ok devices := by
  refine loadWith_ok_iff.mpr ⟨src, ?_, hParse⟩
  rw [readEffective_path, hFile]

theorem loadDeviceGroups_of_effective
    {s : State}
    {src : Text}
    {groups : List DeviceGroup}
    (hFile : s.effective .devices = some src)
    (hParse : countedDeviceGroups "k" src = .ok groups) :
    loadDeviceGroups "k" s = .ok groups := by
  refine loadWith_ok_iff.mpr ⟨src, ?_, hParse⟩
  rw [readEffective_path, hFile]

/- A source that parses has devices and groups. -/
theorem entities_of_parse
    {src : Text}
    {parsed : List Node × List Comment}
    (hParse : parse src = .ok parsed) :
    ∃ devices groups,
      parseDevices src "k" = .ok devices ∧
        countedDeviceGroups "k" src = .ok groups :=
  ⟨_, _, map_ok_iff.mpr ⟨parsed, hParse, rfl⟩,
    map_ok_iff.mpr
      ⟨_, map_ok_iff.mpr ⟨parsed, hParse, rfl⟩, rfl⟩⟩

/- The rendered device, as it is read again. -/
theorem plainDevice_parse :
    parseDevices (renderDevices [plainDevice] [] "k") "k" =
      .ok [{ plainDevice with
        lastSeen := "-", status := "unknown" }] := by
  rw [← toOption_eq_some_iff]
  unfold renderDevices banner commentLine
  repeat rw [String.toList_ofList]
  decide +kernel

theorem coreGroup_parse :
    ∃ parsed,
      parse (renderDevices [] [coreGroup] "k") = .ok parsed := by
  have hQuoted : ValueField (inQuotes "k") := by decide
  have hName : PlainWord coreGroup.name :=
    ⟨by decide, by decide⟩
  have hRemark : RemarkField coreGroup.description := by
    decide
  have hGroups :
      ∀ g ∈ [coreGroup], g.Confined "k" := by
    intro g hg
    rw [List.mem_singleton.mp hg]
    exact ⟨hName.labelText, hRemark, hQuoted.pasted⟩
  have hNone : ∀ d ∈ ([] : List Device), d.Confined "k" := by
    intro d hd
    exact absurd hd List.not_mem_nil
  rcases renderDevices_parse hNone hGroups
    with ⟨nodes, comments, hParse, _⟩
  exact ⟨_, hParse⟩

/- After the device, the group does not replace it. -/
theorem coreGroup_after_device
    {s s' : State}
    (hFile :
      s.effective .devices =
        some (renderDevices [plainDevice] [] "k"))
    (hPut :
      putEntities "k" s
          ((DevicePut.deviceGroups [coreGroup]).request
            none) =
        (.ok (), s')) :
    s'.effective .devices ≠
      some (renderDevices [] [coreGroup] "k") := by
  rcases putEntities_ok rfl hPut with ⟨content, hPlan, hStaged⟩
  rcases bind_ok_iff.mp hPlan with ⟨devices, hLoad, hPlan⟩
  rcases bind_ok_iff.mp hPlan with ⟨groups, _, hContent⟩
  have hDevices :=
    loadDevices_of_effective hFile plainDevice_parse
  rw [hDevices] at hLoad
  cases hLoad
  rw [coreGroup_content hContent] at hStaged
  intro hSame
  refine coreGroup_shorter _ _ ?_
    (Option.some.inj (hStaged.symm.trans hSame))
  decide

/- After the group, the device is staged beside it. -/
theorem device_after_coreGroup
    {s : State}
    {session : Session}
    (hOpen : s.staging = some session)
    (hFile :
      s.effective .devices =
        some (renderDevices [] [coreGroup] "k")) :
    (putEntities "k" s
        ((DevicePut.devices [plainDevice]).request
          none)).2.effective .devices ≠
      some (renderDevices [] [coreGroup] "k") := by
  rcases coreGroup_parse with ⟨parsed, hParse⟩
  rcases entities_of_parse hParse with
    ⟨devices, groups, hDevices, hGroups⟩
  have hPlan :
      planEntities "k" (fun _ _ => .noSalt []) s
          (.devices [plainDevice]) =
        .ok (renderDevices [plainDevice] groups "k") :=
    bind_ok_iff.mpr
      ⟨devices, loadDevices_of_effective hFile hDevices,
        bind_ok_iff.mpr
          ⟨groups, loadDeviceGroups_of_effective hFile hGroups,
            plainDevice_content devices groups⟩⟩
  have hStaged :
      ∃ s',
        putEntities "k" s
            ((DevicePut.devices [plainDevice]).request none) =
          (.ok (), s') :=
    putEntities_staged rfl hPlan hOpen rfl
  rcases hStaged with ⟨s', hPut⟩
  rcases putEntities_ok rfl hPut with
    ⟨content, hFound, hContent⟩
  have hSame :
      renderDevices [plainDevice] groups "k" = content :=
    Except.ok.inj (hPlan.symm.trans hFound)
  rw [hPut]
  intro hDropped
  refine coreGroup_shorter [plainDevice] groups ?_ ?_
  · have hShorter :
        (renderDeviceGroup "k" coreGroup).length <
          ((orderDevices [plainDevice]).flatMap
            (renderDevice "k")).length := by
      decide
    omega
  · rw [hSame]
    exact Option.some.inj (hContent.symm.trans hDropped)

/-
  The groups are read before the device is staged, and staged
  afterwards: the file has no device.
-/
theorem stale_groups_drop_devices :
    ¬NoLostUpdate "k" emptySession
        ((DevicePut.devices [plainDevice]).request none)
        ((DevicePut.deviceGroups [coreGroup]).request none)
        ([1, 1, 0, 0, 0, 1].foldl (Pool.advance Updater.next)
          plainPuts) := by
  -- what either request stages where the file is empty
  have hDevice :
      (DevicePut.devices [plainDevice]).content "k" [] [] =
        .ok (renderDevices [plainDevice] [] "k") :=
    plainDevice_content [] []
  have hGroup :
      (DevicePut.deviceGroups [coreGroup]).content "k" [] [] =
        .ok (renderDevices [] [coreGroup] "k") := rfl
  have hOpen :
      ∃ session, emptySession.staging = some session :=
    ⟨_, rfl⟩
  rcases hOpen with ⟨session, hSession⟩
  rcases writeStaged_open hSession .devices
      (renderDevices [plainDevice] [] "k") with
    ⟨s₁, session₁, hWrite₁, hOpen₁, hFile₁⟩
  rcases writeStaged_open hOpen₁ .devices
      (renderDevices [] [coreGroup] "k") with
    ⟨s₂, _, hWrite₂, _, hFile₂⟩
  have hStale :=
    stale_write (p := plainPuts) (i := 1) (j := 0) (by decide)
      rfl rfl
      ⟨toOption_eq_some_iff.mpr loadDevices_emptySession,
        toOption_eq_some_iff.mpr loadDeviceGroups_emptySession,
        toOption_eq_some_iff.mpr hGroup⟩
      ⟨toOption_eq_some_iff.mpr loadDevices_emptySession,
        toOption_eq_some_iff.mpr loadDeviceGroups_emptySession,
        toOption_eq_some_iff.mpr hDevice⟩
      (toOption_eq_some_iff.mpr hWrite₁)
      (toOption_eq_some_iff.mpr hWrite₂)
  rcases hStale with ⟨hShared, hOne, hZero⟩
  intro hNoLost
  have hSerial := hNoLost hZero hOne
  rw [hShared, hFile₂] at hSerial
  rcases hSerial with hDeviceFirst | hGroupFirst
  · have hRun :=
      putEntities_of_run (update_run_iff.mpr
        ⟨[], [], _, loadDevices_emptySession,
          loadDeviceGroups_emptySession, hDevice, hWrite₁⟩)
    rw [afterBoth, hRun] at hDeviceFirst
    cases hAnswer :
        putEntities "k" s₁
          ((DevicePut.deviceGroups [coreGroup]).request
            none) with
    | mk answer after =>
        rw [hAnswer] at hDeviceFirst
        cases answer with
        | ok _ =>
            exact coreGroup_after_device hFile₁ hAnswer
              hDeviceFirst.symm
        | error error =>
            rw [putEntities_error hAnswer, hFile₁]
              at hDeviceFirst
            refine coreGroup_shorter [plainDevice] [] ?_
              (Option.some.inj hDeviceFirst.symm)
            decide
  · rcases writeStaged_open hSession .devices
        (renderDevices [] [coreGroup] "k") with
      ⟨s₃, session₃, hWrite₃, hOpen₃, hFile₃⟩
    have hRun :=
      putEntities_of_run (update_run_iff.mpr
        ⟨[], [], _, loadDevices_emptySession,
          loadDeviceGroups_emptySession, hGroup, hWrite₃⟩)
    rw [afterBoth, hRun] at hGroupFirst
    exact device_after_coreGroup hOpen₃ hFile₃
      hGroupFirst.symm

end Api

end Soteria
