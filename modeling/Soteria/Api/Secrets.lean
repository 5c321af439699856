import Mathlib.Data.List.Forall2
import Soteria.Api.Staged
import Soteria.Foundation.Table
import Soteria.Foundation.Transition

/-
  Password hashes and custom keys over runs of requests.

  A request names the entities that have a secret afterwards.
  Each of them has the secret the request supplies or, where
  it supplies none, the one it had before. The secrets of the
  other kinds of entities stay.

  Key definitions include:
    * `userHashes`, `deviceKeys`, `deviceGroupKeys`
    * `requestedHashes`, `requestedKeys`
    * `SecretsKept`, `LacksSecret`, `KeepsSecrets`
    * `secrets_kept`
-/

------------------------------------------------------------
-- Secrets of Files and of Requests
------------------------------------------------------------

namespace Soteria

namespace Api

open Store Tacconfig Table

/- The custom key of an entity, with its name. -/
def Keyed.custom (x : Keyed) : Option (Text × Text) :=
  if x.keyType = "custom" then some (x.name, x.key) else none

def customKeys (xs : List Keyed) : List (Text × Text) :=
  xs.filterMap Keyed.custom

/- A value, unless it is left out. -/
def supplied (value : Text) : Option Text :=
  if value = [] then none else some value

/- What a request asks for the custom key of an entity. -/
def Keyed.requested (x : Keyed) :
    Option (Text × Option Text) :=
  if x.keyType = "custom" then some (x.name, supplied x.key)
  else none

def requestedKeys (xs : List Keyed) :
    List (Text × Option Text) :=
  xs.filterMap Keyed.requested

/- The hash of a new password, if there is one. -/
def requestedHash
    (crypt : Nat → Text → CryptRun)
    (entry : User × Nat) : Text × Option Text :=
  (entry.1.name,
    if entry.1.password = [] then none
    else
      (hashPassword (crypt entry.2 entry.1.password)).toOption)

def requestedHashes
    (crypt : Nat → Text → CryptRun)
    (body : List User) : List (Text × Option Text) :=
  body.zipIdx.map (requestedHash crypt)

def userHashes (s : State) : List (Text × Text) :=
  (orNone (loadUsers s)).map fun u => (u.name, u.hash)

def deviceKeys
    (globalKey : Text)
    (s : State) : List (Text × Text) :=
  customKeys
    ((orNone (loadDevices globalKey s)).map Device.keyed)

def deviceGroupKeys
    (globalKey : Text)
    (s : State) : List (Text × Text) :=
  customKeys
    ((orNone (loadDeviceGroups globalKey s)).map
      DeviceGroup.keyed)

/- What an accepted request does to the secrets. -/
def SecretsKept
    (globalKey : Text)
    (crypt : Nat → Text → CryptRun)
    (s s' : State) : Entities → Prop
| .devices body =>
    Replaces (deviceKeys globalKey s)
        (requestedKeys (body.map Device.keyed))
        (deviceKeys globalKey s') ∧
      deviceGroupKeys globalKey s' =
        deviceGroupKeys globalKey s ∧
      userHashes s' = userHashes s
| .deviceGroups body =>
    Replaces (deviceGroupKeys globalKey s)
        (requestedKeys (body.map DeviceGroup.keyed))
        (deviceGroupKeys globalKey s') ∧
      -- the devices are written in their order of display
      (deviceKeys globalKey s').Perm (deviceKeys globalKey s) ∧
      userHashes s' = userHashes s
| .users body =>
    Replaces (userHashes s) (requestedHashes crypt body)
        (userHashes s') ∧
      deviceKeys globalKey s' = deviceKeys globalKey s ∧
      deviceGroupKeys globalKey s' = deviceGroupKeys globalKey s
| .groups _ =>
    userHashes s' = userHashes s ∧
      deviceKeys globalKey s' = deviceKeys globalKey s ∧
      deviceGroupKeys globalKey s' = deviceGroupKeys globalKey s

/- No entity that has a secret has an empty one. -/
structure NoneEmpty (globalKey : Text) (s : State) : Prop where
  users : ∀ e ∈ userHashes s, e.2 ≠ []
  devices : ∀ e ∈ deviceKeys globalKey s, e.2 ≠ []
  groups : ∀ e ∈ deviceGroupKeys globalKey s, e.2 ≠ []

/- An entity of the request would be without its secret. -/
def LacksSecret
    (globalKey : Text)
    (s : State) : Entities → Prop
| .devices body =>
    ∃ d ∈ body, d.keyType = "custom" ∧ d.key = [] ∧
      ∀ key, (d.name, key) ∉ deviceKeys globalKey s
| .deviceGroups body =>
    ∃ g ∈ body, g.keyType = "custom" ∧ g.key = [] ∧
      ∀ key, (g.name, key) ∉ deviceGroupKeys globalKey s
| .users body =>
    ∃ u ∈ body, u.password = [] ∧
      ∀ hash, (u.name, hash) ∉ userHashes s
| .groups _ => False

/- Secrets are changed by the request only as it asks. -/
structure KeepsSecrets
    (globalKey : Text)
    (s : State)
    (r : EntityRequest) : Prop where
  accepted : ∀ entities s',
    r.body = .ok entities →
      putEntities globalKey s r = (.ok (), s') →
        SecretsKept globalKey r.crypt s s' entities ∧
          NoneEmpty globalKey s'
  lacking : ∀ entities,
    r.body = .ok entities →
      LacksSecret globalKey s entities →
        ∃ error, putEntities globalKey s r = (.error error, s)
  rejected : ∀ error s',
    putEntities globalKey s r = (.error error, s') → s' = s

end Api

end Soteria

------------------------------------------------------------
-- Custom Keys
------------------------------------------------------------

namespace Soteria

namespace Api

open Store Tacconfig Table

/- Checked keys are those that the request asks for. -/
theorem replaces_of_checked
    {before body accepted : List Keyed}
    (hCustom :
      ∀ x ∈ before, x.key ≠ [] → x.keyType = "custom")
    (hAll :
      List.Forall₂
        (KeyChecked (before.map fun x => (x.name, x.key))) body
        accepted) :
    Replaces (customKeys before) (requestedKeys body)
      (customKeys accepted) := by
  have hEach :
      ∀ x x',
        KeyChecked (before.map fun x => (x.name, x.key)) x x' →
          Option.Rel (Kept (customKeys before)) x.requested
            x'.custom := by
    intro x x' hChecked
    unfold Keyed.requested Keyed.custom
    rw [hChecked.keyType, hChecked.name]
    by_cases hType : x.keyType = "custom"
    · rw [if_pos hType, if_pos hType]
      apply Option.Rel.some
      have hNonempty := hChecked.nonempty hType
      rcases hChecked.origin hType with hSame | ⟨hNone, hMem⟩
      · rw [hSame] at hNonempty ⊢
        rw [supplied, if_neg hNonempty]
        exact Kept.supplied x.name x.key
      · rw [supplied, if_pos hNone]
        apply Kept.kept
        rcases List.mem_map.mp hMem with ⟨y, hy, hSame⟩
        have hKey : y.key = x'.key := congrArg Prod.snd hSame
        apply List.mem_filterMap.mpr
        refine ⟨y, hy, ?_⟩
        rw [← hKey] at hNonempty
        rw [Keyed.custom, if_pos (hCustom y hy hNonempty),
          hSame]
    · rw [if_neg hType, if_neg hType]
      exact Option.Rel.none
  exact Replaces.of_forall₂
    (List.rel_filterMap hEach hAll)

theorem settled_custom (d : Device) :
    d.settled.keyed.custom = d.keyed.custom := by
  have hGlobal : ("global" : Text) ≠ "custom" := by decide
  unfold Device.settled
  split
  · rfl
  · rename_i hCustom
    split
    · unfold Keyed.custom Device.keyed
      rw [if_neg hCustom, if_neg hCustom]
    · generalize ("global" : Text) = kind at hGlobal ⊢
      unfold Keyed.custom Device.keyed
      rw [if_neg hCustom, if_neg hGlobal]

theorem group_settled_custom (g : DeviceGroup) :
    g.settled.keyed.custom = g.keyed.custom := by
  have hGlobal : ("global" : Text) ≠ "custom" := by decide
  unfold DeviceGroup.settled
  split
  · rfl
  · rename_i hCustom
    generalize ("global" : Text) = kind at hGlobal ⊢
    unfold Keyed.custom DeviceGroup.keyed
    rw [if_neg hCustom, if_neg hGlobal]

/- The keys that are read are the ones that were written. -/
theorem customKeys_found (devices : List Device) :
    (customKeys (devices.map Device.keyed)).Perm
      (customKeys
        (((sortDevicesForDisplay
          (devices.map Device.settled)).map
            Device.listed).map Device.keyed)) := by
  have hListed :
      ∀ ds : List Device,
        customKeys ((ds.map Device.listed).map Device.keyed) =
          customKeys (ds.map Device.keyed) := by
    intro ds
    rw [List.map_map]
    rfl
  have hSettled :
      customKeys ((devices.map Device.settled).map Device.keyed) =
        customKeys (devices.map Device.keyed) := by
    unfold customKeys
    rw [List.map_map, List.filterMap_map, List.filterMap_map]
    exact List.filterMap_congr fun d _ => settled_custom d
  have hSorted :
      (sortDevicesForDisplay (devices.map Device.settled)).Perm
        (devices.map Device.settled) :=
    List.mergeSort_perm _ _
  rw [hListed, ← hSettled]
  exact ((hSorted.map Device.keyed).filterMap _).symm

theorem customKeys_counted
    (groups : List DeviceGroup)
    (devices : List Device) :
    customKeys
        (((groups.map DeviceGroup.settled).map
          (counted devices)).map DeviceGroup.keyed) =
      customKeys (groups.map DeviceGroup.keyed) := by
  unfold customKeys
  rw [List.map_map, List.map_map, List.filterMap_map,
    List.filterMap_map]
  exact List.filterMap_congr fun g _ => group_settled_custom g

end Api

end Soteria

------------------------------------------------------------
-- One Request
------------------------------------------------------------

namespace Soteria

namespace Api

open Store Tacconfig Table

variable {globalKey : Text}
variable {s s' : State}
variable {r : EntityRequest}

/- What the accepted request does to the secrets. -/
theorem secretsKept_of_put
    (hGlobal : globalKey ≠ [])
    (hText : KeyText globalKey)
    (hOrderly : Orderly globalKey s)
    {entities : Entities}
    (hBody : r.body = .ok entities)
    (hTidy : entities.Tidy globalKey r.crypt)
    (hPut : putEntities globalKey s r = (.ok (), s')) :
    SecretsKept globalKey r.crypt s s' entities := by
  rcases load_frame hBody hPut with ⟨hUsers, hDevices⟩
  cases entities with
  | devices body =>
      have hOther : ManagedFile.devices ≠ .users := by decide
      rcases put_devices hGlobal hText hOrderly hBody hTidy hPut
        with ⟨existing, groups, accepted, found, hExisting,
          hGroups, hAll, _, hFound, hDevices', hGroups'⟩
      have hCustom :
          ∀ x ∈ existing.map Device.keyed,
            x.key ≠ [] → x.keyType = "custom" := by
        intro x hx hNonempty
        rcases List.mem_map.mp hx with ⟨e, he, rfl⟩
        exact (device_ownKey
          (hOrderly.devices existing hExisting e he)
          hNonempty).2
      have hChecked :
          List.Forall₂
            (KeyChecked
              ((existing.map Device.keyed).map fun x =>
                (x.name, x.key)))
            (body.map Device.keyed)
            (accepted.map Device.keyed) := by
        rw [List.map_map, List.forall₂_map_left_iff,
          List.forall₂_map_right_iff]
        exact hAll.imp fun d d' hCheck =>
          (checkDevice_keyed hCheck).1
      have hReplaces :=
        (replaces_of_checked hCustom hChecked).perm
          (customKeys_found accepted)
      unfold SecretsKept deviceKeys deviceGroupKeys userHashes
      rw [hExisting, hGroups, hDevices', hGroups',
        hUsers hOther, ← hFound] at *
      exact ⟨hReplaces, customKeys_counted groups found, rfl⟩
  | deviceGroups body =>
      have hOther : ManagedFile.devices ≠ .users := by decide
      rcases put_deviceGroups hGlobal hText hOrderly hBody hTidy
          hPut
        with ⟨devices, current, accepted, found, hLoaded,
          hCurrent, hAll, _, _, hFound, hDevices', hGroups'⟩
      have hCustom :
          ∀ x ∈ current.map DeviceGroup.keyed,
            x.key ≠ [] → x.keyType = "custom" := by
        intro x hx hNonempty
        rcases List.mem_map.mp hx with ⟨e, he, rfl⟩
        exact (deviceGroup_ownKey
          (hOrderly.groups current hCurrent e he)
          hNonempty).2
      have hChecked :
          List.Forall₂
            (KeyChecked
              ((current.map DeviceGroup.keyed).map fun x =>
                (x.name, x.key)))
            (body.map DeviceGroup.keyed)
            (accepted.map DeviceGroup.keyed) := by
        rw [List.map_map, List.forall₂_map_left_iff,
          List.forall₂_map_right_iff]
        exact hAll.imp fun g g' hCheck =>
          checkDeviceGroup_keyed hCheck
      have hReplaces := replaces_of_checked hCustom hChecked
      rw [← customKeys_counted accepted found] at hReplaces
      have hSame := (customKeys_found devices).symm
      unfold SecretsKept deviceKeys deviceGroupKeys userHashes
      rw [hLoaded, hCurrent, hDevices', hGroups',
        hUsers hOther, ← hFound] at *
      exact ⟨hReplaces, hSame, rfl⟩
  | users body =>
      have hOther : ManagedFile.users ≠ .devices := by decide
      rcases put_users hOrderly hBody hTidy hPut with
        ⟨existing, accepted, hExisting, hAll, _, hUsers'⟩
      rcases hDevices hOther with ⟨hSame, hSameGroups⟩
      have hEach :
          List.Forall₂
            (Kept (existing.map fun u => (u.name, u.hash)))
            (requestedHashes r.crypt body)
            (accepted.map fun u => (u.name, u.hash)) := by
        unfold requestedHashes
        rw [List.forall₂_map_left_iff,
          List.forall₂_map_right_iff]
        apply hAll.imp
        intro entry u' hCheck
        rcases checkUser_hash hCheck with
          ⟨hName, _, _, _, hOrigin⟩
        rw [hName]
        unfold requestedHash
        rcases hOrigin with ⟨hPassword, hHash⟩ | ⟨hNone, hMem⟩
        · rw [if_neg hPassword, hHash]
          exact Kept.supplied entry.1.name u'.hash
        · rw [if_pos hNone]
          exact Kept.kept hMem
      have hListed :
          (accepted.map User.listed).map
              (fun u => (u.name, u.hash)) =
            accepted.map fun u => (u.name, u.hash) := by
        rw [List.map_map]
        rfl
      unfold SecretsKept deviceKeys deviceGroupKeys userHashes
      rw [hExisting, hUsers', hSame, hSameGroups]
      refine ⟨?_, rfl, rfl⟩
      show Replaces _ _ ((accepted.map User.listed).map _)
      rw [hListed]
      exact Replaces.of_forall₂ hEach
  | groups body =>
      have hNotUsers : ManagedFile.groups ≠ .users := by decide
      have hNotDevices :
          ManagedFile.groups ≠ .devices := by decide
      rcases hDevices hNotDevices with ⟨hSame, hSameGroups⟩
      unfold SecretsKept deviceKeys deviceGroupKeys userHashes
      rw [hUsers hNotUsers, hSame, hSameGroups]
      exact ⟨rfl, rfl, rfl⟩

/- A request that lacks a secret is not accepted. -/
theorem not_lacking
    {entities : Entities}
    (hKept :
      SecretsKept globalKey r.crypt s s' entities) :
    ¬ LacksSecret globalKey s entities := by
  intro hLacks
  cases entities with
  | devices body =>
      rcases hLacks with ⟨d, hd, hType, hNone, hAbsent⟩
      have hRequest :
          (d.name, none) ∈
            requestedKeys (body.map Device.keyed) := by
        apply List.mem_filterMap.mpr
        refine ⟨d.keyed, List.mem_map_of_mem hd, ?_⟩
        unfold Keyed.requested Device.keyed supplied
        rw [if_pos hType, if_pos hNone]
      rcases hKept.1.kept_before hRequest with ⟨key, hBefore⟩
      exact hAbsent key hBefore
  | deviceGroups body =>
      rcases hLacks with ⟨g, hg, hType, hNone, hAbsent⟩
      have hRequest :
          (g.name, none) ∈
            requestedKeys (body.map DeviceGroup.keyed) := by
        apply List.mem_filterMap.mpr
        refine ⟨g.keyed, List.mem_map_of_mem hg, ?_⟩
        unfold Keyed.requested DeviceGroup.keyed supplied
        rw [if_pos hType, if_pos hNone]
      rcases hKept.1.kept_before hRequest with ⟨key, hBefore⟩
      exact hAbsent key hBefore
  | users body =>
      rcases hLacks with ⟨u, hu, hNone, hAbsent⟩
      rw [← List.zipIdx_map_fst 0 body] at hu
      rcases List.mem_map.mp hu with ⟨entry, hEntry, rfl⟩
      have hRequest :
          (entry.1.name, none) ∈
            requestedHashes r.crypt body := by
        apply List.mem_map.mpr
        refine ⟨entry, hEntry, ?_⟩
        unfold requestedHash
        rw [if_pos hNone]
      rcases hKept.1.kept_before hRequest with ⟨hash, hBefore⟩
      exact hAbsent hash hBefore
  | groups body => exact hLacks

theorem KeyOf.nonempty
    {keyType key : Text}
    (hKey : KeyOf globalKey keyType key)
    (hCustom : keyType = "custom") :
    key ≠ [] := by
  cases hKey with
  | shared _ => exact absurd hCustom (by decide)
  | custom _ hNonempty _ => exact hNonempty

/- Entities whose custom keys are not empty. -/
theorem customKeys_nonempty
    {xs : List Keyed}
    (hEach : ∀ x ∈ xs, x.keyType = "custom" → x.key ≠ []) :
    ∀ e ∈ customKeys xs, e.2 ≠ [] := by
  intro e he
  rcases List.mem_filterMap.mp he with ⟨x, hx, hCustom⟩
  unfold Keyed.custom at hCustom
  split at hCustom
  · rename_i hType
    cases hCustom
    exact hEach x hx hType
  · cases hCustom

/- Files that are orderly have no empty secrets. -/
theorem noneEmpty_of_orderly
    (hOrderly : Orderly globalKey s) :
    NoneEmpty globalKey s := by
  refine ⟨?_, ?_, ?_⟩
  · intro e he
    unfold userHashes at he
    cases hLoad : loadUsers s with
    | error error =>
        rw [hLoad] at he
        cases he
    | ok users =>
        rw [hLoad] at he
        rcases List.mem_map.mp he with ⟨u, hu, rfl⟩
        exact (hOrderly.users users hLoad u hu).2
  · apply customKeys_nonempty
    intro x hx hCustom
    rcases List.mem_map.mp hx with ⟨d, hd, rfl⟩
    cases hLoad : loadDevices globalKey s with
    | error error =>
        rw [hLoad] at hd
        cases hd
    | ok devices =>
        rw [hLoad] at hd
        rcases (hOrderly.devices devices hLoad d hd).key with
          hKey | ⟨hType, _⟩
        · exact KeyOf.nonempty hKey hCustom
        · exact absurd (hType.symm.trans hCustom) (by decide)
  · apply customKeys_nonempty
    intro x hx hCustom
    rcases List.mem_map.mp hx with ⟨g, hg, rfl⟩
    cases hLoad : loadDeviceGroups globalKey s with
    | error error =>
        rw [hLoad] at hg
        cases hg
    | ok groups =>
        rw [hLoad] at hg
        exact KeyOf.nonempty
          (hOrderly.groups groups hLoad g hg).key hCustom

/- One request, where files and request are in order. -/
theorem keepsSecrets_of_orderly
    (hGlobal : globalKey ≠ [])
    (hText : KeyText globalKey)
    (hOrderly : Orderly globalKey s)
    (hTidy :
      ∀ entities, r.body = .ok entities →
        entities.Tidy globalKey r.crypt) :
    KeepsSecrets globalKey s r := by
  refine ⟨?_, ?_, ?_⟩
  · intro entities s' hBody hPut
    have hAfter :=
      orderly_of_put hGlobal hText hOrderly hBody
        (hTidy entities hBody) hPut
    exact ⟨secretsKept_of_put hGlobal hText hOrderly hBody
      (hTidy entities hBody) hPut, noneEmpty_of_orderly hAfter⟩
  · intro entities hBody hLacks
    cases hPut : putEntities globalKey s r with
    | mk answer s' =>
        cases answer with
        | ok _ =>
            have hKept :=
              secretsKept_of_put hGlobal hText hOrderly hBody
                (hTidy entities hBody) hPut
            exact (not_lacking hKept hLacks).elim
        | error error =>
            rw [putEntities_error hPut]
            exact ⟨error, rfl⟩
  · intro error s' hPut
    exact putEntities_error hPut

end Api

end Soteria

------------------------------------------------------------
-- Runs
------------------------------------------------------------

namespace Soteria

namespace Api

open Store Tacconfig Table

/- The state after a request. -/
def afterRequest
    (globalKey : Text)
    (s : State)
    (r : EntityRequest) : State :=
  (putEntities globalKey s r).2

theorem orderly_afterRequest
    {globalKey : Text}
    (hGlobal : globalKey ≠ [])
    (hText : KeyText globalKey)
    {s : State}
    {r : EntityRequest}
    (hOrderly : Orderly globalKey s)
    (hTidy :
      ∀ entities, r.body = .ok entities →
        entities.Tidy globalKey r.crypt) :
    Orderly globalKey (afterRequest globalKey s r) := by
  unfold afterRequest
  cases hPut : putEntities globalKey s r with
  | mk answer s' =>
      cases answer with
      | error error =>
          rw [putEntities_error hPut]
          exact hOrderly
      | ok _ =>
          cases hBody : r.body with
          | error error =>
              unfold putEntities at hPut
              rw [hBody] at hPut
              cases hPut
          | ok entities =>
              exact orderly_of_put hGlobal hText hOrderly hBody
                (hTidy entities hBody) hPut

/-
  In every run of tidy requests on orderly files, secrets
  are changed only as the requests ask.
-/
theorem secrets_kept
    {globalKey : Text}
    (hGlobal : globalKey ≠ [])
    (hText : KeyText globalKey)
    {s : State}
    (hOrderly : Orderly globalKey s)
    {requests : List EntityRequest}
    (hTidy :
      ∀ r ∈ requests, ∀ entities, r.body = .ok entities →
        entities.Tidy globalKey r.crypt) :
    Transition.Along (afterRequest globalKey)
      (KeepsSecrets globalKey) s requests := by
  have hAlong :
      Transition.Along (afterRequest globalKey)
        (fun _ r =>
          ∀ entities, r.body = .ok entities →
            entities.Tidy globalKey r.crypt)
        s requests :=
    Transition.Along.of_forall hTidy s
  apply Transition.Along.of_invariant _ _ hOrderly hAlong
  · intro s r hOrderly hTidy
    exact orderly_afterRequest hGlobal hText hOrderly hTidy
  · intro s r hOrderly hTidy
    exact keepsSecrets_of_orderly hGlobal hText hOrderly hTidy

/- A device with a custom key, or without the key. -/
def keyedDevice (key : Text) : Device where
  name := "core-sw-01"
  address := "10.0.1.1/32"
  platform := "Cisco IOS-XE"
  keyType := "custom"
  key := key
  group := "core"
  lastSeen := []
  status := []

def keyedGroup : DeviceGroup where
  name := "core"
  description := []
  keyType := "custom"
  key := "coreKey"
  members := 0

def plainRequest (entities : Entities) : EntityRequest where
  body := .ok entities
  crypt := fun _ _ => .noSalt []
  writeFault := none

/- A group, a device of it, and the device without its key. -/
def keyedRequests : List EntityRequest :=
  [plainRequest (.deviceGroups [keyedGroup]),
    plainRequest (.devices [keyedDevice "secret"]),
    plainRequest (.devices [keyedDevice []])]

theorem orderly_emptySession : Orderly "k" emptySession := by
  refine ⟨?_, ?_, ?_⟩
  · intro devices hLoad
    cases loadDevices_emptySession.symm.trans hLoad
    intro d hd
    cases hd
  · intro groups hLoad
    cases loadDeviceGroups_emptySession.symm.trans hLoad
    intro g hg
    cases hg
  · intro users hLoad
    rcases loadWith_ok_iff.mp hLoad with ⟨src, hRead, _⟩
    rw [readEffective_path] at hRead
    cases hRead

theorem keyedDevice_tidy
    {key : Text}
    (hKey : key ≠ [] → OwnKey "k" key) :
    DeviceTidy "k" (keyedDevice key) := by
  have hName : PlainWord "core-sw-01" :=
    ⟨by decide, by decide⟩
  have hAddress : PlainWord "10.0.1.1/32" :=
    ⟨by decide, by decide⟩
  have hPlatform : TrimmedLine "Cisco IOS-XE" :=
    ⟨by decide, by decide⟩
  have hGroup : PlainWord "core" :=
    ⟨by decide, by decide⟩
  exact ⟨hName, hAddress, hPlatform, Or.inr hGroup,
    fun _ => hKey⟩

theorem keyedRequests_kept :
    Transition.Along (afterRequest "k") (KeepsSecrets "k")
      emptySession keyedRequests := by
  have hSecret : OwnKey "k" "secret" :=
    ⟨⟨by decide, by decide, by decide⟩, by decide⟩
  have hCore : OwnKey "k" "coreKey" :=
    ⟨⟨by decide, by decide, by decide⟩, by decide⟩
  have hGroup : DeviceGroupTidy "k" keyedGroup :=
    ⟨⟨by decide, by decide⟩, ⟨by decide, by decide⟩,
      fun _ _ => hCore⟩
  apply secrets_kept _ _ orderly_emptySession
  · intro r hr entities hBody
    simp only [keyedRequests, List.mem_cons, List.not_mem_nil,
      or_false] at hr
    rcases hr with rfl | rfl | rfl
    · cases hBody
      intro g hg
      rw [List.mem_singleton.mp hg]
      exact hGroup
    · cases hBody
      intro d hd
      rw [List.mem_singleton.mp hd]
      exact keyedDevice_tidy fun _ => hSecret
    · cases hBody
      intro d hd
      rw [List.mem_singleton.mp hd]
      exact keyedDevice_tidy fun hNonempty =>
        (hNonempty rfl).elim
  · decide
  · exact ⟨by decide, by decide, by decide⟩

end Api

end Soteria
