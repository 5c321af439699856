import Soteria.Api.EntityBlocks
import Soteria.Tacconfig.Accounts
import Soteria.Tacconfig.Inventory

/-
  What the staged entity files are read as.

  A device is written with one of three kinds of key, and is
  read with that kind. Where the files and the requests are
  tidy, each accepted request leaves files that are read as
  the entities it was accepted with.

  Key definitions include:
    * `Device.settled`, `DeviceGroup.settled`
    * `Keyed`, `KeyChecked`
    * `Entities.Tidy`, `Orderly`
    * `orderly_of_put`
-/

------------------------------------------------------------
-- Kinds of Keys
------------------------------------------------------------

namespace Soteria

namespace Tacconfig

/- The device as the file has it: other kinds are shared. -/
def Device.settled (d : Device) : Device :=
  if d.keyType = "custom" then d
  else if d.keyType = "group" then { d with key := [] }
  else { d with keyType := "global", key := [] }

def DeviceGroup.settled (g : DeviceGroup) : DeviceGroup :=
  if g.keyType = "custom" then g
  else { g with keyType := "global", key := [] }

/- Only the key and its kind are settled. -/
theorem Device.settled_fields (d : Device) :
    d.settled.name = d.name ∧ d.settled.address = d.address ∧
      d.settled.platform = d.platform ∧
        d.settled.group = d.group := by
  unfold Device.settled
  split
  · exact ⟨rfl, rfl, rfl, rfl⟩
  · split
    · exact ⟨rfl, rfl, rfl, rfl⟩
    · exact ⟨rfl, rfl, rfl, rfl⟩

theorem DeviceGroup.settled_fields (g : DeviceGroup) :
    g.settled.name = g.name ∧
      g.settled.description = g.description := by
  unfold DeviceGroup.settled
  split
  · exact ⟨rfl, rfl⟩
  · exact ⟨rfl, rfl⟩

theorem Device.settled_writtenKey
    (globalKey : Text)
    (d : Device) :
    d.settled.writtenKey globalKey = d.writtenKey globalKey := by
  have hGlobal : ("global" : Text) ≠ "custom" := by decide
  have hOther : ("global" : Text) ≠ "group" := by decide
  unfold Device.settled
  split
  · rfl
  · rename_i hCustom
    split
    · rename_i hGroup
      unfold Device.writtenKey
      rw [if_neg hCustom, if_neg hCustom, if_pos hGroup]
    · rename_i hGroup
      -- the kind is not evaluated again
      generalize ("global" : Text) = kind at hGlobal hOther ⊢
      unfold Device.writtenKey
      rw [if_neg hCustom, if_neg hGroup, if_neg hGlobal,
        if_neg hOther]

theorem DeviceGroup.settled_writtenKey
    (globalKey : Text)
    (g : DeviceGroup) :
    g.settled.writtenKey globalKey = g.writtenKey globalKey := by
  have hGlobal : ("global" : Text) ≠ "custom" := by decide
  unfold DeviceGroup.settled
  split
  · rfl
  · rename_i hCustom
    generalize ("global" : Text) = kind at hGlobal ⊢
    unfold DeviceGroup.writtenKey
    rw [if_neg hCustom, if_neg hGlobal]

theorem renderDevice_settled
    (globalKey : Text)
    (d : Device) :
    renderDevice globalKey d.settled =
      renderDevice globalKey d := by
  rcases d.settled_fields with
    ⟨hName, hAddress, hPlatform, hGroup⟩
  unfold renderDevice
  rw [hName, hAddress, hPlatform, hGroup,
    Device.settled_writtenKey]

theorem renderDeviceGroup_settled
    (globalKey : Text)
    (g : DeviceGroup) :
    renderDeviceGroup globalKey g.settled =
      renderDeviceGroup globalKey g := by
  rcases g.settled_fields with ⟨hName, hDescription⟩
  unfold renderDeviceGroup
  rw [hName, hDescription, DeviceGroup.settled_writtenKey]

theorem settled_isCatchAll (d : Device) :
    d.settled.isCatchAll = d.isCatchAll := by
  unfold Device.isCatchAll
  rw [d.settled_fields.2.1]

/- The file is written from what it has. -/
theorem renderDevices_settled
    (globalKey : Text)
    (devices : List Device)
    (groups : List DeviceGroup) :
    renderDevices (devices.map Device.settled)
        (groups.map DeviceGroup.settled) globalKey =
      renderDevices devices groups globalKey := by
  have hOrder :
      orderDevices (devices.map Device.settled) =
        (orderDevices devices).map Device.settled := by
    simp only [orderDevices, List.filter_map, List.map_append,
      Function.comp_def, settled_isCatchAll]
  unfold renderDevices
  rw [hOrder, List.flatMap_map, List.flatMap_map]
  simp only [renderDevice_settled, renderDeviceGroup_settled]

end Tacconfig

end Soteria

------------------------------------------------------------
-- Checked Keys
------------------------------------------------------------

namespace Soteria

namespace Api

open Store Tacconfig

/- What has a name and a key of some kind. -/
structure Keyed where
  name : Text
  keyType : Text
  key : Text

end Api

namespace Tacconfig

def Device.keyed (d : Device) : Api.Keyed :=
  ⟨d.name, d.keyType, d.key⟩

def DeviceGroup.keyed (g : DeviceGroup) : Api.Keyed :=
  ⟨g.name, g.keyType, g.key⟩

end Tacconfig

namespace Api

open Store Tacconfig

/- A custom key is the submitted one or one of the table. -/
structure KeyChecked
    (keys : List (Text × Text))
    (x x' : Keyed) : Prop where
  name : x'.name = x.name
  keyType : x'.keyType = x.keyType
  nonempty : x.keyType = "custom" → x'.key ≠ []
  origin :
    x.keyType = "custom" →
      x'.key = x.key ∨
        x.key = [] ∧ (x.name, x'.key) ∈ keys

theorem currentOf_mem
    {entries : List (Text × Text)}
    {name : Text}
    (hSome : currentOf entries name ≠ []) :
    (name, currentOf entries name) ∈ entries := by
  unfold currentOf at hSome ⊢
  cases hFind : entries.reverse.find? fun e => e.1 == name with
  | none =>
      rw [hFind] at hSome
      exact (hSome rfl).elim
  | some e =>
      have hMem := List.mem_of_find?_eq_some hFind
      have hName := List.find?_some hFind
      rcases e with ⟨other, value⟩
      have hSame : other = name := by simpa using hName
      subst hSame
      exact List.mem_reverse.mp hMem

/- A key that is not custom, or that is not left out. -/
theorem keyChecked_refl
    {keys : List (Text × Text)}
    {x : Keyed}
    (hKey : ¬ (x.keyType = "custom" ∧ x.key = [])) :
    KeyChecked keys x x where
  name := rfl
  keyType := rfl
  nonempty hCustom hEmpty := hKey ⟨hCustom, hEmpty⟩
  origin _ := Or.inl rfl

/- A key that is left out and that the table has. -/
theorem keyChecked_kept
    {keys : List (Text × Text)}
    {x : Keyed}
    (hEmpty : x.key = [])
    (hCurrent : currentOf keys x.name ≠ []) :
    KeyChecked keys x
      { x with key := currentOf keys x.name } where
  name := rfl
  keyType := rfl
  nonempty _ := hCurrent
  origin _ := Or.inr ⟨hEmpty, currentOf_mem hCurrent⟩

theorem checkDevice_keyed
    {keys : List (Text × Text)}
    {groups : List DeviceGroup}
    {d d' : Device}
    (hCheck : checkDevice keys groups d = .ok d') :
    KeyChecked keys d.keyed d'.keyed ∧
      (d.keyType = "group" → d.group ≠ []) := by
  unfold checkDevice at hCheck
  split at hCheck
  · cases hCheck
  split at hCheck
  · cases hCheck
  split at hCheck
  · cases hCheck
  split at hCheck
  · cases hCheck
  rename_i hGroup
  have hParent : d.keyType = "group" → d.group ≠ [] :=
    fun hType hEmpty => hGroup ⟨hType, hEmpty⟩
  split at hCheck
  · rename_i hKey
    split at hCheck
    · rename_i hCurrent
      cases hCheck
      exact ⟨keyChecked_kept hKey.2 hCurrent, hParent⟩
    · cases hCheck
  · rename_i hKey
    cases hCheck
    exact ⟨keyChecked_refl hKey, hParent⟩

theorem checkDeviceGroup_keyed
    {keys : List (Text × Text)}
    {g g' : DeviceGroup}
    (hCheck : checkDeviceGroup keys g = .ok g') :
    KeyChecked keys g.keyed g'.keyed := by
  unfold checkDeviceGroup at hCheck
  split at hCheck
  · cases hCheck
  split at hCheck
  · rename_i hKey
    split at hCheck
    · rename_i hCurrent
      cases hCheck
      exact keyChecked_kept hKey.2 hCurrent
    · cases hCheck
  · rename_i hKey
    cases hCheck
    exact keyChecked_refl hKey

end Api

end Soteria

------------------------------------------------------------
-- Tidy Requests
------------------------------------------------------------

namespace Soteria

namespace Api

open Store Tacconfig

/- A key that is not taken for the shared one. -/
structure OwnKey (globalKey key : Text) : Prop where
  text : KeyText key
  other : isGlobalKey globalKey key = false

structure DeviceTidy
    (globalKey : Text)
    (d : Device) : Prop where
  name : PlainWord d.name
  address : PlainWord d.address
  platform : TrimmedLine d.platform
  group : d.group = [] ∨ PlainWord d.group
  key : d.keyType = "custom" → d.key ≠ [] →
    OwnKey globalKey d.key

structure DeviceGroupTidy
    (globalKey : Text)
    (g : DeviceGroup) : Prop where
  name : PlainWord g.name
  description : TrimmedLine g.description
  key : g.keyType = "custom" → g.key ≠ [] →
    OwnKey globalKey g.key

structure UserTidy (run : CryptRun) (u : User) : Prop where
  name : PlainWord u.name
  group : u.group = [] ∨ PlainWord u.group
  status : TrimmedLine u.status
  hash : ∀ hash, u.password ≠ [] →
    hashPassword run = .ok hash → HashText hash

/- The texts of a request, and the hashes it is given. -/
def Entities.Tidy
    (globalKey : Text)
    (crypt : Nat → Text → CryptRun) : Entities → Prop
| .devices body => ∀ d ∈ body, DeviceTidy globalKey d
| .deviceGroups body => ∀ g ∈ body, DeviceGroupTidy globalKey g
| .users body =>
    ∀ entry ∈ body.zipIdx,
      UserTidy (crypt entry.2 entry.1.password) entry.1
| .groups _ => True

/- What the files have, where they can be read. -/
structure Orderly (globalKey : Text) (s : State) : Prop where
  devices : ∀ devices,
    loadDevices globalKey s = .ok devices →
      ∀ d ∈ devices, d.Encodable globalKey
  groups : ∀ groups,
    loadDeviceGroups globalKey s = .ok groups →
      ∀ g ∈ groups, g.Encodable globalKey
  users : ∀ users,
    loadUsers s = .ok users →
      ∀ u ∈ users, u.Encodable ∧ u.hash ≠ []

variable {globalKey : Text}

/- A key of its own is left, or taken from the table. -/
theorem KeyChecked.ownKey
    {keys : List (Text × Text)}
    {x x' : Keyed}
    (hChecked : KeyChecked keys x x')
    (hKey : x.key ≠ [] → OwnKey globalKey x.key)
    (hKeys : ∀ e ∈ keys, e.2 ≠ [] → OwnKey globalKey e.2)
    (hCustom : x.keyType = "custom") :
    KeyOf globalKey "custom" x'.key := by
  have hNonempty := hChecked.nonempty hCustom
  have hOwn : OwnKey globalKey x'.key := by
    rcases hChecked.origin hCustom with hSame | ⟨_, hMem⟩
    · rw [hSame] at hNonempty ⊢
      exact hKey hNonempty
    · exact hKeys _ hMem hNonempty
  exact .custom hOwn.text hNonempty hOwn.other

theorem device_ownKey
    {d : Device}
    (hEncodable : d.Encodable globalKey)
    (hNonempty : d.key ≠ []) :
    OwnKey globalKey d.key ∧ d.keyType = "custom" := by
  rcases Device.writtenKey_cases hEncodable with
    ⟨_, hNone, _⟩ | ⟨hType, hText, _, hOther, _⟩ |
      ⟨_, _, hNone, _⟩
  · exact (hNonempty hNone).elim
  · exact ⟨⟨hText, hOther⟩, hType⟩
  · exact (hNonempty hNone).elim

theorem deviceGroup_ownKey
    {g : DeviceGroup}
    (hEncodable : g.Encodable globalKey)
    (hNonempty : g.key ≠ []) :
    OwnKey globalKey g.key ∧ g.keyType = "custom" := by
  rcases DeviceGroup.writtenKey_cases hEncodable with
    ⟨_, hNone, _⟩ | ⟨hType, hText, hOther, _⟩
  · exact (hNonempty hNone).elim
  · exact ⟨⟨hText, hOther⟩, hType⟩

/- An accepted device is read as it was written. -/
theorem checkDevice_encodable
    {keys : List (Text × Text)}
    {groups : List DeviceGroup}
    {d d' : Device}
    (hGlobal : KeyText globalKey)
    (hCheck : checkDevice keys groups d = .ok d')
    (hTidy : DeviceTidy globalKey d)
    (hKeys : ∀ e ∈ keys, e.2 ≠ [] → OwnKey globalKey e.2) :
    d'.settled.Encodable globalKey := by
  rcases checkDevice_ok hCheck with ⟨_, _, key, hSame, _⟩
  rcases checkDevice_keyed hCheck with ⟨hKeyed, hParent⟩
  have hOwn :=
    fun hCustom => hKeyed.ownKey (hTidy.key hCustom) hKeys
      hCustom
  subst hSame
  have hType :
      KeyOf globalKey
          (Device.settled { d with key := key }).keyType
          (Device.settled { d with key := key }).key ∨
        (Device.settled { d with key := key }).keyType =
            "group" ∧
          d.group ≠ [] ∧
            (Device.settled { d with key := key }).key = [] := by
    unfold Device.settled
    split
    · rename_i hCustom
      have hCustom' : d.keyType = "custom" := hCustom
      left
      show KeyOf globalKey d.keyType key
      rw [hCustom']
      exact hOwn hCustom'
    · split
      · rename_i hGroup
        exact Or.inr ⟨hGroup, hParent hGroup, rfl⟩
      · exact Or.inl (.shared hGlobal)
  rcases Device.settled_fields { d with key := key } with
    ⟨hName, hAddress, hPlatform, hGroup⟩
  constructor
  · rw [hName]
    exact hTidy.name
  · rw [hAddress]
    exact hTidy.address
  · rw [hPlatform]
    exact hTidy.platform
  · rw [hGroup]
    exact hTidy.group
  · rw [hGroup]
    exact hType

theorem checkDeviceGroup_encodable
    {keys : List (Text × Text)}
    {g g' : DeviceGroup}
    (hGlobal : KeyText globalKey)
    (hCheck : checkDeviceGroup keys g = .ok g')
    (hTidy : DeviceGroupTidy globalKey g)
    (hKeys : ∀ e ∈ keys, e.2 ≠ [] → OwnKey globalKey e.2) :
    g'.settled.Encodable globalKey := by
  rcases checkDeviceGroup_ok hCheck with ⟨_, key, hSame, _⟩
  have hKeyed := checkDeviceGroup_keyed hCheck
  have hOwn :=
    fun hCustom => hKeyed.ownKey (hTidy.key hCustom) hKeys
      hCustom
  subst hSame
  have hType :
      KeyOf globalKey
        (DeviceGroup.settled { g with key := key }).keyType
        (DeviceGroup.settled { g with key := key }).key := by
    unfold DeviceGroup.settled
    split
    · rename_i hCustom
      have hCustom' : g.keyType = "custom" := hCustom
      show KeyOf globalKey g.keyType key
      rw [hCustom']
      exact hOwn hCustom'
    · exact .shared hGlobal
  rcases DeviceGroup.settled_fields { g with key := key } with
    ⟨hName, hDescription⟩
  constructor
  · rw [hName]
    exact hTidy.name
  · rw [hDescription]
    exact hTidy.description
  · exact hType

end Api

end Soteria

------------------------------------------------------------
-- What Is Read Afterwards
------------------------------------------------------------

namespace Soteria

namespace Api

open Store Tacconfig

variable {globalKey : Text}
variable {s s' : State}

/- Only the file of the entities is staged. -/
theorem putEntities_frame
    {r : EntityRequest}
    {entities : Entities}
    (hBody : r.body = .ok entities)
    (hPut : putEntities globalKey s r = (.ok (), s'))
    {file : ManagedFile}
    (hOther : file ≠ entities.file) :
    s'.effective file = s.effective file := by
  unfold putEntities at hPut
  rw [hBody] at hPut
  dsimp only at hPut
  split at hPut
  · cases hPut
  unfold commitEntities at hPut
  split at hPut
  · cases hPut
  rename_i after hWrite
  cases hPut
  rcases writeStaged_ok_iff.mp hWrite with
    ⟨session, hOpen, _, rfl⟩
  simp only [State.effective, hOpen, Option.bind_some]
  rw [FileTree.set_of_ne session.files _ hOther]

theorem loadWith_congr
    {α : Type}
    (parse : Text → Except ParseError α)
    {file : ManagedFile}
    (hSame : s'.effective file = s.effective file) :
    loadWith parse file s' = loadWith parse file s := by
  unfold loadWith
  rw [readEffective_path, readEffective_path, hSame]

theorem loadWith_of_effective
    {α : Type}
    {parse : Text → Except ParseError α}
    {file : ManagedFile}
    {src : Text}
    {found : α}
    (hFile : s.effective file = some src)
    (hParse : parse src = .ok found) :
    loadWith parse file s = .ok found := by
  refine loadWith_ok_iff.mpr ⟨src, ?_, hParse⟩
  rw [readEffective_path, hFile]

/- A group with the devices that have it. -/
def counted
    (devices : List Device)
    (g : DeviceGroup) : DeviceGroup :=
  { g with members := deviceCount devices g.name }

/- What a rendered device file is read as. -/
theorem load_renderDevices
    (hGlobal : globalKey ≠ [])
    {devices : List Device}
    (hDevices : ∀ d ∈ devices, d.Encodable globalKey)
    {groups : List DeviceGroup}
    (hGroups : ∀ g ∈ groups, g.Encodable globalKey)
    (hFile :
      s.effective .devices =
        some (renderDevices devices groups globalKey)) :
    loadDevices globalKey s =
        .ok ((sortDevicesForDisplay devices).map
          Device.listed) ∧
      loadDeviceGroups globalKey s =
        .ok (groups.map
          (counted
            ((sortDevicesForDisplay devices).map
              Device.listed))) := by
  have hReadDevices :=
    parseDevices_renderDevices hGlobal hDevices hGroups
  have hReadGroups :=
    parseDeviceGroups_renderDevices hGlobal hDevices hGroups
  constructor
  · exact loadWith_of_effective hFile hReadDevices
  · apply loadWith_of_effective hFile
    have hCounted :
        (groups.map DeviceGroup.uncounted).map
            (counted
              ((sortDevicesForDisplay devices).map
                Device.listed)) =
          groups.map
            (counted
              ((sortDevicesForDisplay devices).map
                Device.listed)) := by
      rw [List.map_map]
      rfl
    unfold countedDeviceGroups
    rw [hReadGroups, hReadDevices]
    exact congrArg Except.ok hCounted

theorem load_renderUsers
    {users : List User}
    (hUsers : ∀ u ∈ users, u.Encodable)
    (hFile : s.effective .users = some (renderUsers users)) :
    loadUsers s = .ok (users.map User.listed) :=
  loadWith_of_effective hFile (parseUsers_renderUsers hUsers)

/- Entities that are read with their keys are settled. -/
theorem settled_of_encodable
    {d : Device}
    (hEncodable : d.Encodable globalKey) :
    d.settled = d := by
  have hCustom : ("global" : Text) ≠ "custom" := by decide
  have hGroup : ("global" : Text) ≠ "group" := by decide
  have hOther : ("group" : Text) ≠ "custom" := by decide
  rcases Device.writtenKey_cases hEncodable with
    ⟨hType, hNone, _⟩ | ⟨hType, _⟩ | ⟨hType, _, hNone, _⟩
  · unfold Device.settled
    rw [hType, if_neg hCustom, if_neg hGroup, ← hType, ← hNone]
  · exact if_pos hType
  · unfold Device.settled
    rw [hType, if_neg hOther, if_pos rfl, ← hType, ← hNone]

theorem group_settled_of_encodable
    {g : DeviceGroup}
    (hEncodable : g.Encodable globalKey) :
    g.settled = g := by
  have hCustom : ("global" : Text) ≠ "custom" := by decide
  rcases DeviceGroup.writtenKey_cases hEncodable with
    ⟨hType, hNone, _⟩ | ⟨hType, _⟩
  · unfold DeviceGroup.settled
    rw [hType, if_neg hCustom, ← hType, ← hNone]
  · exact if_pos hType

/- A device file with the entities it is written from. -/
theorem load_staged
    (hGlobal : globalKey ≠ [])
    {devices : List Device}
    (hDevices : ∀ d ∈ devices, d.settled.Encodable globalKey)
    {groups : List DeviceGroup}
    (hGroups : ∀ g ∈ groups, g.settled.Encodable globalKey)
    (hFile :
      s.effective .devices =
        some (renderDevices devices groups globalKey)) :
    ∃ found,
      found =
          (sortDevicesForDisplay
            (devices.map Device.settled)).map Device.listed ∧
        loadDevices globalKey s = .ok found ∧
          loadDeviceGroups globalKey s =
            .ok ((groups.map DeviceGroup.settled).map
              (counted found)) := by
  have hSettled :
      ∀ d ∈ devices.map Device.settled,
        d.Encodable globalKey := by
    intro d hd
    rcases List.mem_map.mp hd with ⟨e, he, rfl⟩
    exact hDevices e he
  have hSettled' :
      ∀ g ∈ groups.map DeviceGroup.settled,
        g.Encodable globalKey := by
    intro g hg
    rcases List.mem_map.mp hg with ⟨h, hh, rfl⟩
    exact hGroups h hh
  rw [← renderDevices_settled] at hFile
  rcases load_renderDevices hGlobal hSettled hSettled' hFile with
    ⟨hReadDevices, hReadGroups⟩
  exact ⟨_, rfl, hReadDevices, hReadGroups⟩

theorem keys_of_devices
    {devices : List Device}
    (hDevices : ∀ d ∈ devices, d.Encodable globalKey) :
    ∀ e ∈ devices.map (fun d => (d.name, d.key)),
      e.2 ≠ [] → OwnKey globalKey e.2 := by
  intro e he hNonempty
  rcases List.mem_map.mp he with ⟨d, hd, rfl⟩
  exact (device_ownKey (hDevices d hd) hNonempty).1

theorem keys_of_deviceGroups
    {groups : List DeviceGroup}
    (hGroups : ∀ g ∈ groups, g.Encodable globalKey) :
    ∀ e ∈ groups.map (fun g => (g.name, g.key)),
      e.2 ≠ [] → OwnKey globalKey e.2 := by
  intro e he hNonempty
  rcases List.mem_map.mp he with ⟨g, hg, rfl⟩
  exact (deviceGroup_ownKey (hGroups g hg) hNonempty).1

/- What checks give each accepted entity. -/
theorem forall_of_checked
    {α β : Type}
    {f : α → Except EntityError β}
    {C : β → Prop}
    {xs : List α}
    {ys : List β}
    (hAll : List.Forall₂ (fun x y => f x = .ok y) xs ys)
    (hEach : ∀ x ∈ xs, ∀ y, f x = .ok y → C y) :
    ∀ y ∈ ys, C y := by
  induction hAll with
  | nil =>
      intro y hy
      cases hy
  | @cons x y xs ys hFirst _ ih =>
      intro z hz
      rcases List.mem_cons.mp hz with rfl | hz
      · exact hEach x (List.mem_cons_self ..) z hFirst
      · exact ih (fun x hx =>
          hEach x (List.mem_cons_of_mem _ hx)) z hz

variable {r : EntityRequest}

/- `PUT devices`: what is read before and afterwards. -/
theorem put_devices
    (hGlobal : globalKey ≠ [])
    (hText : KeyText globalKey)
    (hOrderly : Orderly globalKey s)
    {body : List Device}
    (hBody : r.body = .ok (.devices body))
    (hTidy : ∀ d ∈ body, DeviceTidy globalKey d)
    (hPut : putEntities globalKey s r = (.ok (), s')) :
    ∃ existing groups accepted found,
      loadDevices globalKey s = .ok existing ∧
        loadDeviceGroups globalKey s = .ok groups ∧
        List.Forall₂
          (fun d d' =>
            checkDevice
                (existing.map fun d => (d.name, d.key)) groups
                d =
              .ok d')
          body accepted ∧
        (∀ d ∈ accepted, d.settled.Encodable globalKey) ∧
        found =
          (sortDevicesForDisplay
            (accepted.map Device.settled)).map Device.listed ∧
        loadDevices globalKey s' = .ok found ∧
        loadDeviceGroups globalKey s' =
          .ok ((groups.map DeviceGroup.settled).map
            (counted found)) := by
  rcases putEntities_ok hBody hPut with ⟨content, hPlan, hFile⟩
  rcases bind_ok_iff.mp hPlan with ⟨existing, hExisting, hPlan⟩
  rcases bind_ok_iff.mp hPlan with ⟨groups, hGroups, hContent⟩
  rcases map_ok_iff.mp hContent with ⟨accepted, hChecked, rfl⟩
  have hAll := mapM_ok_iff.mp hChecked
  have hKeys :=
    keys_of_devices (hOrderly.devices existing hExisting)
  have hAccepted :
      ∀ d ∈ accepted, d.settled.Encodable globalKey :=
    forall_of_checked hAll fun d hd d' hCheck =>
      checkDevice_encodable hText hCheck (hTidy d hd) hKeys
  have hStored :
      ∀ g ∈ groups, g.settled.Encodable globalKey := by
    intro g hg
    have hEncodable := hOrderly.groups groups hGroups g hg
    rwa [group_settled_of_encodable hEncodable]
  rcases load_staged hGlobal hAccepted hStored hFile with
    ⟨found, hFound, hDevices', hGroups'⟩
  exact ⟨existing, groups, accepted, found, hExisting, hGroups,
    hAll, hAccepted, hFound, hDevices', hGroups'⟩

/- `PUT device-groups`: what is read before and afterwards. -/
theorem put_deviceGroups
    (hGlobal : globalKey ≠ [])
    (hText : KeyText globalKey)
    (hOrderly : Orderly globalKey s)
    {body : List DeviceGroup}
    (hBody : r.body = .ok (.deviceGroups body))
    (hTidy : ∀ g ∈ body, DeviceGroupTidy globalKey g)
    (hPut : putEntities globalKey s r = (.ok (), s')) :
    ∃ devices current accepted found,
      loadDevices globalKey s = .ok devices ∧
        loadDeviceGroups globalKey s = .ok current ∧
        List.Forall₂
          (fun g g' =>
            checkDeviceGroup
                (current.map fun g => (g.name, g.key)) g =
              .ok g')
          body accepted ∧
        (∀ g ∈ accepted, g.settled.Encodable globalKey) ∧
        removedInUse devices current accepted = none ∧
        found =
          (sortDevicesForDisplay
            (devices.map Device.settled)).map Device.listed ∧
        loadDevices globalKey s' = .ok found ∧
        loadDeviceGroups globalKey s' =
          .ok ((accepted.map DeviceGroup.settled).map
            (counted found)) := by
  rcases putEntities_ok hBody hPut with ⟨content, hPlan, hFile⟩
  rcases bind_ok_iff.mp hPlan with ⟨devices, hDevices, hPlan⟩
  rcases bind_ok_iff.mp hPlan with ⟨current, hCurrent, hContent⟩
  unfold deviceGroupsContent at hContent
  split at hContent
  · cases hContent
  rename_i accepted hChecked
  split at hContent
  · cases hContent
  rename_i hKept
  cases hContent
  have hAll := mapM_ok_iff.mp hChecked
  have hKeys :=
    keys_of_deviceGroups (hOrderly.groups current hCurrent)
  have hAccepted :
      ∀ g ∈ accepted, g.settled.Encodable globalKey :=
    forall_of_checked hAll fun g hg g' hCheck =>
      checkDeviceGroup_encodable hText hCheck (hTidy g hg) hKeys
  have hStored :
      ∀ d ∈ devices, d.settled.Encodable globalKey := by
    intro d hd
    have hEncodable := hOrderly.devices devices hDevices d hd
    rwa [settled_of_encodable hEncodable]
  rcases load_staged hGlobal hStored hAccepted hFile with
    ⟨found, hFound, hDevices', hGroups'⟩
  exact ⟨devices, current, accepted, found, hDevices, hCurrent,
    hAll, hAccepted, hKept, hFound, hDevices', hGroups'⟩

theorem hashPassword_nonempty
    {run : CryptRun}
    {hash : Text}
    (hHash : hashPassword run = .ok hash) :
    hash ≠ [] := by
  unfold hashPassword at hHash
  split at hHash
  · cases hHash
  · cases hHash
  · rename_i code output
    split at hHash
    · cases hHash
    · rename_i hFine
      cases hHash
      intro hEmpty
      apply hFine
      right
      rw [hEmpty]
      rfl

/- The hash of an accepted user, and where it is from. -/
theorem checkUser_hash
    {hashes : List (Text × Text)}
    {crypt : Nat → Text → CryptRun}
    {entry : User × Nat}
    {u' : User}
    (hCheck : checkUser hashes crypt entry = .ok u') :
    u'.name = entry.1.name ∧ u'.group = entry.1.group ∧
      u'.status = entry.1.status ∧ u'.hash ≠ [] ∧
      (entry.1.password ≠ [] ∧
          hashPassword (crypt entry.2 entry.1.password) =
            .ok u'.hash ∨
        entry.1.password = [] ∧
          (entry.1.name, u'.hash) ∈ hashes) := by
  rcases entry with ⟨u, i⟩
  unfold checkUser at hCheck
  dsimp only at hCheck ⊢
  split at hCheck
  · cases hCheck
  split at hCheck
  · rename_i hPassword
    split at hCheck
    · cases hCheck
    · rename_i hash hHash
      cases hCheck
      exact ⟨rfl, rfl, rfl, hashPassword_nonempty hHash,
        Or.inl ⟨hPassword, hHash⟩⟩
  · rename_i hPassword
    split at hCheck
    · rename_i hCurrent
      cases hCheck
      exact ⟨rfl, rfl, rfl, hCurrent,
        Or.inr ⟨not_not.mp hPassword, currentOf_mem hCurrent⟩⟩
    · cases hCheck

theorem checkUser_encodable
    {hashes : List (Text × Text)}
    {crypt : Nat → Text → CryptRun}
    {entry : User × Nat}
    {u' : User}
    (hCheck : checkUser hashes crypt entry = .ok u')
    (hTidy :
      UserTidy (crypt entry.2 entry.1.password) entry.1)
    (hHashes : ∀ e ∈ hashes, HashText e.2) :
    u'.Encodable ∧ u'.hash ≠ [] := by
  rcases checkUser_hash hCheck with
    ⟨hName, hGroup, hStatus, hNonempty, hOrigin⟩
  have hHash : HashText u'.hash := by
    rcases hOrigin with ⟨hPassword, hHash⟩ | ⟨_, hMem⟩
    · exact hTidy.hash _ hPassword hHash
    · exact hHashes _ hMem
  refine ⟨⟨?_, ?_, ?_, hHash⟩, hNonempty⟩
  · rw [hName]
    exact hTidy.name
  · rw [hGroup]
    exact hTidy.group
  · rw [hStatus]
    exact hTidy.status

/- `PUT users`: what is read before and afterwards. -/
theorem put_users
    (hOrderly : Orderly globalKey s)
    {body : List User}
    (hBody : r.body = .ok (.users body))
    (hTidy :
      ∀ entry ∈ body.zipIdx,
        UserTidy (r.crypt entry.2 entry.1.password) entry.1)
    (hPut : putEntities globalKey s r = (.ok (), s')) :
    ∃ existing accepted,
      loadUsers s = .ok existing ∧
        List.Forall₂
          (fun entry u' =>
            checkUser (existing.map fun u => (u.name, u.hash))
                r.crypt entry =
              .ok u')
          body.zipIdx accepted ∧
        (∀ u ∈ accepted, u.Encodable ∧ u.hash ≠ []) ∧
        loadUsers s' = .ok (accepted.map User.listed) := by
  rcases putEntities_ok hBody hPut with ⟨content, hPlan, hFile⟩
  rcases bind_ok_iff.mp hPlan with
    ⟨existing, hExisting, hContent⟩
  rcases map_ok_iff.mp hContent with ⟨accepted, hChecked, rfl⟩
  have hAll := mapM_ok_iff.mp hChecked
  have hHashes :
      ∀ e ∈ existing.map (fun u => (u.name, u.hash)),
        HashText e.2 := by
    intro e he
    rcases List.mem_map.mp he with ⟨u, hu, rfl⟩
    exact (hOrderly.users existing hExisting u hu).1.hash
  have hAccepted :
      ∀ u ∈ accepted, u.Encodable ∧ u.hash ≠ [] :=
    forall_of_checked hAll fun entry hEntry u' hCheck =>
      checkUser_encodable hCheck (hTidy entry hEntry) hHashes
  exact ⟨existing, accepted, hExisting, hAll, hAccepted,
    load_renderUsers (fun u hu => (hAccepted u hu).1) hFile⟩

/- Files that a request does not stage are read as before. -/
theorem load_frame
    {entities : Entities}
    (hBody : r.body = .ok entities)
    (hPut : putEntities globalKey s r = (.ok (), s')) :
    (entities.file ≠ .users → loadUsers s' = loadUsers s) ∧
      (entities.file ≠ .devices →
        loadDevices globalKey s' = loadDevices globalKey s ∧
          loadDeviceGroups globalKey s' =
            loadDeviceGroups globalKey s) := by
  constructor
  · intro hOther
    exact loadWith_congr _
      (putEntities_frame hBody hPut (Ne.symm hOther))
  · intro hOther
    have hFrame :=
      putEntities_frame hBody hPut (Ne.symm hOther)
    exact ⟨loadWith_congr _ hFrame, loadWith_congr _ hFrame⟩

end Api

end Soteria

------------------------------------------------------------
-- Orderly Files
------------------------------------------------------------

namespace Soteria

namespace Api

open Store Tacconfig

variable {globalKey : Text}
variable {s s' : State}

theorem listed_encodable
    {d : Device}
    (hEncodable : d.Encodable globalKey) :
    d.listed.Encodable globalKey :=
  ⟨hEncodable.name, hEncodable.address, hEncodable.platform,
    hEncodable.group, hEncodable.key⟩

theorem counted_encodable
    {g : DeviceGroup}
    (hEncodable : g.Encodable globalKey)
    (devices : List Device) :
    (counted devices g).Encodable globalKey :=
  ⟨hEncodable.name, hEncodable.description, hEncodable.key⟩

theorem user_listed_encodable
    {u : User}
    (hEncodable : u.Encodable) :
    u.listed.Encodable := by
  refine ⟨hEncodable.name, hEncodable.group, ?_,
    hEncodable.hash⟩
  unfold User.listed
  by_cases hEmpty : u.status = []
  · have hStatus :
        (if u.status = [] then ("active" : Text) else u.status) =
          "active" :=
      if_pos hEmpty
    simp only [hStatus]
    exact ⟨by decide, by decide⟩
  · have hStatus :
        (if u.status = [] then ("active" : Text) else u.status) =
          u.status :=
      if_neg hEmpty
    simp only [hStatus]
    exact hEncodable.status

/- Found devices have what the written ones have. -/
theorem found_encodable
    {devices : List Device}
    (hDevices : ∀ d ∈ devices, d.settled.Encodable globalKey) :
    ∀ d ∈
        (sortDevicesForDisplay
          (devices.map Device.settled)).map Device.listed,
      d.Encodable globalKey := by
  intro d hd
  rcases List.mem_map.mp hd with ⟨e, he, rfl⟩
  rcases List.mem_map.mp (mem_sortDevicesForDisplay.mp he) with
    ⟨f, hf, rfl⟩
  exact listed_encodable (hDevices f hf)

theorem found_groups_encodable
    {groups : List DeviceGroup}
    (hGroups : ∀ g ∈ groups, g.settled.Encodable globalKey)
    (devices : List Device) :
    ∀ g ∈
        (groups.map DeviceGroup.settled).map
          (counted devices),
      g.Encodable globalKey := by
  intro g hg
  rcases List.mem_map.mp hg with ⟨h, hh, rfl⟩
  rcases List.mem_map.mp hh with ⟨k, hk, rfl⟩
  exact counted_encodable (hGroups k hk) devices

/- Tidy requests leave orderly files orderly. -/
theorem orderly_of_put
    (hGlobal : globalKey ≠ [])
    (hText : KeyText globalKey)
    (hOrderly : Orderly globalKey s)
    {r : EntityRequest}
    {entities : Entities}
    (hBody : r.body = .ok entities)
    (hTidy : entities.Tidy globalKey r.crypt)
    (hPut : putEntities globalKey s r = (.ok (), s')) :
    Orderly globalKey s' := by
  rcases load_frame hBody hPut with ⟨hUsers, hDevices⟩
  cases entities with
  | devices body =>
      rcases put_devices hGlobal hText hOrderly hBody hTidy hPut
        with ⟨_, groups, accepted, found, _, hGroups, _,
          hAccepted, rfl, hFound, hFoundGroups⟩
      have hStored :
          ∀ g ∈ groups, g.settled.Encodable globalKey := by
        intro g hg
        have hEncodable := hOrderly.groups groups hGroups g hg
        rwa [group_settled_of_encodable hEncodable]
      refine ⟨?_, ?_, ?_⟩
      · intro devices hLoad
        cases hFound.symm.trans hLoad
        exact found_encodable hAccepted
      · intro groups' hLoad
        cases hFoundGroups.symm.trans hLoad
        exact found_groups_encodable hStored _
      · rw [hUsers (by decide : ManagedFile.devices ≠ .users)]
        exact hOrderly.users
  | deviceGroups body =>
      rcases put_deviceGroups hGlobal hText hOrderly hBody hTidy
          hPut
        with ⟨devices, _, accepted, found, hLoaded, _, _,
          hAccepted, _, rfl, hFound, hFoundGroups⟩
      have hStored :
          ∀ d ∈ devices, d.settled.Encodable globalKey := by
        intro d hd
        have hEncodable := hOrderly.devices devices hLoaded d hd
        rwa [settled_of_encodable hEncodable]
      refine ⟨?_, ?_, ?_⟩
      · intro devices' hLoad
        cases hFound.symm.trans hLoad
        exact found_encodable hStored
      · intro groups' hLoad
        cases hFoundGroups.symm.trans hLoad
        exact found_groups_encodable hAccepted _
      · rw [hUsers (by decide : ManagedFile.devices ≠ .users)]
        exact hOrderly.users
  | users body =>
      rcases put_users hOrderly hBody hTidy hPut with
        ⟨_, accepted, _, _, hAccepted, hFound⟩
      rcases hDevices (by decide : ManagedFile.users ≠ .devices)
        with ⟨hSame, hSameGroups⟩
      refine ⟨?_, ?_, ?_⟩
      · rw [hSame]
        exact hOrderly.devices
      · rw [hSameGroups]
        exact hOrderly.groups
      · intro users hLoad
        cases hFound.symm.trans hLoad
        intro u hu
        rcases List.mem_map.mp hu with ⟨v, hv, rfl⟩
        exact ⟨user_listed_encodable (hAccepted v hv).1,
          (hAccepted v hv).2⟩
  | groups body =>
      rcases hDevices (by decide : ManagedFile.groups ≠ .devices)
        with ⟨hSame, hSameGroups⟩
      refine ⟨?_, ?_, ?_⟩
      · rw [hSame]
        exact hOrderly.devices
      · rw [hSameGroups]
        exact hOrderly.groups
      · rw [hUsers (by decide : ManagedFile.groups ≠ .users)]
        exact hOrderly.users

end Api

end Soteria
