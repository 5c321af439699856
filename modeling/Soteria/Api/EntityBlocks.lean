import Mathlib.Data.List.Perm.Basic
import Soteria.Api.Entities

/-
  What a staged entity file parses to.

  The handlers check the names they are given and little
  else. A field that keeps to its place is a value on one
  line, a remark in one comment or a key in its quotes. Where
  every field does, the file has one block for each entity,
  with the attributes of its kind; an address, a platform, a
  key, a group or a status that does not can add blocks and
  attributes of its own.

  Key definitions include:
    * `OnlyBlocks`
    * `Entities.blocks`
    * `KeyField`, `Entities.KeepToPlace`
    * `entities_onlyBlocks`
    * `address_adds_block`
-/

------------------------------------------------------------
-- The Blocks of a Request
------------------------------------------------------------

namespace Soteria

namespace Api

open Store Tacconfig

/- The source parses to these blocks, in some order. -/
def OnlyBlocks (shapes : List BlockShape) (src : Text) :
    Prop :=
  ∃ nodes comments order,
    parse src = .ok (nodes, comments) ∧ order.Perm shapes ∧
      List.Forall₂ BlockShape.Shows order nodes

/- What a reader finds, or nothing where it fails. -/
def orNone {ε α : Type} : Except ε (List α) → List α
| .ok found => found
| .error _ => []

/-
  One block for each submitted entity and, beside devices or
  their groups, one for each of the other kind in the file.
-/
def Entities.blocks (globalKey : Text) (s : State) :
    Entities → List BlockShape
| .devices body =>
    (orNone (loadDeviceGroups globalKey s)).map
        DeviceGroup.shape ++
      body.map Device.shape
| .deviceGroups body =>
    body.map DeviceGroup.shape ++
      (orNone (loadDevices globalKey s)).map Device.shape
| .users body => body.map User.shape
| .groups body => body.map Group.shape

/- The key keeps to its quotes and its line. -/
def KeyField (key : Text) : Prop :=
  ValueField (inQuotes key)

instance (key : Text) : Decidable (KeyField key) :=
  inferInstanceAs (Decidable (ValueField (inQuotes key)))

/- The submitted key, or the one the file has of the name. -/
def keptKey
    (keys : List (Text × Text))
    (name key : Text) : Text :=
  if key = [] then currentOf keys name else key

/- The fields of a submitted device keep to their places. -/
structure DeviceKeeps
    (globalKey : Text)
    (keys : List (Text × Text))
    (d : Device) : Prop where
  name : '\r' ∉ d.name
  platform : RemarkField d.platform
  address : ValueField d.address
  key : ∀ key,
    { d with key := keptKey keys d.name d.key }.writtenKey
        globalKey = some key →
      KeyField key

structure DeviceGroupKeeps
    (globalKey : Text)
    (keys : List (Text × Text))
    (g : DeviceGroup) : Prop where
  name : '\r' ∉ g.name
  description : RemarkField g.description
  key : KeyField
    ({ g with key := keptKey keys g.name g.key }.writtenKey
      globalKey)

structure UserKeeps
    (hashes : List (Text × Text))
    (run : CryptRun)
    (u : User) : Prop where
  name : '\r' ∉ u.name
  status : RemarkField u.status
  group : ValueField u.group
  hash : ∀ hash,
    (if u.password ≠ [] then hashPassword run
      else .ok (currentOf hashes u.name)) = .ok hash →
      KeyField hash

/-
  All that the request has written keeps to its place, keys
  of the other kind in the file included.
-/
def Entities.KeepToPlace
    (globalKey : Text)
    (crypt : Nat → Text → CryptRun)
    (s : State) : Entities → Prop
| .devices body =>
    (∀ d ∈ body,
      DeviceKeeps globalKey
        ((orNone (loadDevices globalKey s)).map fun e =>
          (e.name, e.key)) d) ∧
      ∀ g ∈ orNone (loadDeviceGroups globalKey s),
        KeyField (g.writtenKey globalKey)
| .deviceGroups body =>
    (∀ g ∈ body,
      DeviceGroupKeeps globalKey
        ((orNone (loadDeviceGroups globalKey s)).map fun e =>
          (e.name, e.key)) g) ∧
      ∀ d ∈ orNone (loadDevices globalKey s),
        ∀ key, d.writtenKey globalKey = some key →
          KeyField key
| .users body =>
    ∀ entry ∈ body.zipIdx,
      UserKeeps
        ((orNone (loadUsers s)).map fun e => (e.name, e.hash))
        (crypt entry.2 entry.1.password) entry.1
| .groups body => ∀ g ∈ body, '\r' ∉ g.name

end Api

end Soteria

------------------------------------------------------------
-- Accepted Entities
------------------------------------------------------------

namespace Soteria

namespace Api

open Store Tacconfig

theorem toOption_eq_some_iff
    {ε α : Type}
    {x : Except ε α}
    {a : α} :
    x.toOption = some a ↔ x = .ok a := by
  cases x <;> simp [Except.toOption]

/- The checks of a list pass where all of its checks do. -/
theorem mapM_ok_iff
    {ε α β : Type}
    {f : α → Except ε β}
    {xs : List α}
    {ys : List β} :
    xs.mapM f = .ok ys ↔
      List.Forall₂ (fun x y => f x = .ok y) xs ys := by
  induction xs generalizing ys with
  | nil => cases ys <;> simp [pure, Except.pure]
  | cons x xs ih =>
      rw [List.mapM_cons, bind_ok_iff]
      constructor
      · rintro ⟨y, hFirst, hRest⟩
        rcases bind_ok_iff.mp hRest with ⟨more, hMore, hEnd⟩
        cases hEnd
        exact .cons hFirst (ih.mp hMore)
      · intro hAll
        cases hAll with
        | cons hFirst hRest =>
            exact ⟨_, hFirst, bind_ok_iff.mpr
              ⟨_, ih.mpr hRest, rfl⟩⟩

/- An accepted device, with the key it keeps. -/
theorem checkDevice_ok
    {keys : List (Text × Text)}
    {groups : List DeviceGroup}
    {d d' : Device}
    (hCheck : checkDevice keys groups d = .ok d') :
    validateEntityName "device" d.name = none ∧
      (d.group ≠ [] → ∃ g ∈ groups, g.name = d.group) ∧
      ∃ key, d' = { d with key := key } ∧
        (d.keyType = "custom" →
          key = keptKey keys d.name d.key) := by
  unfold checkDevice at hCheck
  split at hCheck
  · cases hCheck
  rename_i hName
  split at hCheck
  · cases hCheck
  split at hCheck
  · cases hCheck
  rename_i hGroup
  split at hCheck
  · cases hCheck
  refine ⟨hName, ?_, ?_⟩
  · intro hSome
    by_contra hNone
    refine hGroup ⟨hSome, ?_⟩
    rw [Bool.eq_false_iff]
    intro hAny
    rcases List.any_eq_true.mp hAny with ⟨g, hg, hSame⟩
    exact hNone ⟨g, hg, by simpa using hSame⟩
  · split at hCheck
    · rename_i hKey
      split at hCheck
      · cases hCheck
        refine ⟨_, rfl, fun _ => ?_⟩
        rw [keptKey, if_pos hKey.2]
      · cases hCheck
    · rename_i hKey
      cases hCheck
      refine ⟨d.key, rfl, fun hCustom => ?_⟩
      rw [keptKey, if_neg fun hNil => hKey ⟨hCustom, hNil⟩]

/- An accepted group, with the key it keeps. -/
theorem checkDeviceGroup_ok
    {keys : List (Text × Text)}
    {g g' : DeviceGroup}
    (hCheck : checkDeviceGroup keys g = .ok g') :
    validateEntityName "device group" g.name = none ∧
      ∃ key, g' = { g with key := key } ∧
        (g.keyType = "custom" →
          key = keptKey keys g.name g.key) := by
  unfold checkDeviceGroup at hCheck
  split at hCheck
  · cases hCheck
  rename_i hName
  refine ⟨hName, ?_⟩
  split at hCheck
  · rename_i hKey
    split at hCheck
    · cases hCheck
      refine ⟨_, rfl, fun _ => ?_⟩
      rw [keptKey, if_pos hKey.2]
    · cases hCheck
  · rename_i hKey
    cases hCheck
    refine ⟨g.key, rfl, fun hCustom => ?_⟩
    rw [keptKey, if_neg fun hNil => hKey ⟨hCustom, hNil⟩]

/- An accepted user, with its new hash or the one it keeps. -/
theorem checkUser_ok
    {hashes : List (Text × Text)}
    {crypt : Nat → Text → CryptRun}
    {entry : User × Nat}
    {u' : User}
    (hCheck : checkUser hashes crypt entry = .ok u') :
    validateEntityName "user" entry.1.name = none ∧
      ∃ hash password,
        u' =
          { entry.1 with hash := hash, password := password } ∧
        (if entry.1.password ≠ [] then
            hashPassword (crypt entry.2 entry.1.password)
          else .ok (currentOf hashes entry.1.name)) =
          .ok hash := by
  rcases entry with ⟨u, i⟩
  unfold checkUser at hCheck
  dsimp only at hCheck ⊢
  split at hCheck
  · cases hCheck
  rename_i hName
  refine ⟨hName, ?_⟩
  split at hCheck
  · rename_i hPassword
    split at hCheck
    · cases hCheck
    · rename_i hash hHash
      cases hCheck
      exact ⟨hash, _, rfl, by rw [if_pos hPassword, hHash]⟩
  · rename_i hPassword
    split at hCheck
    · cases hCheck
      exact ⟨_, _, rfl, if_neg hPassword⟩
    · cases hCheck

end Api

end Soteria

------------------------------------------------------------
-- What the Handlers Stage
------------------------------------------------------------

namespace Soteria

namespace Api

open Store Tacconfig

variable {globalKey : Text}
variable {s : State}

theorem loadWith_ok_iff
    {α : Type}
    {parse : Text → Except ParseError α}
    {file : ManagedFile}
    {found : α} :
    loadWith parse file s = .ok found ↔
      ∃ src, readEffective s file.path = .ok src ∧
        parse src = .ok found := by
  unfold loadWith
  cases hRead : readEffective s file.path with
  | error error => simp
  | ok src =>
      cases hParse : parse src with
      | error error => simp [hParse]
      | ok other => simp [hParse]

/- Members do not change what is written of a group. -/
theorem countedDeviceGroups_mem
    {src : Text}
    {groups : List DeviceGroup}
    (hGroups : countedDeviceGroups globalKey src = .ok groups)
    {g : DeviceGroup}
    (hg : g ∈ groups) :
    LabelText g.name ∧ RemarkField g.description := by
  rcases map_ok_iff.mp hGroups with ⟨parsed, hParse, rfl⟩
  cases hDevices : parseDevices src globalKey with
  | error error =>
      rw [hDevices] at hg
      exact parseDeviceGroups_confined hParse hg
  | ok devices =>
      rw [hDevices] at hg
      rcases List.mem_map.mp hg with ⟨h, hh, rfl⟩
      have hConfined := parseDeviceGroups_confined hParse hh
      exact hConfined

/- A stored group whose key keeps to its place does. -/
theorem storedGroup_confined
    {groups : List DeviceGroup}
    (hLoad : loadDeviceGroups globalKey s = .ok groups)
    {g : DeviceGroup}
    (hg : g ∈ groups)
    (hKey : KeyField (g.writtenKey globalKey)) :
    g.Confined globalKey := by
  rcases loadWith_ok_iff.mp hLoad with ⟨src, _, hGroups⟩
  rcases countedDeviceGroups_mem hGroups hg with
    ⟨hName, hDescription⟩
  exact ⟨hName, hDescription, ValueField.pasted hKey⟩

/- A submitted device that is accepted keeps to its places. -/
theorem checkDevice_confined
    {keys : List (Text × Text)}
    {groups : List DeviceGroup}
    {d d' : Device}
    (hCheck : checkDevice keys groups d = .ok d')
    (hKeeps : DeviceKeeps globalKey keys d)
    (hGroups : ∀ g ∈ groups, LabelText g.name) :
    d'.Confined globalKey ∧ d'.shape = d.shape := by
  rcases checkDevice_ok hCheck with
    ⟨hName, hGroup, key, rfl, hKept⟩
  refine ⟨?_, rfl⟩
  constructor
  · exact (plainWord_of_valid hName hKeeps.name).labelText
  · exact hKeeps.platform
  · exact hKeeps.address.pasted
  · by_cases hNil : d.group = []
    · show ValuePasted d.group
      rw [hNil]
      exact ⟨[], splits_nil.lexesTo.pasted, by simp⟩
    · rcases hGroup hNil with ⟨g, hg, hSame⟩
      show ValuePasted d.group
      rw [← hSame]
      exact (hGroups g hg).pasted
  · intro written hWritten
    refine (hKeeps.key written ?_).pasted
    by_cases hCustom : d.keyType = "custom"
    · rw [← hKept hCustom]
      exact hWritten
    · simp only [Device.writtenKey, if_neg hCustom]
        at hWritten ⊢
      exact hWritten

/- A submitted group that is accepted keeps to its places. -/
theorem checkDeviceGroup_confined
    {keys : List (Text × Text)}
    {g g' : DeviceGroup}
    (hCheck : checkDeviceGroup keys g = .ok g')
    (hKeeps : DeviceGroupKeeps globalKey keys g) :
    g'.Confined globalKey ∧ g'.shape = g.shape := by
  rcases checkDeviceGroup_ok hCheck with
    ⟨hName, key, rfl, hKept⟩
  refine ⟨?_, rfl⟩
  constructor
  · exact (plainWord_of_valid hName hKeeps.name).labelText
  · exact hKeeps.description
  · have hKey := hKeeps.key
    by_cases hCustom : g.keyType = "custom"
    · rw [← hKept hCustom] at hKey
      exact ValueField.pasted hKey
    · simp only [DeviceGroup.writtenKey, if_neg hCustom]
        at hKey ⊢
      exact ValueField.pasted hKey

/- A submitted user that is accepted keeps to its places. -/
theorem checkUser_confined
    {hashes : List (Text × Text)}
    {crypt : Nat → Text → CryptRun}
    {entry : User × Nat}
    {u' : User}
    (hCheck : checkUser hashes crypt entry = .ok u')
    (hKeeps :
      UserKeeps hashes (crypt entry.2 entry.1.password)
        entry.1) :
    u'.Confined ∧ u'.shape = entry.1.shape := by
  rcases checkUser_ok hCheck with
    ⟨hName, hash, password, rfl, hHash⟩
  refine ⟨?_, rfl⟩
  constructor
  · exact (plainWord_of_valid hName hKeeps.name).labelText
  · exact hKeeps.status
  · exact ValueField.pasted (hKeeps.hash hash hHash)
  · exact hKeeps.group.pasted

theorem checkGroup_ok
    {g g' : Group}
    (hCheck : checkGroup g = .ok g') :
    validateEntityName "group" g.name = none ∧ g' = g := by
  unfold checkGroup at hCheck
  split at hCheck
  · cases hCheck
  · cases hCheck
    exact ⟨by assumption, rfl⟩

/- Checked entities have what each of the checks gives. -/
theorem forall₂_checked
    {α β γ : Type}
    {f : α → Except EntityError β}
    {xs : List α}
    {ys : List β}
    {C : β → Prop}
    {g : α → γ}
    {h : β → γ}
    (hAll : List.Forall₂ (fun x y => f x = .ok y) xs ys)
    (hEach : ∀ x ∈ xs, ∀ y, f x = .ok y → C y ∧ h y = g x) :
    (∀ y ∈ ys, C y) ∧ ys.map h = xs.map g := by
  induction hAll with
  | nil => simp
  | @cons x y xs ys hFirst hRest ih =>
      have hHead := hEach x (List.mem_cons_self ..) y hFirst
      rcases ih fun x hx =>
          hEach x (List.mem_cons_of_mem _ hx) with
        ⟨hKept, hShapes⟩
      constructor
      · intro z hz
        rcases List.mem_cons.mp hz with rfl | hz
        · exact hHead.1
        · exact hKept z hz
      · rw [List.map_cons, List.map_cons, hHead.2, hShapes]

/- Devices, groups included, are written to their blocks. -/
theorem renderDevices_onlyBlocks
    {devices : List Device}
    {groups : List DeviceGroup}
    (hDevices : ∀ d ∈ devices, d.Confined globalKey)
    (hGroups : ∀ g ∈ groups, g.Confined globalKey) :
    OnlyBlocks
      (groups.map DeviceGroup.shape ++
        devices.map Device.shape)
      (renderDevices devices groups globalKey) := by
  rcases renderDevices_parse hDevices hGroups with
    ⟨nodes, comments, hParse, hNodes⟩
  refine ⟨nodes, comments, _, hParse, ?_, hNodes⟩
  refine List.Perm.append_left _ (List.Perm.map _ ?_)
  have hPerm :=
    List.filter_append_perm (fun d => !d.isCatchAll) devices
  simpa [orderDevices] using hPerm

theorem planDevices_onlyBlocks
    {crypt : Nat → Text → CryptRun}
    {body : List Device}
    {content : Text}
    (hPlan : planDevices globalKey s body = .ok content)
    (hKeeps :
      (Entities.devices body).KeepToPlace globalKey crypt s) :
    OnlyBlocks ((Entities.devices body).blocks globalKey s)
      content := by
  rcases bind_ok_iff.mp hPlan with ⟨existing, hExisting, hPlan⟩
  rcases bind_ok_iff.mp hPlan with ⟨groups, hLoad, hContent⟩
  rcases map_ok_iff.mp hContent with ⟨devices, hChecked, rfl⟩
  simp only [Entities.KeepToPlace, Entities.blocks, hExisting,
    hLoad, orNone] at hKeeps ⊢
  have hGroups :
      ∀ g ∈ groups, g.Confined globalKey := fun g hg =>
    storedGroup_confined hLoad hg (hKeeps.2 g hg)
  rcases forall₂_checked (mapM_ok_iff.mp hChecked)
      fun d hd d' hCheck =>
        checkDevice_confined hCheck (hKeeps.1 d hd)
          fun g hg => (hGroups g hg).name with
    ⟨hDevices, hShapes⟩
  rw [← hShapes]
  exact renderDevices_onlyBlocks hDevices hGroups

theorem planDeviceGroups_onlyBlocks
    {crypt : Nat → Text → CryptRun}
    {body : List DeviceGroup}
    {content : Text}
    (hPlan : planDeviceGroups globalKey s body = .ok content)
    (hKeeps :
      (Entities.deviceGroups body).KeepToPlace globalKey crypt
        s) :
    OnlyBlocks
      ((Entities.deviceGroups body).blocks globalKey s)
      content := by
  rcases bind_ok_iff.mp hPlan with ⟨devices, hDevices, hPlan⟩
  rcases bind_ok_iff.mp hPlan with ⟨current, hLoad, hContent⟩
  simp only [Entities.KeepToPlace, Entities.blocks, hDevices,
    hLoad, orNone] at hKeeps ⊢
  unfold deviceGroupsContent at hContent
  split at hContent
  · cases hContent
  rename_i groups hChecked
  split at hContent
  · cases hContent
  cases hContent
  rcases forall₂_checked (mapM_ok_iff.mp hChecked)
      fun g hg g' hCheck =>
        checkDeviceGroup_confined hCheck (hKeeps.1 g hg) with
    ⟨hGroups, hShapes⟩
  rw [← hShapes]
  refine renderDevices_onlyBlocks ?_ hGroups
  intro d hd
  rcases loadWith_ok_iff.mp hDevices with ⟨src, _, hParse⟩
  refine parseDevices_confined hParse hd fun key hKey => ?_
  exact ValueField.pasted (hKeeps.2 d hd key hKey)

theorem planUsers_onlyBlocks
    {crypt : Nat → Text → CryptRun}
    {body : List User}
    {content : Text}
    (hPlan : planUsers crypt s body = .ok content)
    (hKeeps :
      (Entities.users body).KeepToPlace globalKey crypt s) :
    OnlyBlocks ((Entities.users body).blocks globalKey s)
      content := by
  rcases bind_ok_iff.mp hPlan with
    ⟨existing, hExisting, hContent⟩
  rcases map_ok_iff.mp hContent with ⟨users, hChecked, rfl⟩
  simp only [Entities.KeepToPlace, Entities.blocks, hExisting,
    orNone] at hKeeps ⊢
  rcases forall₂_checked (mapM_ok_iff.mp hChecked)
      fun entry hEntry u' hCheck =>
        checkUser_confined hCheck (hKeeps entry hEntry) with
    ⟨hUsers, hShapes⟩
  have hBody :
      body.zipIdx.map (fun entry => entry.1.shape) =
        body.map User.shape := by
    have hFirst := List.zipIdx_map_fst 0 body
    conv_rhs => rw [← hFirst, List.map_map]
    rfl
  rw [hBody] at hShapes
  rw [← hShapes]
  rcases renderUsers_parse hUsers with
    ⟨nodes, comments, hParse, hNodes⟩
  exact ⟨nodes, comments, _, hParse, List.Perm.refl _, hNodes⟩

theorem planGroups_onlyBlocks
    {crypt : Nat → Text → CryptRun}
    {body : List Group}
    {content : Text}
    (hPlan : planGroups s body = .ok content)
    (hKeeps :
      (Entities.groups body).KeepToPlace globalKey crypt s) :
    OnlyBlocks ((Entities.groups body).blocks globalKey s)
      content := by
  rcases bind_ok_iff.mp hPlan with ⟨current, _, hContent⟩
  unfold groupsContent at hContent
  split at hContent
  · cases hContent
  rename_i groups hChecked
  split at hContent
  · cases hContent
  cases hContent
  rcases forall₂_checked (g := Group.shape)
      (h := Group.shape) (mapM_ok_iff.mp hChecked)
      fun g hg g' hCheck => by
        rcases checkGroup_ok hCheck with ⟨hName, rfl⟩
        exact ⟨(plainWord_of_valid hName
          (hKeeps g' hg)).labelText, rfl⟩ with
    ⟨hNames, hShapes⟩
  rcases renderGroups_parse hNames with
    ⟨nodes, comments, hParse, hNodes⟩
  rw [hShapes] at hNodes
  exact ⟨nodes, comments, _, hParse, List.Perm.refl _, hNodes⟩

end Api

end Soteria

------------------------------------------------------------
-- Staged Files
------------------------------------------------------------

namespace Soteria

namespace Api

open Store Tacconfig

/- A request that is staged leaves what it planned. -/
theorem putEntities_ok
    {globalKey : Text}
    {s s' : State}
    {r : EntityRequest}
    {entities : Entities}
    (hBody : r.body = .ok entities)
    (hStaged : putEntities globalKey s r = (.ok (), s')) :
    ∃ content,
      planEntities globalKey r.crypt s entities =
          .ok content ∧
        s'.effective entities.file = some content := by
  unfold putEntities at hStaged
  rw [hBody] at hStaged
  dsimp only at hStaged
  split at hStaged
  · cases hStaged
  rename_i content hPlan
  refine ⟨content, hPlan, ?_⟩
  unfold commitEntities at hStaged
  split at hStaged
  · cases hStaged
  rename_i after hWrite
  cases hStaged
  rcases writeStaged_ok_iff.mp hWrite with
    ⟨session, _, _, rfl⟩
  simp [State.effective]

/- A request that is rejected changes nothing. -/
theorem putEntities_error
    {globalKey : Text}
    {s s' : State}
    {r : EntityRequest}
    {error : EntityError}
    (hPut : putEntities globalKey s r = (.error error, s')) :
    s' = s := by
  unfold putEntities at hPut
  split at hPut
  · exact (congrArg Prod.snd hPut).symm
  · split at hPut
    · exact (congrArg Prod.snd hPut).symm
    · unfold commitEntities at hPut
      split at hPut
      · exact (congrArg Prod.snd hPut).symm
      · cases hPut

/- A plan is staged in an open session if the write works. -/
theorem putEntities_staged
    {globalKey content : Text}
    {s : State}
    {session : Session}
    {r : EntityRequest}
    {entities : Entities}
    (hBody : r.body = .ok entities)
    (hPlan :
      planEntities globalKey r.crypt s entities = .ok content)
    (hOpen : s.staging = some session)
    (hWrites : r.writeFault = none) :
    ∃ s', putEntities globalKey s r = (.ok (), s') := by
  have hWrite :
      ∃ s',
        writeStaged r.writeFault entities.file.path content s =
          .ok s' :=
    ⟨_, writeStaged_ok_iff.mpr
      ⟨session, hOpen, hWrites, rfl⟩⟩
  rcases hWrite with ⟨s', hWrite⟩
  refine ⟨s', ?_⟩
  unfold putEntities
  rw [hBody]
  dsimp only
  rw [hPlan]
  dsimp only
  unfold commitEntities
  rw [hWrite]

/-
  A staged file parses to one block for each entity and to
  nothing else, if all that is written keeps to its place.
-/
theorem entities_onlyBlocks
    {globalKey : Text}
    {s s' : State}
    {r : EntityRequest}
    {entities : Entities}
    (hBody : r.body = .ok entities)
    (hStaged : putEntities globalKey s r = (.ok (), s'))
    (hKeeps : entities.KeepToPlace globalKey r.crypt s) :
    ∃ content,
      s'.effective entities.file = some content ∧
        OnlyBlocks (entities.blocks globalKey s) content := by
  rcases putEntities_ok hBody hStaged with
    ⟨content, hPlan, hFile⟩
  refine ⟨content, hFile, ?_⟩
  cases entities with
  | devices body => exact planDevices_onlyBlocks hPlan hKeeps
  | deviceGroups body =>
      exact planDeviceGroups_onlyBlocks hPlan hKeeps
  | users body => exact planUsers_onlyBlocks hPlan hKeeps
  | groups body => exact planGroups_onlyBlocks hPlan hKeeps

/- An open session whose device file is empty. -/
def emptySession : State where
  live := FileTree.empty
  staging := some ⟨FileTree.empty.set .devices [], false⟩
  backups := .empty
  golden := none
  retain := none

/- A device whose address closes its block and opens another. -/
def injectingDevice : Device where
  name := "d"
  address := "10.0.0.1\n\x7d\nuser evil \x7b"
  platform := []
  keyType := "global"
  key := []
  group := []
  lastSeen := []
  status := []

def injectingRequest : EntityRequest where
  body := .ok (.devices [injectingDevice])
  crypt := fun _ _ => .noSalt []
  writeFault := none

theorem loadDevices_emptySession :
    loadDevices "k" emptySession = .ok [] := by
  refine loadWith_ok_iff.mpr ⟨[], ?_, rfl⟩
  rw [readEffective_path]
  rfl

theorem loadDeviceGroups_emptySession :
    loadDeviceGroups "k" emptySession = .ok [] := by
  refine loadWith_ok_iff.mpr ⟨[], ?_, rfl⟩
  rw [readEffective_path]
  rfl

theorem planDevices_injecting :
    planDevices "k" emptySession [injectingDevice] =
      .ok (renderDevices [injectingDevice] [] "k") := by
  have hCheck :
      checkDevice [] [] injectingDevice =
        .ok injectingDevice :=
    rfl
  refine bind_ok_iff.mpr ⟨_, loadDevices_emptySession, ?_⟩
  refine bind_ok_iff.mpr ⟨_, loadDeviceGroups_emptySession, ?_⟩
  refine map_ok_iff.mpr ⟨_, mapM_ok_iff.mpr ?_, rfl⟩
  exact .cons hCheck .nil

/- What the address makes of the block. -/
theorem injecting_parse :
    ∃ nodes comments,
      parse (renderDevices [injectingDevice] [] "k") =
          .ok (nodes, comments) ∧
        nodes.length = 2 := by
  have hDevice :=
    heading_label plainWord_device (by decide) (by decide)
      (PlainWord.lexesTo (s := "d") ⟨by decide, by decide⟩ 0)
      (by simp [Token.isText])
  have hUser :=
    heading_label plainWord_user (by decide) (by decide)
      (PlainWord.lexesTo (s := "evil") ⟨by decide, by decide⟩ 0)
      (by simp [Token.isText])
  have hAddress :=
    yields_word plainWord_address (by decide) indent_nil
      (PlainWord.valuePasted (s := "10.0.0.1")
        ⟨by decide, by decide⟩)
  have hQuoted : ValueField (inQuotes "k") := by decide
  have hKey :=
    yields_word plainWord_key (by decide) indent_four
      hQuoted.pasted
  have hBlocks :=
    ((yields_block hDevice hAddress).append
      (yields_block hUser hKey)).append Yields.blank
  have hBanner : Yields BlockShape.Shows _ [] :=
    yields_banner "04-devices.cfg"
      "Network devices (NAS) definitions" (by decide)
  have hFile := (hBanner.append hBlocks).parse
  rcases hFile with ⟨nodes, comments, hParse, hNodes⟩
  refine ⟨nodes, comments, ?_, hNodes.length_eq.symm⟩
  have hOrder :
      orderDevices [injectingDevice] = [injectingDevice] := rfl
  have hText :
      renderDevices [injectingDevice] [] "k" =
        banner "04-devices.cfg"
            "Network devices (NAS) definitions" ++
          renderDevice "k" injectingDevice := by
    simp only [renderDevices, hOrder, List.flatMap_cons,
      List.flatMap_nil, List.append_nil]
  rw [hText]
  exact hParse

/- A staged address that opens a block of its own. -/
theorem address_adds_block :
    ∃ s',
      putEntities "k" emptySession injectingRequest =
          (.ok (), s') ∧
        ∀ content,
          s'.effective .devices = some content →
            ¬ OnlyBlocks
                ((Entities.devices [injectingDevice]).blocks
                  "k" emptySession)
                content := by
  have hPlan :
      planEntities "k" injectingRequest.crypt emptySession
          (.devices [injectingDevice]) =
        .ok (renderDevices [injectingDevice] [] "k") :=
    planDevices_injecting
  have hStaged :
      ∃ s',
        putEntities "k" emptySession injectingRequest =
          (.ok (), s') :=
    putEntities_staged rfl hPlan rfl rfl
  rcases hStaged with ⟨s', hPut⟩
  refine ⟨s', hPut, fun content hContent hOnly => ?_⟩
  rcases putEntities_ok rfl hPut with ⟨planned, hFound, hFile⟩
  have hSame : planned = content :=
    Option.some.inj (hFile.symm.trans hContent)
  have hRendered :
      renderDevices [injectingDevice] [] "k" = planned :=
    Except.ok.inj (planDevices_injecting.symm.trans hFound)
  rcases injecting_parse with
    ⟨nodes, comments, hParse, hLength⟩
  rw [hRendered, hSame] at hParse
  rcases hOnly with
    ⟨others, found, order, hOther, hPerm, hShows⟩
  rw [hParse] at hOther
  cases hOther
  have hCount := hShows.length_eq
  rw [hLength, hPerm.length_eq] at hCount
  rw [Entities.blocks, loadDeviceGroups_emptySession] at hCount
  cases hCount

/- A device that is staged as it should be. -/
def plainDevice : Device where
  name := "core-sw-01"
  address := "10.0.1.1/32"
  platform := "Cisco IOS-XE"
  keyType := "custom"
  key := "secret"
  group := []
  lastSeen := []
  status := []

theorem plainDevice_onlyBlock :
    ∃ s' content,
      putEntities "k" emptySession
          ⟨.ok (.devices [plainDevice]), fun _ _ => .noSalt [],
            none⟩ = (.ok (), s') ∧
        s'.effective .devices = some content ∧
          OnlyBlocks [plainDevice.shape] content := by
  have hCheck :
      checkDevice [] [] plainDevice = .ok plainDevice := rfl
  have hPlan :
      planDevices "k" emptySession [plainDevice] =
        .ok (renderDevices [plainDevice] [] "k") := by
    refine bind_ok_iff.mpr ⟨_, loadDevices_emptySession, ?_⟩
    refine bind_ok_iff.mpr
      ⟨_, loadDeviceGroups_emptySession, ?_⟩
    refine map_ok_iff.mpr ⟨_, mapM_ok_iff.mpr ?_, rfl⟩
    exact .cons hCheck .nil
  have hDevice : DeviceKeeps "k" [] plainDevice := by
    constructor
    · decide
    · decide
    · decide
    · intro key hKey
      have hSecret : key = "secret" :=
        (Option.some.inj hKey).symm
      subst hSecret
      decide
  have hKeeps :
      (Entities.devices [plainDevice]).KeepToPlace "k"
        (fun _ _ => .noSalt []) emptySession := by
    simp only [Entities.KeepToPlace, loadDevices_emptySession,
      loadDeviceGroups_emptySession, orNone]
    exact ⟨by simpa using hDevice, by simp⟩
  have hPlan' :
      planEntities "k" (fun _ _ => .noSalt []) emptySession
          (.devices [plainDevice]) =
        .ok (renderDevices [plainDevice] [] "k") := hPlan
  have hStaged :
      ∃ s',
        putEntities "k" emptySession
            ⟨.ok (.devices [plainDevice]),
              fun _ _ => .noSalt [], none⟩ = (.ok (), s') :=
    putEntities_staged rfl hPlan' rfl rfl
  rcases hStaged with ⟨s', hPut⟩
  rcases entities_onlyBlocks rfl hPut hKeeps with
    ⟨content, hFile, hOnly⟩
  refine ⟨s', content, hPut, hFile, ?_⟩
  rw [Entities.blocks, loadDeviceGroups_emptySession] at hOnly
  exact hOnly

end Api

end Soteria
