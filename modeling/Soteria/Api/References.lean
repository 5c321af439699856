import Soteria.Api.Secrets
import Soteria.Tacconfig.References

/-
  What the entities refer to, over runs of requests.

  A user is a member of a group of another file, and a device
  has a parent in the other half of its own. Taking away a
  group that is in use is rejected on both sides; assigning a
  group that is not defined is rejected for devices only.

  Key definitions include:
    * `MembersDefined`, `AssignsDefined`
    * `members_defined_iff`
    * `DevicesLinked`, `parents_above`
-/

------------------------------------------------------------
-- Users and Groups That Are Read
------------------------------------------------------------

namespace Soteria

namespace Api

open Store Tacconfig

variable {globalKey : Text}
variable {s s' : State}

/- The groups are those of the file, with their members. -/
theorem loadGroups_ok
    {groups : List Group}
    (hLoad : loadGroups s = .ok groups) :
    ∃ parsed,
      loadWith parseGroups .groups s = .ok parsed ∧
        groups.map Group.name = parsed.map Group.name ∧
          ∀ users, loadUsers s = .ok users →
            ∀ g ∈ groups, g.members = userCount users g.name := by
  rcases map_ok_iff.mp hLoad with ⟨parsed, hParsed, hGroups⟩
  refine ⟨parsed, hParsed, ?_, ?_⟩
  · cases hUsers : loadUsers s with
    | error error =>
        rw [hUsers] at hGroups
        rw [← hGroups]
    | ok users =>
        rw [hUsers] at hGroups
        rw [← hGroups, List.map_map]
        rfl
  · intro users hUsers g hg
    rw [hUsers] at hGroups
    rw [← hGroups] at hg
    rcases List.mem_map.mp hg with ⟨h, _, hSame⟩
    rw [← hSame]

theorem loadGroups_of_parsed
    {parsed : List Group}
    (hParsed : loadWith parseGroups .groups s = .ok parsed) :
    ∃ groups,
      loadGroups s = .ok groups ∧
        groups.map Group.name = parsed.map Group.name := by
  have hLoad :
      ∃ groups, loadGroups s = .ok groups :=
    ⟨_, map_ok_iff.mpr ⟨parsed, hParsed, rfl⟩⟩
  rcases hLoad with ⟨groups, hLoad⟩
  rcases loadGroups_ok hLoad with ⟨other, hOther, hNames, _⟩
  cases hParsed.symm.trans hOther
  exact ⟨groups, hLoad, hNames⟩

/- A group without members is none that a user has. -/
theorem userCount_eq_zero
    {users : List User}
    {name : Text} :
    userCount users name = 0 ↔
      name ∉ users.map User.group := by
  unfold userCount
  rw [List.countP_eq_zero]
  simp only [beq_iff_eq, List.mem_map, not_exists, not_and]

/- An accepted list of groups leaves out none with members. -/
theorem groupsContent_ok
    {current body : List Group}
    {content : Text}
    (hContent : groupsContent current body = .ok content) :
    content = renderGroups body ∧
      (∀ g ∈ body, validateEntityName "group" g.name = none) ∧
        ∀ g ∈ current,
          g.name ∈ body.map Group.name ∨ g.members = 0 := by
  unfold groupsContent at hContent
  split at hContent
  · cases hContent
  rename_i groups hChecked
  split at hContent
  · cases hContent
  rename_i hKept
  have hChecks :
      ∀ g ∈ body, ∀ g', checkGroup g = .ok g' →
        validateEntityName "group" g'.name = none ∧ g' = g := by
    intro g _ g' hCheck
    rcases checkGroup_ok hCheck with ⟨hName, hSame⟩
    rw [hSame]
    exact ⟨hName, rfl⟩
  rcases forall₂_checked (g := id) (h := id)
      (mapM_ok_iff.mp hChecked) hChecks with
    ⟨hNames, hSame⟩
  rw [List.map_id, List.map_id] at hSame
  rw [hSame] at hContent hKept hNames
  refine ⟨(Except.ok.inj hContent).symm, hNames, ?_⟩
  intro g hg
  have hPassed := List.find?_eq_none.mp hKept g hg
  simp only [Bool.and_eq_true, Bool.not_eq_true',
    decide_eq_true_eq, not_and, not_lt, Nat.le_zero,
    List.any_eq_false, beq_iff_eq] at hPassed
  by_cases hIn : g.name ∈ body.map Group.name
  · exact Or.inl hIn
  · right
    apply hPassed
    intro h hh hSameName
    rw [← hSameName] at hIn
    exact hIn (List.mem_map_of_mem hh)

end Api

end Soteria

------------------------------------------------------------
-- Members of Defined Groups
------------------------------------------------------------

namespace Soteria

namespace Api

open Store Tacconfig

variable {globalKey : Text}
variable {s s' : State}

/- Each user's group is defined, as far as it has one. -/
def MembersDefined (s : State) : Prop :=
  ∃ users groups,
    loadUsers s = .ok users ∧ loadGroups s = .ok groups ∧
      Resolved (groups.map Group.name) (users.map User.group)

/-
  The names of the request are words, and what else it has
  written of users keeps to its place.
-/
def PlainNames
    (globalKey : Text)
    (s : State)
    (r : EntityRequest) : Prop :=
  match r.body with
  | .ok (.users body) =>
      (Entities.users body).KeepToPlace globalKey r.crypt s ∧
        ∀ u ∈ body, Reference u.group
  | .ok (.groups body) => ∀ g ∈ body, '\r' ∉ g.name
  | _ => True

/- The request is answered as staged. -/
def Accepted
    (globalKey : Text)
    (s : State)
    (r : EntityRequest) : Prop :=
  (putEntities globalKey s r).1 = .ok ()

/- Submitted users are members of groups that are defined. -/
def AssignsDefined (s : State) (r : EntityRequest) : Prop :=
  match r.body with
  | .ok (.users body) =>
      ∀ groups, loadGroups s = .ok groups →
        Resolved (groups.map Group.name) (body.map User.group)
  | _ => True

/- Accepted users are staged with the groups they are in. -/
theorem put_users_members
    {r : EntityRequest}
    {body : List User}
    (hBody : r.body = .ok (.users body))
    (hKeeps :
      (Entities.users body).KeepToPlace globalKey r.crypt s)
    (hGroups : ∀ u ∈ body, Reference u.group)
    (hPut : putEntities globalKey s r = (.ok (), s')) :
    ∃ found,
      loadUsers s' = .ok found ∧
        found.map User.group = body.map User.group := by
  rcases putEntities_ok hBody hPut with ⟨content, hPlan, hFile⟩
  rcases bind_ok_iff.mp hPlan with
    ⟨existing, hExisting, hContent⟩
  rcases map_ok_iff.mp hContent with ⟨users, hChecked, hText⟩
  simp only [Entities.KeepToPlace, hExisting, orNone] at hKeeps
  have hChecks :
      ∀ entry ∈ body.zipIdx, ∀ u',
        checkUser (existing.map fun u => (u.name, u.hash))
            r.crypt entry = .ok u' →
          (u'.Confined ∧ Reference u'.group) ∧
            u'.group = entry.1.group := by
    intro entry hEntry u' hCheck
    have hSame : u'.group = entry.1.group :=
      (checkUser_hash hCheck).2.1
    have hBare : Reference entry.1.group :=
      hGroups entry.1 (List.fst_mem_of_mem_zipIdx hEntry)
    rw [← hSame] at hBare
    exact ⟨⟨(checkUser_confined hCheck
      (hKeeps entry hEntry)).1, hBare⟩, hSame⟩
  rcases forall₂_checked (mapM_ok_iff.mp hChecked) hChecks with
    ⟨hUsers, hMembers⟩
  rcases parseUsers_members (fun u hu => (hUsers u hu).1)
      (fun u hu => (hUsers u hu).2) with
    ⟨found, hParse, hFound⟩
  rw [hText] at hParse
  refine ⟨found, loadWith_of_effective hFile hParse, ?_⟩
  rw [hFound, hMembers]
  conv_rhs => rw [← List.zipIdx_map_fst 0 body, List.map_map]
  rfl

/- Accepted groups are staged, with all that have members. -/
theorem put_groups_names
    {r : EntityRequest}
    {body : List Group}
    (hBody : r.body = .ok (.groups body))
    (hNames : ∀ g ∈ body, '\r' ∉ g.name)
    (hPut : putEntities globalKey s r = (.ok (), s')) :
    ∃ current found,
      loadGroups s = .ok current ∧ loadGroups s' = .ok found ∧
        found.map Group.name = body.map Group.name ∧
          ∀ g ∈ current,
            g.name ∈ found.map Group.name ∨ g.members = 0 := by
  rcases putEntities_ok hBody hPut with ⟨content, hPlan, hFile⟩
  rcases bind_ok_iff.mp hPlan with
    ⟨current, hCurrent, hContent⟩
  rcases groupsContent_ok hContent with
    ⟨hText, hValid, hKept⟩
  have hLabels : ∀ g ∈ body, LabelText g.name :=
    fun g hg =>
      (plainWord_of_valid (hValid g hg) (hNames g hg)).labelText
  rcases parseGroups_names hLabels with
    ⟨parsed, hParse, hParsed⟩
  rw [← hText] at hParse
  rcases loadGroups_of_parsed
      (loadWith_of_effective hFile hParse) with
    ⟨found, hFound, hSame⟩
  have hAll := hSame.trans hParsed
  refine ⟨current, found, hCurrent, hFound, hAll, ?_⟩
  rw [hAll]
  exact hKept

/- A request leaves the groups where it does not stage them. -/
theorem loadGroups_frame
    {r : EntityRequest}
    {entities : Entities}
    (hBody : r.body = .ok entities)
    (hPut : putEntities globalKey s r = (.ok (), s'))
    (hOther : ManagedFile.groups ≠ entities.file)
    {groups : List Group}
    (hLoad : loadGroups s = .ok groups) :
    ∃ found,
      loadGroups s' = .ok found ∧
        found.map Group.name = groups.map Group.name := by
  rcases loadGroups_ok hLoad with ⟨parsed, hParsed, hNames, _⟩
  have hSame :=
    loadWith_congr parseGroups
      (putEntities_frame hBody hPut hOther)
  rcases loadGroups_of_parsed (hSame.trans hParsed) with
    ⟨found, hFound, hFoundNames⟩
  exact ⟨found, hFound, hFoundNames.trans hNames.symm⟩

/- Groups with members are not taken away. -/
theorem members_defined_of_groups
    {r : EntityRequest}
    {body : List Group}
    (hBody : r.body = .ok (.groups body))
    (hNames : ∀ g ∈ body, '\r' ∉ g.name)
    (hPut : putEntities globalKey s r = (.ok (), s'))
    (hDefined : MembersDefined s) :
    MembersDefined s' := by
  rcases hDefined with ⟨users, groups, hUsers, hGroups, hRefs⟩
  rcases put_groups_names hBody hNames hPut with
    ⟨current, found, hCurrent, hFound, _, hKept⟩
  cases hGroups.symm.trans hCurrent
  have hUsersAfter : loadUsers s' = .ok users := by
    rw [(load_frame hBody hPut).1 (by simp [Entities.file])]
    exact hUsers
  refine ⟨users, found, hUsersAfter, hFound, ?_⟩
  apply hRefs.keep
  intro name hName
  rcases List.mem_map.mp hName with ⟨g, hg, hSame⟩
  rw [← hSame]
  rcases hKept g hg with hIn | hNone
  · exact Or.inl hIn
  · right
    rcases loadGroups_ok hGroups with ⟨_, _, _, hCounts⟩
    rw [hCounts users hUsers g hg] at hNone
    exact userCount_eq_zero.mp hNone

/- Accepted users are in defined groups if they are assigned so. -/
theorem members_defined_of_users
    {r : EntityRequest}
    {body : List User}
    (hBody : r.body = .ok (.users body))
    (hKeeps :
      (Entities.users body).KeepToPlace globalKey r.crypt s)
    (hRefs : ∀ u ∈ body, Reference u.group)
    (hPut : putEntities globalKey s r = (.ok (), s'))
    (hDefined : MembersDefined s) :
    MembersDefined s' ↔ AssignsDefined s r := by
  rcases hDefined with ⟨_, groups, _, hGroups, _⟩
  rcases put_users_members hBody hKeeps hRefs hPut with
    ⟨found, hFound, hMembers⟩
  rcases loadGroups_frame hBody hPut (by simp [Entities.file])
      hGroups with
    ⟨after, hAfter, hNames⟩
  unfold MembersDefined AssignsDefined
  simp only [hFound, hAfter, hGroups, hBody, Except.ok.injEq,
    exists_and_left, exists_eq_left', forall_eq', hMembers,
    hNames]

/- Requests for other files leave them as they are. -/
theorem members_defined_frame
    {r : EntityRequest}
    {entities : Entities}
    (hBody : r.body = .ok entities)
    (hPut : putEntities globalKey s r = (.ok (), s'))
    (hUsers : entities.file ≠ .users)
    (hGroups : .groups ≠ entities.file)
    (hDefined : MembersDefined s) :
    MembersDefined s' := by
  rcases hDefined with ⟨users, groups, hLoad, hFound, hRefs⟩
  rcases loadGroups_frame hBody hPut hGroups hFound with
    ⟨after, hAfter, hNames⟩
  refine ⟨users, after, ?_, hAfter, ?_⟩
  · rw [(load_frame hBody hPut).1 hUsers]
    exact hLoad
  · rw [hNames]
    exact hRefs

/-
  A request leaves the groups of the users defined exactly
  if it assigns defined groups, or is rejected.
-/
theorem members_defined_step
    {r : EntityRequest}
    (hDefined : MembersDefined s)
    (hPlain : PlainNames globalKey s r) :
    MembersDefined (afterRequest globalKey s r) ↔
      (Accepted globalKey s r → AssignsDefined s r) := by
  unfold afterRequest Accepted
  cases hPut : putEntities globalKey s r with
  | mk answer s' =>
      cases answer with
      | error error =>
          rw [putEntities_error hPut]
          constructor
          · intro _ hAccepted
            cases hAccepted
          · intro _
            exact hDefined
      | ok _ =>
          simp only [forall_const]
          cases hBody : r.body with
          | error error =>
              unfold putEntities at hPut
              rw [hBody] at hPut
              cases hPut
          | ok entities =>
              unfold PlainNames at hPlain
              rw [hBody] at hPlain
              cases entities with
              | users body =>
                  exact members_defined_of_users hBody hPlain.1
                    hPlain.2 hPut hDefined
              | groups body =>
                  have hAfter :=
                    members_defined_of_groups hBody hPlain hPut
                      hDefined
                  unfold AssignsDefined
                  rw [hBody]
                  exact ⟨fun _ => trivial, fun _ => hAfter⟩
              | devices body | deviceGroups body =>
                  have hAfter :=
                    members_defined_frame hBody hPut
                      (by simp [Entities.file])
                      (by simp [Entities.file]) hDefined
                  unfold AssignsDefined
                  rw [hBody]
                  exact ⟨fun _ => trivial, fun _ => hAfter⟩

/-
  Over a run of requests, the groups of the users stay
  defined exactly where all accepted users are assigned to
  defined groups.
-/
theorem members_defined_iff
    {globalKey : Text}
    {s : State}
    {requests : List EntityRequest}
    (hDefined : MembersDefined s)
    (hPlain :
      Transition.Along (afterRequest globalKey)
        (PlainNames globalKey) s requests) :
    Transition.Along (afterRequest globalKey)
        (fun s r => MembersDefined (afterRequest globalKey s r))
        s requests ↔
      Transition.Along (afterRequest globalKey)
        (fun s r => Accepted globalKey s r → AssignsDefined s r)
        s requests := by
  apply Transition.along_congr_of_invariant _ _ hDefined hPlain
  · intro s r _ _ hAfter
    exact hAfter
  · intro s r hDefined hPlain
    exact members_defined_step hDefined hPlain

/- An open session without users and groups. -/
def vacantSession : State where
  live := FileTree.empty
  staging :=
    some ⟨(FileTree.empty.set .users []).set .groups [], false⟩
  backups := .empty
  golden := none
  retain := none

/- A new user, in a group. -/
def newUser (group : Text) : User where
  name := "alice"
  group := group
  authSource := []
  lastLogin := []
  status := "active"
  hash := []
  password := "secret"

def newUserRequest (group : Text) : EntityRequest where
  body := .ok (.users [newUser group])
  crypt := fun _ _ => .exited 0 "$6$salt$hash"
  writeFault := none

def newGroupRequest (name : Text) : EntityRequest where
  body := .ok (.groups [⟨name, 0, "local", []⟩])
  crypt := fun _ _ => .noSalt []
  writeFault := none

theorem loadUsers_vacantSession :
    loadUsers vacantSession = .ok [] := by
  have hFile : vacantSession.effective .users = some [] := rfl
  exact loadWith_of_effective hFile rfl

theorem loadGroups_vacantSession :
    loadGroups vacantSession = .ok [] := by
  have hParsed :
      loadWith parseGroups .groups vacantSession = .ok [] := by
    have hFile : vacantSession.effective .groups = some [] := rfl
    exact loadWith_of_effective hFile rfl
  rcases loadGroups_of_parsed hParsed with
    ⟨groups, hLoad, hNames⟩
  rw [List.map_eq_nil_iff.mp hNames] at hLoad
  exact hLoad

theorem members_defined_vacantSession :
    MembersDefined vacantSession := by
  refine ⟨[], [], loadUsers_vacantSession,
    loadGroups_vacantSession, ?_⟩
  intro name hName
  cases hName

/- The new user's hash is one that keeps to its quotes. -/
theorem newUser_plain
    {group : Text}
    (hGroup : PlainWord group)
    (hField : ValueField group)
    (s : State) :
    PlainNames "k" s (newUserRequest group) := by
  refine ⟨?_, ?_⟩
  · intro entry hEntry
    have hEntry' : entry = (newUser group, 0) := by
      simpa [newUserRequest] using hEntry
    rw [hEntry']
    have hName : '\r' ∉ ("alice" : Text) := by decide
    have hStatus : RemarkField "active" := by decide
    have hHash : KeyField "$6$salt$hash" := by decide
    refine ⟨hName, hStatus, hField, ?_⟩
    intro hash hRun
    have hSame : hash = "$6$salt$hash" := by
      have hFixed :
          (.ok "$6$salt$hash".toList : Except Text Text) =
            .ok hash := hRun
      exact (Except.ok.inj hFixed).symm
    rw [hSame]
    exact hHash
  · intro u hu
    rw [List.mem_singleton.mp hu]
    exact Or.inr hGroup

theorem newUser_accepted
    (group : Text) :
    ∃ s',
      putEntities "k" vacantSession (newUserRequest group) =
        (.ok (), s') := by
  have hPlan :
      planEntities "k" (newUserRequest group).crypt vacantSession
          (.users [newUser group]) =
        .ok (renderUsers
          [{ newUser group with
            hash := "$6$salt$hash", password := [] }]) := by
    show planUsers _ vacantSession [newUser group] = _
    apply bind_ok_iff.mpr
    refine ⟨[], loadUsers_vacantSession, ?_⟩
    rfl
  exact putEntities_staged rfl hPlan rfl rfl

/-
  A new user is assigned to a group that is not defined, and
  is accepted.
-/
theorem undefined_group_assigned :
    MembersDefined vacantSession ∧
      PlainNames "k" vacantSession (newUserRequest "lab") ∧
        Accepted "k" vacantSession (newUserRequest "lab") ∧
          ¬ MembersDefined
              (afterRequest "k" vacantSession
                (newUserRequest "lab")) := by
  have hWord : PlainWord "lab" := ⟨by decide, by decide⟩
  have hPlain :=
    newUser_plain hWord (by decide) vacantSession
  rcases newUser_accepted "lab" with ⟨s', hPut⟩
  have hAccepted :
      Accepted "k" vacantSession (newUserRequest "lab") := by
    unfold Accepted
    rw [hPut]
  refine ⟨members_defined_vacantSession, hPlain, hAccepted, ?_⟩
  intro hDefined
  have hAssigns :=
    (members_defined_step members_defined_vacantSession
      hPlain).mp hDefined hAccepted
  have hName :=
    hAssigns [] loadGroups_vacantSession "lab"
      (List.mem_singleton_self _) (by decide)
  cases hName

/- A group is defined, and then a new user is in it. -/
theorem defined_group_assigned :
    Transition.Along (afterRequest "k")
      (fun s r => MembersDefined (afterRequest "k" s r))
      vacantSession
      [newGroupRequest "lab", newUserRequest "lab"] := by
  have hWord : PlainWord "lab" := ⟨by decide, by decide⟩
  have hGroupPlain :
      PlainNames "k" vacantSession (newGroupRequest "lab") := by
    intro g hg
    rw [List.mem_singleton.mp hg]
    decide
  have hPlain :
      Transition.Along (afterRequest "k") (PlainNames "k")
        vacantSession
        [newGroupRequest "lab", newUserRequest "lab"] :=
    ⟨hGroupPlain, newUser_plain hWord (by decide) _, trivial⟩
  apply (members_defined_iff members_defined_vacantSession
    hPlain).mpr
  refine ⟨fun _ => trivial, fun _ => ?_, trivial⟩
  have hPlan :
      planEntities "k" (newGroupRequest "lab").crypt
          vacantSession (.groups [⟨"lab", 0, "local", []⟩]) =
        .ok (renderGroups [⟨"lab", 0, "local", []⟩]) := by
    show planGroups vacantSession _ = _
    apply bind_ok_iff.mpr
    exact ⟨[], loadGroups_vacantSession, rfl⟩
  rcases putEntities_staged
      (r := newGroupRequest "lab") rfl hPlan rfl rfl with
    ⟨s', hPut⟩
  rcases put_groups_names rfl hGroupPlain hPut with
    ⟨_, found, _, hFound, hNames, _⟩
  have hAfter :
      afterRequest "k" vacantSession (newGroupRequest "lab") =
        s' := by
    unfold afterRequest
    rw [hPut]
  rw [hAfter]
  intro groups hLoad
  cases hFound.symm.trans hLoad
  rw [hNames]
  intro name hName _
  rw [List.mem_singleton.mp hName]
  exact List.mem_singleton_self _

end Api

end Soteria

------------------------------------------------------------
-- Devices Below Their Groups
------------------------------------------------------------

namespace Soteria

namespace Api

open Store Tacconfig

variable {globalKey : Text}
variable {s s' : State}

/- The devices file is read as linked devices and groups. -/
def DevicesLinked (globalKey : Text) (s : State) : Prop :=
  ∃ devices groups,
    loadDevices globalKey s = .ok devices ∧
      loadDeviceGroups globalKey s = .ok groups ∧
        Linked devices groups

/- Each parent in the devices file is above its device. -/
def ParentsStaged (s : State) : Prop :=
  ∃ src nodes comments,
    s.effective .devices = some src ∧
      parse src = .ok (nodes, comments) ∧ ParentsAbove nodes

/- Names are words, and the other texts are on one line. -/
def Entities.PlainTexts : Entities → Prop
| .devices body =>
    ∀ d ∈ body,
      PlainWord d.name ∧ '\n' ∉ d.platform ∧ KeyText d.key
| .deviceGroups body =>
    ∀ g ∈ body,
      PlainWord g.name ∧ '\n' ∉ g.description ∧ KeyText g.key
| _ => True

/- Each address keeps to its place as a value on its line. -/
def Entities.AddressesKeep : Entities → Prop
| .devices body => ∀ d ∈ body, ValueField d.address
| _ => True

/- An accepted device has its own key or one of the table. -/
theorem checkDevice_key
    {keys : List (Text × Text)}
    {groups : List DeviceGroup}
    {d d' : Device}
    (hCheck : checkDevice keys groups d = .ok d') :
    d'.key = d.key ∨ (d.name, d'.key) ∈ keys := by
  unfold checkDevice at hCheck
  split at hCheck
  · cases hCheck
  split at hCheck
  · cases hCheck
  split at hCheck
  · cases hCheck
  split at hCheck
  · cases hCheck
  split at hCheck
  · split at hCheck
    · rename_i hCurrent
      cases hCheck
      exact Or.inr (currentOf_mem hCurrent)
    · cases hCheck
  · cases hCheck
    exact Or.inl rfl

theorem checkDeviceGroup_key
    {keys : List (Text × Text)}
    {g g' : DeviceGroup}
    (hCheck : checkDeviceGroup keys g = .ok g') :
    g'.key = g.key ∨ (g.name, g'.key) ∈ keys := by
  unfold checkDeviceGroup at hCheck
  split at hCheck
  · cases hCheck
  split at hCheck
  · split at hCheck
    · rename_i hCurrent
      cases hCheck
      exact Or.inr (currentOf_mem hCurrent)
    · cases hCheck
  · cases hCheck
    exact Or.inl rfl

/- Members are counted beside the names and the keys. -/
theorem linked_counted
    {devices : List Device}
    {groups : List DeviceGroup}
    (hLinked : Linked devices groups)
    (members : DeviceGroup → Nat) :
    Linked devices
      (groups.map fun g => { g with members := members g }) := by
  refine ⟨hLinked.ofDevice, ?_, ?_⟩
  · intro g' hg'
    rcases List.mem_map.mp hg' with ⟨g, hg, hSame⟩
    rw [← hSame]
    exact hLinked.ofGroup g hg
  · rw [List.map_map]
    exact hLinked.parents

/- A group is kept, or no device has it. -/
theorem kept_or_unused
    {devices : List Device}
    {current incoming : List DeviceGroup}
    (hKept : removedInUse devices current incoming = none)
    {g : DeviceGroup}
    (hg : g ∈ current) :
    g.name ∈ incoming.map DeviceGroup.name ∨
      g.name ∉ devices.map Device.group := by
  have hPassed := List.find?_eq_none.mp hKept g hg
  simp only [Bool.and_eq_true, Bool.not_eq_true',
    decide_eq_true_eq, not_and, not_lt, Nat.le_zero,
    List.any_eq_false, beq_iff_eq] at hPassed
  by_cases hIn : g.name ∈ incoming.map DeviceGroup.name
  · exact Or.inl hIn
  · right
    have hCount : deviceCount devices g.name = 0 := by
      apply hPassed
      intro h hh hSameName
      rw [← hSameName] at hIn
      exact hIn (List.mem_map_of_mem hh)
    unfold deviceCount at hCount
    rw [List.countP_eq_zero] at hCount
    intro hMem
    rcases List.mem_map.mp hMem with ⟨d, hd, hSame⟩
    exact hCount d hd (by simpa using hSame)

/- A rendered file is read as linked devices and groups. -/
theorem devicesLinked_of_render
    (hGlobal : KeyText globalKey)
    {devices : List Device}
    {groups : List DeviceGroup}
    (hLinked : Linked devices groups)
    (hDevices : ∀ d ∈ devices, d.Confined globalKey)
    (hGroups : ∀ g ∈ groups, g.Confined globalKey)
    (hFile :
      s.effective .devices =
        some (renderDevices devices groups globalKey)) :
    ParentsStaged s ∧ DevicesLinked globalKey s := by
  rcases renderDevices_linked hGlobal hLinked hDevices hGroups
    with ⟨nodes, comments, hParse, hAbove, hRead⟩
  refine ⟨⟨_, nodes, comments, hFile, hParse, hAbove⟩, ?_⟩
  have hFound :
      parseDevices (renderDevices devices groups globalKey)
          globalKey =
        .ok (nodes.filterMap
          (deviceFromNode comments globalKey)) :=
    map_ok_iff.mpr ⟨_, hParse, rfl⟩
  have hFoundGroups :
      parseDeviceGroups (renderDevices devices groups globalKey)
          globalKey =
        .ok (nodes.filterMap
          (deviceGroupFromNode comments globalKey)) :=
    map_ok_iff.mpr ⟨_, hParse, rfl⟩
  have hCounted :
      countedDeviceGroups globalKey
          (renderDevices devices groups globalKey) =
        .ok ((nodes.filterMap
          (deviceGroupFromNode comments globalKey)).map
            (Api.counted (nodes.filterMap
              (deviceFromNode comments globalKey)))) := by
    unfold countedDeviceGroups
    rw [hFoundGroups, hFound]
    rfl
  exact ⟨_, _, loadWith_of_effective hFile hFound,
    loadWith_of_effective hFile hCounted, linked_counted hRead _⟩

/- Groups of the file keep to their places. -/
theorem storedGroup_linked
    (hGlobal : KeyText globalKey)
    {devices : List Device}
    {groups : List DeviceGroup}
    (hLoad : loadDeviceGroups globalKey s = .ok groups)
    (hLinked : Linked devices groups) :
    ∀ g ∈ groups, g.Confined globalKey := by
  intro g hg
  rcases loadWith_ok_iff.mp hLoad with ⟨src, _, hGroups⟩
  rcases countedDeviceGroups_mem hGroups hg with
    ⟨hName, hDescription⟩
  have hKey :=
    DeviceGroup.writtenKey_text hGlobal (hLinked.ofGroup g hg).2
  exact ⟨hName, hDescription, hKey.closed.pastes.valuePasted⟩

/- Devices of the file keep to their places. -/
theorem storedDevice_linked
    (hGlobal : KeyText globalKey)
    {devices : List Device}
    {groups : List DeviceGroup}
    (hLoad : loadDevices globalKey s = .ok devices)
    (hLinked : Linked devices groups) :
    ∀ d ∈ devices, d.Confined globalKey := by
  intro d hd
  rcases loadWith_ok_iff.mp hLoad with ⟨src, _, hParse⟩
  apply parseDevices_confined hParse hd
  intro key hKey
  have hText :=
    Device.writtenKey_text hGlobal (hLinked.ofDevice d hd).2 hKey
  exact hText.closed.pastes.valuePasted

/- Accepted devices are staged below the groups they name. -/
theorem put_devices_linked
    (hGlobal : KeyText globalKey)
    {r : EntityRequest}
    {body : List Device}
    (hBody : r.body = .ok (.devices body))
    (hTexts : (Entities.devices body).PlainTexts)
    (hKeep : (Entities.devices body).AddressesKeep)
    (hLinked : DevicesLinked globalKey s)
    (hPut : putEntities globalKey s r = (.ok (), s')) :
    ParentsStaged s' ∧ DevicesLinked globalKey s' := by
  rcases hLinked with
    ⟨existing, groups, hExisting, hGroups, hStored⟩
  rcases putEntities_ok hBody hPut with ⟨content, hPlan, hFile⟩
  rcases bind_ok_iff.mp hPlan with ⟨other, hOther, hPlan⟩
  cases hExisting.symm.trans hOther
  rcases bind_ok_iff.mp hPlan with ⟨others, hOthers, hContent⟩
  cases hGroups.symm.trans hOthers
  rcases map_ok_iff.mp hContent with
    ⟨accepted, hChecked, hText⟩
  have hConfinedGroups :=
    storedGroup_linked hGlobal hGroups hStored
  have hEach :
      ∀ d ∈ accepted,
        (PlainWord d.name ∧ KeyText d.key) ∧
          (d.group ≠ [] →
            d.group ∈ groups.map DeviceGroup.name) ∧
            RemarkField d.platform ∧ ValuePasted d.address := by
    refine forall_of_checked (mapM_ok_iff.mp hChecked) ?_
    intro d hd d' hCheck
    rcases hTexts d hd with ⟨hName, hPlatform, hKey⟩
    have hKey' : KeyText d'.key := by
      rcases checkDevice_key hCheck with hSame | hMem
      · rw [hSame]
        exact hKey
      · rcases List.mem_map.mp hMem with ⟨e, he, hPair⟩
        have hOld := (hStored.ofDevice e he).2
        rw [(Prod.mk.inj hPair).2] at hOld
        exact hOld
    rcases checkDevice_ok hCheck with
      ⟨_, hGroup, key, hSame, _⟩
    rw [hSame] at hKey' ⊢
    refine ⟨⟨hName, hKey'⟩, ?_, remarkField_of_line hPlatform,
      (hKeep d hd).pasted⟩
    intro hSome
    rcases hGroup hSome with ⟨g, hg, hSameName⟩
    show d.group ∈ _
    rw [← hSameName]
    exact List.mem_map_of_mem hg
  have hAccepted : Linked accepted groups := by
    refine ⟨fun d hd => (hEach d hd).1, hStored.ofGroup, ?_⟩
    intro parent hParent hSome
    rcases List.mem_map.mp hParent with ⟨d, hd, hSame⟩
    rw [← hSame] at hSome ⊢
    exact (hEach d hd).2.1 hSome
  have hConfined : ∀ d ∈ accepted, d.Confined globalKey := by
    intro d hd
    rcases hEach d hd with
      ⟨⟨hName, hKey⟩, _, hPlatform, hAddress⟩
    refine ⟨hName.labelText, hPlatform, hAddress,
      (hAccepted.reference hd).pastes.valuePasted, ?_⟩
    intro key hWritten
    have hKeyText :=
      Device.writtenKey_text hGlobal hKey hWritten
    exact hKeyText.closed.pastes.valuePasted
  rw [← hText] at hFile
  exact devicesLinked_of_render hGlobal hAccepted hConfined
    hConfinedGroups hFile

/- Accepted groups are staged with all that devices have. -/
theorem put_deviceGroups_linked
    (hGlobal : KeyText globalKey)
    {r : EntityRequest}
    {body : List DeviceGroup}
    (hBody : r.body = .ok (.deviceGroups body))
    (hTexts : (Entities.deviceGroups body).PlainTexts)
    (hLinked : DevicesLinked globalKey s)
    (hPut : putEntities globalKey s r = (.ok (), s')) :
    ParentsStaged s' ∧ DevicesLinked globalKey s' := by
  rcases hLinked with
    ⟨devices, current, hDevices, hCurrent, hStored⟩
  rcases putEntities_ok hBody hPut with ⟨content, hPlan, hFile⟩
  rcases bind_ok_iff.mp hPlan with ⟨other, hOther, hPlan⟩
  cases hDevices.symm.trans hOther
  rcases bind_ok_iff.mp hPlan with ⟨others, hOthers, hContent⟩
  cases hCurrent.symm.trans hOthers
  unfold deviceGroupsContent at hContent
  split at hContent
  · cases hContent
  rename_i accepted hChecked
  split at hContent
  · cases hContent
  rename_i hKept
  have hText := Except.ok.inj hContent
  have hConfinedDevices :=
    storedDevice_linked hGlobal hDevices hStored
  have hEach :
      ∀ g ∈ accepted,
        (PlainWord g.name ∧ KeyText g.key) ∧
          RemarkField g.description := by
    refine forall_of_checked (mapM_ok_iff.mp hChecked) ?_
    intro g hg g' hCheck
    rcases hTexts g hg with ⟨hName, hDescription, hKey⟩
    have hKey' : KeyText g'.key := by
      rcases checkDeviceGroup_key hCheck with hSame | hMem
      · rw [hSame]
        exact hKey
      · rcases List.mem_map.mp hMem with ⟨e, he, hPair⟩
        have hOld := (hStored.ofGroup e he).2
        rw [(Prod.mk.inj hPair).2] at hOld
        exact hOld
    rcases checkDeviceGroup_ok hCheck with ⟨_, key, hSame, _⟩
    rw [hSame] at hKey' ⊢
    exact ⟨⟨hName, hKey'⟩, remarkField_of_line hDescription⟩
  have hAccepted : Linked devices accepted := by
    refine ⟨hStored.ofDevice, fun g hg => (hEach g hg).1, ?_⟩
    apply hStored.parents.keep
    intro name hName
    rcases List.mem_map.mp hName with ⟨g, hg, hSame⟩
    rw [← hSame]
    exact kept_or_unused hKept hg
  have hConfined : ∀ g ∈ accepted, g.Confined globalKey := by
    intro g hg
    rcases hEach g hg with ⟨⟨hName, hKey⟩, hDescription⟩
    have hKeyText := DeviceGroup.writtenKey_text hGlobal hKey
    exact ⟨hName.labelText, hDescription,
      hKeyText.closed.pastes.valuePasted⟩
  rw [← hText] at hFile
  exact devicesLinked_of_render hGlobal hAccepted
    hConfinedDevices hConfined hFile

/- A request for other files leaves the devices linked. -/
theorem devicesLinked_frame
    {r : EntityRequest}
    {entities : Entities}
    (hBody : r.body = .ok entities)
    (hPut : putEntities globalKey s r = (.ok (), s'))
    (hOther : entities.file ≠ .devices)
    (hLinked : DevicesLinked globalKey s) :
    DevicesLinked globalKey s' := by
  rcases (load_frame hBody hPut).2 hOther with
    ⟨hDevices, hGroups⟩
  unfold DevicesLinked
  rw [hDevices, hGroups]
  exact hLinked

/- A staged devices file has each parent above its device. -/
def StagesAbove
    (globalKey : Text)
    (s : State)
    (r : EntityRequest) : Prop :=
  ∀ entities, r.body = .ok entities →
    entities.file = .devices → Accepted globalKey s r →
      ParentsStaged (afterRequest globalKey s r)

/- One request, on devices and groups that are linked. -/
theorem parents_above_step
    (hGlobal : KeyText globalKey)
    {r : EntityRequest}
    (hLinked : DevicesLinked globalKey s)
    (hPlain :
      ∀ entities, r.body = .ok entities →
        entities.PlainTexts ∧ entities.AddressesKeep) :
    DevicesLinked globalKey (afterRequest globalKey s r) ∧
      StagesAbove globalKey s r := by
  unfold StagesAbove Accepted afterRequest
  cases hPut : putEntities globalKey s r with
  | mk answer s' =>
      cases answer with
      | error error =>
          rw [putEntities_error hPut]
          refine ⟨hLinked, ?_⟩
          intro _ _ _ hAccepted
          cases hAccepted
      | ok _ =>
          cases hBody : r.body with
          | error error =>
              unfold putEntities at hPut
              rw [hBody] at hPut
              cases hPut
          | ok entities =>
              rcases hPlain entities hBody with
                ⟨hTexts, hKeep⟩
              cases entities with
              | devices body =>
                  have hAfter :=
                    put_devices_linked hGlobal hBody hTexts
                      hKeep hLinked hPut
                  exact ⟨hAfter.2, fun _ _ _ _ => hAfter.1⟩
              | deviceGroups body =>
                  have hAfter :=
                    put_deviceGroups_linked hGlobal hBody hTexts
                      hLinked hPut
                  exact ⟨hAfter.2, fun _ _ _ _ => hAfter.1⟩
              | users body | groups body =>
                  refine ⟨devicesLinked_frame hBody hPut
                    (by simp [Entities.file]) hLinked, ?_⟩
                  intro other hOther hFile
                  cases hOther
                  cases hFile

/-
  In every run of requests from linked devices and groups,
  each staged devices file has each parent above its device,
  if all addresses keep to their lines.
-/
theorem parents_above
    {globalKey : Text}
    (hGlobal : KeyText globalKey)
    {s : State}
    (hLinked : DevicesLinked globalKey s)
    {requests : List EntityRequest}
    (hPlain :
      ∀ r ∈ requests, ∀ entities, r.body = .ok entities →
        entities.PlainTexts ∧ entities.AddressesKeep) :
    Transition.Along (afterRequest globalKey)
      (StagesAbove globalKey) s requests := by
  have hAlong :
      Transition.Along (afterRequest globalKey)
        (fun _ r =>
          ∀ entities, r.body = .ok entities →
            entities.PlainTexts ∧ entities.AddressesKeep)
        s requests :=
    Transition.Along.of_forall hPlain s
  apply Transition.Along.of_invariant _ _ hLinked hAlong
  · intro s r hLinked hPlain
    exact (parents_above_step hGlobal hLinked hPlain).1
  · intro s r hLinked hPlain
    exact (parents_above_step hGlobal hLinked hPlain).2

theorem devicesLinked_emptySession :
    DevicesLinked "k" emptySession := by
  refine ⟨[], [], loadDevices_emptySession,
    loadDeviceGroups_emptySession, ?_, ?_, ?_⟩
  · intro d hd
    cases hd
  · intro g hg
    cases hg
  · intro parent hParent
    cases hParent

/- A group, a device of it, and the device without its key. -/
theorem keyedRequests_above :
    Transition.Along (afterRequest "k") (StagesAbove "k")
      emptySession keyedRequests := by
  have hText : ∀ key ∈ [("secret" : Text), []], KeyText key := by
    intro key hKey
    simp only [List.mem_cons, List.not_mem_nil, or_false]
      at hKey
    rcases hKey with hSame | hSame
    · rw [hSame]
      exact ⟨by decide, by decide, by decide⟩
    · rw [hSame]
      exact ⟨by simp, by simp, by simp⟩
  have hDevice :
      ∀ key ∈ [("secret" : Text), []],
        (Entities.devices [keyedDevice key]).PlainTexts ∧
          (Entities.devices [keyedDevice key]).AddressesKeep := by
    intro key hKey
    have hName : PlainWord "core-sw-01" :=
      ⟨by decide, by decide⟩
    have hPlatform : '\n' ∉ ("Cisco IOS-XE" : Text) := by decide
    have hAddress : ValueField "10.0.1.1/32" := by decide
    constructor
    · intro d hd
      rw [List.mem_singleton.mp hd]
      exact ⟨hName, hPlatform, hText key hKey⟩
    · intro d hd
      rw [List.mem_singleton.mp hd]
      exact hAddress
  have hGroup :
      (Entities.deviceGroups [keyedGroup]).PlainTexts := by
    intro g hg
    rw [List.mem_singleton.mp hg]
    exact ⟨⟨by decide, by decide⟩, by decide,
      by decide, by decide, by decide⟩
  apply parents_above _ devicesLinked_emptySession
  · intro r hr entities hBody
    simp only [keyedRequests, List.mem_cons, List.not_mem_nil,
      or_false] at hr
    rcases hr with hr | hr | hr
    · rw [hr] at hBody
      cases hBody
      exact ⟨hGroup, trivial⟩
    · rw [hr] at hBody
      cases hBody
      exact hDevice "secret" (List.mem_cons_self ..)
    · rw [hr] at hBody
      cases hBody
      exact hDevice [] (by simp)
  · exact ⟨by decide, by decide, by decide⟩

/- A device whose address opens a string. -/
def openingDevice : Device where
  name := "edge-sw-01"
  address := "10.0.1.2 \""
  platform := []
  keyType := "global"
  key := []
  group := []
  lastSeen := []
  status := []

/- A device whose platform closes one, and a block. -/
def closingDevice : Device where
  name := "edge-sw-02"
  address := "10.0.1.3"
  platform := "\" \x7d device edge-sw-03 \x7b parent = lab"
  keyType := "global"
  key := []
  group := []
  lastSeen := []
  status := []

def openingRequest : EntityRequest :=
  plainRequest (.devices [openingDevice, closingDevice])

theorem openingRequest_accepted :
    ∃ s',
      putEntities "k" emptySession openingRequest =
        (.ok (), s') := by
  have hPlan :
      planEntities "k" openingRequest.crypt emptySession
          (.devices [openingDevice, closingDevice]) =
        .ok (renderDevices [openingDevice, closingDevice] []
          "k") := by
    show planDevices "k" emptySession _ = _
    apply bind_ok_iff.mpr
    refine ⟨[], loadDevices_emptySession, ?_⟩
    apply bind_ok_iff.mpr
    exact ⟨[], loadDeviceGroups_emptySession, rfl⟩
  exact putEntities_staged rfl hPlan rfl rfl

/- The platform is read as a third device, of a group. -/
theorem openingDevice_parse :
    (parseDevices
        (renderDevices [openingDevice, closingDevice] [] "k")
        "k").toOption.map (List.map Device.group) =
      some [[], "lab".toList] := by
  unfold renderDevices banner commentLine
  repeat rw [String.toList_ofList]
  decide +kernel

theorem openingDevice_groups :
    (parseDeviceGroups
        (renderDevices [openingDevice, closingDevice] [] "k")
        "k").toOption = some [] := by
  unfold renderDevices banner commentLine
  repeat rw [String.toList_ofList]
  decide +kernel

/-
  Texts on one line each make a device of a group that is
  not in the file.
-/
theorem parent_not_above :
    DevicesLinked "k" emptySession ∧
      (Entities.devices
        [openingDevice, closingDevice]).PlainTexts ∧
      (∀ d ∈ [openingDevice, closingDevice],
        TrimmedLine d.address ∧ TrimmedLine d.platform) ∧
      Accepted "k" emptySession openingRequest ∧
      ∃ src nodes comments,
        (afterRequest "k" emptySession
            openingRequest).effective .devices = some src ∧
          parse src = .ok (nodes, comments) ∧
            ¬ ParentsAbove nodes := by
  have hKey : KeyText [] := ⟨by simp, by simp, by simp⟩
  have hEdge :
      PlainWord "edge-sw-01" ∧ PlainWord "edge-sw-02" :=
    ⟨⟨by decide, by decide⟩, ⟨by decide, by decide⟩⟩
  have hLines :
      ∀ d ∈ [openingDevice, closingDevice],
        TrimmedLine d.address ∧ TrimmedLine d.platform := by
    intro d hd
    simp only [List.mem_cons, List.not_mem_nil, or_false] at hd
    rcases hd with hd | hd
    · rw [hd]
      exact ⟨⟨by decide, by decide⟩, ⟨by decide, by decide⟩⟩
    · rw [hd]
      exact ⟨⟨by decide, by decide⟩, ⟨by decide, by decide⟩⟩
  have hTexts :
      (Entities.devices
        [openingDevice, closingDevice]).PlainTexts := by
    intro d hd
    have hPlatform := (hLines d hd).2.oneLine
    simp only [List.mem_cons, List.not_mem_nil, or_false] at hd
    rcases hd with hd | hd
    · rw [hd] at hPlatform ⊢
      exact ⟨hEdge.1, hPlatform, hKey⟩
    · rw [hd] at hPlatform ⊢
      exact ⟨hEdge.2, hPlatform, hKey⟩
  rcases openingRequest_accepted with ⟨s', hPut⟩
  refine ⟨devicesLinked_emptySession, hTexts, hLines, ?_, ?_⟩
  · unfold Accepted
    rw [hPut]
  · rcases putEntities_ok rfl hPut with ⟨content, hPlan, hFile⟩
    rcases bind_ok_iff.mp hPlan with ⟨_, hDevices, hPlan⟩
    rcases bind_ok_iff.mp hPlan with ⟨_, hGroups, hContent⟩
    cases loadDevices_emptySession.symm.trans hDevices
    cases loadDeviceGroups_emptySession.symm.trans hGroups
    have hSame :
        renderDevices [openingDevice, closingDevice] [] "k" =
          content :=
      Except.ok.inj hContent
    rw [← hSame] at hFile
    rcases Option.map_eq_some_iff.mp openingDevice_parse with
      ⟨devices, hFound, hMembers⟩
    rcases map_ok_iff.mp (toOption_eq_some_iff.mp hFound) with
      ⟨⟨nodes, comments⟩, hParse, hNodes⟩
    rcases map_ok_iff.mp
        (toOption_eq_some_iff.mp openingDevice_groups) with
      ⟨parsed, hParsed, hNone⟩
    cases hParse.symm.trans hParsed
    have hAfter :
        afterRequest "k" emptySession openingRequest = s' := by
      unfold afterRequest
      rw [hPut]
    rw [hAfter]
    refine ⟨_, nodes, comments, hFile, hParse, ?_⟩
    intro hAbove
    have hResolved :
        Resolved
          ((nodes.filterMap
            (deviceGroupFromNode comments "k")).map
              DeviceGroup.name)
          ((nodes.filterMap
            (deviceFromNode comments "k")).map Device.group) :=
      hAbove.resolved comments
    have hGroupless :
        nodes.filterMap (deviceGroupFromNode comments "k") =
          [] := hNone
    have hDevicesFound :
        nodes.filterMap (deviceFromNode comments "k") =
          devices := hNodes
    rw [hGroupless, hDevicesFound, hMembers] at hResolved
    have hName := hResolved "lab" (by simp) (by decide)
    cases hName

end Api

end Soteria
