import Soteria.Store.Staging
import Soteria.Tacconfig.Confined

/-
  The handlers that stage devices, device groups, users and
  user groups.

  Each of them reads what the session has, checks the body of
  the request against it, and stages the rendered file. What
  a handler stages is a function of what it has read.

  Key definitions include:
    * `EntityError`
    * `loadDevices`, `loadDeviceGroups`, `loadUsers`,
      `loadGroups`
    * `devicesContent`, `deviceGroupsContent`,
      `usersContent`, `groupsContent`
    * `EntityRequest`, `putEntities`
-/

------------------------------------------------------------
-- Answers
------------------------------------------------------------

namespace Soteria

namespace Api

open Store Tacconfig

/- Why a request for entities is rejected. -/
inductive EntityError where
  | invalidBody (error : Text)
  | unreadable (error : Text)
  | unparsable (error : ParseError)
  | invalidName (error : Text)
  | addressMissing (name : Text)
  | groupUnknown (name group : Text)
  | groupMissing (name : Text)
  | deviceKeyMissing (name : Text)
  | groupKeyMissing (name : Text)
  | groupHasDevices (name : Text) (count : Nat)
  | hashing (error : Text)
  | passwordMissing (name : Text)
  | groupHasUsers (name : Text) (count : Nat)
  | stage (error : StageError)

/- The status and the message of the answer. -/
def EntityError.response : EntityError → Nat × Text
| .invalidBody error =>
    (400, "invalid request body: " ++ error)
| .unreadable error => (500, error)
| .unparsable error => (500, error.message)
| .invalidName error => (400, error)
| .addressMissing name =>
    (400, "device " ++ name ++ ": address is required")
| .groupUnknown name group =>
    (400, "device " ++ name ++ ": device group " ++
      group.quoted ++ " does not exist")
| .groupMissing name =>
    (400, "device " ++ name ++
      ": key type 'group' requires a device group")
| .deviceKeyMissing name =>
    (400, "device " ++ name ++
      ": custom key type requires a key")
| .groupKeyMissing name =>
    (400, "device group " ++ name ++
      ": custom key type requires a key")
| .groupHasDevices name count =>
    (409, "device group " ++ name ++ " still has " ++
      count.repr.toList ++
      " member device(s); reassign them before deleting")
| .hashing error => (502, error)
| .passwordMissing name =>
    (400, "user " ++ name ++
      ": password required for new users")
| .groupHasUsers name count =>
    (409, "group " ++ name ++ " still has " ++
      count.repr.toList ++
      " member(s); reassign them before deleting")
| .stage .stagingInactive =>
    (409, StageError.stagingInactive.message)
| .stage error => (500, error.message)

end Api

end Soteria

------------------------------------------------------------
-- Reading Entities
------------------------------------------------------------

namespace Soteria

namespace Api

open Store Tacconfig

/- A file that is read and then parsed. -/
def loadWith
    {α : Type}
    (parse : Text → Except ParseError α)
    (file : ManagedFile)
    (s : State) : Except EntityError α :=
  match readEffective s file.path with
  | .error error => .error (.unreadable error)
  | .ok src =>
      match parse src with
      | .error error => .error (.unparsable error)
      | .ok found => .ok found

/- `loadDevices`. -/
def loadDevices (globalKey : Text) (s : State) :
    Except EntityError (List Device) :=
  loadWith (fun src => parseDevices src globalKey) .devices s

/- How many devices have the group for their parent. -/
def deviceCount (devices : List Device) (name : Text) : Nat :=
  devices.countP fun d => d.group == name

/- The groups of a source, with their devices counted. -/
def countedDeviceGroups (globalKey src : Text) :
    Except ParseError (List DeviceGroup) :=
  (parseDeviceGroups src globalKey).map fun groups =>
    match parseDevices src globalKey with
    | .error _ => groups
    | .ok devices =>
        groups.map fun g =>
          { g with members := deviceCount devices g.name }

/- `loadDeviceGroups`. -/
def loadDeviceGroups (globalKey : Text) (s : State) :
    Except EntityError (List DeviceGroup) :=
  loadWith (countedDeviceGroups globalKey) .devices s

/- `loadUsers`. -/
def loadUsers (s : State) : Except EntityError (List User) :=
  loadWith parseUsers .users s

/- How many users have the group. -/
def userCount (users : List User) (name : Text) : Nat :=
  users.countP fun u => u.group == name

/-
  `loadGroups`. The profile of a group is only for display
  and stays empty here.
-/
def loadGroups (s : State) : Except EntityError (List Group) :=
  (loadWith parseGroups .groups s).map fun groups =>
    match loadUsers s with
    | .error _ => groups
    | .ok users =>
        groups.map fun g =>
          { g with members := userCount users g.name }

/- The last entry of a name, as filling a map leaves it. -/
def currentOf (entries : List (Text × Text)) (name : Text) :
    Text :=
  ((entries.reverse.find? fun e => e.1 == name).map
    Prod.snd).getD []

end Api

end Soteria

------------------------------------------------------------
-- Checking Requests
------------------------------------------------------------

namespace Soteria

namespace Api

open Store Tacconfig

/- The checks of a submitted device; it keeps a key it has. -/
def checkDevice
    (keys : List (Text × Text))
    (groups : List DeviceGroup)
    (d : Device) : Except EntityError Device :=
  match validateEntityName "device" d.name with
  | some error => .error (.invalidName error)
  | none =>
      if d.address = [] then .error (.addressMissing d.name)
      else if d.group ≠ [] ∧
          (groups.any fun g => g.name == d.group) = false then
        .error (.groupUnknown d.name d.group)
      else if d.keyType = "group" ∧ d.group = [] then
        .error (.groupMissing d.name)
      else if d.keyType = "custom" ∧ d.key = [] then
        if currentOf keys d.name ≠ [] then
          .ok { d with key := currentOf keys d.name }
        else .error (.deviceKeyMissing d.name)
      else .ok d

/- What `putDevices` stages, from what it has read. -/
def devicesContent
    (globalKey : Text)
    (existing : List Device)
    (groups : List DeviceGroup)
    (body : List Device) : Except EntityError Text :=
  (body.mapM
      (checkDevice (existing.map fun d => (d.name, d.key))
        groups)).map
    fun devices => renderDevices devices groups globalKey

/- The checks of a submitted device group. -/
def checkDeviceGroup
    (keys : List (Text × Text))
    (g : DeviceGroup) : Except EntityError DeviceGroup :=
  match validateEntityName "device group" g.name with
  | some error => .error (.invalidName error)
  | none =>
      if g.keyType = "custom" ∧ g.key = [] then
        if currentOf keys g.name ≠ [] then
          .ok { g with key := currentOf keys g.name }
        else .error (.groupKeyMissing g.name)
      else .ok g

/- The first group that is removed while devices have it. -/
def removedInUse
    (devices : List Device)
    (current incoming : List DeviceGroup) :
    Option DeviceGroup :=
  current.find? fun g =>
    !(incoming.any fun h => h.name == g.name) &&
      0 < deviceCount devices g.name

/- What `putDeviceGroups` stages, from what it has read. -/
def deviceGroupsContent
    (globalKey : Text)
    (devices : List Device)
    (current body : List DeviceGroup) :
    Except EntityError Text :=
  match body.mapM
      (checkDeviceGroup
        (current.map fun g => (g.name, g.key))) with
  | .error error => .error error
  | .ok groups =>
      match removedInUse devices current groups with
      | some g =>
          .error
            (.groupHasDevices g.name
              (deviceCount devices g.name))
      | none => .ok (renderDevices devices groups globalKey)

/- How the container's `crypt` ran for a password. -/
inductive CryptRun where
  | noSalt (error : Text)
  | notRun (error : Text)
  | exited (code : Int) (output : Text)

/- `HashPassword`. -/
def hashPassword : CryptRun → Except Text Text
| .noSalt error => .error error
| .notRun error =>
    .error ("password hashing exec failed: " ++ error)
| .exited code output =>
    if code ≠ 0 ∨ output.trimSpace.hasPrefix "$6$" = false then
      .error
        ("password hashing failed (exit " ++
          (toString code).toList ++ "): " ++ output.trimSpace)
    else .ok output.trimSpace

/-
  The checks of a submitted user: a new password is hashed,
  and without one the user keeps its hash.
-/
def checkUser
    (hashes : List (Text × Text))
    (crypt : Nat → Text → CryptRun)
    (entry : User × Nat) : Except EntityError User :=
  let (u, i) := entry
  match validateEntityName "user" u.name with
  | some error => .error (.invalidName error)
  | none =>
      if u.password ≠ [] then
        match hashPassword (crypt i u.password) with
        | .error error => .error (.hashing error)
        | .ok hash => .ok { u with hash := hash, password := [] }
      else if currentOf hashes u.name ≠ [] then
        .ok { u with hash := currentOf hashes u.name }
      else .error (.passwordMissing u.name)

/- What `putUsers` stages, from what it has read. -/
def usersContent
    (crypt : Nat → Text → CryptRun)
    (existing body : List User) : Except EntityError Text :=
  (body.zipIdx.mapM
      (checkUser (existing.map fun u => (u.name, u.hash))
        crypt)).map
    renderUsers

def checkGroup (g : Group) : Except EntityError Group :=
  match validateEntityName "group" g.name with
  | some error => .error (.invalidName error)
  | none => .ok g

/- What `putGroups` stages, from what it has read. -/
def groupsContent (current body : List Group) :
    Except EntityError Text :=
  match body.mapM checkGroup with
  | .error error => .error error
  | .ok groups =>
      match current.find? fun g =>
          !(groups.any fun h => h.name == g.name) &&
            0 < g.members with
      | some g => .error (.groupHasUsers g.name g.members)
      | none => .ok (renderGroups groups)

end Api

end Soteria

------------------------------------------------------------
-- Requests
------------------------------------------------------------

namespace Soteria

namespace Api

open Store Tacconfig

/- What a request submits, by the path it is sent to. -/
inductive Entities where
  | devices (body : List Device)
  | deviceGroups (body : List DeviceGroup)
  | users (body : List User)
  | groups (body : List Group)

/- The file the entities are in. -/
def Entities.file : Entities → ManagedFile
| .devices _ => .devices
| .deviceGroups _ => .devices
| .users _ => .users
| .groups _ => .groups

/-
  A request with its decoded body, how `crypt` runs for each
  user, and whether staging the file fails.
-/
structure EntityRequest where
  body : Except Text Entities
  crypt : Nat → Text → CryptRun
  writeFault : Option Text

/- `putDevices` up to what it stages. -/
def planDevices
    (globalKey : Text)
    (s : State)
    (body : List Device) : Except EntityError Text := do
  let existing ← loadDevices globalKey s
  let groups ← loadDeviceGroups globalKey s
  devicesContent globalKey existing groups body

/- `putDeviceGroups` up to what it stages. -/
def planDeviceGroups
    (globalKey : Text)
    (s : State)
    (body : List DeviceGroup) : Except EntityError Text := do
  let devices ← loadDevices globalKey s
  let current ← loadDeviceGroups globalKey s
  deviceGroupsContent globalKey devices current body

/- `putUsers` up to what it stages. -/
def planUsers
    (crypt : Nat → Text → CryptRun)
    (s : State)
    (body : List User) : Except EntityError Text := do
  let existing ← loadUsers s
  usersContent crypt existing body

/- `putGroups` up to what it stages. -/
def planGroups (s : State) (body : List Group) :
    Except EntityError Text := do
  let current ← loadGroups s
  groupsContent current body

def planEntities
    (globalKey : Text)
    (crypt : Nat → Text → CryptRun)
    (s : State) : Entities → Except EntityError Text
| .devices body => planDevices globalKey s body
| .deviceGroups body => planDeviceGroups globalKey s body
| .users body => planUsers crypt s body
| .groups body => planGroups s body

/- `commitEntities`. -/
def commitEntities
    (fault : Option Text)
    (file : ManagedFile)
    (content : Text)
    (s : State) : Except EntityError Unit × State :=
  match writeStaged fault file.path content s with
  | .error error => (.error (.stage error), s)
  | .ok s' => (.ok (), s')

/-
  `putDevices`, `putDeviceGroups`, `putUsers` or `putGroups`:
  whether the entities are staged, and the state afterwards.
-/
def putEntities
    (globalKey : Text)
    (s : State)
    (r : EntityRequest) : Except EntityError Unit × State :=
  match r.body with
  | .error error => (.error (.invalidBody error), s)
  | .ok entities =>
      match planEntities globalKey r.crypt s entities with
      | .error error => (.error error, s)
      | .ok content =>
          commitEntities r.writeFault entities.file content s

end Api

end Soteria
