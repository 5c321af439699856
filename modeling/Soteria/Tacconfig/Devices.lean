import Soteria.Tacconfig.Entities
import Soteria.Tacconfig.Render

/-
  Devices, device groups, users and user groups as read from
  a config source and as written to the config files.

  Key definitions include:
    * `Device`, `DeviceGroup`, `User`, `Group`
    * `annotation`
    * `parseDevices`, `parseDeviceGroups`
    * `parseUsers`, `parseGroups`
    * `renderDevices`, `renderUsers`, `renderGroups`
    * `validateEntityName`
-/

------------------------------------------------------------
-- Devices and Users
------------------------------------------------------------

namespace Soteria

namespace Tacconfig

structure Device where
  name : Text
  address : Text
  platform : Text
  keyType : Text
  key : Text
  group : Text
  lastSeen : Text
  status : Text
deriving DecidableEq

/- A device block without an address, the parent of others. -/
structure DeviceGroup where
  name : Text
  description : Text
  keyType : Text
  key : Text
  members : Nat
deriving DecidableEq

structure User where
  name : Text
  group : Text
  authSource : Text
  lastLogin : Text
  status : Text
  hash : Text
  password : Text
deriving DecidableEq

structure Group where
  name : Text
  members : Nat
  source : Text
  profile : Text
deriving DecidableEq

end Tacconfig

end Soteria

------------------------------------------------------------
-- Reading Blocks
------------------------------------------------------------

namespace Soteria

namespace Tacconfig

/-
  The text of the first comment of a block that starts with
  `@key `; a block without a last line is open.
-/
def annotation
    (comments : List Comment)
    (startLine endLine : Nat)
    (key : Text) : Text :=
  let lead : Text := "@" ++ key ++ " "
  match comments.find? fun c =>
      startLine ≤ c.line &&
        (endLine == 0 || c.line ≤ endLine) &&
        c.text.hasPrefix lead with
  | some c => (c.text.trimPrefix lead).trimSpace
  | none => []

/- The key is the shared one, or its placeholder. -/
def isGlobalKey (globalKey key : Text) : Bool :=
  key == globalKey || key == "$\x7bTACACS_KEY\x7d"

/- A `device` block with an address. -/
def deviceFromNode
    (comments : List Comment)
    (globalKey : Text) : Node → Option Device
| .block name label children startLine endLine =>
    let address := assignValue "address" children
    let key := stripQuotes (assignValue "key" children)
    let group := assignValue "parent" children
    if name ≠ "device" ∨ address = [] then none
    else
      some
        { name := label
          address := address
          platform :=
            annotation comments startLine endLine "platform"
          keyType :=
            if isGlobalKey globalKey key then "global"
            else if key = [] ∧ group ≠ [] then "group"
            else "custom"
          key := if isGlobalKey globalKey key then [] else key
          group := group
          lastSeen := "-"
          status := "unknown" }
| _ => none

/- `ParseDevices`. -/
def parseDevices (src globalKey : Text) :
    Except ParseError (List Device) :=
  (parse src).map fun parsed =>
    parsed.1.filterMap (deviceFromNode parsed.2 globalKey)

/- A `device` block without an address. -/
def deviceGroupFromNode
    (comments : List Comment)
    (globalKey : Text) : Node → Option DeviceGroup
| .block name label children startLine endLine =>
    let key := stripQuotes (assignValue "key" children)
    if name ≠ "device" ∨ assignValue "address" children ≠ []
    then none
    else
      some
        { name := label
          description :=
            annotation comments startLine endLine
              "description"
          keyType :=
            if isGlobalKey globalKey key then "global"
            else "custom"
          key := if isGlobalKey globalKey key then [] else key
          members := 0 }
| _ => none

/- `ParseDeviceGroups`; the members are not counted yet. -/
def parseDeviceGroups (src globalKey : Text) :
    Except ParseError (List DeviceGroup) :=
  (parse src).map fun parsed =>
    parsed.1.filterMap (deviceGroupFromNode parsed.2 globalKey)

/- The hash of a login of the form `crypt "hash"`. -/
def loginHash (login : Text) : Text :=
  match login.fields with
  | [method, hash] =>
      if method = "crypt" then stripQuotes hash else []
  | _ => []

def userFromNode (comments : List Comment) :
    Node → Option User
| .block name label children startLine endLine =>
    let status := annotation comments startLine endLine "status"
    if name ≠ "user" then none
    else
      some
        { name := label
          group := assignValue "member" children
          authSource := "local"
          lastLogin := "-"
          status := if status ≠ [] then status else "active"
          hash :=
            loginHash (assignValue "password login" children)
          password := [] }
| _ => none

/- `ParseUsers`. -/
def parseUsers (src : Text) : Except ParseError (List User) :=
  (parse src).map fun parsed =>
    parsed.1.filterMap (userFromNode parsed.2)

def groupFromNode (comments : List Comment) :
    Node → Option Group
| .block name label _ startLine endLine =>
    let source := annotation comments startLine endLine "source"
    if name ≠ "group" then none
    else
      some
        { name := label
          members := 0
          source := if source = "ldap" then "ldap" else "local"
          profile := [] }
| _ => none

/- `ParseGroups`; members and profile are not set yet. -/
def parseGroups (src : Text) : Except ParseError (List Group) :=
  (parse src).map fun parsed =>
    parsed.1.filterMap (groupFromNode parsed.2)

end Tacconfig

end Soteria

------------------------------------------------------------
-- Writing Blocks
------------------------------------------------------------

namespace Soteria

namespace Tacconfig

/- A line for a text, if there is one. -/
def renderField (lead text : Text) : Text :=
  if text = [] then [] else lead ++ text ++ "\n"

/- The key a group is written with. -/
def DeviceGroup.writtenKey
    (globalKey : Text)
    (g : DeviceGroup) : Text :=
  if g.keyType = "custom" then g.key else globalKey

def renderDeviceGroup
    (globalKey : Text)
    (g : DeviceGroup) : Text :=
  "device " ++ g.name ++ " \x7b\n" ++
    renderField "    # @description " g.description ++
    "    key = \"" ++ g.writtenKey globalKey ++ "\"\n" ++
    "\x7d\n\n"

/- The key a device is written with; `group` inherits it. -/
def Device.writtenKey
    (globalKey : Text)
    (d : Device) : Option Text :=
  if d.keyType = "custom" then some d.key
  else if d.keyType = "group" then none
  else some globalKey

def renderKey : Option Text → Text
| some key => "    key     = \"" ++ key ++ "\"\n"
| none => []

def renderDevice (globalKey : Text) (d : Device) : Text :=
  "device " ++ d.name ++ " \x7b\n" ++
    renderField "    # @platform " d.platform ++
    "    address = " ++ d.address ++ "\n" ++
    renderField "    parent  = " d.group ++
    renderKey (d.writtenKey globalKey) ++ "\x7d\n\n"

/- A device that matches every address. -/
def Device.isCatchAll (d : Device) : Bool :=
  d.address.hasSuffix "/0"

/- Devices in source order, those that match all of it last. -/
def orderDevices (devices : List Device) : List Device :=
  devices.filter (fun d => !d.isCatchAll) ++
    devices.filter Device.isCatchAll

/- `RenderDevices`: groups before the devices that use them. -/
def renderDevices
    (devices : List Device)
    (groups : List DeviceGroup)
    (globalKey : Text) : Text :=
  banner "04-devices.cfg" "Network devices (NAS) definitions" ++
    groups.flatMap (renderDeviceGroup globalKey) ++
    (orderDevices devices).flatMap (renderDevice globalKey)

def renderUser (u : User) : Text :=
  "user " ++ u.name ++ " \x7b\n" ++
    renderField "    # @status "
      (if u.status = "active" then [] else u.status) ++
    "    password login = crypt \"" ++ u.hash ++ "\"\n" ++
    "    password pap   = login\n" ++
    renderField "    member         = " u.group ++ "\x7d\n\n"

/- `RenderUsers`. -/
def renderUsers (users : List User) : Text :=
  banner "05-local-users.cfg"
      "Local fallback and service account users" ++
    users.flatMap renderUser

/- The `%-*s` verb, which counts characters. -/
def padRight (width : Nat) (s : Text) : Text :=
  s ++ List.replicate (width - s.length) ' '

/- The width of the longest group name. -/
def groupWidth (groups : List Group) : Nat :=
  (groups.map fun g => g.name.byteLength).foldr max 0

def renderGroup (width : Nat) (g : Group) : Text :=
  if g.source = "ldap" then
    "group " ++ g.name ++ " \x7b\n    # @source ldap\n\x7d\n"
  else "group " ++ padRight width g.name ++ " \x7b \x7d\n"

/- `RenderGroups`. -/
def renderGroups (groups : List Group) : Text :=
  banner "06-groups.cfg" "Group definitions" ++
    groups.flatMap (renderGroup (groupWidth groups)) ++ "\n"

end Tacconfig

end Soteria

------------------------------------------------------------
-- Names
------------------------------------------------------------

namespace Soteria

namespace Tacconfig

/- `ValidateEntityName`: the error, if there is one. -/
def validateEntityName (kind name : Text) : Option Text :=
  if name = [] then some (kind ++ " name must not be empty")
  else if name.containsAny " \t\n\"\x7b\x7d()=#" then
    some
      (kind ++ " name " ++ name.quoted ++
        " contains characters not allowed in config identifiers")
  else none

/- The characters of an accepted name. -/
theorem validateEntityName_none_iff
    {kind name : Text} :
    validateEntityName kind name = none ↔
      name ≠ [] ∧
        ∀ c ∈ name, delimiter c = true → c = '\r' := by
  have hChars :
      ∀ c : Char,
        ((" \t\n\"\x7b\x7d()=#" : Text).contains c = false ↔
          (delimiter c = true → c = '\r')) := by
    intro c
    have hBad :
        (" \t\n\"\x7b\x7d()=#" : Text) =
          [' ', '\t', '\n', '"', '\x7b', '\x7d', '(', ')', '=',
            '#'] := by
      repeat rw [String.toList_ofList]
    have hEnds :
        (" \t\r\n#\"\x7b\x7d()=" : Text) =
          [' ', '\t', '\r', '\n', '#', '"', '\x7b', '\x7d', '(',
            ')', '='] := by
      repeat rw [String.toList_ofList]
    have hReturn :
        ∀ d ∈ [' ', '\t', '\n', '"', '\x7b', '\x7d', '(', ')',
          '=', '#'], d ≠ '\r' := by
      decide
    rw [delimiter, hBad, hEnds]
    simp only [List.contains_eq_mem, decide_eq_false_iff_not,
      decide_eq_true_eq]
    constructor
    · intro hNot hDelimiter
      simp only [List.mem_cons, List.not_mem_nil, or_false]
        at hNot hDelimiter
      tauto
    · intro hDelimiter hMem
      refine hReturn c hMem (hDelimiter ?_)
      simp only [List.mem_cons, List.not_mem_nil, or_false]
        at hMem ⊢
      tauto
  unfold validateEntityName
  by_cases hNil : name = []
  · simp [hNil]
  · rw [if_neg hNil]
    by_cases hBad : name.containsAny " \t\n\"\x7b\x7d()=#" = true
    · rw [if_pos hBad]
      simp only [Text.containsAny, List.any_eq_true] at hBad
      rcases hBad with ⟨c, hc, hBad⟩
      refine ⟨by simp, fun hAll => ?_⟩
      rw [(hChars c).mpr (hAll.2 c hc)] at hBad
      cases hBad
    · rw [if_neg hBad]
      simp only [Text.containsAny, List.any_eq_true,
        not_exists, not_and, Bool.not_eq_true] at hBad
      exact ⟨fun _ => ⟨hNil, fun c hc =>
        (hChars c).mp (hBad c hc)⟩, fun _ => rfl⟩

end Tacconfig

end Soteria
