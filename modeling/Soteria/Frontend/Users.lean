import Mathlib.Data.List.Nodup
import Soteria.Foundation.Text

/-
  The accounts of the auth server and the access groups, as
  the web UI handles them.

  Key definitions include:
    * `User`, `UserTable`
    * `Platform`, `Platform.Documented`
    * `UserTable.update`, `UserTable.add`
    * `WebRole`, `appMetadataForGroup`
-/

------------------------------------------------------------
-- Scripts
------------------------------------------------------------

namespace Text

/- The white space and line ends of ECMAScript. -/
def scriptSpace (c : Char) : Bool :=
  c ∈ ['\t', '\n', '\x0b', '\x0c', '\r', ' ', '\xa0',
    '\u1680', '\u2028', '\u2029', '\u202f', '\u205f',
    '\u3000', '\ufeff'] ||
    ('\u2000' ≤ c && c ≤ '\u200a')

/- `trim`. -/
def trim (s : Text) : Text :=
  (s.dropWhile scriptSpace).rdropWhile scriptSpace

end Text

------------------------------------------------------------
-- Accounts
------------------------------------------------------------

namespace Soteria

namespace Frontend

/-
  `app_metadata`, as far as it is used. A member that is null
  or missing is `none`, and so are all of a missing object.
-/
structure AppMetadata where
  role : Option Text
  group : Option Text
  scopes : Option (List Text)
  authSource : Option Text
deriving DecidableEq

/- An `app_metadata` that is sent; `authSource` may be left out. -/
abbrev AppMetadataUpdate := AppMetadata

structure User where
  id : Text
  email : Option Text
  appMetadata : AppMetadata
  fullName : Option Text
  banned : Bool
deriving DecidableEq

/- What `updateUserById` is asked to change. -/
structure UserUpdate where
  appMetadata : AppMetadataUpdate
  fullName : Option Text
  unban : Bool

/- The accounts, in the order of their listing. -/
structure UserTable where
  users : List User
  distinct : (users.map User.id).Nodup

/-
  What the browser and the auth server decide on their own:
  the lower-case form of a text; which accounts a listing
  returns, given the size of its page if one is asked for;
  what is stored for an update of `app_metadata`; the id of a
  new account; whether two e-mail addresses are the same; and
  the account that an address stands for, among the ids and
  addresses there are.
-/
structure Platform where
  toLowerCase : Text → Text
  listUsers : Option Nat → List User → List User
  merge : AppMetadata → AppMetadataUpdate → AppMetadata
  newId : (taken : List Text) → { id : Text // id ∉ taken }
  sameAddress : Text → Text → Bool
  owner : List (Text × Option Text) → Text → Option Text

/-
  A listing is the first page of the accounts. An update sets
  the members it has and removes those that are null, except
  that a missing `authSource` stays. An address stands for an
  account that has it.
-/
structure Platform.Documented (p : Platform) : Prop where
  listUsers_prefix : ∀ perPage users,
    p.listUsers perPage users <+: users
  merge_role : ∀ old new, (p.merge old new).role = new.role
  merge_group : ∀ old new, (p.merge old new).group = new.group
  merge_scopes : ∀ old new,
    (p.merge old new).scopes = new.scopes
  merge_authSource : ∀ old new,
    (p.merge old new).authSource =
      new.authSource.or old.authSource
  owner_mem : ∀ accounts email id,
    p.owner accounts email = some id →
      ∃ address, (id, some address) ∈ accounts ∧
        p.sameAddress address email = true

/- An account after an update. -/
def User.updated
    (p : Platform)
    (update : UserUpdate)
    (u : User) : User :=
  { u with
    appMetadata := p.merge u.appMetadata update.appMetadata
    fullName := update.fullName.or u.fullName
    banned := u.banned && !update.unban }

/- An update keeps the ids. -/
theorem map_id_updated
    (p : Platform)
    (id : Text)
    (update : UserUpdate)
    (users : List User) :
    (users.map fun u =>
        if u.id = id then u.updated p update
        else u).map User.id =
      users.map User.id := by
  rw [List.map_map]
  refine List.map_congr_left fun u _ => ?_
  simp only [Function.comp_apply]
  split
  · rfl
  · rfl

namespace UserTable

/- `updateUserById`, where it does not fail. -/
def update
    (t : UserTable)
    (p : Platform)
    (id : Text)
    (update : UserUpdate) : UserTable where
  users := t.users.map fun u =>
    if u.id = id then u.updated p update else u
  distinct := by
    rw [map_id_updated]
    exact t.distinct

/- The id the next account gets. -/
def nextId (t : UserTable) (p : Platform) : Text :=
  (p.newId (t.users.map User.id)).val

theorem nextId_not_mem
    (t : UserTable)
    (p : Platform) :
    t.nextId p ∉ t.users.map User.id :=
  (p.newId (t.users.map User.id)).property

/- A new account with its address and its data. -/
def add
    (t : UserTable)
    (p : Platform)
    (email : Text)
    (update : UserUpdate) : UserTable where
  users := t.users ++
    [User.updated p update
      ⟨t.nextId p, some email, ⟨none, none, none, none⟩, none,
        false⟩]
  distinct := by
    rw [List.map_append, List.map_singleton,
      ← List.concat_eq_append]
    exact t.distinct.concat (t.nextId_not_mem p)

/- The ids and addresses of the accounts. -/
def addresses (t : UserTable) : List (Text × Option Text) :=
  t.users.map fun u => (u.id, u.email)

variable {t : UserTable}
variable {p : Platform}

/- An update leaves the ids and the addresses. -/
theorem addresses_update
    (id : Text)
    (update : UserUpdate) :
    (t.update p id update).addresses = t.addresses := by
  unfold addresses UserTable.update
  rw [List.map_map]
  refine List.map_congr_left fun u _ => ?_
  simp only [Function.comp_apply]
  split
  · rfl
  · rfl

theorem eq_of_id_eq
    {u v : User}
    (hFirst : u ∈ t.users)
    (hSecond : v ∈ t.users)
    (hId : u.id = v.id) :
    u = v :=
  List.inj_on_of_nodup_map t.distinct hFirst hSecond hId

end UserTable

end Frontend

end Soteria

------------------------------------------------------------
-- Access Groups
------------------------------------------------------------

namespace Soteria

namespace Frontend

/- A row of `web_roles`. -/
structure WebRole where
  id : Text
  name : Text
  scopes : List Text
deriving DecidableEq

/- `ADMIN_GROUP`. -/
def adminGroup : Text := "Administrator"

/- `READONLY_GROUP`. -/
def readonlyGroup : Text := "Read Only"

/- `PROTECTED_GROUPS`. -/
def protectedGroups : List Text := [adminGroup, readonlyGroup]

/- `isProtectedGroup`. -/
def isProtectedGroup (name : Text) : Bool :=
  protectedGroups.contains name

/- `appMetadataForGroup`. -/
def appMetadataForGroup
    (group : Text)
    (groupScopes : List Text) : AppMetadataUpdate :=
  if group = adminGroup then
    ⟨some "admin".toList, some adminGroup, none, none⟩
  else if group = [] then ⟨none, none, some [], none⟩
  else ⟨none, some group, some groupScopes, none⟩

/- The message of `admin`. -/
def adminUnavailable : Text :=
  "Admin API unavailable (service role key not configured)"

end Frontend

end Soteria

------------------------------------------------------------
-- A Platform
------------------------------------------------------------

namespace Soteria

namespace Frontend

theorem cons_flatten_not_mem
    (c : Char)
    (taken : List Text) :
    (c :: taken.flatten) ∉ taken := by
  intro hMem
  have hLength :=
    (List.sublist_flatten_of_mem hMem).length_le
  rw [List.length_cons] at hLength
  exact absurd hLength (Nat.not_succ_le_self _)

/- Pages of fifty accounts, and addresses of ASCII letters. -/
def plainPlatform : Platform where
  toLowerCase := Text.toLower
  listUsers := fun perPage users => users.take (perPage.getD 50)
  merge := fun old new =>
    { new with authSource := new.authSource.or old.authSource }
  newId := fun taken =>
    ⟨'x' :: taken.flatten, cons_flatten_not_mem 'x' taken⟩
  sameAddress := fun a b => a.toLower == b.toLower
  owner := fun accounts email =>
    (accounts.find? fun account =>
      account.2.any fun address =>
        address.toLower == email.toLower).map Prod.fst

theorem plainPlatform_documented :
    plainPlatform.Documented where
  listUsers_prefix := fun _ _ => List.take_prefix _ _
  merge_role := fun _ _ => rfl
  merge_group := fun _ _ => rfl
  merge_scopes := fun _ _ => rfl
  merge_authSource := fun _ _ => rfl
  owner_mem := by
    intro accounts email id hOwner
    rcases Option.map_eq_some_iff.mp hOwner with
      ⟨⟨_, address⟩, hFound, rfl⟩
    have hMem := List.mem_of_find?_eq_some hFound
    have hSame := List.find?_some hFound
    cases address with
    | none => cases hSame
    | some address => exact ⟨address, hMem, hSame⟩

end Frontend

end Soteria
