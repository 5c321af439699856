import Soteria.Frontend.Users

/-
  Changes of access groups and the accounts of their members.

  Key definitions include:
    * `updateRole`, `deleteRole`, `syncMembers`
    * `Reaches`
    * `role_change_reaches_iff`
-/

------------------------------------------------------------
-- Changing Access Groups
------------------------------------------------------------

namespace Soteria

namespace Frontend

/-
  The service key, and the errors of the calls: of the change
  of `web_roles`, of the listing, and of the update of each
  account. They are values.
-/
structure RoleAnswers where
  serviceKey : Bool
  rolesError : Option Text
  listError : Option Text
  updateError : Text → Option Text

/- The tables of the backend. -/
structure Backend where
  roles : List WebRole
  users : UserTable

/- The accounts that `syncMembers` does not pass over. -/
def Member (prevName : Text) (u : User) : Prop :=
  u.appMetadata.role ≠ some "admin".toList ∧
    u.appMetadata.group = some prevName

instance (prevName : Text) (u : User) :
    Decidable (Member prevName u) := by
  unfold Member
  infer_instance

/- What `syncMembers` writes; no name is a falsy one. -/
def memberUpdate
    (newName : Option Text)
    (scopes : List Text) : UserUpdate where
  appMetadata :=
    { role := none
      group := newName
      scopes :=
        if newName.getD [] = [] then some [] else some scopes
      authSource := none }
  fullName := none
  unban := false

/-
  One turn of the loop. The error of an update is not looked
  at.
-/
def syncMember
    (p : Platform)
    (x : RoleAnswers)
    (prevName : Text)
    (update : UserUpdate)
    (t : UserTable)
    (u : User) : UserTable :=
  if Member prevName u then
    match x.updateError u.id with
    | some _ => t
    | none => t.update p u.id update
  else t

/- `syncMembers`, with the error it throws. -/
def syncMembers
    (p : Platform)
    (x : RoleAnswers)
    (prevName : Text)
    (newName : Option Text)
    (scopes : List Text)
    (t : UserTable) : Option Text × UserTable :=
  match x.listError with
  | some error => (some error, t)
  | none =>
      (none, (p.listUsers none t.users).foldl
        (syncMember p x prevName (memberUpdate newName scopes))
        t)

/- `updateRole`. -/
def updateRole
    (p : Platform)
    (x : RoleAnswers)
    (id prevName name : Text)
    (scopes : List Text)
    (b : Backend) : Option Text × Backend :=
  if !x.serviceKey then (some adminUnavailable, b)
  else
    match x.rolesError with
    | some error => (some error, b)
    | none =>
        let roles := b.roles.map fun r =>
          if r.id = id then ⟨r.id, name.trim, scopes⟩ else r
        let synced := syncMembers p x prevName (some name.trim)
          scopes b.users
        (synced.1, ⟨roles, synced.2⟩)

/- `deleteRole`. -/
def deleteRole
    (p : Platform)
    (x : RoleAnswers)
    (id name : Text)
    (b : Backend) : Option Text × Backend :=
  if isProtectedGroup name then
    (some ("\"" ++ name ++
      "\" is a protected group and cannot be deleted".toList),
      b)
  else if !x.serviceKey then (some adminUnavailable, b)
  else
    match x.rolesError with
    | some error => (some error, b)
    | none =>
        let roles := b.roles.filter fun r => r.id ≠ id
        let synced := syncMembers p x name none [] b.users
        (synced.1, ⟨roles, synced.2⟩)

end Frontend

end Soteria

------------------------------------------------------------
-- Members That Are Reached
------------------------------------------------------------

namespace Soteria

namespace Frontend

variable {p : Platform}
variable {x : RoleAnswers}
variable {prevName : Text}
variable {update : UserUpdate}
variable {t : UserTable}

/- The account is listed and its update does not fail. -/
def Updates
    (p : Platform)
    (x : RoleAnswers)
    (t : UserTable)
    (u : User) : Prop :=
  u ∈ p.listUsers none t.users ∧ x.updateError u.id = none

/-
  The loop over some accounts: exactly the members among them
  whose update does not fail have it.
-/
theorem users_syncMembers
    (page : List User)
    (hPage : (page.map User.id).Nodup) :
    (page.foldl (syncMember p x prevName update) t).users =
      t.users.map fun u =>
        if ∃ v ∈ page, v.id = u.id ∧ Member prevName v ∧
            x.updateError v.id = none then
          u.updated p update
        else u := by
  induction page generalizing t with
  | nil => simp
  | cons v page ih =>
      rw [List.map_cons, List.nodup_cons] at hPage
      rw [List.foldl_cons, ih hPage.2]
      have hLater : ∀ u : User, u.id = v.id →
          ¬ ∃ w ∈ page, w.id = u.id ∧ Member prevName w ∧
            x.updateError w.id = none := by
        rintro u hId ⟨w, hMem, hSame, -⟩
        refine hPage.1 ?_
        rw [← hId, ← hSame]
        exact List.mem_map_of_mem hMem
      by_cases hDone :
          Member prevName v ∧ x.updateError v.id = none
      · have hStep :
            (syncMember p x prevName update t v).users =
              t.users.map fun u =>
                if u.id = v.id then u.updated p update
                else u := by
          unfold syncMember
          rw [if_pos hDone.1, hDone.2]
          rfl
        rw [hStep, List.map_map]
        refine List.map_congr_left fun u _ => ?_
        simp only [Function.comp_apply]
        by_cases hId : u.id = v.id
        · have hHere :
              ∃ w ∈ v :: page, w.id = u.id ∧
                Member prevName w ∧ x.updateError w.id = none :=
            ⟨v, List.mem_cons_self .., hId.symm, hDone⟩
          rw [if_pos hId, if_pos hHere]
          exact if_neg (hLater _ hId)
        · rw [if_neg hId]
          congr 1
          simp [Ne.symm hId]
      · have hStep :
            (syncMember p x prevName update t v).users =
              t.users := by
          unfold syncMember
          split
          · rename_i hMember
            split
            · rfl
            · rename_i hNone
              exact absurd ⟨hMember, hNone⟩ hDone
          · rfl
        rw [hStep]
        refine List.map_congr_left fun u _ => ?_
        congr 1
        simp [hDone]

/- Every non-admin member of a group gets what is asked for. -/
def Reaches
    (prevName : Text)
    (done : AppMetadata → Prop)
    (before after : UserTable) : Prop :=
  ∀ u ∈ before.users, Member prevName u →
    ∃ u' ∈ after.users, u'.id = u.id ∧ done u'.appMetadata

/-
  After the sync every member has what `done` asks for
  exactly if the update gives it to those that are updated,
  and the others have it before.
-/
theorem reached_iff
    (hDocumented : p.Documented)
    (done : AppMetadata → Prop) :
    Reaches prevName done t
        ((p.listUsers none t.users).foldl
          (syncMember p x prevName update) t) ↔
      ∀ u ∈ t.users, Member prevName u →
        (Updates p x t u →
            done (p.merge u.appMetadata update.appMetadata)) ∧
          (¬ Updates p x t u → done u.appMetadata) := by
  have hPrefix := hDocumented.listUsers_prefix none t.users
  have hPage :
      ((p.listUsers none t.users).map User.id).Nodup :=
    t.distinct.sublist (hPrefix.sublist.map User.id)
  unfold Reaches
  rw [users_syncMembers _ hPage]
  refine forall_congr' fun u => forall_congr' fun hMem =>
    forall_congr' fun hMember => ?_
  have hCond :
      (∃ v ∈ p.listUsers none t.users, v.id = u.id ∧
          Member prevName v ∧ x.updateError v.id = none) ↔
        Updates p x t u := by
    constructor
    · rintro ⟨v, hListed, hId, -, hNone⟩
      have hSame : v = u :=
        UserTable.eq_of_id_eq (hPrefix.subset hListed) hMem hId
      subst hSame
      exact ⟨hListed, hNone⟩
    · rintro ⟨hListed, hNone⟩
      exact ⟨u, hListed, rfl, hMember, hNone⟩
  constructor
  · rintro ⟨u', hAfter, hId, hDone⟩
    rcases List.mem_map.mp hAfter with ⟨v, hV, rfl⟩
    have hSame : v = u := by
      refine UserTable.eq_of_id_eq hV hMem ?_
      rw [← hId]
      split
      · rfl
      · rfl
    subst hSame
    constructor
    · intro hUpdates
      rw [if_pos (hCond.mpr hUpdates)] at hDone
      exact hDone
    · intro hNot
      rw [if_neg (fun h => hNot (hCond.mp h))] at hDone
      exact hDone
  · rintro ⟨hUpdated, hOther⟩
    refine ⟨_, List.mem_map_of_mem hMem, ?_, ?_⟩
    · split
      · rfl
      · rfl
    · split
      · rename_i hIn
        exact hUpdated (hCond.mp hIn)
      · rename_i hOut
        exact hOther fun h => hOut (hCond.mpr h)

end Frontend

end Soteria

------------------------------------------------------------
-- Changes That Reach Every Member
------------------------------------------------------------

namespace Soteria

namespace Frontend

variable {p : Platform}

/- No name and no scopes. -/
def Cleared (m : AppMetadata) : Prop :=
  m.group = none ∧ m.scopes.getD [] = []

/- The function throws before it looks at the members. -/
def RoleAnswers.Throws (x : RoleAnswers) : Prop :=
  x.serviceKey = false ∨ x.rolesError ≠ none ∨
    x.listError ≠ none

theorem syncMembers_resolved
    {x : RoleAnswers}
    {prevName : Text}
    {newName : Option Text}
    {scopes : List Text}
    {t : UserTable}
    (hList : x.listError = none) :
    syncMembers p x prevName newName scopes t =
      (none, (p.listUsers none t.users).foldl
        (syncMember p x prevName (memberUpdate newName scopes))
        t) := by
  unfold syncMembers
  rw [hList]

theorem updateRole_resolved_iff
    (x : RoleAnswers)
    (id prevName name : Text)
    (scopes : List Text)
    (b : Backend) :
    (updateRole p x id prevName name scopes b).1 = none ↔
      ¬ x.Throws := by
  unfold updateRole RoleAnswers.Throws syncMembers
  cases x.serviceKey with
  | false => simp
  | true =>
      cases x.rolesError with
      | some error => simp
      | none =>
          cases x.listError with
          | some error => simp
          | none => simp

theorem deleteRole_resolved_iff
    (x : RoleAnswers)
    (id name : Text)
    (b : Backend) :
    (deleteRole p x id name b).1 = none ↔
      ¬ (isProtectedGroup name = true ∨ x.Throws) := by
  unfold deleteRole RoleAnswers.Throws syncMembers
  cases isProtectedGroup name with
  | true => simp
  | false =>
      cases x.serviceKey with
      | false => simp
      | true =>
          cases x.rolesError with
          | some error => simp
          | none =>
              cases x.listError with
              | some error => simp
              | none => simp

theorem updateRole_users
    {x : RoleAnswers}
    {id prevName name : Text}
    {scopes : List Text}
    {b : Backend}
    (hResolved : ¬ x.Throws) :
    (updateRole p x id prevName name scopes b).2.users =
      (p.listUsers none b.users.users).foldl
        (syncMember p x prevName
          (memberUpdate (some name.trim) scopes)) b.users := by
  unfold RoleAnswers.Throws at hResolved
  simp only [not_or, Bool.not_eq_false, not_not] at hResolved
  rcases hResolved with ⟨hKey, hRoles, hList⟩
  unfold updateRole
  rw [hKey, hRoles]
  simp only [Bool.not_true, Bool.false_eq_true, if_false]
  rw [syncMembers_resolved hList]

theorem deleteRole_users
    {x : RoleAnswers}
    {id name : Text}
    {b : Backend}
    (hResolved : ¬ (isProtectedGroup name = true ∨ x.Throws)) :
    (deleteRole p x id name b).2.users =
      (p.listUsers none b.users.users).foldl
        (syncMember p x name (memberUpdate none []))
        b.users := by
  rw [not_or] at hResolved
  rcases hResolved with ⟨hPlain, hResolved⟩
  unfold RoleAnswers.Throws at hResolved
  simp only [not_or, Bool.not_eq_false, not_not] at hResolved
  rcases hResolved with ⟨hKey, hRoles, hList⟩
  unfold deleteRole
  rw [if_neg hPlain, hKey, hRoles]
  simp only [Bool.not_true, Bool.false_eq_true, if_false]
  rw [syncMembers_resolved hList]

/-
  A change of a group that resolves has reached every member
  exactly if every member is listed and updated without an
  error, or has what the change gives already; and a new name
  that is empty comes without scopes.
-/
theorem role_change_reaches_iff
    (hDocumented : p.Documented) :
    (∀ (x : RoleAnswers) (id prevName name : Text)
        (scopes : List Text) (b : Backend),
      ((updateRole p x id prevName name scopes b).1 = none →
          Reaches prevName
            (fun m => m.group = some name.trim ∧
              m.scopes = some scopes) b.users
            (updateRole p x id prevName name scopes
              b).2.users) ↔
        x.Throws ∨
          ∀ u ∈ b.users.users, Member prevName u →
            (Updates p x b.users u →
                name.trim = [] → scopes = []) ∧
              (¬ Updates p x b.users u →
                prevName = name.trim ∧
                  u.appMetadata.scopes = some scopes)) ∧
      ∀ (x : RoleAnswers) (id name : Text) (b : Backend),
        ((deleteRole p x id name b).1 = none →
            Reaches name Cleared b.users
              (deleteRole p x id name b).2.users) ↔
          (isProtectedGroup name = true ∨ x.Throws) ∨
            ∀ u ∈ b.users.users, Member name u →
              Updates p x b.users u := by
  constructor
  · intro x id prevName name scopes b
    rw [updateRole_resolved_iff]
    by_cases hThrows : x.Throws
    · exact iff_of_true (fun h => absurd hThrows h)
        (Or.inl hThrows)
    · rw [imp_iff_right hThrows, or_iff_right hThrows,
        updateRole_users hThrows]
      rw [reached_iff hDocumented]
      refine forall_congr' fun u => forall_congr' fun hMem =>
        forall_congr' fun hMember => and_congr ?_ ?_
      · rw [hDocumented.merge_group, hDocumented.merge_scopes]
        unfold memberUpdate
        refine imp_congr_right fun _ => ?_
        simp only [Option.getD_some, true_and]
        by_cases hName : name.trim = []
        · simp [hName, eq_comm]
        · simp [hName]
      · refine imp_congr_right fun _ => ?_
        rw [hMember.2, Option.some_inj]
  · intro x id name b
    rw [deleteRole_resolved_iff]
    by_cases hThrows : isProtectedGroup name = true ∨ x.Throws
    · exact iff_of_true (fun h => absurd hThrows h)
        (Or.inl hThrows)
    · rw [imp_iff_right hThrows, or_iff_right hThrows,
        deleteRole_users hThrows]
      rw [reached_iff hDocumented]
      refine forall_congr' fun u => forall_congr' fun hMem =>
        forall_congr' fun hMember => ?_
      unfold Cleared memberUpdate
      rw [hDocumented.merge_group, hDocumented.merge_scopes,
        hMember.2]
      simp

/- No call fails. -/
def calmRoles : RoleAnswers where
  serviceKey := true
  rolesError := none
  listError := none
  updateError := fun _ => none

/- A member of the group `ops`. -/
def opsMember (id : Text) : User where
  id := id
  email := none
  appMetadata :=
    ⟨none, some "ops".toList, some ["dns:write"], none⟩
  fullName := none
  banned := false

def opsBackend : Backend where
  roles := [⟨"1", "ops", ["dns:write"]⟩]
  users := ⟨[opsMember "u"], List.nodup_singleton _⟩

theorem role_change_reaches_ops :
    Reaches "ops"
      (fun m => m.group = some (Text.trim "net") ∧
        m.scopes = some [("dns:read" : Text)])
      opsBackend.users
      (updateRole plainPlatform calmRoles "1" "ops" "net"
        ["dns:read"] opsBackend).2.users :=
  ((role_change_reaches_iff plainPlatform_documented).1
    calmRoles "1" "ops" "net" ["dns:read"] opsBackend).mpr
    (Or.inr fun u hMem _ => by
      rw [List.mem_singleton.mp hMem]
      exact ⟨fun _ hName => absurd hName (by decide),
        fun hNot => absurd ⟨List.mem_singleton.mpr rfl, rfl⟩
          hNot⟩) rfl

/- The update of an account fails. -/
def failedUpdate : RoleAnswers :=
  { calmRoles with updateError := fun _ => some "timeout" }

/- A group with a member more than the first page has. -/
def crowdedBackend : Backend where
  roles := [⟨"1", "ops", ["dns:write"]⟩]
  users :=
    ⟨(List.range 51).map fun n => opsMember (List.replicate n 'u'),
      by decide +kernel⟩

/-
  A change and a deletion resolve while the update of the
  only member fails, and while the last member is not in the
  listing: these keep the group and its scopes.
-/
theorem role_change_misses_members :
    ((updateRole plainPlatform failedUpdate "1" "ops" "ops" []
          opsBackend).1 = none ∧
        ¬ Reaches "ops"
          (fun m => m.group = some (Text.trim "ops") ∧
            m.scopes = some [])
          opsBackend.users
          (updateRole plainPlatform failedUpdate "1" "ops"
            "ops" [] opsBackend).2.users) ∧
      (deleteRole plainPlatform calmRoles "1" "ops"
          crowdedBackend).1 = none ∧
        ¬ Reaches "ops" Cleared crowdedBackend.users
          (deleteRole plainPlatform calmRoles "1" "ops"
            crowdedBackend).2.users := by
  unfold Reaches Cleared
  refine ⟨⟨rfl, ?_⟩, rfl, ?_⟩
  · decide +kernel
  · decide +kernel

end Frontend

end Soteria
