import Soteria.Frontend.Users

/-
  Signing in with a directory account.

  Key definitions include:
    * `ldapSignIn`, `signInAccount`, `openSession`
    * `OnlyLdapAccounts`, `SignInAnswers.Spares`
    * `ldap_sign_in_iff`
-/

------------------------------------------------------------
-- Signing In
------------------------------------------------------------

namespace Soteria

namespace Frontend

inductive AuthMethod where
  | localUsers
  | ldap
  | oidc
  | sso
deriving DecidableEq

/- A value of the configuration of a method. -/
inductive ConfigValue where
  | text (s : Text)
  | flag (b : Bool)

/- `String`. -/
def ConfigValue.string : ConfigValue → Text
| .text s => s
| .flag true => "true"
| .flag false => "false"

/- The value counts as true. -/
def ConfigValue.truthy : ConfigValue → Bool
| .text s => s ≠ []
| .flag b => b

abbrev AuthConfig := Text → Option ConfigValue

/- A row of `auth_settings`. -/
structure AuthSetting where
  method : AuthMethod
  enabled : Bool
  config : AuthConfig

/- The answer of the agent's directory login. -/
structure LdapAnswer where
  ok : Bool
  message : Text
  email : Option Text
  displayName : Option Text
  groups : Option (List Text)

/-
  The service key and the answers of the calls. The link is
  answered with an error, or with a token, which may be
  missing; the errors of an update and of a creation are
  values.
-/
structure SignInAnswers where
  serviceKey : Bool
  settings : Except Text (List AuthSetting)
  ldapLogin : AuthConfig → Text → Text → Except Text LdapAnswer
  roles : Except Text (List WebRole)
  listError : Option Text
  updateError : Option Text
  createError : Option Text
  link : Except Text (Option Text)
  otpError : Option Text

/- What a sign-in leaves: a thrown error or a session. -/
structure SignInOutcome where
  error : Option Text
  users : UserTable
  session : Option Text

/- `domainFromBaseDn`. -/
def domainFromBaseDn (p : Platform) (baseDn : Text) : Text :=
  Text.join
    ((((baseDn.splitOn ',').map Text.trim).filter fun s =>
      (p.toLowerCase s).hasPrefix "dc=").map fun s => s.drop 3)
    "."

/- The e-mail address of the account. -/
def signInEmail
    (p : Platform)
    (config : AuthConfig)
    (username : Text)
    (answer : LdapAnswer) : Text :=
  let email := p.toLowerCase (Text.trim (answer.email.getD []))
  if email = [] then
    let domain := domainFromBaseDn p
      ((config "baseDn").elim [] ConfigValue.string)
    p.toLowerCase username.trim ++ "@".toList ++
      if domain = [] then "ldap.local".toList else domain
  else email

/- The access group: a directory group of that name, if any. -/
def signInGroup
    (config : AuthConfig)
    (roles : List WebRole)
    (answer : LdapAnswer) : Text :=
  if (config "syncGroups").any ConfigValue.truthy then
    match (answer.groups.getD []).find? fun g =>
        g ∈ roles.map WebRole.name with
    | some (c :: g) => c :: g
    | _ => readonlyGroup
  else readonlyGroup

/- The data the account gets. -/
def signInUpdate
    (config : AuthConfig)
    (roles : List WebRole)
    (username : Text)
    (answer : LdapAnswer) : UserUpdate :=
  let group := signInGroup config roles answer
  let scopes :=
    ((roles.find? fun r => r.name = group).map
      WebRole.scopes).getD []
  { appMetadata :=
      { appMetadataForGroup group scopes with
        authSource := some "ldap" }
    fullName :=
      some
        (if answer.displayName.getD [] = [] then username.trim
        else answer.displayName.getD [])
    unban := false }

/- `createUser`: an address is given away once. -/
def createUser
    (p : Platform)
    (x : SignInAnswers)
    (email : Text)
    (update : UserUpdate)
    (t : UserTable) : UserTable :=
  match x.createError with
  | some _ => t
  | none =>
      if t.addresses.any fun account =>
          account.2.any fun address =>
            p.sameAddress address email then t
      else t.add p email update

/-
  The link for an address and the session it opens. Where no
  account has the address the link makes one.
-/
def openSession
    (p : Platform)
    (x : SignInAnswers)
    (email : Text)
    (t : UserTable) : SignInOutcome :=
  match x.link with
  | .error error => ⟨some error, t, none⟩
  | .ok token =>
      let account :=
        match p.owner t.addresses email with
        | some id => (id, t)
        | none =>
            (t.nextId p, t.add p email
              ⟨⟨none, none, none, none⟩, none, false⟩)
      if token.getD [] = [] then
        ⟨some "Session link had no token.", account.2, none⟩
      else
        match x.otpError with
        | some error => ⟨some error, account.2, none⟩
        | none => ⟨none, account.2, some account.1⟩

/- The account a listing has for an address. -/
def existing
    (p : Platform)
    (email : Text)
    (t : UserTable) : Option User :=
  (p.listUsers (some 1000) t.users).find? fun u =>
    p.toLowerCase (u.email.getD []) = email

/- The account is refreshed, or made; errors are passed over. -/
def provision
    (p : Platform)
    (x : SignInAnswers)
    (email : Text)
    (update : UserUpdate)
    (t : UserTable) : UserTable :=
  match existing p email t with
  | some u =>
      match x.updateError with
      | some _ => t
      | none => t.update p u.id { update with unban := true }
  | none => createUser p x email update t

/- The part of `ldapSignIn` that handles the account. -/
def signInAccount
    (p : Platform)
    (x : SignInAnswers)
    (email : Text)
    (update : UserUpdate)
    (t : UserTable) : SignInOutcome :=
  match x.listError with
  | some error => ⟨some error, t, none⟩
  | none =>
      openSession p x email (provision p x email update t)

/- The message of a login that is turned down. -/
def failureText (message : Text) : Text :=
  if message = [] then "Directory authentication failed."
  else message

/- The checks in front: the address and the data, or an error. -/
def SignInAnswers.directory
    (x : SignInAnswers)
    (p : Platform)
    (username password : Text) :
    Except Text (Text × UserUpdate) :=
  if !x.serviceKey then
    .error
      "Admin API unavailable (service role key not configured)."
  else
    match x.settings with
    | .error error => .error error
    | .ok settings =>
        match settings.find? fun s => s.method = .ldap with
        | none => .error "LDAP sign-in is not enabled."
        | some ldap =>
            if !ldap.enabled then
              .error "LDAP sign-in is not enabled."
            else
              match x.ldapLogin ldap.config username.trim
                  password with
              | .error error => .error error
              | .ok answer =>
                  if !answer.ok then
                    .error (failureText answer.message)
                  else
                    match x.roles with
                    | .error error => .error error
                    | .ok roles =>
                        .ok
                          (signInEmail p ldap.config username
                              answer,
                            signInUpdate ldap.config roles
                              username answer)

/- `ldapSignIn`. -/
def ldapSignIn
    (p : Platform)
    (x : SignInAnswers)
    (username password : Text)
    (t : UserTable) : SignInOutcome :=
  match x.directory p username password with
  | .error error => ⟨some error, t, none⟩
  | .ok (email, update) => signInAccount p x email update t

end Frontend

end Soteria

------------------------------------------------------------
-- Accounts That Are Rewritten
------------------------------------------------------------

namespace Soteria

namespace Frontend

/- The account was made or taken over by a directory sign-in. -/
def User.FromLdap (u : User) : Prop :=
  u.appMetadata.authSource = some "ldap".toList

/- The account has another `app_metadata` in the table. -/
def Rewritten (t : UserTable) (u : User) : Prop :=
  ∃ u' ∈ t.users, u'.id = u.id ∧ u'.appMetadata ≠ u.appMetadata

variable {p : Platform}
variable {x : SignInAnswers}
variable {t : UserTable}
variable {u : User}
variable {email : Text}
variable {update : UserUpdate}

theorem not_rewritten_self
    (hMem : u ∈ t.users) :
    ¬ Rewritten t u := by
  rintro ⟨v, hV, hId, hNe⟩
  exact hNe (by rw [UserTable.eq_of_id_eq hV hMem hId])

/- A new account is not one of the old ones. -/
theorem rewritten_add_iff
    (hId : u.id ∈ t.users.map User.id) :
    Rewritten (t.add p email update) u ↔ Rewritten t u := by
  constructor
  · rintro ⟨v, hMem, hSame, hNe⟩
    rcases List.mem_append.mp hMem with hOld | hNew
    · exact ⟨v, hOld, hSame, hNe⟩
    · rw [List.mem_singleton.mp hNew] at hSame
      rw [← hSame] at hId
      exact absurd hId (t.nextId_not_mem p)
  · rintro ⟨v, hMem, hSame, hNe⟩
    exact ⟨v, List.mem_append_left _ hMem, hSame, hNe⟩

theorem rewritten_update_iff
    (hMem : u ∈ t.users)
    (id : Text) :
    Rewritten (t.update p id update) u ↔
      u.id = id ∧
        p.merge u.appMetadata update.appMetadata ≠
          u.appMetadata := by
  constructor
  · rintro ⟨v', hAfter, hSame, hNe⟩
    rcases List.mem_map.mp hAfter with ⟨v, hV, rfl⟩
    have hId : v.id = u.id := by
      rw [← hSame]
      split
      · rfl
      · rfl
    have hEq := UserTable.eq_of_id_eq hV hMem hId
    subst hEq
    by_cases hTarget : v.id = id
    · rw [if_pos hTarget] at hNe
      exact ⟨hTarget, hNe⟩
    · rw [if_neg hTarget] at hNe
      exact absurd rfl hNe
  · rintro ⟨hTarget, hNe⟩
    refine ⟨u.updated p update, ?_, rfl, hNe⟩
    refine List.mem_map.mpr ⟨u, hMem, ?_⟩
    rw [if_pos hTarget]

/- What an update by a sign-in makes of another account. -/
theorem rewrites_iff
    (hDocumented : p.Documented)
    (hSource : update.appMetadata.authSource = some "ldap".toList)
    (hNot : ¬ u.FromLdap) :
    p.merge u.appMetadata update.appMetadata ≠
      u.appMetadata := by
  intro hSame
  refine hNot ?_
  unfold User.FromLdap
  rw [← hSame, hDocumented.merge_authSource, hSource]
  rfl

/- A listed account is an account. -/
theorem mem_of_existing
    (hDocumented : p.Documented)
    (hExisting : existing p email t = some u) :
    u ∈ t.users :=
  (hDocumented.listUsers_prefix _ _).subset
    (List.mem_of_find?_eq_some hExisting)

theorem createUser_cases
    (p : Platform)
    (x : SignInAnswers)
    (email : Text)
    (update : UserUpdate)
    (t : UserTable) :
    createUser p x email update t = t ∨
      (createUser p x email update t = t.add p email update ∧
        ∀ id address, (id, some address) ∈ t.addresses →
          p.sameAddress address email = false) := by
  unfold createUser
  cases x.createError with
  | some error => exact Or.inl rfl
  | none =>
      simp only
      split
      · exact Or.inl rfl
      · rename_i hNone
        refine Or.inr ⟨rfl, fun id address hMem => ?_⟩
        rw [Bool.eq_false_iff]
        intro hSame
        refine hNone (List.any_eq_true.mpr ⟨_, hMem, ?_⟩)
        exact hSame

/- The provisioning rewrites the listed account only. -/
theorem rewritten_provision_iff
    (hDocumented : p.Documented)
    (hMem : u ∈ t.users) :
    Rewritten (provision p x email update t) u ↔
      existing p email t = some u ∧ x.updateError = none ∧
        p.merge u.appMetadata update.appMetadata ≠
          u.appMetadata := by
  unfold provision
  cases hExisting : existing p email t with
  | some v =>
      have hV := mem_of_existing hDocumented hExisting
      cases x.updateError with
      | some error =>
          simp [not_rewritten_self hMem]
      | none =>
          simp only [true_and]
          rw [rewritten_update_iff hMem]
          refine and_congr_left fun _ => ?_
          constructor
          · intro hId
            rw [UserTable.eq_of_id_eq hMem hV hId]
          · intro hSame
            rw [Option.some_inj.mp hSame]
  | none =>
      refine iff_of_false ?_ (by simp)
      have hId : u.id ∈ t.users.map User.id :=
        List.mem_map_of_mem hMem
      rcases createUser_cases p x email update t with
        hSame | ⟨hAdd, -⟩
      · simp only [hSame]
        exact not_rewritten_self hMem
      · simp only [hAdd]
        rw [rewritten_add_iff hId]
        exact not_rewritten_self hMem

theorem id_mem_provision
    (p : Platform)
    (x : SignInAnswers)
    (email : Text)
    (update : UserUpdate)
    (hId : u.id ∈ t.users.map User.id) :
    u.id ∈ (provision p x email update t).users.map
      User.id := by
  unfold provision
  split
  · split
    · exact hId
    · simp only [UserTable.update]
      rw [map_id_updated]
      exact hId
  · rcases createUser_cases p x email update t with
      hSame | ⟨hAdd, -⟩
    · rw [hSame]
      exact hId
    · rw [hAdd]
      simp only [UserTable.add, List.map_append]
      exact List.mem_append_left _ hId

end Frontend

end Soteria

------------------------------------------------------------
-- Sessions
------------------------------------------------------------

namespace Soteria

namespace Frontend

variable {p : Platform}
variable {x : SignInAnswers}
variable {t : UserTable}
variable {u : User}
variable {email : Text}
variable {update : UserUpdate}

/- The link has a token, and the token opens a session. -/
def SignInAnswers.Opens (x : SignInAnswers) : Prop :=
  x.otpError = none ∧
    ∃ token, x.link = .ok (some token) ∧ token ≠ []

theorem session_iff (id : Text) :
    (openSession p x email t).session = some id ↔
      x.Opens ∧
        (p.owner t.addresses email).getD (t.nextId p) = id := by
  unfold openSession SignInAnswers.Opens
  cases x.link with
  | error error => simp
  | ok token =>
      cases token with
      | none => simp
      | some token =>
          by_cases hToken : token = []
          · simp [hToken]
          · cases x.otpError with
            | some error => simp [hToken]
            | none =>
                cases p.owner t.addresses email with
                | none => simp [hToken]
                | some owner => simp [hToken]

theorem rewritten_openSession_iff
    (hId : u.id ∈ t.users.map User.id) :
    Rewritten (openSession p x email t).users u ↔
      Rewritten t u := by
  have hUsers :
      (openSession p x email t).users = t ∨
        (openSession p x email t).users =
          t.add p email
            ⟨⟨none, none, none, none⟩, none, false⟩ := by
    unfold openSession
    cases x.link with
    | error error => exact Or.inl rfl
    | ok token =>
        cases p.owner t.addresses email with
        | none =>
            right
            simp only
            split
            · rfl
            · cases x.otpError with
              | none => rfl
              | some error => rfl
        | some owner =>
            left
            simp only
            split
            · rfl
            · cases x.otpError with
              | none => rfl
              | some error => rfl
  rcases hUsers with hSame | hAdd
  · rw [hSame]
  · rw [hAdd, rewritten_add_iff hId]

/-
  The old account that the link is for: the one its address
  stands for before anything is provisioned. A new account
  is only made for an address no account has.
-/
theorem owner_provision_iff
    (hDocumented : p.Documented)
    (hMem : u ∈ t.users) :
    (p.owner (provision p x email update t).addresses
          email).getD
        ((provision p x email update t).nextId p) = u.id ↔
      p.owner t.addresses email = some u.id := by
  have hId : u.id ∈ t.users.map User.id :=
    List.mem_map_of_mem hMem
  have hNext :
      (provision p x email update t).nextId p ≠ u.id := by
    intro hSame
    refine (provision p x email update t).nextId_not_mem p ?_
    rw [hSame]
    exact id_mem_provision p x email update hId
  have hOwner :
      p.owner (provision p x email update t).addresses email =
          some u.id ↔
        p.owner t.addresses email = some u.id := by
    unfold provision
    split
    · split
      · exact Iff.rfl
      · rw [UserTable.addresses_update]
    · rcases createUser_cases p x email update t with
        hSame | ⟨hAdd, hNone⟩
      · rw [hSame]
      · rw [hAdd]
        refine iff_of_false ?_ ?_
        · intro hNew
          rcases hDocumented.owner_mem _ _ _ hNew with
            ⟨address, hAddress, hMatch⟩
          have hParts :
              (t.add p email update).addresses =
                t.addresses ++ [(t.nextId p, some email)] := by
            unfold UserTable.addresses UserTable.add
            rw [List.map_append]
            rfl
          rw [hParts] at hAddress
          rcases List.mem_append.mp hAddress with hOld | hLast
          · rw [hNone _ _ hOld] at hMatch
            cases hMatch
          · have hEq := congrArg Prod.fst
              (List.mem_singleton.mp hLast)
            refine t.nextId_not_mem p ?_
            rw [← show u.id = t.nextId p from hEq]
            exact hId
        · intro hOld
          rcases hDocumented.owner_mem _ _ _ hOld with
            ⟨address, hAddress, hMatch⟩
          rw [hNone _ _ hAddress] at hMatch
          cases hMatch
  rw [← hOwner]
  cases p.owner (provision p x email update t).addresses
      email with
  | none => simpa using hNext
  | some owner => simp

end Frontend

end Soteria

------------------------------------------------------------
-- Accounts a Sign-In Touches
------------------------------------------------------------

namespace Soteria

namespace Frontend

variable {p : Platform}
variable {x : SignInAnswers}
variable {t : UserTable}
variable {email : Text}
variable {update : UserUpdate}

/-
  Among the accounts there were, only those of directory
  sign-ins are rewritten or get a session.
-/
def OnlyLdapAccounts
    (before : UserTable)
    (out : SignInOutcome) : Prop :=
  ∀ u ∈ before.users,
    (out.session = some u.id ∨ Rewritten out.users u) →
      u.FromLdap

/-
  A sign-in with this address spares the other accounts: the
  listing fails; or the account it has for the address, and
  the one the link is for, are of directory sign-ins, unless
  the update fails or no session is opened.
-/
def SignInAnswers.Spares
    (x : SignInAnswers)
    (p : Platform)
    (email : Text)
    (t : UserTable) : Prop :=
  x.listError ≠ none ∨
    (∀ u, existing p email t = some u →
      x.updateError = none → u.FromLdap) ∧
      (x.Opens → ∀ u ∈ t.users,
        p.owner t.addresses email = some u.id → u.FromLdap)

theorem signInAccount_iff
    (hDocumented : p.Documented)
    (hSource :
      update.appMetadata.authSource = some "ldap".toList) :
    OnlyLdapAccounts t (signInAccount p x email update t) ↔
      x.Spares p email t := by
  unfold signInAccount SignInAnswers.Spares OnlyLdapAccounts
  cases x.listError with
  | some error =>
      refine iff_of_true ?_ (Or.inl (Option.some_ne_none _))
      rintro u hMem (hSession | hRewritten)
      · cases hSession
      · exact absurd hRewritten (not_rewritten_self hMem)
  | none =>
      rw [or_iff_right (not_not.mpr rfl)]
      have hTouched : ∀ u ∈ t.users,
          ((openSession p x email
              (provision p x email update t)).session =
                some u.id ∨
            Rewritten (openSession p x email
              (provision p x email update t)).users u) ↔
          (x.Opens ∧ p.owner t.addresses email = some u.id) ∨
            (existing p email t = some u ∧
              x.updateError = none ∧
                p.merge u.appMetadata update.appMetadata ≠
                  u.appMetadata) := by
        intro u hMem
        have hId : u.id ∈ t.users.map User.id :=
          List.mem_map_of_mem hMem
        rw [session_iff, owner_provision_iff hDocumented hMem,
          rewritten_openSession_iff
            (id_mem_provision p x email update hId),
          rewritten_provision_iff hDocumented hMem]
      constructor
      · intro hOnly
        constructor
        · intro u hExisting hUpdated
          by_contra hNot
          have hMem := mem_of_existing hDocumented hExisting
          refine hNot (hOnly u hMem
            ((hTouched u hMem).mpr (Or.inr ?_)))
          exact ⟨hExisting, hUpdated,
            rewrites_iff hDocumented hSource hNot⟩
        · intro hOpens u hMem hOwner
          exact hOnly u hMem
            ((hTouched u hMem).mpr (Or.inl ⟨hOpens, hOwner⟩))
      · rintro ⟨hExisting, hSession⟩ u hMem hTouch
        rcases (hTouched u hMem).mp hTouch with
          ⟨hOpens, hOwner⟩ | ⟨hFound, hUpdated, -⟩
        · exact hSession hOpens u hMem hOwner
        · exact hExisting u hFound hUpdated

/- The data of a sign-in is marked as coming from LDAP. -/
theorem directory_authSource
    {username password : Text}
    (hDirectory :
      x.directory p username password = .ok (email, update)) :
    update.appMetadata.authSource = some "ldap".toList := by
  unfold SignInAnswers.directory at hDirectory
  split at hDirectory
  · cases hDirectory
  · split at hDirectory
    · cases hDirectory
    · split at hDirectory
      · cases hDirectory
      · split at hDirectory
        · cases hDirectory
        · split at hDirectory
          · cases hDirectory
          · split at hDirectory
            · cases hDirectory
            · split at hDirectory
              · cases hDirectory
              · cases hDirectory
                rfl

/-
  A directory sign-in touches accounts of directory sign-ins
  only, exactly if the address it ends up with spares the
  others.
-/
theorem ldap_sign_in_iff
    (hDocumented : p.Documented)
    (x : SignInAnswers)
    (username password : Text)
    (t : UserTable) :
    OnlyLdapAccounts t (ldapSignIn p x username password t) ↔
      ∀ email update,
        x.directory p username password =
            .ok (email, update) →
          x.Spares p email t := by
  unfold ldapSignIn
  cases hDirectory : x.directory p username password with
  | error error =>
      refine iff_of_true ?_ (fun _ _ h => nomatch h)
      rintro u hMem (hSession | hRewritten)
      · cases hSession
      · exact absurd hRewritten (not_rewritten_self hMem)
  | ok result =>
      rcases result with ⟨email, update⟩
      simp only
      rw [signInAccount_iff hDocumented
        (directory_authSource hDirectory)]
      constructor
      · intro hSpares _ _ hSame
        cases hSame
        exact hSpares
      · intro hSpares
        exact hSpares email update rfl

/- A directory that gives every user the address of `chief`. -/
def chiefAnswer : LdapAnswer where
  ok := true
  message := []
  email := some "Chief@example.com".toList
  displayName := none
  groups := none

def chiefAnswers : SignInAnswers where
  serviceKey := true
  settings := .ok [⟨.ldap, true, fun _ => none⟩]
  ldapLogin := fun _ _ _ => .ok chiefAnswer
  roles := .ok [⟨"1", readonlyGroup, ["dns:read"]⟩]
  listError := none
  updateError := none
  createError := none
  link := .ok (some "token".toList)
  otpError := none

/- The account of that address, with this data. -/
def chief (m : AppMetadata) : User :=
  ⟨"1", some "chief@example.com".toList, m, none, false⟩

def chiefTable (m : AppMetadata) : UserTable where
  users := [chief m]
  distinct := List.nodup_singleton _

/- The data of a directory account, and of an administrator. -/
def ldapMetadata : AppMetadata :=
  ⟨none, none, none, some "ldap".toList⟩

def adminMetadata : AppMetadata :=
  ⟨some "admin".toList, some adminGroup, none, none⟩

theorem ldap_sign_in_chief :
    OnlyLdapAccounts (chiefTable ldapMetadata)
      (ldapSignIn plainPlatform chiefAnswers "eve" "pass"
        (chiefTable ldapMetadata)) := by
  have hLdap :
      ∀ u ∈ (chiefTable ldapMetadata).users, u.FromLdap := by
    intro u hMem
    rw [List.mem_singleton.mp hMem]
    rfl
  refine (ldap_sign_in_iff plainPlatform_documented chiefAnswers
    "eve" "pass" (chiefTable ldapMetadata)).mpr ?_
  intro email update _
  refine Or.inr ⟨fun u hExisting _ => ?_, fun _ u hMem _ => ?_⟩
  · exact hLdap u
      (mem_of_existing plainPlatform_documented hExisting)
  · exact hLdap u hMem

/-
  With this address a directory user takes the session of the
  administrator, whose account becomes one of the directory.
-/
theorem ldap_sign_in_takes_admin :
    ¬ OnlyLdapAccounts (chiefTable adminMetadata)
        (ldapSignIn plainPlatform chiefAnswers "eve" "pass"
          (chiefTable adminMetadata)) ∧
      (ldapSignIn plainPlatform chiefAnswers "eve" "pass"
          (chiefTable adminMetadata)).session = some "1" ∧
      (ldapSignIn plainPlatform chiefAnswers "eve" "pass"
          (chiefTable adminMetadata)).users.users.map
            User.appMetadata =
        [⟨none, some readonlyGroup, some ["dns:read".toList],
          some "ldap".toList⟩] := by
  refine ⟨fun hOnly => ?_, by decide +kernel, by decide +kernel⟩
  have hLdap := hOnly (chief adminMetadata)
    (List.mem_singleton.mpr rfl) (Or.inl (by decide +kernel))
  cases hLdap

end Frontend

end Soteria
