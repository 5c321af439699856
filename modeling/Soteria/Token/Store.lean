import Mathlib.Algebra.Group.Nat.Defs
import Soteria.Foundation.Text

/-
  API tokens and their file-backed store.

  The token file is modelled by the list of its records, and
  the random bytes and the clock reading of a call are
  arguments of it. The digest of a secret is a parameter:
  nothing here depends on SHA-256 beyond it being a function.

  Key definitions include:
    * `Token`
    * `Token.Store.create`
    * `Token.Store.revoke`
    * `Token.Store.verify`
    * `Token.SameGrant`
-/

------------------------------------------------------------
-- Token Records
------------------------------------------------------------

namespace Soteria

/- The stored record of an API token. -/
structure Token where
  id : Text
  name : Text
  owner : Text
  scopes : List Text
  preview : Text
  hash : Text
  created : Int
  expires : Int
  lastUsed : Int
  revoked : Bool
deriving DecidableEq

namespace Token

/- The marker every token secret starts with. -/
def tokenPrefix : Text := "sot_"

/- `Token.Public`: the record without its hash. -/
def toPublic (t : Token) : Token :=
  { t with hash := "" }

/- `Token.Expired` at clock reading `now`. -/
def expired (t : Token) (now : Int) : Bool :=
  t.expires != 0 && decide (t.expires ≤ now)

/-
  Two records of one grant: they agree on everything but the
  hash, which API copies lack, and the last use, which every
  verification may move.
-/
def SameGrant (t u : Token) : Prop :=
  t.id = u.id ∧ t.name = u.name ∧ t.owner = u.owner ∧
    t.scopes = u.scopes ∧ t.preview = u.preview ∧
    t.created = u.created ∧ t.expires = u.expires ∧
    t.revoked = u.revoked

instance (t u : Token) : Decidable (SameGrant t u) := by
  unfold SameGrant
  infer_instance

theorem SameGrant.refl (t : Token) : SameGrant t t := by
  simp [SameGrant]

theorem SameGrant.symm
    {t u : Token}
    (hSame : SameGrant t u) :
    SameGrant u t := by
  simp_all [SameGrant]

theorem SameGrant.trans
    {t u v : Token}
    (hFirst : SameGrant t u)
    (hSecond : SameGrant u v) :
    SameGrant t v := by
  simp_all [SameGrant]

theorem SameGrant.scopes_eq
    {t u : Token}
    (hSame : SameGrant t u) :
    t.scopes = u.scopes :=
  hSame.2.2.2.1

theorem sameGrant_toPublic (t : Token) :
    SameGrant t t.toPublic := by
  simp [SameGrant, toPublic]

theorem sameGrant_lastUsed (t : Token) (now : Int) :
    SameGrant t { t with lastUsed := now } := by
  simp [SameGrant]

end Token

end Soteria

------------------------------------------------------------
-- Store Operations
------------------------------------------------------------

namespace Soteria

namespace Token

/- The records of the token file, in file order. -/
abbrev Store := List Token

/- The random texts one `Create` call draws. -/
structure Entropy where
  id : Text
  raw : Text
deriving DecidableEq

namespace Store

/- `Store.List`: the caller's tokens, or all for an admin. -/
def list
    (toks : Store)
    (owner : Text)
    (all : Bool) : List Token :=
  ((toks.filter fun t => all || t.owner == owner).map
    toPublic).mergeSort
      (fun t u => decide (u.created ≤ t.created))

/- `Store.Create`: the secret, its record and the new file. -/
def create
    (hashSecret : Text → Text)
    (toks : Store)
    (entropy : Entropy)
    (now : Int)
    (name owner : Text)
    (scopes : List Text)
    (expires : Int) :
    Except Text (Text × Token × Store) :=
  if name = "" then
    .error "token name is required"
  else if scopes = [] then
    .error "at least one scope is required"
  else
    let secret := tokenPrefix ++ entropy.raw
    let tok : Token :=
      { id := entropy.id
        name := name
        owner := owner
        scopes := scopes
        preview :=
          secret.take (tokenPrefix.length + 4) ++ "…"
        hash := hashSecret secret
        created := now
        expires := expires
        lastUsed := 0
        revoked := false }
    .ok (secret, tok.toPublic, toks ++ [tok])

/- `Store.Revoke`: drop the first record with this id. -/
def revoke
    (toks : Store)
    (id owner : Text)
    (isAdmin : Bool) : Except Text Store :=
  match toks.findIdx? (fun t => t.id == id) with
  | none => .error "token not found"
  | some idx =>
      if !isAdmin &&
          (toks[idx]?.map Token.owner) != some owner then
        .error "not your token"
      else .ok (toks.eraseIdx idx)

/-
  `Store.Verify`: the first record with the secret's hash,
  and the file with its last use moved (at most once a
  minute).
-/
def verify
    (hashSecret : Text → Text)
    (secret : Text)
    (now : Int) : Store → Option Token × Store
| [] => (none, [])
| t :: toks =>
    if t.hash != hashSecret secret then
      let (found, rest) := verify hashSecret secret now toks
      (found, t :: rest)
    else if t.revoked || t.expired now then
      (none, t :: toks)
    else if now - t.lastUsed > 60 then
      (some { t with lastUsed := now }.toPublic,
        { t with lastUsed := now } :: toks)
    else (some t.toPublic, t :: toks)

end Store

end Token

end Soteria

------------------------------------------------------------
-- What Each Operation Keeps
------------------------------------------------------------

namespace Soteria

namespace Token

namespace Store

variable {hashSecret : Text → Text}
variable {toks toks' : Store}

/- What a successful `Create` has checked and stored. -/
theorem create_ok
    {entropy : Entropy}
    {now expires : Int}
    {name owner secret : Text}
    {scopes : List Text}
    {pub : Token}
    (hCreate :
      create hashSecret toks entropy now name owner scopes
        expires = .ok (secret, pub, toks')) :
    secret = tokenPrefix ++ entropy.raw ∧
      pub.scopes = scopes ∧ pub.owner = owner ∧
      pub.expires = expires ∧ pub.revoked = false ∧
      pub.lastUsed = 0 ∧
      ∃ tok, toks' = toks ++ [tok] ∧ tok.toPublic = pub ∧
        tok.hash = hashSecret secret := by
  unfold create at hCreate
  split at hCreate
  · cases hCreate
  · split at hCreate
    · cases hCreate
    · simp only [Except.ok.injEq, Prod.mk.injEq] at hCreate
      rcases hCreate with ⟨rfl, rfl, rfl⟩
      exact ⟨rfl, rfl, rfl, rfl, rfl, rfl, _, rfl, rfl, rfl⟩

/- `Revoke` only drops records. -/
theorem mem_of_mem_revoke
    {id owner : Text}
    {isAdmin : Bool}
    {t : Token}
    (hRevoke : revoke toks id owner isAdmin = .ok toks')
    (hMember : t ∈ toks') :
    t ∈ toks := by
  unfold revoke at hRevoke
  split at hRevoke
  · cases hRevoke
  · split at hRevoke
    · cases hRevoke
    · simp only [Except.ok.injEq] at hRevoke
      subst hRevoke
      exact List.mem_of_mem_eraseIdx hMember

/- Every record after `Verify` renews a record before it. -/
theorem exists_sameGrant_of_mem_verify
    {secret : Text}
    {now : Int}
    {t : Token}
    (hMember :
      t ∈ (verify hashSecret secret now toks).2) :
    ∃ u ∈ toks, SameGrant u t := by
  induction toks with
  | nil => simp [verify] at hMember
  | cons head rest ih =>
      unfold verify at hMember
      split at hMember
      · rcases List.mem_cons.mp hMember with hHead | hRest
        · exact ⟨head, by simp, hHead ▸ .refl head⟩
        · rcases ih hRest with ⟨u, hu, hSame⟩
          exact ⟨u, List.mem_cons_of_mem _ hu, hSame⟩
      · split at hMember
        · exact ⟨t, hMember, .refl t⟩
        · split at hMember
          · rcases List.mem_cons.mp hMember with hHead | hRest
            · refine ⟨head, by simp, ?_⟩
              rw [hHead]
              exact sameGrant_lastUsed head now
            · exact ⟨t, List.mem_cons_of_mem _ hRest,
                .refl t⟩
          · exact ⟨t, hMember, .refl t⟩

/- An accepted secret is that of an unexpired record. -/
theorem exists_sameGrant_of_verify
    {secret : Text}
    {now : Int}
    {t : Token}
    (hVerify :
      (verify hashSecret secret now toks).1 = some t) :
    ∃ u ∈ toks, SameGrant u t ∧
      u.hash = hashSecret secret ∧
      u.revoked = false ∧ u.expired now = false := by
  induction toks with
  | nil => simp [verify] at hVerify
  | cons head rest ih =>
      unfold verify at hVerify
      split at hVerify
      · rcases ih hVerify with ⟨u, hu, hRest⟩
        exact ⟨u, List.mem_cons_of_mem _ hu, hRest⟩
      · rename_i hHash
        split at hVerify
        · cases hVerify
        · rename_i hLive
          simp only [bne_iff_ne, ne_eq, not_not] at hHash
          simp only [Bool.or_eq_true, not_or,
            Bool.not_eq_true] at hLive
          refine ⟨head, by simp, ?_, hHash, hLive⟩
          split at hVerify
          · simp only [Option.some.injEq] at hVerify
            subst hVerify
            exact (sameGrant_lastUsed head now).trans
              (sameGrant_toPublic _)
          · simp only [Option.some.injEq] at hVerify
            subst hVerify
            exact sameGrant_toPublic head

/-
  The secret of a record no earlier record shares its hash
  with is accepted until the record expires.
-/
theorem verify_append_fresh
    {secret : Text}
    {now : Int}
    {tok : Token}
    (hFresh : ∀ t ∈ toks, t.hash ≠ hashSecret secret)
    (hHash : tok.hash = hashSecret secret)
    (hRevoked : tok.revoked = false)
    (hExpired : tok.expired now = false) :
    ∃ t, (verify hashSecret secret now
        (toks ++ [tok])).1 = some t ∧
      SameGrant tok t := by
  induction toks with
  | nil =>
      have hMatch : (tok.hash != hashSecret secret) = false :=
        by simp [hHash]
      have hLive : (tok.revoked || tok.expired now) = false :=
        by simp [hRevoked, hExpired]
      simp only [List.nil_append, verify, hMatch, hLive,
        Bool.false_eq_true, if_false]
      split
      · exact ⟨_, rfl, (sameGrant_lastUsed tok now).trans
          (sameGrant_toPublic _)⟩
      · exact ⟨_, rfl, sameGrant_toPublic tok⟩
  | cons head rest ih =>
      have hHead : head.hash ≠ hashSecret secret :=
        hFresh head (by simp)
      have hRest := ih fun t ht =>
        hFresh t (List.mem_cons_of_mem _ ht)
      simpa [verify, hHead] using hRest

end Store

end Token

end Soteria
