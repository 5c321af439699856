import Soteria.Api.TokenScopes

/-
  The lifetime a token is created with.

  Key definitions include:
    * `requestedExpiry`, `LifetimeHonoured`
    * `LifetimeFits`
    * `createToken_lifetime_iff`
-/

------------------------------------------------------------
-- Requested Lifetimes
------------------------------------------------------------

namespace Soteria

namespace Api

open Token (Store)

/- The request asks for a lifetime. -/
def CreateTokenBody.Limited (body : CreateTokenBody) : Prop :=
  body.expiresAt ≠ 0 ∨ body.expiresInDays ≠ 0

/- The expiry that is asked for, in whole seconds. -/
def requestedExpiry (body : CreateTokenBody) (now : Int) :
    Int :=
  if body.expiresAt ≠ 0 then body.expiresAt
  else now / 1000000000 + body.expiresInDays * 86400

/-
  A token that was asked to expire does, and at the time that
  was asked for.
-/
def LifetimeHonoured
    (body : CreateTokenBody)
    (now expires : Int) : Prop :=
  body.Limited →
    expires = requestedExpiry body now ∧ expires ≠ 0

/-
  The lifetimes that are kept: a positive time, or a positive
  number of days whose nanoseconds fit 64 bits and that does
  not end in 1970. A negative time comes true only where the
  days happen to wrap around to it.
-/
def LifetimeFits (body : CreateTokenBody) (now : Int) : Prop :=
  ¬ body.Limited ∨
    0 < body.expiresAt ∨
      (body.expiresAt = 0 ∧ 0 < body.expiresInDays ∧
        body.expiresInDays ≤ 106751 ∧
          now / 1000000000 + body.expiresInDays * 86400 ≠ 0) ∨
        (body.expiresAt < 0 ∧ 0 < body.expiresInDays ∧
          (now + Int.bmod
            (body.expiresInDays * 86400000000000)
            (2 ^ 64)) / 1000000000 = body.expiresAt)

/- A number of days is added as it is, or wrapped around. -/
theorem days_added_iff
    {days now : Int}
    (hPositive : 0 < days) :
    (now + Int.bmod (days * 86400000000000) (2 ^ 64)) /
          1000000000 =
        now / 1000000000 + days * 86400 ↔
      days ≤ 106751 := by
  have hWrap :=
    Int.bmod_eq_self_sub_mul_bdiv (days * 86400000000000)
      (2 ^ 64)
  have hLow :=
    Int.le_bmod (x := days * 86400000000000) (m := 2 ^ 64)
      (by decide)
  have hHigh :=
    Int.bmod_lt (x := days * 86400000000000) (m := 2 ^ 64)
      (by decide)
  generalize Int.bmod (days * 86400000000000) (2 ^ 64) = added
    at *
  generalize Int.bdiv (days * 86400000000000) (2 ^ 64) = turns
    at *
  have hTurn : ((2 ^ 64 : Nat) : Int) = 18446744073709551616 :=
    rfl
  rw [hTurn] at hWrap hLow hHigh
  -- a turn of 64 bits is longer than the rounding to seconds
  omega

variable {body : CreateTokenBody}
variable {now : Int}

/- The expiry the handler stores is the one asked for. -/
theorem tokenExpiry_honoured_iff :
    LifetimeHonoured body now (tokenExpiry body now) ↔
      LifetimeFits body now := by
  unfold LifetimeHonoured LifetimeFits
  by_cases hLimited : body.Limited
  · rw [or_iff_right (not_not.mpr hLimited),
      forall_prop_of_true hLimited]
    unfold tokenExpiry requestedExpiry
    rcases Int.lt_trichotomy body.expiresAt 0 with
      hBefore | hNone | hAfter
    · have hSome : body.expiresAt ≠ 0 := Int.ne_of_lt hBefore
      have hNot : ¬ 0 < body.expiresAt := by omega
      rw [if_neg hNot, if_pos hSome]
      by_cases hDays : 0 < body.expiresInDays
      · rw [if_pos hDays]
        constructor
        · rintro ⟨hExpires, -⟩
          exact Or.inr (Or.inr ⟨hBefore, hDays, hExpires⟩)
        · rintro (h | ⟨h, -⟩ | ⟨-, -, hExpires⟩)
          · exact absurd h hNot
          · exact absurd h hSome
          · exact ⟨hExpires, by rw [hExpires]; exact hSome⟩
      · rw [if_neg hDays]
        constructor
        · rintro ⟨-, hZero⟩
          exact absurd rfl hZero
        · rintro (h | ⟨h, -⟩ | ⟨-, h, -⟩)
          · exact absurd h hNot
          · exact absurd h hSome
          · exact absurd h hDays
    · rw [hNone, if_neg (Int.lt_irrefl 0), if_neg (not_not.mpr rfl)]
      by_cases hDays : 0 < body.expiresInDays
      · rw [if_pos hDays]
        have hAdded := @days_added_iff _ now hDays
        constructor
        · rintro ⟨hExpires, hLater⟩
          rw [hExpires] at hLater
          exact Or.inr (Or.inl
            ⟨rfl, hDays, hAdded.mp hExpires, hLater⟩)
        · rintro (h | ⟨-, -, hFits, hLater⟩ | ⟨h, -⟩)
          · exact absurd h (Int.lt_irrefl 0)
          · have hExpires := hAdded.mpr hFits
            exact ⟨hExpires, by rw [hExpires]; exact hLater⟩
          · exact absurd h (Int.lt_irrefl 0)
      · rw [if_neg hDays]
        constructor
        · rintro ⟨-, hZero⟩
          exact absurd rfl hZero
        · rintro (h | ⟨-, h, -⟩ | ⟨h, -⟩)
          · exact absurd h (Int.lt_irrefl 0)
          · exact absurd h hDays
          · exact absurd h (Int.lt_irrefl 0)
    · rw [if_pos hAfter, if_pos (Int.ne_of_gt hAfter)]
      exact iff_of_true ⟨rfl, Int.ne_of_gt hAfter⟩ (Or.inl hAfter)
  · exact iff_of_true (fun h => absurd h hLimited)
      (Or.inl hLimited)

end Api

end Soteria

------------------------------------------------------------
-- Created Tokens
------------------------------------------------------------

namespace Soteria

namespace Api

open Token (Store)

variable {s : Server}
variable {toks toks' : Token.Store}

/- A created token is stored with the handler's expiry. -/
theorem createToken_expires
    {r : Request}
    {caller : Option Identity}
    {secret : Text}
    {tok : Token}
    (hCreate :
      s.createToken toks caller r =
        (.created secret tok, toks')) :
    ∃ body stored,
      r.body = some body ∧ toks' = toks ++ [stored] ∧
        stored.toPublic = tok ∧
          stored.expires = tokenExpiry body r.now := by
  unfold Server.createToken at hCreate
  split at hCreate
  · rename_i hUser
    cases hCreate
    exact (requireUser_error hUser trivial).elim
  · split at hCreate
    · cases hCreate
    · rename_i body hBody
      split at hCreate
      · cases hCreate
      · split at hCreate
        · cases hCreate
        · rename_i hStore
          cases hCreate
          rcases Token.Store.create_ok hStore with
            ⟨_, _, _, hExpires, _, _, stored, hEq, hPublic, _⟩
          refine ⟨body, stored, hBody, hEq, hPublic, ?_⟩
          rw [← hExpires, ← hPublic]
          rfl

/-
  A request that is not rejected stores the expiry it asks
  for, and not zero, exactly if the lifetime fits.
-/
theorem createToken_lifetime_iff
    {r : Request}
    {caller : Option Identity}
    {secret : Text}
    {tok : Token}
    (hCreate :
      s.createToken toks caller r =
        (.created secret tok, toks')) :
    ∃ body stored,
      r.body = some body ∧ toks' = toks ++ [stored] ∧
        (LifetimeHonoured body r.now stored.expires ↔
          LifetimeFits body r.now) := by
  rcases createToken_expires hCreate with
    ⟨body, stored, hBody, hStored, -, hExpires⟩
  refine ⟨body, stored, hBody, hStored, ?_⟩
  rw [hExpires]
  exact tokenExpiry_honoured_iff

/- A request for a token, at a billion seconds since 1970. -/
def lifetimeRequest (days expiresAt : Int) : Request :=
  { adminRequest with
    body := some ⟨"ci", ["config:write"], days, expiresAt⟩
    now := 1000000000000000000 }

/- The session that asks. -/
def lifetimeCaller : Identity :=
  ⟨true, "root", "admin", []⟩

theorem createToken_lifetime_iff_month :
    ∃ secret tok toks',
      adminServer.createToken [] (some lifetimeCaller)
          (lifetimeRequest 30 0) =
        (.created secret tok, toks') ∧
      ∃ body stored,
        (lifetimeRequest 30 0).body = some body ∧
          toks' = [] ++ [stored] ∧
            (LifetimeHonoured body (lifetimeRequest 30 0).now
                stored.expires ↔
              LifetimeFits body (lifetimeRequest 30 0).now) :=
  ⟨_, _, _, rfl, @createToken_lifetime_iff _ _ _ _
    (some lifetimeCaller) _ _ rfl⟩

/-
  A token for a negative number of days never expires, and one
  for more days than nanoseconds fit is expired at once.
-/
theorem lifetimes_lost :
    (∃ secret tok stored,
      adminServer.createToken [] (some lifetimeCaller)
          (lifetimeRequest (-7) 0) =
        (.created secret tok, [stored]) ∧
        stored.expires = 0 ∧
          ¬ LifetimeHonoured ⟨"ci", ["config:write"], -7, 0⟩
            1000000000000000000 stored.expires ∧
          ∀ unix, stored.expired unix = false) ∧
      ∃ secret tok stored,
        adminServer.createToken [] (some lifetimeCaller)
            (lifetimeRequest 106752 0) =
          (.created secret tok, [stored]) ∧
          stored.expires = -8223371274 ∧
            stored.expired 1000000000 = true := by
  refine ⟨⟨_, _, _, rfl, rfl, ?_, ?_⟩,
    ⟨_, _, _, rfl, by decide +kernel, by decide +kernel⟩⟩
  · intro hHonoured
    exact (hHonoured (Or.inr (by decide))).2 rfl
  · intro unix
    rfl

end Api

end Soteria
