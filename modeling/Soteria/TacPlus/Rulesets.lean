import Soteria.TacPlus.Scripts

/-
  Rulesets and the cache of their verdicts.

  The rules of a realm are evaluated until one of them permits
  or denies the user. A connection keeps the last verdicts for
  two minutes, by the user and a checksum of the address and
  the port that the user comes from.

  Key definitions include:
    * `TacPlus.Entry`, `TacPlus.lookupUserProfile`
    * `TacPlus.cacheUserProfile`, `TacPlus.victim`
    * `TacPlus.evalRulesetR`, `TacPlus.evalRuleset`
    * `TacPlus.evalRulesets_answers`
-/

------------------------------------------------------------
-- The Cache
------------------------------------------------------------

namespace Soteria

namespace TacPlus

variable {U P : Type} [DecidableEq U]

/- `struct user_profile_cache` -/
structure Entry (U P : Type) where
  user : Option U
  crc32 : UInt32
  profile : Option P
  res : Token
  validUntil : Nat

/- `USER_PROFILE_CACHE_SIZE` -/
def cacheSize : Nat := 8

/- The cache of a new connection. -/
def noEntries : List (Entry U P) :=
  List.replicate cacheSize
    { user := none, crc32 := 0, profile := none, res := .unknown,
      validUntil := 0 }

def Entry.is (user : U) (crc32 : UInt32) (e : Entry U P) :
    Bool :=
  e.user = some user && e.crc32 = crc32

/- `lookup_user_profile`: the verdict and the profile that are
   found, and the cache afterwards. -/
def lookupUserProfile
    (now : Nat) (user : U) (crc32 : UInt32) :
    List (Entry U P) →
      Option (Token × Option P) × List (Entry U P)
| [] => (none, [])
| e :: es =>
    if e.is user crc32 then
      if now ≤ e.validUntil then (some (e.res, e.profile), e :: es)
      else (none, { e with user := none, profile := none } :: es)
    else
      ((lookupUserProfile now user crc32 es).1,
        e :: (lookupUserProfile now user crc32 es).2)

/- The second loop of `cache_user_profile`, from the entry at `i`
   on, with the oldest entry before it. -/
def victimFrom (now : Nat) :
    List (Entry U P) → Nat → Nat × Nat → Nat
| [], _, (j, _) => j
| e :: es, i, (j, oldest) =>
    if e.validUntil < now then i
    else if oldest > e.validUntil then
      victimFrom now es (i + 1) (i, e.validUntil)
    else victimFrom now es (i + 1) (j, oldest)

/- The place of the entry that a new one replaces. -/
def victim
    (now : Nat) (user : U) (crc32 : UInt32)
    (cache : List (Entry U P)) :
    Nat :=
  match cache.findIdx? (Entry.is user crc32) with
  | some i => i
  | none =>
      match cache with
      | [] => 0
      | e :: _ => victimFrom now cache 0 (0, e.validUntil)

/- `cache_user_profile` -/
def cacheUserProfile
    (now : Nat) (user : U) (crc32 : UInt32) (profile : Option P)
    (res : Token) (cache : List (Entry U P)) :
    List (Entry U P) :=
  cache.set (victim now user crc32 cache)
    { user := some user, crc32 := crc32, profile := profile,
      res := res, validUntil := now + 120 }

end TacPlus

end Soteria

------------------------------------------------------------
-- Rulesets
------------------------------------------------------------

namespace Soteria

namespace TacPlus

variable {n : Nat} {T A U P ρ : Type}

/- `struct tac_rule` -/
structure Rule (n : Nat) (T A : Type) where
  enabled : Bool
  acl : Script n T A

/- `tac_realm`, as far as rules are concerned. -/
structure Realm (n : Nat) (T A : Type) where
  rules : List (Rule n T A)
  skipParentScript : Bool

/- What scripts change in a session: the profile, and the rest. -/
structure Scratch (P ρ : Type) where
  profile : Option P
  rest : ρ

/- A call of `eval_ruleset`, with the parts of the session that
   no script changes. -/
structure Request (U P ρ : Type) where
  now : Nat
  user : U
  nacAddr : List UInt8
  port : List UInt8
  scratch : Scratch P ρ

/- The configuration, with what tests and actions mean for a
   request. -/
structure Config (n : Nat) (T A U P ρ : Type) where
  crc32 : List UInt8 → UInt32
  meaning : Request U P ρ → Meaning T A (Scratch P ρ)
  acls : Fin n → Script n T A
  realms : List (Realm n T A)
  parentFirst : Bool
  /- The profile that a user has without rules. -/
  userProfile : U → Option P
  /- A profile and its parents. -/
  profiles : P → List (ProfileScript n T A)

namespace Config

variable (c : Config n T A U P ρ)

/- The checksum of a request. -/
def key (r : Request U P ρ) : UInt32 :=
  c.crc32 (r.nacAddr ++ r.port)

/- The loop over the rules of a realm. -/
def evalRules (r : Request U P ρ) :
    List (Rule n T A) → Scratch P ρ → Token × Scratch P ρ
| [], s => (.unknown, s)
| rule :: rules, s =>
    if rule.enabled then
      let v := settle (tacScriptEval (c.meaning r) c.acls rule.acl s)
      if v.1.decisive then v else evalRules r rules v.2
    else evalRules r rules s

/- `eval_ruleset_r`: the verdict, whether a rule gave it, and the
   session. A verdict of a rule is put into the cache. -/
def evalRulesetR (r : Request U P ρ) :
    List (Realm n T A) → Scratch P ρ →
      Token × Bool × Scratch P ρ
| [], s => (.unknown, false, s)
| realm :: parents, s =>
    match c.userProfile r.user with
    | some p => (.permit, false, { s with profile := some p })
    | none =>
        let above :=
          if c.parentFirst && !realm.skipParentScript then
            evalRulesetR r parents s
          else (.unknown, false, s)
        if above.1.decisive then above
        else
          let own := c.evalRules r realm.rules above.2.2
          if own.1.decisive then (own.1, true, own.2)
          else if !c.parentFirst && !realm.skipParentScript then
            evalRulesetR r parents own.2
          else (own.1, false, own.2)

/- The part of `eval_ruleset` that follows a permitting ruleset:
   the ACL of the profile. -/
def checkProfile
    (r : Request U P ρ) (v : Token) (s : Scratch P ρ) :
    Token × Scratch P ρ :=
  match v, s.profile with
  | .permit, some p =>
      match c.profiles p with
      | [] => (.permit, s)
      | profile :: parents =>
          if profile.acl.isEmpty then (.permit, s)
          else
            evalProfileAcl (c.meaning r) c.acls c.parentFirst
              (profile :: parents) s
  | v, _ => (v, s)

/- The answer of `eval_ruleset` without the cache. -/
def evalPlain (r : Request U P ρ) : Token × Scratch P ρ :=
  let v := c.evalRulesetR r c.realms r.scratch
  let checked := c.checkProfile r v.1 v.2.2
  (if checked.1 = .permit then .permit else .deny, checked.2)

variable [DecidableEq U]

/- `eval_ruleset` -/
def evalRuleset
    (cache : List (Entry U P)) (r : Request U P ρ) :
    (Token × Scratch P ρ) × List (Entry U P) :=
  let found := lookupUserProfile r.now r.user (c.key r) cache
  match found.1 with
  | some (res, profile) =>
      ((res, { r.scratch with profile := profile }), found.2)
  | none =>
      let v := c.evalRulesetR r c.realms r.scratch
      let cache :=
        if v.2.1 then
          cacheUserProfile r.now r.user (c.key r) v.2.2.profile
            v.1 found.2
        else found.2
      (c.evalPlain r, cache)

/- The answers to the requests of a connection. -/
def evalRulesets :
    List (Entry U P) → List (Request U P ρ) →
      List (Token × Scratch P ρ)
| _, [] => []
| cache, r :: rs =>
    (c.evalRuleset cache r).1 ::
      evalRulesets (c.evalRuleset cache r).2 rs

end Config

end TacPlus

end Soteria

------------------------------------------------------------
-- Looking Up and Storing
------------------------------------------------------------

namespace Soteria

namespace TacPlus

variable {U P : Type}

/- The place that is found is out of date, or that of the oldest
   entry where none is. -/
theorem victimFrom_spec
    (now : Nat) (before cache : List (Entry U P))
    {j oldest : Nat}
    (hj : ∃ e, before[j]? = some e ∧ e.validUntil = oldest)
    (hOldest : ∀ e ∈ before, now ≤ e.validUntil ∧
      oldest ≤ e.validUntil) :
    ∃ e, (before ++ cache)[victimFrom now cache before.length
        (j, oldest)]? = some e ∧
      (e.validUntil < now ∨
        ∀ e' ∈ before ++ cache, now ≤ e'.validUntil ∧
          e.validUntil ≤ e'.validUntil) := by
  induction cache generalizing before j oldest with
  | nil =>
      rcases hj with ⟨e, hAt, hValid⟩
      refine ⟨e, by simpa [victimFrom] using hAt, Or.inr ?_⟩
      intro e' he'
      rw [List.append_nil] at he'
      rw [hValid]
      exact hOldest e' he'
  | cons e es ih =>
      have hHere : (before ++ e :: es)[before.length]? =
          some e := by
        rw [List.getElem?_append_right (Nat.le_refl _),
          Nat.sub_self]
        rfl
      have hSplit : before ++ e :: es =
          (before ++ [e]) ++ es := by
        rw [List.append_assoc]
        rfl
      have hLength : before.length + 1 =
          (before ++ [e]).length := by simp
      have hOld : ∀ x, before[j]? = some x →
          (before ++ [e])[j]? = some x := by
        intro x hx
        have hlt := (List.getElem?_eq_some_iff.mp hx).1
        rwa [List.getElem?_append_left hlt]
      rw [victimFrom]
      by_cases hExpired : e.validUntil < now
      · rw [if_pos hExpired]
        exact ⟨e, hHere, Or.inl hExpired⟩
      · rw [if_neg hExpired]
        by_cases hOlder : oldest > e.validUntil
        · rw [if_pos hOlder, hSplit, hLength]
          apply ih (before ++ [e])
          · exact ⟨e, by simp, rfl⟩
          · intro e' he'
            rcases List.mem_append.mp he' with he' | he'
            · have h := hOldest e' he'
              exact ⟨h.1, by omega⟩
            · rw [List.mem_singleton.mp he']
              omega
        · rw [if_neg hOlder, hSplit, hLength]
          apply ih (before ++ [e])
          · rcases hj with ⟨x, hAt, hValid⟩
            exact ⟨x, hOld x hAt, hValid⟩
          · intro e' he'
            rcases List.mem_append.mp he' with he' | he'
            · exact hOldest e' he'
            · rw [List.mem_singleton.mp he']
              omega

variable [DecidableEq U]

theorem Entry.is_iff {user : U} {crc32 : UInt32} {e : Entry U P} :
    e.is user crc32 = true ↔
      e.user = some user ∧ e.crc32 = crc32 := by
  simp [Entry.is]

/- A look up finds the first entry of its key, and frees it where
   it is out of date. -/
theorem lookupUserProfile_cases
    (now : Nat) (user : U) (crc32 : UInt32)
    (cache : List (Entry U P)) :
    ((∀ e ∈ cache, e.is user crc32 = false) ∧
        lookupUserProfile now user crc32 cache = (none, cache)) ∨
      ∃ i e, cache[i]? = some e ∧ e.is user crc32 = true ∧
        ((now ≤ e.validUntil ∧
            lookupUserProfile now user crc32 cache =
              (some (e.res, e.profile), cache)) ∨
          lookupUserProfile now user crc32 cache =
            (none, cache.set i
              { e with user := none, profile := none })) := by
  induction cache with
  | nil => exact Or.inl ⟨nofun, rfl⟩
  | cons e es ih =>
      rw [lookupUserProfile]
      by_cases hIs : e.is user crc32 = true
      · rw [if_pos hIs]
        refine Or.inr ⟨0, e, rfl, hIs, ?_⟩
        by_cases hValid : now ≤ e.validUntil
        · rw [if_pos hValid]
          exact Or.inl ⟨hValid, rfl⟩
        · rw [if_neg hValid]
          exact Or.inr rfl
      · rw [if_neg hIs]
        rcases ih with ⟨hNone, hEq⟩ | ⟨i, e', hAt, hIs', hEq⟩
        · refine Or.inl ⟨?_, by rw [hEq]⟩
          intro e' he'
          rcases List.mem_cons.mp he' with rfl | he'
          · exact Bool.eq_false_iff.mpr hIs
          · exact hNone e' he'
        · refine Or.inr ⟨i + 1, e', hAt, hIs', ?_⟩
          rcases hEq with ⟨hValid, hEq⟩ | hEq
          · exact Or.inl ⟨hValid, by rw [hEq]⟩
          · exact Or.inr (by rw [hEq]; rfl)

/- The entry that a new one replaces has its key; or it is out of
   date; or none is, and it is the oldest. -/
theorem victim_spec
    (now : Nat) (user : U) (crc32 : UInt32)
    {cache : List (Entry U P)} (hSome : cache ≠ []) :
    ∃ e, cache[victim now user crc32 cache]? = some e ∧
      (e.is user crc32 = true ∨ e.validUntil < now ∨
        ∀ e' ∈ cache, now ≤ e'.validUntil ∧
          e.validUntil ≤ e'.validUntil) := by
  unfold victim
  cases hFind : cache.findIdx? (Entry.is user crc32) with
  | some i =>
      rcases List.findIdx?_eq_some_iff_getElem.mp hFind with
        ⟨hi, hIs, -⟩
      exact ⟨cache[i], List.getElem?_eq_getElem hi, Or.inl hIs⟩
  | none =>
      cases cache with
      | nil => exact absurd rfl hSome
      | cons e es =>
          simp only [victimFrom]
          by_cases hExpired : e.validUntil < now
          · rw [if_pos hExpired]
            exact ⟨e, rfl, Or.inr (Or.inl hExpired)⟩
          · rw [if_neg hExpired, if_neg (Nat.lt_irrefl _)]
            rcases victimFrom_spec now [e] es (j := 0)
              ⟨e, rfl, rfl⟩ (by simpa using hExpired) with
              ⟨e', hAt, hOld⟩
            exact ⟨e', hAt, Or.inr hOld⟩

theorem victim_spec_oldest :
    let entry := fun validUntil : Nat =>
      ({ user := none, crc32 := 0, profile := none,
         res := .permit, validUntil := validUntil } :
        Entry Unit Unit)
    let cache := [entry 50, entry 20]
    victim 10 () 7 cache = 1 ∧
      ∃ e, cache[victim 10 () 7 cache]? = some e ∧
        (e.is () 7 = true ∨ e.validUntil < 10 ∨
          ∀ e' ∈ cache, 10 ≤ e'.validUntil ∧
            e.validUntil ≤ e'.validUntil) :=
  ⟨by decide, victim_spec 10 () 7 (List.cons_ne_nil _ _)⟩

end TacPlus

end Soteria

------------------------------------------------------------
-- Answers from the Cache
------------------------------------------------------------

namespace Soteria

namespace TacPlus

variable {n : Nat} {T A U P ρ : Type}

namespace Config

variable (c : Config n T A U P ρ)

/- The verdict of a rule and the profile it leaves. -/
def decided (r : Request U P ρ) : Option (Token × Option P) :=
  let v := c.evalRulesetR r c.realms r.scratch
  if v.2.1 then some (v.1, v.2.2.profile) else none

/- An answer that repeats the verdict of an earlier request. -/
structure Repeats
    (history : List (Request U P ρ × (Token × Scratch P ρ)))
    (user : U) (crc32 : UInt32) (res : Token)
    (profile : Option P) (validUntil : Nat) :
    Prop where
  earlier : ∃ before r after,
    history = before ++ (r, c.evalPlain r) :: after ∧
      r.user = user ∧ c.key r = crc32 ∧
      c.decided r = some (res, profile) ∧
      validUntil = r.now + 120 ∧
      ∀ x ∈ after, x.1.user = user → c.key x.1 = crc32 →
        (x.2.1, x.2.2.profile) = (res, profile)

/- The cache of a connection after what it has answered. -/
structure Faithful
    (history : List (Request U P ρ × (Token × Scratch P ρ)))
    (cache : List (Entry U P)) :
    Prop where
  unique : ∀ (i j : Nat) (e e' : Entry U P), cache[i]? = some e →
    cache[j]? = some e' → ∀ user, e.user = some user →
      e'.user = some user → e.crc32 = e'.crc32 → i = j
  repeats : ∀ (i : Nat) (e : Entry U P), cache[i]? = some e →
    ∀ user, e.user = some user →
      c.Repeats history user e.crc32 e.res e.profile e.validUntil

variable {c}
variable {history : List (Request U P ρ × (Token × Scratch P ρ))}
variable {cache : List (Entry U P)}

theorem Repeats.concat
    {user : U} {crc32 : UInt32} {res : Token}
    {profile : Option P} {validUntil : Nat}
    (h : c.Repeats history user crc32 res profile validUntil)
    {x : Request U P ρ × (Token × Scratch P ρ)}
    (hx : x.1.user = user → c.key x.1 = crc32 →
      (x.2.1, x.2.2.profile) = (res, profile)) :
    c.Repeats (history ++ [x]) user crc32 res profile
      validUntil := by
  rcases h with
    ⟨before, r, after, rfl, hUser, hKey, hDecided, hValid, hSame⟩
  refine ⟨before, r, after ++ [x], by simp, hUser, hKey,
    hDecided, hValid, ?_⟩
  intro y hy
  rcases List.mem_append.mp hy with hy | hy
  · exact hSame y hy
  · rw [List.mem_singleton.mp hy]
    exact hx

theorem faithful_noEntries : c.Faithful [] noEntries := by
  have hNone : ∀ (i : Nat) (e : Entry U P),
      noEntries[i]? = some e → e.user = none := by
    intro i e he
    have hMem := List.mem_of_getElem? he
    rw [noEntries, List.mem_replicate] at hMem
    rw [hMem.2]
  refine ⟨?_, ?_⟩
  · intro i j e e' he _ user hUser
    rw [hNone i e he] at hUser
    cases hUser
  · intro i e he user hUser
    rw [hNone i e he] at hUser
    cases hUser

variable [DecidableEq U]

/- Where the entry of a key is freed, none is left of it. -/
theorem Faithful.miss
    (h : c.Faithful history cache) (r : Request U P ρ)
    {i : Nat} {e : Entry U P} (hAt : cache[i]? = some e)
    (hIs : e.is r.user (c.key r) = true) :
    c.Faithful history
        (cache.set i { e with user := none, profile := none }) ∧
      ∀ e' ∈ cache.set i { e with user := none, profile := none },
        e'.is r.user (c.key r) = false := by
  have hOld : ∀ (j : Nat) (e' : Entry U P) user,
      (cache.set i { e with user := none, profile := none })[j]? =
        some e' → e'.user = some user →
      cache[j]? = some e' ∧ j ≠ i := by
    intro j e' user hj hUser
    rw [List.getElem?_set] at hj
    by_cases hij : i = j
    · subst hij
      have hlt := (List.getElem?_eq_some_iff.mp hAt).1
      rw [if_pos rfl, if_pos hlt] at hj
      cases hj
      cases hUser
    · rw [if_neg hij] at hj
      exact ⟨hj, fun hji => hij hji.symm⟩
  refine ⟨⟨?_, ?_⟩, ?_⟩
  · intro j k x y hj hk user hx hy hCrc
    exact h.unique j k x y (hOld j x user hj hx).1
      (hOld k y user hk hy).1 user hx hy hCrc
  · intro j x hj user hx
    exact h.repeats j x (hOld j x user hj hx).1 user hx
  · intro x hx
    by_contra hNot
    rw [Bool.not_eq_false, Entry.is_iff] at hNot
    rw [Entry.is_iff] at hIs
    rcases List.mem_iff_getElem?.mp hx with ⟨j, hj⟩
    rcases hOld j x r.user hj hNot.1 with ⟨hWas, hji⟩
    exact hji (h.unique j i x e hWas hAt r.user hNot.1 hIs.1
      (hNot.2.trans hIs.2.symm))

/- What a new entry leaves. -/
theorem Faithful.store
    (h : c.Faithful history cache) (r : Request U P ρ)
    (hNone : ∀ e ∈ cache, e.is r.user (c.key r) = false)
    {res : Token} {profile : Option P}
    (hDecided : c.decided r = some (res, profile)) :
    c.Faithful (history ++ [(r, c.evalPlain r)])
      (cacheUserProfile r.now r.user (c.key r) profile res
        cache) := by
  have hOther : ∀ (i : Nat) (e : Entry U P), cache[i]? = some e →
      ¬(e.user = some r.user ∧ e.crc32 = c.key r) := by
    intro i e he hIs
    have hFalse := hNone e (List.mem_of_getElem? he)
    rw [Entry.is_iff.mpr hIs] at hFalse
    cases hFalse
  have hOld : ∀ (i : Nat) (e : Entry U P),
      (cacheUserProfile r.now r.user (c.key r) profile res
        cache)[i]? = some e →
      cache[i]? = some e ∨
        (i = victim r.now r.user (c.key r) cache ∧
          e = { user := some r.user, crc32 := c.key r,
                profile := profile, res := res,
                validUntil := r.now + 120 }) := by
    intro i e he
    rw [cacheUserProfile, List.getElem?_set] at he
    split at he
    · rename_i hi
      split at he
      · cases he
        exact Or.inr ⟨hi.symm, rfl⟩
      · cases he
    · exact Or.inl he
  refine ⟨?_, ?_⟩
  · intro i j e e' hi hj user hUser hUser' hCrc
    rcases hOld i e hi with hWas | ⟨hNew, rfl⟩
    · rcases hOld j e' hj with hWas' | ⟨hNew', rfl⟩
      · exact h.unique i j e e' hWas hWas' user hUser hUser' hCrc
      · cases hUser'
        exact absurd ⟨hUser, hCrc⟩ (hOther i e hWas)
    · rcases hOld j e' hj with hWas' | ⟨hNew', rfl⟩
      · cases hUser
        exact absurd ⟨hUser', hCrc.symm⟩ (hOther j e' hWas')
      · exact hNew.trans hNew'.symm
  · intro i e hi user hUser
    rcases hOld i e hi with hi | ⟨hi, rfl⟩
    · apply (h.repeats i e hi user hUser).concat
      rintro rfl hCrc
      exact absurd ⟨hUser, hCrc.symm⟩ (hOther i e hi)
    · cases hUser
      exact ⟨history, r, [], rfl, rfl, rfl, hDecided, rfl, nofun⟩

/- A request that stores nothing. -/
theorem Faithful.pass
    (h : c.Faithful history cache) (r : Request U P ρ)
    (hNone : ∀ e ∈ cache, e.is r.user (c.key r) = false)
    (a : Token × Scratch P ρ) :
    c.Faithful (history ++ [(r, a)]) cache := by
  refine ⟨h.unique, fun i e hi user hUser => ?_⟩
  apply (h.repeats i e hi user hUser).concat
  rintro rfl hCrc
  have hFalse := hNone e (List.mem_of_getElem? hi)
  rw [Entry.is_iff.mpr ⟨hUser, hCrc.symm⟩] at hFalse
  cases hFalse

/- What one request is answered, and what is known of the cache
   afterwards. -/
theorem Faithful.evalRuleset
    (h : c.Faithful history cache) (r : Request U P ρ) :
    c.Faithful
        (history ++ [(r, (c.evalRuleset cache r).1)])
        (c.evalRuleset cache r).2 ∧
      ((c.evalRuleset cache r).1 = c.evalPlain r ∨
        ∃ res profile validUntil,
          (c.evalRuleset cache r).1 =
            (res, { r.scratch with profile := profile }) ∧
          r.now ≤ validUntil ∧
          c.Repeats history r.user (c.key r) res profile
            validUntil) := by
  have hMiss : ∀ cache', c.Faithful history cache' →
      (∀ e ∈ cache', e.is r.user (c.key r) = false) →
      lookupUserProfile r.now r.user (c.key r) cache =
        (none, cache') →
      c.Faithful (history ++ [(r, (c.evalRuleset cache r).1)])
          (c.evalRuleset cache r).2 ∧
        (c.evalRuleset cache r).1 = c.evalPlain r := by
    intro cache' hFaithful hNone hLookup
    simp only [Config.evalRuleset, hLookup, and_true]
    split
    · rename_i hRule
      exact hFaithful.store r hNone (by
        simp only [decided, hRule, if_true])
    · exact hFaithful.pass r hNone _
  rcases lookupUserProfile_cases r.now r.user (c.key r) cache
    with ⟨hNone, hLookup⟩ | ⟨i, e, hAt, hIs, hCases⟩
  · rcases hMiss cache h hNone hLookup with ⟨hNext, hPlain⟩
    exact ⟨hNext, Or.inl hPlain⟩
  · rcases hCases with ⟨hValid, hLookup⟩ | hLookup
    · have hKey := Entry.is_iff.mp hIs
      have hRepeats := h.repeats i e hAt r.user hKey.1
      simp only [Config.evalRuleset, hLookup]
      refine ⟨⟨h.unique, fun j e' hj user hUser => ?_⟩,
        Or.inr ⟨e.res, e.profile, e.validUntil, rfl, hValid, ?_⟩⟩
      · apply (h.repeats j e' hj user hUser).concat
        rintro rfl hCrc
        have hSame := h.unique i j e e' hAt hj r.user hKey.1
          hUser (hKey.2.trans hCrc)
        rw [hSame, hj] at hAt
        cases hAt
        rfl
      · rw [← hKey.2]
        exact hRepeats
    · rcases h.miss r hAt hIs with ⟨hFaithful, hNone⟩
      rcases hMiss _ hFaithful hNone hLookup with
        ⟨hNext, hPlain⟩
      exact ⟨hNext, Or.inl hPlain⟩

theorem Faithful.answers
    (h : c.Faithful history cache) (rs : List (Request U P ρ))
    {before after : List (Request U P ρ × (Token × Scratch P ρ))}
    {r : Request U P ρ} {a : Token × Scratch P ρ}
    (hAt : rs.zip (c.evalRulesets cache rs) =
      before ++ (r, a) :: after) :
    a = c.evalPlain r ∨
      ∃ res profile validUntil,
        a = (res, { r.scratch with profile := profile }) ∧
        r.now ≤ validUntil ∧
        c.Repeats (history ++ before) r.user (c.key r) res
          profile validUntil := by
  induction rs generalizing history cache before with
  | nil => simp at hAt
  | cons q rs ih =>
      rcases h.evalRuleset q with ⟨hNext, hAnswer⟩
      rw [evalRulesets, List.zip_cons_cons] at hAt
      cases before with
      | nil =>
          rw [List.nil_append, List.cons.injEq] at hAt
          cases hAt.1
          rw [List.append_nil]
          exact hAnswer
      | cons x before =>
          rw [List.cons_append, List.cons.injEq] at hAt
          have hRest := ih hNext hAt.2
          rwa [hAt.1, List.append_assoc,
            List.singleton_append] at hRest

/- In every run of requests an answer is that of the ruleset and
   of the ACL of the profile, or it is the verdict that a rule
   gave to a request of the same key not more than two minutes
   before, and the one all requests of that key got since. -/
theorem evalRulesets_answers
    (c : Config n T A U P ρ) (rs : List (Request U P ρ))
    (before after : List (Request U P ρ × (Token × Scratch P ρ)))
    (r : Request U P ρ) (a : Token × Scratch P ρ)
    (hAt : rs.zip (c.evalRulesets noEntries rs) =
      before ++ (r, a) :: after) :
    a = c.evalPlain r ∨
      ∃ res profile b r' b',
        a = (res, { r.scratch with profile := profile }) ∧
        before = b ++ (r', c.evalPlain r') :: b' ∧
        r'.user = r.user ∧ c.key r' = c.key r ∧
        r.now ≤ r'.now + 120 ∧
        c.decided r' = some (res, profile) ∧
        ∀ x ∈ b', x.1.user = r.user → c.key x.1 = c.key r →
          (x.2.1, x.2.2.profile) = (res, profile) := by
  rcases faithful_noEntries.answers rs hAt with h |
    ⟨res, profile, validUntil, hAnswer, hNow, hRepeats⟩
  · exact Or.inl h
  · rcases hRepeats with ⟨b, r', b', hBefore, hUser, hKey,
      hDecided, hValid, hSame⟩
    refine Or.inr ⟨res, profile, b, r', b', hAnswer, hBefore,
      hUser, hKey, by omega, hDecided, hSame⟩

/- A rule that permits everybody with a profile whose ACL denies:
   the first of two requests is denied, and the second one is
   answered with the verdict of the rule. -/
def aclOfProfile : Config 0 Unit Unit Unit Unit Unit where
  crc32 := fun _ => 0
  meaning := fun _ =>
    { holds := fun _ _ => true
      act := fun _ s => { s with profile := some () } }
  acls := fun _ => []
  realms := [{ rules := [{ enabled := true,
                           acl := [.act (), .permit] }],
               skipParentScript := false }]
  parentFirst := false
  userProfile := fun _ => none
  profiles := fun _ =>
    [{ action := [], acl := [.deny], skipParentScript := false }]

theorem evalRulesets_answers_acl :
    let r : Request Unit Unit Unit :=
      { now := 1, user := (), nacAddr := [], port := [],
        scratch := { profile := none, rest := () } }
    let permitted : Token × Scratch Unit Unit :=
      (.permit, { profile := some (), rest := () })
    ((aclOfProfile.evalRulesets noEntries [r, r]).map (·.1)) =
        [.deny, .permit] ∧
      (permitted = aclOfProfile.evalPlain r ∨
        ∃ res profile b r' b',
          permitted = (res, { r.scratch with profile := profile }) ∧
          [(r, aclOfProfile.evalPlain r)] =
            b ++ (r', aclOfProfile.evalPlain r') :: b' ∧
          r'.user = r.user ∧
          aclOfProfile.key r' = aclOfProfile.key r ∧
          r.now ≤ r'.now + 120 ∧
          aclOfProfile.decided r' = some (res, profile) ∧
          ∀ x ∈ b', x.1.user = r.user →
            aclOfProfile.key x.1 = aclOfProfile.key r →
            (x.2.1, x.2.2.profile) = (res, profile)) := by
  intro r permitted
  refine ⟨by decide, ?_⟩
  exact evalRulesets_answers aclOfProfile [r, r]
    [(r, aclOfProfile.evalPlain r)] [] r permitted rfl

end Config

end TacPlus

end Soteria
