import Mathlib.Data.List.Forall2
import Mathlib.Data.List.Nodup
import Soteria.Foundation.Ledger
import Soteria.Foundation.Transition
import Soteria.Token.Store

/-
  The token store over whole runs.

  A grant is what a successful creation has promised. The
  store has a record for each grant that no revocation has
  taken back, in the order of their creation, and a secret
  is accepted on behalf of its grant.

  Key definitions include:
    * `Token.Call`, `Token.Answer`, `Token.answer`
    * `Token.Event`, `Token.step`
    * `Token.Grant`, `Token.grants`
    * `Token.Distinct`, `Token.Records`
    * `Token.acceptance`
-/

------------------------------------------------------------
-- Calls and Answers
------------------------------------------------------------

namespace Soteria

namespace Token

/- A call of the store; a creation draws random texts. -/
inductive Call where
  | create
    (entropy : Entropy)
    (name owner : Text)
    (scopes : List Text)
    (expires : Int)
  | revoke (id owner : Text) (isAdmin : Bool)
  | verify (secret : Text)
  | list (owner : Text) (all : Bool)

/- What a call returns. -/
inductive Answer where
  | created (secret : Text) (tok : Token)
  | revoked
  | verified (tok : Option Token)
  | listed (toks : List Token)
  | refused (message : Text)

/- One call at a clock reading, and the store behind it. -/
def answer
    (hashSecret : Text → Text)
    (toks : Store)
    (now : Int) : Call → Answer × Store
| .create entropy name owner scopes expires =>
    match toks.create hashSecret entropy now name owner scopes
        expires with
    | .ok (secret, tok, toks') => (.created secret tok, toks')
    | .error message => (.refused message, toks)
| .revoke id owner isAdmin =>
    match toks.revoke id owner isAdmin with
    | .ok toks' => (.revoked, toks')
    | .error message => (.refused message, toks)
| .verify secret =>
    (.verified (Store.verify hashSecret secret now toks).1,
      (Store.verify hashSecret secret now toks).2)
| .list owner all => (.listed (toks.list owner all), toks)

/- A call that was answered. -/
structure Event where
  now : Int
  call : Call
  outcome : Answer

/- The calls of any callers, one after another. -/
def step
    (hashSecret : Text → Text)
    (toks : Store)
    (e : Event)
    (toks' : Store) : Prop :=
  answer hashSecret toks e.now e.call = (e.outcome, toks')

end Token

end Soteria

------------------------------------------------------------
-- Grants
------------------------------------------------------------

namespace Soteria

namespace Token

/- What a creation has returned, and what it was asked for. -/
structure Grant where
  secret : Text
  id : Text
  owner : Text
  scopes : List Text
  expires : Int

/- The grant of a successful creation. -/
def Event.grant (e : Event) : Option Grant :=
  match e.call, e.outcome with
  | .create _ _ owner scopes expires, .created secret tok =>
      some ⟨secret, tok.id, owner, scopes, expires⟩
  | _, _ => none

/- The event is a successful revocation of the grant's id. -/
def Event.revokes (e : Event) (g : Grant) : Bool :=
  match e.call, e.outcome with
  | .revoke id _ _, .revoked => g.id == id
  | _, _ => false

/- The secrets that are hashed for an event. -/
def Event.secrets (e : Event) : List Text :=
  match e.call, e.outcome with
  | .verify secret, _ => [secret]
  | _, .created secret _ => [secret]
  | _, _ => []

/- Every grant of a history. -/
def granted (events : List Event) : List Grant :=
  events.filterMap Event.grant

/- The grants that have not been revoked. -/
def grants (events : List Event) : List Grant :=
  Ledger.held Event.grant Event.revokes events

/- The grant has not expired. -/
def Grant.Live (g : Grant) (now : Int) : Prop :=
  g.expires = 0 ∨ now < g.expires

/-
  The ids and the secrets that were generated are distinct,
  and no two of the secrets involved have one digest.
-/
structure Distinct
    (hashSecret : Text → Text)
    (events : List Event) : Prop where
  ids : ((granted events).map Grant.id).Nodup
  secrets : ((granted events).map Grant.secret).Nodup
  digests :
    ∀ x ∈ events.flatMap Event.secrets,
      ∀ y ∈ events.flatMap Event.secrets,
        hashSecret x = hashSecret y → x = y

/- The record stands for the grant. -/
structure Record
    (hashSecret : Text → Text)
    (g : Grant)
    (t : Token) : Prop where
  id : t.id = g.id
  owner : t.owner = g.owner
  scopes : t.scopes = g.scopes
  expires : t.expires = g.expires
  hash : t.hash = hashSecret g.secret
  notRevoked : t.revoked = false

/- The store has a record for each grant, in order. -/
def Records
    (hashSecret : Text → Text)
    (gs : List Grant)
    (toks : Store) : Prop :=
  List.Forall₂ (Record hashSecret) gs toks

end Token

end Soteria

------------------------------------------------------------
-- What a Verification Finds
------------------------------------------------------------

namespace Soteria

namespace Token

variable {hashSecret : Text → Text}

/- No other grant's secret has the digest of this one. -/
def NoClash
    (hashSecret : Text → Text)
    (gs : List Grant)
    (secret : Text) : Prop :=
  ∀ g ∈ gs, hashSecret g.secret = hashSecret secret →
    g.secret = secret

/- The answer is a record of the grant. -/
def Speaks (g : Grant) (t : Token) : Prop :=
  t.id = g.id ∧ t.owner = g.owner ∧ t.scopes = g.scopes ∧
    t.expires = g.expires

theorem Record.live
    {g : Grant}
    {t : Token}
    (hRecord : Record hashSecret g t)
    (now : Int) :
    (t.revoked || t.expired now) = false ↔ g.Live now := by
  unfold Token.expired Grant.Live
  rw [hRecord.notRevoked, hRecord.expires, Bool.false_or]
  simp only [Bool.and_eq_false_iff, bne_eq_false_iff_eq,
    decide_eq_false_iff_not, Int.not_le]

theorem Record.speaks
    {g : Grant}
    {t : Token}
    (hRecord : Record hashSecret g t) :
    Speaks g t.toPublic :=
  ⟨hRecord.id, hRecord.owner, hRecord.scopes, hRecord.expires⟩

/- Another time of the last use is a record just as well. -/
theorem Record.used
    {g : Grant}
    {t : Token}
    (hRecord : Record hashSecret g t)
    (now : Int) :
    Record hashSecret g { t with lastUsed := now } :=
  ⟨hRecord.id, hRecord.owner, hRecord.scopes, hRecord.expires,
    hRecord.hash, hRecord.notRevoked⟩

/- A verification keeps the records. -/
theorem Records.verify
    {gs : List Grant}
    {toks : Store}
    (hRecords : Records hashSecret gs toks)
    (secret : Text)
    (now : Int) :
    Records hashSecret gs
      (Store.verify hashSecret secret now toks).2 := by
  unfold Records at hRecords ⊢
  induction hRecords with
  | nil => exact List.Forall₂.nil
  | cons hRecord hRest ih =>
      unfold Store.verify
      split
      · exact List.Forall₂.cons hRecord ih
      · split
        · exact List.Forall₂.cons hRecord hRest
        · split
          · exact List.Forall₂.cons (hRecord.used now) hRest
          · exact List.Forall₂.cons hRecord hRest

/-
  The first grant with the secret is the one that is looked
  at: it speaks for the secret as long as it is live.
-/
theorem Records.verified
    {gs : List Grant}
    {toks : Store}
    {secret : Text}
    (hRecords : Records hashSecret gs toks)
    (hClash : NoClash hashSecret gs secret)
    (now : Int) :
    match gs.find? fun g => g.secret == secret with
    | none => (Store.verify hashSecret secret now toks).1 = none
    | some g =>
        (g.Live now →
            ∃ t,
              (Store.verify hashSecret secret now toks).1 =
                  some t ∧ Speaks g t) ∧
          (¬g.Live now →
            (Store.verify hashSecret secret now toks).1 =
              none) := by
  unfold Records at hRecords
  induction hRecords with
  | nil => rfl
  | @cons g t gs toks hRecord hRest ih =>
      have hRestClash : NoClash hashSecret gs secret :=
        fun x hx => hClash x (List.mem_cons_of_mem _ hx)
      by_cases hSecret : g.secret = secret
      · have hHash : (t.hash != hashSecret secret) = false := by
          rw [hRecord.hash, hSecret]
          simp
        rw [List.find?_cons_of_pos (by simpa using hSecret)]
        unfold Store.verify
        rw [hHash, if_neg Bool.false_ne_true]
        constructor
        · intro hLive
          rw [(hRecord.live now).mpr hLive,
            if_neg Bool.false_ne_true]
          split
          · exact ⟨_, rfl, (hRecord.used now).speaks⟩
          · exact ⟨_, rfl, hRecord.speaks⟩
        · intro hDead
          have hOver : (t.revoked || t.expired now) = true := by
            rw [← Bool.not_eq_false]
            exact fun h => hDead ((hRecord.live now).mp h)
          rw [hOver, if_pos rfl]
      · have hHash : (t.hash != hashSecret secret) = true := by
          rw [bne_iff_ne, hRecord.hash]
          exact fun h =>
            hSecret (hClash g (List.mem_cons_self ..) h)
        rw [List.find?_cons_of_neg (by simpa using hSecret)]
        unfold Store.verify
        rw [hHash, if_pos rfl]
        exact ih hRestClash

end Token

end Soteria

------------------------------------------------------------
-- What a Revocation Removes
------------------------------------------------------------

namespace Soteria

namespace Token

variable {hashSecret : Text → Text}

theorem Records.exists_of_mem
    {gs : List Grant}
    {toks : Store}
    {t : Token}
    (hRecords : Records hashSecret gs toks)
    (hMem : t ∈ toks) :
    ∃ g ∈ gs, Record hashSecret g t := by
  unfold Records at hRecords
  induction hRecords with
  | nil => cases hMem
  | @cons g u gs toks hRecord hRest ih =>
      rcases List.mem_cons.mp hMem with rfl | hMem
      · exact ⟨g, List.mem_cons_self .., hRecord⟩
      · rcases ih hMem with ⟨x, hx, hFound⟩
        exact ⟨x, List.mem_cons_of_mem _ hx, hFound⟩

/- What a successful revocation has checked and removed. -/
theorem Store.revoke_ok
    {toks toks' : Store}
    {id owner : Text}
    {isAdmin : Bool}
    (hRevoke : toks.revoke id owner isAdmin = .ok toks') :
    ∃ idx t,
      toks.findIdx? (fun u => u.id == id) = some idx ∧
        toks[idx]? = some t ∧ t.id = id ∧
          (isAdmin = true ∨ t.owner = owner) ∧
            toks' = toks.eraseIdx idx := by
  unfold Store.revoke at hRevoke
  split at hRevoke
  · cases hRevoke
  · rename_i idx hFound
    split at hRevoke
    · cases hRevoke
    · rename_i hAllowed
      rcases List.findIdx?_eq_some_iff_getElem.mp hFound with
        ⟨hBound, hId, _⟩
      have hAt : toks[idx]? = some toks[idx] :=
        List.getElem?_eq_getElem hBound
      refine ⟨idx, toks[idx], hFound, hAt, by simpa using hId,
        ?_, (Except.ok.inj hRevoke).symm⟩
      rw [hAt] at hAllowed
      cases isAdmin with
      | true => exact Or.inl rfl
      | false => exact Or.inr (by simpa using hAllowed)

/- The record that goes is the one of the grant that goes. -/
theorem Records.erase
    {gs : List Grant}
    {toks : Store}
    {id : Text}
    {idx : Nat}
    (hRecords : Records hashSecret gs toks)
    (hIds : (gs.map Grant.id).Nodup)
    (hFound :
      toks.findIdx? (fun t => t.id == id) = some idx) :
    Records hashSecret (gs.filter fun g => !(g.id == id))
      (toks.eraseIdx idx) := by
  unfold Records at hRecords ⊢
  induction hRecords generalizing idx with
  | nil => cases hFound
  | @cons g t gs toks hRecord hRest ih =>
      rw [List.map_cons, List.nodup_cons] at hIds
      by_cases hId : t.id = id
      · have hFirst : idx = 0 := by
          rw [List.findIdx?_cons, if_pos (by simpa using hId)]
            at hFound
          exact (Option.some.inj hFound).symm
        have hOthers :
            gs.filter (fun x => !(x.id == id)) = gs := by
          apply List.filter_eq_self.mpr
          intro x hx
          rw [Bool.not_eq_true', beq_eq_false_iff_ne]
          intro hSame
          apply hIds.1
          rw [← hRecord.id, hId, ← hSame]
          exact List.mem_map_of_mem hx
        have hGone : (!(g.id == id)) = false := by
          rw [← hRecord.id, hId, beq_self_eq_true]
          rfl
        rw [hFirst, List.eraseIdx_cons_zero,
          List.filter_cons_of_neg (by simp [hGone]), hOthers]
        exact hRest
      · rw [List.findIdx?_cons, if_neg (by simpa using hId)]
          at hFound
        rcases Option.map_eq_some_iff.mp hFound with
          ⟨k, hLater, rfl⟩
        have hKept : (!(g.id == id)) = true := by
          rw [← hRecord.id, Bool.not_eq_true',
            beq_eq_false_iff_ne]
          exact hId
        rw [List.eraseIdx_cons_succ,
          List.filter_cons_of_pos (by simpa using hKept)]
        exact List.Forall₂.cons hRecord (ih hIds.2 hLater)

/- Without another secret's record the answer is the same. -/
theorem Store.verify_eraseIdx
    {toks : Store}
    {t : Token}
    {secret : Text}
    {idx : Nat}
    (hAt : toks[idx]? = some t)
    (hHash : t.hash ≠ hashSecret secret)
    (now : Int) :
    (Store.verify hashSecret secret now
        (toks.eraseIdx idx)).1 =
      (Store.verify hashSecret secret now toks).1 := by
  induction toks generalizing idx with
  | nil => cases hAt
  | cons u toks ih =>
      cases idx with
      | zero =>
          rw [List.getElem?_cons_zero] at hAt
          cases hAt
          have hOther : (t.hash != hashSecret secret) = true :=
            bne_iff_ne.mpr hHash
          rw [List.eraseIdx_cons_zero]
          conv_rhs => unfold Store.verify
          rw [hOther, if_pos rfl]
      | succ idx =>
          rw [List.getElem?_cons_succ] at hAt
          rw [List.eraseIdx_cons_succ]
          unfold Store.verify
          by_cases hOther : (u.hash != hashSecret secret) = true
          · rw [if_pos hOther, if_pos hOther]
            exact ih hAt
          · rw [if_neg hOther, if_neg hOther]
            split
            · rfl
            · split
              · rfl
              · rfl

end Token

end Soteria

------------------------------------------------------------
-- The Store along a Run
------------------------------------------------------------

namespace Soteria

namespace Token

variable {hashSecret : Text → Text}

theorem grants_sublist (events : List Event) :
    (grants events).Sublist (granted events) :=
  Ledger.held_sublist Event.grant Event.revokes events

theorem grants_concat (events : List Event) (e : Event) :
    grants (events ++ [e]) =
      ((grants events).filter fun g => !e.revokes g) ++
        e.grant.toList :=
  Ledger.held_concat Event.grant Event.revokes events e

/- A history has no more grants than one that continues it. -/
theorem granted_append (events more : List Event) :
    granted (events ++ more) = granted events ++ granted more :=
  List.filterMap_append

theorem Distinct.before
    {events more : List Event}
    (hDistinct : Distinct hashSecret (events ++ more)) :
    Distinct hashSecret events := by
  rcases hDistinct with ⟨hIds, hSecrets, hDigests⟩
  rw [granted_append, List.map_append] at hIds hSecrets
  refine ⟨hIds.sublist (List.sublist_append_left _ _),
    hSecrets.sublist (List.sublist_append_left _ _), ?_⟩
  intro x hx y hy
  apply hDigests
  · rw [List.flatMap_append]
    exact List.mem_append_left _ hx
  · rw [List.flatMap_append]
    exact List.mem_append_left _ hy

/- A step keeps a record for each grant, and no other. -/
theorem Records.step
    {events : List Event}
    {toks toks' : Store}
    {e : Event}
    (hRecords : Records hashSecret (grants events) toks)
    (hIds : ((grants events).map Grant.id).Nodup)
    (hStep : Token.step hashSecret toks e toks') :
    Records hashSecret (grants (events ++ [e])) toks' := by
  rw [grants_concat]
  rcases e with ⟨now, call, outcome⟩
  unfold Token.step at hStep
  simp only [] at hStep
  cases call with
  | create entropy name owner scopes expires =>
      simp only [answer] at hStep
      split at hStep
      · rename_i secret pub stored hCreate
        cases hStep
        rcases Store.create_ok hCreate with
          ⟨hSecret, hScopes, hOwner, hExpires, hRevoked, _, tok,
            rfl, rfl, hHash⟩
        have hRecord :
            Record hashSecret
              ⟨tokenPrefix ++ entropy.raw, tok.id, owner, scopes,
                expires⟩ tok :=
          ⟨rfl, hOwner, hScopes, hExpires, hSecret ▸ hHash,
            hRevoked⟩
        have hAll :=
          List.rel_append hRecords
            (List.Forall₂.cons hRecord List.Forall₂.nil)
        simpa [Records, Event.grant, Event.revokes, toPublic,
          hSecret] using hAll
      · cases hStep
        simpa [Event.grant, Event.revokes] using hRecords
  | revoke id owner isAdmin =>
      simp only [answer] at hStep
      split at hStep
      · rename_i stored hRevoke
        cases hStep
        rcases Store.revoke_ok hRevoke with
          ⟨idx, t, hFound, _, _, _, rfl⟩
        have hErased := hRecords.erase hIds hFound
        simpa [Event.grant, Event.revokes] using hErased
      · cases hStep
        simpa [Event.grant, Event.revokes] using hRecords
  | verify secret =>
      cases hStep
      simpa [Event.grant, Event.revokes] using
        hRecords.verify secret now
  | list owner all =>
      cases hStep
      simpa [Event.grant, Event.revokes] using hRecords

/- The store of a run has the records of its grants. -/
theorem records_of_run
    {events : List Event}
    {toks : Store}
    (hRun : Transition.Run (Token.step hashSecret) [] events toks)
    (hIds : ((granted events).map Grant.id).Nodup) :
    Records hashSecret (grants events) toks := by
  have hAll :
      ((granted events).map Grant.id).Nodup →
        Records hashSecret (grants events) toks := by
    apply hRun.history_invariant
      (P := fun events toks =>
        ((granted events).map Grant.id).Nodup →
          Records hashSecret (grants events) toks)
    · intro events s e t hBefore hStep hNodup
      rw [granted_append, List.map_append] at hNodup
      have hIdsBefore :=
        hNodup.sublist (List.sublist_append_left _ _)
      apply (hBefore hIdsBefore).step ?_ hStep
      exact hIdsBefore.sublist ((grants_sublist events).map _)
    · intro _
      exact List.Forall₂.nil
  exact hAll hIds

/- Among grants with distinct secrets the first is the only one. -/
theorem find?_secret
    {gs : List Grant}
    {g : Grant}
    (hSecrets : (gs.map Grant.secret).Nodup)
    (hMem : g ∈ gs) :
    gs.find? (fun x => x.secret == g.secret) = some g := by
  have hInj := List.inj_on_of_nodup_map hSecrets
  cases hFind : gs.find? (fun x => x.secret == g.secret) with
  | none =>
      have hNone := List.find?_eq_none.mp hFind g hMem
      simp at hNone
  | some x =>
      have hSame := List.find?_some hFind
      have hx := List.mem_of_find?_eq_some hFind
      rw [hInj hx hMem (by simpa using hSame)]

theorem mem_secrets_of_granted
    {events : List Event}
    {g : Grant}
    (hMem : g ∈ granted events) :
    g.secret ∈ events.flatMap Event.secrets := by
  rcases List.mem_filterMap.mp hMem with ⟨e, he, hGrant⟩
  apply List.mem_flatMap.mpr
  refine ⟨e, he, ?_⟩
  rcases e with ⟨now, call, outcome⟩
  unfold Event.grant at hGrant
  unfold Event.secrets
  split at hGrant
  · rename_i hCall hOutcome
    cases hGrant
    simp_all
  · cases hGrant

end Token

end Soteria

------------------------------------------------------------
-- Acceptance
------------------------------------------------------------

namespace Soteria

namespace Token

variable {hashSecret : Text → Text}

/-
  An earlier creation has returned the secret, and no later
  revocation of its id has succeeded.
-/
def Standing (events : List Event) (g : Grant) : Prop :=
  ∃ before created after,
    events = before ++ created :: after ∧
      created.grant = some g ∧
        ∀ later ∈ after, later.revokes g = false

theorem standing_iff
    {events : List Event}
    {g : Grant} :
    Standing events g ↔ g ∈ grants events :=
  (Ledger.mem_held_iff Event.grant Event.revokes).symm

/-
  What the store says to a secret: it is accepted for the one
  grant that stands for it and is live, and for no other.
-/
theorem accepted_iff
    {events : List Event}
    {toks : Store}
    {secret : Text}
    (hRecords : Records hashSecret (grants events) toks)
    (hSecrets : ((grants events).map Grant.secret).Nodup)
    (hClash : NoClash hashSecret (grants events) secret)
    (now : Int)
    (result : Option Token)
    (hResult :
      (Store.verify hashSecret secret now toks).1 = result) :
    (result.isSome = true ↔
        ∃ g, Standing events g ∧ g.secret = secret ∧
          g.Live now) ∧
      ∀ t, result = some t →
        ∀ g, Standing events g → g.secret = secret →
          t.owner = g.owner ∧ t.scopes = g.scopes := by
  have hVerified := hRecords.verified hClash now
  rw [hResult] at hVerified
  have hOnly :
      ∀ g, Standing events g → g.secret = secret →
        (grants events).find? (fun x => x.secret == secret) =
          some g := by
    rintro g hStanding rfl
    exact find?_secret hSecrets (standing_iff.mp hStanding)
  cases hFind :
      (grants events).find? fun x => x.secret == secret with
  | none =>
      rw [hFind] at hVerified hOnly
      have hResult : result = none := hVerified
      subst hResult
      constructor
      · constructor
        · intro hSome
          cases hSome
        · rintro ⟨g, hStanding, hSecret, _⟩
          cases hOnly g hStanding hSecret
      · intro t hSome
        cases hSome
  | some g =>
      have hStanding : Standing events g :=
        standing_iff.mpr (List.mem_of_find?_eq_some hFind)
      have hSecret : g.secret = secret := by
        simpa using List.find?_some hFind
      rw [hFind] at hVerified hOnly
      rcases hVerified with ⟨hLive, hDead⟩
      constructor
      · constructor
        · intro hSome
          refine ⟨g, hStanding, hSecret, ?_⟩
          by_contra hOver
          rw [hDead hOver] at hSome
          cases hSome
        · rintro ⟨x, hx, hSame, hNow⟩
          cases hOnly x hx hSame
          rcases hLive hNow with ⟨t, rfl, _⟩
          rfl
      · intro t hSome x hx hSame
        cases hOnly x hx hSame
        by_cases hNow : g.Live now
        · rcases hLive hNow with ⟨u, hFound, hSpeaks⟩
          cases hSome.symm.trans hFound
          exact ⟨hSpeaks.2.1, hSpeaks.2.2.1⟩
        · cases hSome.symm.trans (hDead hNow)

/- A successful revocation, and the secrets of other grants. -/
theorem revocation_keeps
    {events : List Event}
    {toks toks' : Store}
    {id owner : Text}
    {isAdmin : Bool}
    (hRecords : Records hashSecret (grants events) toks)
    (hDistinct : Distinct hashSecret events)
    (hRevoke : toks.revoke id owner isAdmin = .ok toks') :
    (∃ g, Standing events g ∧ g.id = id ∧
        (isAdmin = true ∨ g.owner = owner)) ∧
      ∀ g ∈ granted events, g.id ≠ id → ∀ now,
        (Store.verify hashSecret g.secret now toks').1 =
          (Store.verify hashSecret g.secret now toks).1 := by
  rcases Store.revoke_ok hRevoke with
    ⟨idx, t, _, hAt, hId, hAllowed, rfl⟩
  rcases hRecords.exists_of_mem (List.mem_of_getElem? hAt) with
    ⟨x, hx, hRecord⟩
  refine ⟨⟨x, standing_iff.mpr hx, hRecord.id ▸ hId,
    hRecord.owner ▸ hAllowed⟩, ?_⟩
  intro g hg hOther now
  apply Store.verify_eraseIdx hAt
  rw [hRecord.hash]
  intro hDigest
  have hxGranted := (grants_sublist events).subset hx
  have hSecret : x.secret = g.secret :=
    hDistinct.digests _ (mem_secrets_of_granted hxGranted) _
      (mem_secrets_of_granted hg) hDigest
  have hInj := List.inj_on_of_nodup_map hDistinct.secrets
  cases hInj hxGranted hg hSecret
  exact hOther (hRecord.id ▸ hId)

/-
  A verification behind any run succeeds exactly if an earlier
  creation has returned the secret, its id has not been revoked
  since, and it has not expired; the answer has the owner and
  the scopes of the creation. A revocation is for the owner or
  an admin, and every other token is accepted as before.
-/
theorem acceptance
    {events : List Event}
    {e : Event}
    {toks toks' : Store}
    (hRun : Transition.Run (Token.step hashSecret) [] events toks)
    (hStep : Token.step hashSecret toks e toks')
    (hDistinct : Distinct hashSecret (events ++ [e])) :
    (∀ secret, e.call = .verify secret →
        ∃ result,
          e.outcome = .verified result ∧
            (result.isSome = true ↔
              ∃ g, Standing events g ∧ g.secret = secret ∧
                g.Live e.now) ∧
              ∀ t, result = some t →
                ∀ g, Standing events g → g.secret = secret →
                  t.owner = g.owner ∧ t.scopes = g.scopes) ∧
      ∀ id owner isAdmin, e.call = .revoke id owner isAdmin →
        (e.outcome = .revoked →
            ∃ g, Standing events g ∧ g.id = id ∧
              (isAdmin = true ∨ g.owner = owner)) ∧
          (e.outcome ≠ .revoked → toks' = toks) ∧
            ∀ g ∈ granted events, g.id ≠ id → ∀ now,
              (Store.verify hashSecret g.secret now toks').1 =
                (Store.verify hashSecret g.secret now
                  toks).1 := by
  have hBefore := hDistinct.before
  have hRecords := records_of_run hRun hBefore.ids
  rcases e with ⟨now, call, outcome⟩
  unfold Token.step at hStep
  simp only [] at hStep ⊢
  constructor
  · rintro secret rfl
    cases hStep
    refine ⟨_, rfl, ?_⟩
    apply accepted_iff hRecords
      (hBefore.secrets.sublist ((grants_sublist events).map _))
      ?_ now _ rfl
    intro g hg hDigest
    apply hDistinct.digests _ ?_ _ ?_ hDigest
    · rw [List.flatMap_append]
      apply List.mem_append_left
      exact mem_secrets_of_granted
        ((grants_sublist events).subset hg)
    · rw [List.flatMap_append]
      apply List.mem_append_right
      simp [Event.secrets]
  · rintro id owner isAdmin rfl
    simp only [answer] at hStep
    split at hStep
    · rename_i stored hRevoke
      cases hStep
      rcases revocation_keeps hRecords hBefore hRevoke with
        ⟨hAllowed, hOthers⟩
      exact ⟨fun _ => hAllowed, fun h => (h rfl).elim, hOthers⟩
    · cases hStep
      refine ⟨?_, fun _ => rfl, fun _ _ _ _ => rfl⟩
      intro hRevoked
      cases hRevoked

/- The digests of two secrets. -/
def sampleDigest (secret : Text) : Text :=
  if secret = "sot_AAECAwQFBgcICQoLDA0ODxAREhMUFRYX" then
    "777bc3766d89ead73deef3e0fc966408085ac764e79a1989ae360a80ac6fc633"
  else if secret = "sot_GBkaGxwdHh8gISIjJCUmJygpKissLS4v" then
    "4c918aca5e79c36f5f468973a64655d3ef28d8a29abc0a0431826c86e8a1bafe"
  else []

/- Two users, and a revocation by each of them. -/
def sampleCalls : List (Int × Call) :=
  [(100, .create
      ⟨"0001020304050607", "AAECAwQFBgcICQoLDA0ODxAREhMUFRYX"⟩
      "ci" "alice@example.com" ["devices:read"] 0),
    (200, .create
      ⟨"08090a0b0c0d0e0f", "GBkaGxwdHh8gISIjJCUmJygpKissLS4v"⟩
      "logs" "bob@example.com" ["logs:read"] 900),
    (300, .revoke "0001020304050607" "bob@example.com" false),
    (400, .revoke "08090a0b0c0d0e0f" "bob@example.com" false)]

/- The calls, answered one after another. -/
def replay
    (hashSecret : Text → Text) :
    Store → List (Int × Call) → List Event × Store
| toks, [] => ([], toks)
| toks, (now, call) :: rest =>
    let first := answer hashSecret toks now call
    let behind := replay hashSecret first.2 rest
    (⟨now, call, first.1⟩ :: behind.1, behind.2)

theorem run_replay
    (hashSecret : Text → Text)
    (toks : Store)
    (calls : List (Int × Call)) :
    Transition.Run (Token.step hashSecret) toks
      (replay hashSecret toks calls).1
      (replay hashSecret toks calls).2 := by
  induction calls generalizing toks with
  | nil => exact .refl toks
  | cons c calls ih =>
      rcases c with ⟨now, call⟩
      have hFirst :
          Token.step hashSecret toks
            ⟨now, call, (answer hashSecret toks now call).1⟩
            (answer hashSecret toks now call).2 := rfl
      exact (Transition.Run.single hFirst).append (ih _)

/- The run of the sample, and a verification behind it. -/
def sampleRun : List Event × Store :=
  replay sampleDigest [] sampleCalls

def sampleVerify : Event where
  now := 1000
  call := .verify "sot_AAECAwQFBgcICQoLDA0ODxAREhMUFRYX"
  outcome :=
    (answer sampleDigest sampleRun.2 1000
      (.verify "sot_AAECAwQFBgcICQoLDA0ODxAREhMUFRYX")).1

theorem distinct_sample :
    Distinct sampleDigest (sampleRun.1 ++ [sampleVerify]) where
  ids := by decide +kernel
  secrets := by decide +kernel
  digests := by decide +kernel

/- The first user's token is still accepted behind that run. -/
theorem acceptance_sample :
    ∃ result,
      sampleVerify.outcome = .verified result ∧
        (result.isSome = true ↔
          ∃ g, Standing sampleRun.1 g ∧
            g.secret = "sot_AAECAwQFBgcICQoLDA0ODxAREhMUFRYX" ∧
              g.Live 1000) := by
  have hRun := run_replay sampleDigest [] sampleCalls
  rcases (acceptance hRun (e := sampleVerify) rfl
    distinct_sample).1 _ rfl with ⟨result, hOutcome, hIff, _⟩
  exact ⟨result, hOutcome, hIff⟩

end Token

end Soteria
