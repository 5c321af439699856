import Soteria.Foundation.Text
import Soteria.Foundation.Transition

/-
  The cached keys that user access tokens are signed with.

  Times are nanoseconds since the zero time, at which a cache
  starts.

  Key definitions include:
    * `rawURLDecode`, `publicKey`
    * `JwksCache.refreshLocked`, `JwksCache.key`
    * `Call`, `Watched`, `watch`
    * `RateLimited`, `Patient`
    * `rateLimited_iff_patient`
-/

------------------------------------------------------------
-- Key Sets
------------------------------------------------------------

namespace Soteria

namespace Api

/- The value of a character of the URL-safe alphabet. -/
def base64Digit (c : Char) : Option Nat :=
  if 'A' ≤ c ∧ c ≤ 'Z' then some (c.toNat - 65)
  else if 'a' ≤ c ∧ c ≤ 'z' then some (c.toNat - 71)
  else if '0' ≤ c ∧ c ≤ '9' then some (c.toNat + 4)
  else if c = '-' then some 62
  else if c = '_' then some 63
  else none

/- Four digits are three bytes. -/
def base64Bytes : List Nat → Option (List Nat)
| [] => some []
| [_] => none
| [a, b] => some [a * 4 + b / 16]
| [a, b, c] => some [a * 4 + b / 16, b % 16 * 16 + c / 4]
| a :: b :: c :: d :: rest =>
    (base64Bytes rest).map fun bytes =>
      [a * 4 + b / 16, b % 16 * 16 + c / 4,
        c % 4 * 64 + d] ++ bytes

/-
  `base64.RawURLEncoding.DecodeString`, which passes over line
  ends and does not look at the bits left over.
-/
def rawURLDecode (s : Text) : Option (List Nat) :=
  ((s.filter fun c => c ≠ '\r' ∧ c ≠ '\n').mapM
    base64Digit).bind base64Bytes

example : rawURLDecode "AQ\nAB" = some [1, 0, 1] := by decide

/- A key as the endpoint gives it. -/
structure Jwk where
  kty : Text
  crv : Text
  kid : Text
  x : Text
  y : Text
deriving DecidableEq

structure PublicKey where
  x : Nat
  y : Nat
deriving DecidableEq

/- `SetBytes` of a `big.Int`. -/
def setBytes (bytes : List Nat) : Nat :=
  bytes.foldl (fun n byte => n * 256 + byte) 0

/- The public key of an entry, where it is usable. -/
def publicKey (k : Jwk) : Option PublicKey :=
  if k.kty ≠ "EC" ∨ (k.crv ≠ "" ∧ k.crv ≠ "P-256") then none
  else
    match rawURLDecode k.x, rawURLDecode k.y with
    | some xb, some yb => some ⟨setBytes xb, setBytes yb⟩
    | _, _ => none

/- Keys by their ids; the last one of an id comes first. -/
abbrev Keys := List (Text × PublicKey)

/- The usable keys of an answer. -/
def usableKeys (keys : List Jwk) : Keys :=
  keys.foldl (fun next k =>
    match publicKey k with
    | some key => (k.kid, key) :: next
    | none => next) []

/- What a fetch brings; its HTTP status is not looked at. -/
inductive Answer where
| error
| malformed
| document (keys : List Jwk)
deriving DecidableEq

def Answer.keys : Answer → Keys
| .error => []
| .malformed => []
| .document keys => usableKeys keys

end Api

end Soteria

------------------------------------------------------------
-- The Cache
------------------------------------------------------------

namespace Soteria

namespace Api

/- `jwksCache`. -/
structure JwksCache where
  keys : Keys
  fetched : Nat
deriving DecidableEq

/- `NewJWKS`. -/
def newJWKS : JwksCache := ⟨[], 0⟩

/- Thirty seconds. -/
def rateLimit : Nat := 30 * 1000000000

/- `refreshLocked`, with the answer that came at `now`. -/
def JwksCache.refreshLocked
    (c : JwksCache)
    (answer : Answer)
    (now : Nat) : JwksCache :=
  match answer with
  | .error => c
  | .malformed => c
  | .document keys =>
      let next := usableKeys keys
      if 0 < next.length then ⟨next, now⟩ else c

/- What a call returns, and whether it made a fetch. -/
structure Answered where
  key : Option PublicKey
  fetch : Bool
  cache : JwksCache
deriving DecidableEq

/- `key`, called at `now`; a fetch is over at `done`. -/
def JwksCache.key
    (c : JwksCache)
    (kid : Text)
    (now done : Nat)
    (answer : Answer) : Answered :=
  match c.keys.lookup kid with
  | some k => ⟨some k, false, c⟩
  | none =>
      if rateLimit < now - c.fetched then
        let refreshed := c.refreshLocked answer done
        ⟨refreshed.keys.lookup kid, true, refreshed⟩
      else ⟨none, false, c⟩

variable {c : JwksCache}
variable {kid : Text}
variable {now done : Nat}
variable {answer : Answer}

/- A fetch is made for an unknown id, once the limit is over. -/
theorem key_fetch_iff :
    (c.key kid now done answer).fetch = true ↔
      c.keys.lookup kid = none ∧
        rateLimit < now - c.fetched := by
  unfold JwksCache.key
  cases c.keys.lookup kid with
  | some k => simp
  | none =>
      by_cases hLimit : rateLimit < now - c.fetched
      · simp [hLimit]
      · simp [hLimit]

theorem key_known
    {k : PublicKey}
    (hKnown : c.keys.lookup kid = some k) :
    c.key kid now done answer = ⟨some k, false, c⟩ := by
  unfold JwksCache.key
  rw [hKnown]

/-
  Without a fetch the cache stays as it is, and with one that
  brings no key as well.
-/
theorem key_cache :
    (c.key kid now done answer).cache =
      if (c.key kid now done answer).fetch = true ∧
          0 < answer.keys.length then
        ⟨answer.keys, done⟩
      else c := by
  unfold JwksCache.key
  cases c.keys.lookup kid with
  | some k => simp
  | none =>
      by_cases hLimit : rateLimit < now - c.fetched
      · rw [if_pos hLimit]
        cases answer with
        | error =>
            simp [JwksCache.refreshLocked, Answer.keys]
        | malformed =>
            simp [JwksCache.refreshLocked, Answer.keys]
        | document keys =>
            simp [JwksCache.refreshLocked, Answer.keys]
      · simp [hLimit]

end Api

end Soteria

------------------------------------------------------------
-- Runs of Calls
------------------------------------------------------------

namespace Soteria

namespace Api

/-
  A call of `key`: the time since the one before it was over,
  and what a fetch of it would bring, and when.
-/
structure Call where
  kid : Text
  wait : Nat
  answer : Answer
  took : Nat
deriving DecidableEq

/-
  The cache, with what is to be known about the calls so far:
  the times of the fetches, the keys of the last one that
  brought any, and the time of the last one if it did not.
-/
structure Watched where
  cache : JwksCache
  clock : Nat
  fetches : List Nat
  keySet : Keys
  failed : Option Nat

/- Before any call. -/
def Watched.start (clock : Nat) : Watched :=
  ⟨newJWKS, clock, [], [], none⟩

/- The time of the next call. -/
def Watched.now (w : Watched) (call : Call) : Nat :=
  w.clock + call.wait

def Watched.answered (w : Watched) (call : Call) : Answered :=
  w.cache.key call.kid (w.now call) (w.now call + call.took)
    call.answer

def watch (w : Watched) (call : Call) : Watched :=
  let answered := w.answered call
  if answered.fetch then
    if 0 < call.answer.keys.length then
      { cache := answered.cache
        clock := w.now call + call.took
        fetches := w.now call :: w.fetches
        keySet := call.answer.keys
        failed := none }
    else
      { w with
        cache := answered.cache
        clock := w.now call + call.took
        fetches := w.now call :: w.fetches
        failed := some (w.now call) }
  else
    { w with cache := answered.cache, clock := w.now call }

/-
  A fetch comes more than thirty seconds after every other
  one, and an id of the last key set is answered without one.
-/
def RateLimited (w : Watched) (call : Call) : Prop :=
  ((w.answered call).fetch = true →
    ∀ fetch ∈ w.fetches, fetch + rateLimit < w.now call) ∧
  ((w.keySet.lookup call.kid).isSome = true →
    (w.answered call).fetch = false ∧
      (w.answered call).key = w.keySet.lookup call.kid)

/-
  No unknown id comes within thirty seconds of a fetch that
  brought no key, where it was the last one.
-/
def Patient (w : Watched) (call : Call) : Prop :=
  w.cache.keys.lookup call.kid = none →
    ∀ failed ∈ w.failed, failed + rateLimit < w.now call

instance (w : Watched) (call : Call) :
    Decidable (RateLimited w call) := by
  unfold RateLimited
  infer_instance

/-
  Where the last fetch brought keys, the limit counts from
  it. Where it did not, the limit was over before it.
-/
structure Watched.Sound (w : Watched) : Prop where
  keySet : w.keySet = w.cache.keys
  clock : ∀ fetch ∈ w.fetches, fetch ≤ w.clock
  counted :
    w.failed = none →
      ∀ fetch ∈ w.fetches, fetch ≤ w.cache.fetched
  failed :
    ∀ failed ∈ w.failed,
      failed ∈ w.fetches ∧
        w.cache.fetched + rateLimit < failed ∧
        ∀ fetch ∈ w.fetches, fetch ≤ failed

theorem sound_start (clock : Nat) :
    (Watched.start clock).Sound where
  keySet := rfl
  clock := by simp [Watched.start]
  counted := by simp [Watched.start]
  failed := by simp [Watched.start]

variable {w : Watched}
variable {call : Call}

theorem answered_cache :
    (w.answered call).cache =
      if (w.answered call).fetch = true ∧
          0 < call.answer.keys.length then
        ⟨call.answer.keys, w.now call + call.took⟩
      else w.cache :=
  key_cache

theorem answered_fetch_iff :
    (w.answered call).fetch = true ↔
      w.cache.keys.lookup call.kid = none ∧
        rateLimit < w.now call - w.cache.fetched :=
  key_fetch_iff

theorem clock_le_now : w.clock ≤ w.now call :=
  Nat.le_add_right _ _

theorem sound_watch (hSound : w.Sound) :
    (watch w call).Sound := by
  have hNow := @clock_le_now w call
  have hCache := @answered_cache w call
  unfold watch
  by_cases hFetch : (w.answered call).fetch = true
  · have hDue := (answered_fetch_iff.mp hFetch).2
    have hEarlier : ∀ fetch ∈ w.now call :: w.fetches,
        fetch ≤ w.now call := by
      intro fetch hMem
      rcases List.mem_cons.mp hMem with hEq | hMem
      · exact le_of_eq hEq
      · exact le_trans (hSound.clock fetch hMem) hNow
    by_cases hKeys : 0 < call.answer.keys.length
    · rw [if_pos ⟨hFetch, hKeys⟩] at hCache
      rw [if_pos hFetch, if_pos hKeys, hCache]
      exact
        { keySet := rfl
          clock := fun fetch hMem =>
            le_trans (hEarlier fetch hMem)
              (Nat.le_add_right _ _)
          counted := fun _ fetch hMem =>
            le_trans (hEarlier fetch hMem)
              (Nat.le_add_right _ _)
          failed := fun _ hMem => nomatch hMem }
    · rw [if_neg (fun h => hKeys h.2)] at hCache
      rw [if_pos hFetch, if_neg hKeys, hCache]
      exact
        { keySet := hSound.keySet
          clock := fun fetch hMem =>
            le_trans (hEarlier fetch hMem)
              (Nat.le_add_right _ _)
          counted := fun hNone => nomatch hNone
          failed := by
            intro failed hMem
            cases hMem
            have hOver :
                w.cache.fetched + rateLimit < w.now call := by
              omega
            exact ⟨List.mem_cons_self .., hOver, hEarlier⟩ }
  · rw [if_neg (fun h => hFetch h.1)] at hCache
    rw [if_neg hFetch, hCache]
    exact
      { hSound with
        clock := fun fetch hMem =>
          le_trans (hSound.clock fetch hMem) hNow }

/- At one call. -/
theorem rateLimited_iff (hSound : w.Sound) :
    RateLimited w call ↔ Patient w call := by
  have hNow := @clock_le_now w call
  constructor
  · rintro ⟨hApart, -⟩ hUnknown failed hFailed
    rcases hSound.failed failed hFailed with
      ⟨hMem, hOver, -⟩
    have hClock := hSound.clock failed hMem
    have hFetch : (w.answered call).fetch = true :=
      answered_fetch_iff.mpr ⟨hUnknown, by omega⟩
    exact hApart hFetch failed hMem
  · intro hPatient
    constructor
    · intro hFetch fetch hMem
      rcases answered_fetch_iff.mp hFetch with
        ⟨hUnknown, hDue⟩
      cases hLast : w.failed with
      | none =>
          have hCounted := hSound.counted hLast fetch hMem
          omega
      | some failed =>
          have hOver := hPatient hUnknown failed hLast
          have hFirst :=
            (hSound.failed failed hLast).2.2 fetch hMem
          omega
    · intro hKnown
      rw [hSound.keySet] at hKnown ⊢
      rcases Option.isSome_iff_exists.mp hKnown with
        ⟨k, hKey⟩
      unfold Watched.answered
      rw [key_known hKey, hKey]
      exact ⟨rfl, rfl⟩

/-
  The limit holds in the runs in which no unknown id comes
  soon after a fetch that brought no key.
-/
theorem rateLimited_iff_patient
    (clock : Nat)
    (calls : List Call) :
    Transition.Along watch RateLimited (.start clock) calls ↔
      Transition.Along watch Patient (.start clock) calls :=
  Transition.along_congr_of_invariant
    (fun _ _ hSound _ _ => sound_watch hSound)
    (fun _ _ hSound _ => rateLimited_iff hSound)
    (sound_start clock)
    (Transition.Along.of_forall
      (fun _ _ => trivial) (Watched.start clock))

/- Two unknown ids in one second, while the endpoint is down. -/
theorem failed_fetch_repeated :
    ¬ Transition.Along watch RateLimited
      (.start 63900000000000000000)
      [⟨"k1", 0, .error, 0⟩, ⟨"k2", 1000000000, .error, 0⟩] := by
  unfold Transition.Along Transition.Along Transition.Along
  decide +kernel

end Api

end Soteria
