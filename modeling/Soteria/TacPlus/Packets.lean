import Mathlib.Data.List.Basic

/-
  TACACS+ packets and their obfuscation.

  The body of a packet is combined with a pad that is made by
  hashing the session, the shared key and the hash before.
  Which of a host's keys a NAS uses is found out from the first
  packet: a key is taken back where the body it uncovers does
  not look right.

  Key definitions include:
    * `TacPlus.Pak`
    * `TacPlus.md5Xor`
    * `TacPlus.tryKeys`
-/

------------------------------------------------------------
-- Packets
------------------------------------------------------------

namespace Soteria

namespace TacPlus

/- `TAC_PLUS_UNENCRYPTED_FLAG` -/
def unencryptedFlag : UInt8 := 0x01

/- `TAC_PLUS_SINGLE_CONNECT_FLAG` -/
def singleConnectFlag : UInt8 := 0x04

/- `tac_pak_hdr`, with the body that follows it; `datalength` is
   the length of the body. -/
structure Pak where
  version : UInt8
  type : UInt8
  seqNo : UInt8
  flags : UInt8
  sessionId : List UInt8
  data : List UInt8
deriving DecidableEq

/- `md5v`, of all its parts one after another. -/
abbrev Md5 := List UInt8 → Vector UInt8 16

/- A key of a host. -/
abbrev Key := List UInt8

/- The test `key && *key`. -/
def keyed (key : Key) : Bool :=
  key.head?.any (· ≠ 0)

/- What is hashed for every block, before the hash of the block
   before. -/
def padBase (key : Key) (p : Pak) : List UInt8 :=
  p.sessionId ++ key ++ [p.version, p.seqNo]

/- The loop of `md5_xor`, for a number of blocks. -/
def xorBlocks
    (md5 : Md5) (base : List UInt8) :
    Nat → List UInt8 → List UInt8 → List UInt8
| 0, _, data => data
| n + 1, prev, data =>
    let hash := (md5 (base ++ prev)).toList
    List.zipWith (· ^^^ ·) (data.take 16) hash ++
      xorBlocks md5 base n hash (data.drop 16)

/- `md5_xor` -/
def md5Xor (md5 : Md5) (key : Key) (p : Pak) : Pak :=
  if keyed key then
    { p with
      data := xorBlocks md5 (padBase key p)
        ((p.data.length + 15) / 16) [] p.data
      flags := p.flags ^^^ unencryptedFlag }
  else p

/- What `write_packet` puts into the queue, for the flags, the
   key and the `unencrypted_flag` of the connection. -/
def writtenPak
    (md5 : Md5) (flags : UInt8) (unencrypted : Bool)
    (key : Option Key) (p : Pak) :
    Pak :=
  let p := { p with flags := p.flags ||| flags }
  match key with
  | some key => if unencrypted then p else md5Xor md5 key p
  | none => p

end TacPlus

end Soteria

------------------------------------------------------------
-- Obfuscating Twice
------------------------------------------------------------

namespace Soteria

namespace TacPlus

theorem xor_xor_cancel (a b : UInt8) : a ^^^ b ^^^ b = a := by
  rw [UInt8.xor_assoc, UInt8.xor_self, UInt8.xor_zero]

theorem zipWith_xor_twice
    (xs pad : List UInt8) (h : xs.length ≤ pad.length) :
    List.zipWith (· ^^^ ·)
      (List.zipWith (· ^^^ ·) xs pad) pad = xs := by
  induction xs generalizing pad with
  | nil => simp
  | cons x xs ih =>
      cases pad with
      | nil => simp at h
      | cons p pad =>
          simp only [List.zipWith_cons_cons, xor_xor_cancel]
          rw [ih pad (by simpa using h)]

theorem length_block
    (md5 : Md5) (text data : List UInt8) :
    (List.zipWith (· ^^^ ·) (data.take 16)
      (md5 text).toList).length = (data.take 16).length := by
  simp only [List.length_zipWith, List.length_take,
    Vector.length_toList]
  omega

theorem length_xorBlocks
    (md5 : Md5) (base : List UInt8) (n : Nat)
    (prev data : List UInt8) :
    (xorBlocks md5 base n prev data).length = data.length := by
  induction n generalizing prev data with
  | zero => rfl
  | succ n ih =>
      rw [xorBlocks, List.length_append, length_block, ih,
        ← List.length_append, List.take_append_drop]

/- The pad does not depend on the body, so a second pass takes
   the first one back. -/
theorem xorBlocks_twice
    (md5 : Md5) (base : List UInt8) (n : Nat)
    (prev data : List UInt8) :
    xorBlocks md5 base n prev (xorBlocks md5 base n prev data) =
      data := by
  induction n generalizing prev data with
  | zero => rfl
  | succ n ih =>
      let hash := (md5 (base ++ prev)).toList
      have hHash : hash.length = 16 := Vector.length_toList
      have hBlock : (List.zipWith (· ^^^ ·) (data.take 16)
          hash).length = (data.take 16).length :=
        length_block md5 (base ++ prev) data
      simp only [xorBlocks]
      by_cases hLong : 16 ≤ data.length
      · have hTake : (List.zipWith (· ^^^ ·) (data.take 16)
            hash).length = 16 := by
          rw [hBlock, List.length_take]
          omega
        rw [List.take_left' hTake, List.drop_left' hTake, ih,
          zipWith_xor_twice _ _ (by
            rw [List.length_take]
            omega),
          List.take_append_drop]
      · have hRest : data.drop 16 = [] := by
          rw [List.drop_eq_nil_iff]
          omega
        have hNil : xorBlocks md5 base n hash [] = [] :=
          List.eq_nil_of_length_eq_zero (by
            rw [length_xorBlocks]
            rfl)
        have hTake : data.take 16 = data :=
          List.take_of_length_le (by omega)
        have hShort : (List.zipWith (· ^^^ ·) data hash).length ≤
            16 := by
          rw [hTake] at hBlock
          omega
        rw [hRest, hNil, List.append_nil, hTake,
          List.take_of_length_le hShort,
          List.drop_eq_nil_iff.mpr hShort, hNil,
          List.append_nil]
        exact zipWith_xor_twice _ _ (by omega)

theorem md5Xor_twice (md5 : Md5) (key : Key) (p : Pak) :
    md5Xor md5 key (md5Xor md5 key p) = p := by
  by_cases hKey : keyed key = true
  · have hBase : padBase key (md5Xor md5 key p) =
        padBase key p := by
      rw [md5Xor, if_pos hKey]
      rfl
    rcases p with ⟨version, type, seqNo, flags, sessionId, data⟩
    simp only [md5Xor, if_pos hKey] at hBase ⊢
    rw [hBase, length_xorBlocks, xorBlocks_twice,
      xor_xor_cancel]
  · rw [md5Xor, if_neg hKey, md5Xor, if_neg hKey]

end TacPlus

end Soteria

------------------------------------------------------------
-- Finding the Key
------------------------------------------------------------

namespace Soteria

namespace TacPlus

/- The loop over the keys in `tac_read`, from the key in use: the
   keys from the one it ends with, the packet under that key,
   and whether it still looks bogus. -/
def tryKeys
    (md5 : Md5) (bogus : Pak → Bool) (keyFixed : Bool) :
    List Key → Pak → List Key × Pak × Bool
| [], p => ([], p, bogus p)
| key :: rest, p =>
    let opened := md5Xor md5 key p
    if bogus opened && !keyFixed && !rest.isEmpty then
      -- taken back, before the next key is applied
      tryKeys md5 bogus keyFixed rest (md5Xor md5 key opened)
    else (key :: rest, opened, bogus opened)

/- The packet that is processed is the received one under the
   first key it does not look bogus with, or else under the last
   one; a key that is fixed is the only one tried. -/
theorem tryKeys_spec
    (md5 : Md5) (bogus : Pak → Bool) (keyFixed : Bool)
    (key : Key) (keys : List Key) (p : Pak) :
    ∃ before k rest, key :: keys = before ++ k :: rest ∧
      tryKeys md5 bogus keyFixed (key :: keys) p =
        (k :: rest, md5Xor md5 k p, bogus (md5Xor md5 k p)) ∧
      (∀ k' ∈ before, bogus (md5Xor md5 k' p) = true) ∧
      (bogus (md5Xor md5 k p) = true →
        keyFixed = true ∨ rest = []) ∧
      (keyFixed = true → before = []) := by
  induction keys generalizing key with
  | nil =>
      refine ⟨[], key, [], rfl, ?_, nofun, fun _ => Or.inr rfl,
        fun _ => rfl⟩
      simp [tryKeys]
  | cons next keys ih =>
      by_cases hMore : (bogus (md5Xor md5 key p) && !keyFixed &&
          !(next :: keys).isEmpty) = true
      · rcases ih next with
          ⟨before, k, rest, hKeys, hTry, hBefore, hLast, hFixed⟩
        simp only [List.isEmpty_cons, Bool.not_false,
          Bool.and_true, Bool.and_eq_true,
          Bool.not_eq_true'] at hMore
        refine ⟨key :: before, k, rest, by rw [hKeys]; rfl, ?_,
          ?_, hLast, ?_⟩
        · rw [tryKeys, if_pos (by simp [hMore]),
            md5Xor_twice, hTry]
        · intro k' hk'
          rcases List.mem_cons.mp hk' with rfl | hk'
          · exact hMore.1
          · exact hBefore k' hk'
        · intro hTrue
          rw [hMore.2] at hTrue
          cases hTrue
      · refine ⟨[], key, next :: keys, rfl, ?_, nofun, ?_,
          fun _ => rfl⟩
        · rw [tryKeys, if_neg hMore]
        · intro hBogus
          rw [hBogus] at hMore
          cases keyFixed with
          | true => exact Or.inl rfl
          | false => simp at hMore

/- A request that the NAS obfuscated with one of the host's keys
   is processed as the NAS wrote it, where it looks bogus under
   all keys before. -/
theorem tryKeys_request
    (md5 : Md5) (bogus : Pak → Bool)
    (before rest : List Key) (key : Key) (request : Pak)
    (hLooks : bogus request = false)
    (hBefore : ∀ k ∈ before,
      bogus (md5Xor md5 k (md5Xor md5 key request)) = true) :
    tryKeys md5 bogus false (before ++ key :: rest)
        (md5Xor md5 key request) =
      (key :: rest, request, false) := by
  induction before with
  | nil =>
      rw [List.nil_append, tryKeys, md5Xor_twice, hLooks]
      rfl
  | cons k before ih =>
      have hBogus := hBefore k List.mem_cons_self
      have hNext : (before ++ key :: rest).isEmpty = false := by
        cases before <;> rfl
      rw [List.cons_append, tryKeys, if_pos, md5Xor_twice]
      · exact ih fun k' hk' =>
          hBefore k' (List.mem_cons_of_mem k hk')
      · rw [hBogus, hNext]
        rfl

theorem tryKeys_request_second :
    let md5 : Md5 := fun base =>
      Vector.replicate 16 (base.foldl (· + ·) 0)
    let request : Pak :=
      { version := 0xc0, type := 1, seqNo := 1, flags := 0,
        sessionId := [7], data := [5] }
    let bogus : Pak → Bool := fun p => p.data != [5]
    tryKeys md5 bogus false [[1], [2]]
        (md5Xor md5 [2] request) =
      ([[2]], request, false) := by
  intro md5 request bogus
  exact tryKeys_request md5 bogus [[1]] [] [2] request rfl
    (by decide)

/- What the daemon writes is read by a NAS with the same key as
   it was before, with the flags of the connection. -/
theorem writtenPak_read
    (md5 : Md5) (flags : UInt8) (key : Key) (p : Pak) :
    md5Xor md5 key (writtenPak md5 flags false (some key) p) =
      { p with flags := p.flags ||| flags } := by
  rw [writtenPak]
  exact md5Xor_twice md5 key _

end TacPlus

end Soteria
