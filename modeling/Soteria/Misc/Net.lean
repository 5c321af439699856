import Mathlib.Data.Fintype.Basic
import Soteria.Foundation.Prefixes

/-
  IPv6 addresses and networks.

  An address is four words in host byte order; an IPv4
  address is one whose third word is 0xffff. The functions
  here are read off the words and the table of masks, and
  each is then stated over the 128 bits of the address.

  Key definitions include:
    * `Misc.In6Addr`
    * `Misc.v6Network`, `Misc.v6Broadcast`
    * `Misc.v6Cmp`, `Misc.v6Bitset`
    * `Misc.v6CommonCidr`
-/

------------------------------------------------------------
-- Words and Masks
------------------------------------------------------------

namespace Soteria

namespace Misc

open Prefixes

/- `struct in6_addr` -/
abbrev In6Addr := Fin 4 → BitVec 32

/- `cidr2mask` -/
def cidr2mask : List (BitVec 32) :=
  [0x00000000,
   0x80000000, 0xc0000000, 0xe0000000, 0xf0000000,
   0xf8000000, 0xfc000000, 0xfe000000, 0xff000000,
   0xff800000, 0xffc00000, 0xffe00000, 0xfff00000,
   0xfff80000, 0xfffc0000, 0xfffe0000, 0xffff0000,
   0xffff8000, 0xffffc000, 0xffffe000, 0xfffff000,
   0xfffff800, 0xfffffc00, 0xfffffe00, 0xffffff00,
   0xffffff80, 0xffffffc0, 0xffffffe0, 0xfffffff0,
   0xfffffff8, 0xfffffffc, 0xfffffffe, 0xffffffff]

/- The mask of one word, for the mask length left to it. -/
def wordMask (m : Int) : BitVec 32 :=
  cidr2mask.getD
    (if m < 1 then 0 else if m > 32 then 32 else m.toNat) 0

/- `v6_network` -/
def v6Network (a : In6Addr) (m : Int) : In6Addr :=
  fun i => a i &&& wordMask (m - 32 * i.val)

/- `v6_broadcast` -/
def v6Broadcast (a : In6Addr) (m : Int) : In6Addr :=
  fun i => a i ||| ~~~ wordMask (m - 32 * i.val)

/- The loop of `v6_cmp`. -/
def v6CmpWords (a b : In6Addr) : List (Fin 4) → Int
| [] => 0
| i :: rest =>
    if a i < b i then -1
    else if b i < a i then 1
    else v6CmpWords a b rest

/- `v6_cmp` -/
def v6Cmp (a b : In6Addr) : Int :=
  v6CmpWords a b [0, 1, 2, 3]

/- `v6_bitset` -/
def v6Bitset (a : In6Addr) (b : Int) : Bool :=
  b > 0 && b < 129 &&
    (a (Fin.ofNat 4 ((b - 1).toNat >>> 5)) &&&
      (0x80000000#32 >>> ((b - 1).toNat &&& 0x1f))) != 0

/- The loop of `v6_common_cidr`, for at most `left` more
   bits. -/
def v6CommonCidrFrom (a b : In6Addr) (m : Nat) : Nat → Nat
| 0 => m
| left + 1 =>
    if v6Bitset a (m + 1) = v6Bitset b (m + 1) then
      v6CommonCidrFrom a b (m + 1) left
    else m

/- `v6_common_cidr` -/
def v6CommonCidr (a b : In6Addr) (min : Nat) : Nat :=
  v6CommonCidrFrom a b 0 min

/- The bits of an address, the most significant first. -/
def bits (a : In6Addr) : Bits :=
  fun k => decide (k < 128) &&
    (a (Fin.ofNat 4 (k / 32))).getMsbD (k % 32)

theorem bits_of_lt
    (a : In6Addr) {k : Nat}
    (hk : k < 128) :
    bits a k = (a (Fin.ofNat 4 (k / 32))).getMsbD (k % 32) := by
  simp [bits, hk]

theorem bits_word
    (a : In6Addr) (i : Fin 4) {j : Nat}
    (hj : j < 32) :
    bits a (32 * i.val + j) = (a i).getMsbD j := by
  have hDiv : (32 * i.val + j) / 32 = i.val := by omega
  have hMod : (32 * i.val + j) % 32 = j := by omega
  rw [bits_of_lt a (by omega), hDiv, hMod]
  congr 2
  exact Fin.ofNat_val_eq_self i

theorem bits_ext
    {a b : In6Addr}
    (h : Agree 128 (bits a) (bits b)) :
    a = b := by
  funext i
  apply BitVec.eq_of_getMsbD_eq
  intro j hj
  rw [← bits_word a i hj, ← bits_word b i hj]
  exact h _ (by omega)

theorem agree_bits_iff (a b : In6Addr) :
    Agree 128 (bits a) (bits b) ↔ a = b :=
  ⟨bits_ext, fun h => h ▸ Agree.refl _ _⟩

/- The bits of the mask table. -/
theorem cidr2mask_bits :
    ∀ m < 33, ∀ j < 32,
      (cidr2mask.getD m 0).getMsbD j = decide (j < m) := by
  decide

theorem wordMask_bit
    (m : Int) {j : Nat}
    (hj : j < 32) :
    (wordMask m).getMsbD j = decide ((j : Int) < m) := by
  rw [wordMask]
  split
  case isTrue hLow =>
    rw [cidr2mask_bits _ (by omega) _ hj]
    simp only [decide_eq_decide]
    omega
  case isFalse hLow =>
    split
    case isTrue hHigh =>
      rw [cidr2mask_bits _ (by omega) _ hj]
      simp only [decide_eq_decide]
      omega
    case isFalse hHigh =>
      rw [cidr2mask_bits _ (by omega) _ hj]
      simp only [decide_eq_decide]
      omega

/- The single bit that `v6_bitset` tests. -/
theorem topBit_shifted :
    ∀ j < 32, ∀ i < 32,
      (0x80000000#32 >>> j).getMsbD i = decide (i = j) := by
  decide

theorem and_topBit_ne_zero
    (x : BitVec 32) {j : Nat}
    (hj : j < 32) :
    (x &&& (0x80000000#32 >>> j) != 0) = x.getMsbD j := by
  cases hBit : x.getMsbD j with
  | true =>
      have hSet :
          (x &&& (0x80000000#32 >>> j)).getMsbD j = true := by
        rw [BitVec.getMsbD_and, hBit,
          topBit_shifted j hj j hj]
        simp
      rw [bne_iff_ne]
      intro hZero
      rw [hZero] at hSet
      simp at hSet
  | false =>
      have hZero : x &&& (0x80000000#32 >>> j) = 0#32 := by
        apply BitVec.eq_of_getMsbD_eq
        intro i hi
        rw [BitVec.getMsbD_and, topBit_shifted j hj i hi,
          BitVec.getMsbD_zero]
        by_cases hij : i = j
        · simp [hij, hBit]
        · simp [hij]
      rw [hZero]
      rfl

end Misc

end Soteria

------------------------------------------------------------
-- The Bits of Each Function
------------------------------------------------------------

namespace Soteria

namespace Misc

open Prefixes

theorem bits_v6Network (a : In6Addr) (m : Nat) :
    bits (v6Network a m) = low m (bits a) := by
  funext k
  by_cases hk : k < 128
  · rw [low, bits_of_lt _ hk, bits_of_lt _ hk, v6Network,
      BitVec.getMsbD_and,
      wordMask_bit _ (Nat.mod_lt _ (by omega))]
    have hWord : (Fin.ofNat 4 (k / 32)).val = k / 32 :=
      Nat.mod_eq_of_lt (by omega)
    rw [hWord, Bool.and_comm]
    congr 1
    simp only [decide_eq_decide]
    omega
  · simp [bits, low, hk]

theorem bits_v6Broadcast
    (a : In6Addr) (m : Nat) {k : Nat}
    (hk : k < 128) :
    bits (v6Broadcast a m) k = high m (bits a) k := by
  rw [high, bits_of_lt _ hk, bits_of_lt _ hk, v6Broadcast,
    BitVec.getMsbD_or, BitVec.getMsbD_not,
    wordMask_bit _ (Nat.mod_lt _ (by omega))]
  have hWord : (Fin.ofNat 4 (k / 32)).val = k / 32 :=
    Nat.mod_eq_of_lt (by omega)
  have hMod : k % 32 < 32 := Nat.mod_lt _ (by omega)
  rw [hWord, Bool.or_comm]
  congr 1
  simp only [hMod, decide_true, Bool.true_and]
  rw [← decide_not, decide_eq_decide]
  omega

theorem v6Bitset_eq (a : In6Addr) (k : Nat) :
    v6Bitset a (k + 1) = bits a k := by
  have hPos : ((k : Int) + 1 > 0) := by omega
  rw [v6Bitset, show ((k : Int) + 1 - 1).toNat = k by omega,
    Nat.shiftRight_eq_div_pow,
    show k &&& 0x1f = k % 32 from
      Nat.and_two_pow_sub_one_eq_mod k 5,
    and_topBit_ne_zero _ (Nat.mod_lt _ (by omega)), bits]
  have hTop : decide ((k : Int) + 1 < 129) = decide (k < 128) := by
    rw [decide_eq_decide]
    omega
  rw [hTop, decide_eq_true hPos]
  rfl

theorem v6CommonCidrFrom_eq
    (a b : In6Addr) (m left : Nat) :
    v6CommonCidrFrom a b m left =
      sharedFrom (bits a) (bits b) m left := by
  induction left generalizing m with
  | zero => rfl
  | succ left ih =>
      rw [v6CommonCidrFrom, sharedFrom, ih, v6Bitset_eq,
        v6Bitset_eq]

theorem v6CommonCidr_eq (a b : In6Addr) (min : Nat) :
    v6CommonCidr a b min = shared (bits a) (bits b) min :=
  v6CommonCidrFrom_eq a b 0 min

/- A word that differs after equal words decides. -/
theorem before_of_word
    {a b : In6Addr} (i : Fin 4)
    (hSame : ∀ j < i, a j = b j)
    (hLt : a i < b i) :
    Before 128 (bits a) (bits b) := by
  rcases (lt_iff_before (a i) (b i)).mp hLt with
    ⟨j, hj, hAgree, ha, hb⟩
  refine ⟨32 * i.val + j, by omega, ?_, ?_, ?_⟩
  · intro k hk
    have hWord : k / 32 < 4 := by omega
    have hSplit : k = 32 * (k / 32) + k % 32 := by omega
    have hMod : k % 32 < 32 := Nat.mod_lt _ (by omega)
    have hA := bits_word a ⟨k / 32, hWord⟩ hMod
    have hB := bits_word b ⟨k / 32, hWord⟩ hMod
    rw [← hSplit] at hA hB
    rw [hA, hB]
    rcases Nat.lt_or_ge (k / 32) i.val with hBelow | hAt
    · rw [hSame ⟨k / 32, hWord⟩ hBelow]
    · obtain rfl : (⟨k / 32, hWord⟩ : Fin 4) = i :=
        Fin.ext (by simp only; omega)
      exact hAgree _ (by simp only at hk; omega)
  · rw [bits_word a i hj, ha]
  · rw [bits_word b i hj, hb]

theorem word_eq_of_not_lt
    {x y : BitVec 32}
    (hxy : ¬ x < y) (hyx : ¬ y < x) :
    x = y := by
  rw [BitVec.lt_def] at hxy hyx
  exact BitVec.eq_of_toNat_eq (by omega)

/- The loop of `v6_cmp` from word `n`, all words before it
   being equal. -/
theorem v6CmpWords_spec
    {a b : In6Addr} (n : Nat)
    (hn : n ≤ 4)
    (hSame : ∀ j : Fin 4, j.val < n → a j = b j) :
    let res := v6CmpWords a b ((List.finRange 4).drop n)
    (res = -1 ∧ Before 128 (bits a) (bits b)) ∨
    (res = 0 ∧ a = b) ∨
    (res = 1 ∧ Before 128 (bits b) (bits a)) := by
  induction hk : 4 - n generalizing n with
  | zero =>
      obtain rfl : n = 4 := by omega
      refine Or.inr (Or.inl ⟨rfl, ?_⟩)
      funext j
      exact hSame j j.isLt
  | succ k ih =>
      have hLt : n < 4 := by omega
      rw [List.drop_eq_getElem_cons (by simpa using hLt)]
      simp only [List.getElem_finRange, v6CmpWords]
      split
      case isTrue h =>
        exact Or.inl ⟨rfl, before_of_word _
          (fun j hj => hSame j hj) h⟩
      case isFalse h =>
        split
        case isTrue h' =>
          exact Or.inr (Or.inr ⟨rfl, before_of_word _
            (fun j hj => (hSame j hj).symm) h'⟩)
        case isFalse h' =>
          refine ih (n + 1) (by omega) ?_ (by omega)
          intro j hj
          rcases Nat.lt_succ_iff_lt_or_eq.mp hj with hj | hj
          · exact hSame j hj
          · obtain rfl : (⟨n, hLt⟩ : Fin 4) = j :=
              Fin.ext hj.symm
            exact word_eq_of_not_lt h h'

/- `v6_cmp` orders addresses by their bits. -/
theorem v6Cmp_spec (a b : In6Addr) :
    (v6Cmp a b = -1 ∧ Before 128 (bits a) (bits b)) ∨
    (v6Cmp a b = 0 ∧ a = b) ∨
    (v6Cmp a b = 1 ∧ Before 128 (bits b) (bits a)) :=
  v6CmpWords_spec 0 (by omega)
    (fun j hj => absurd hj (by omega))

theorem v6Cmp_eq_zero_iff (a b : In6Addr) :
    v6Cmp a b = 0 ↔ a = b := by
  rcases v6Cmp_spec a b with h | h | h
  · refine ⟨fun hZero => absurd hZero (by omega), ?_⟩
    rintro rfl
    exact absurd (Agree.refl _ _) h.2.not_agree
  · exact ⟨fun _ => h.2, fun _ => h.1⟩
  · refine ⟨fun hZero => absurd hZero (by omega), ?_⟩
    rintro rfl
    exact absurd (Agree.refl _ _) h.2.not_agree

theorem v6Cmp_lt_one_iff (a b : In6Addr) :
    1 > v6Cmp a b ↔ ¬ Before 128 (bits b) (bits a) := by
  rcases v6Cmp_spec a b with h | h | h
  · exact ⟨fun _ => h.2.asymm, fun _ => by omega⟩
  · refine ⟨fun _ hBefore => ?_, fun _ => by omega⟩
    rw [h.2] at hBefore
    exact hBefore.not_agree (Agree.refl _ _)
  · exact ⟨fun hLt => absurd hLt (by omega),
      fun hNot => absurd h.2 hNot⟩

end Misc

end Soteria

------------------------------------------------------------
-- Networks
------------------------------------------------------------

namespace Soteria

namespace Misc

open Prefixes

theorem v6Network_eq_iff (a b : In6Addr) {m : Nat} (hm : m ≤ 128) :
    v6Network a m = v6Network b m ↔
      Agree m (bits a) (bits b) := by
  rw [← agree_bits_iff, bits_v6Network, bits_v6Network]
  constructor
  · intro h
    exact ((agree_low m _).symm.trans (h.mono hm)).trans
      (agree_low m _)
  · intro h k hk
    simp only [low]
    by_cases hkm : k < m
    · rw [h k hkm]
    · simp [hkm]

theorem v6Network_v6Network
    (a : In6Addr) {m n : Nat} (hmn : m ≤ n) :
    v6Network (v6Network a n) m = v6Network a m := by
  apply bits_ext
  rw [bits_v6Network, bits_v6Network, bits_v6Network]
  intro k hk
  simp only [low]
  by_cases hkm : k < m
  · simp [hkm, show k < n by omega]
  · simp [hkm]

theorem agree_v6Network (a : In6Addr) (m : Nat) :
    Agree m (bits (v6Network a m)) (bits a) := by
  rw [bits_v6Network]
  exact agree_low m _

theorem agree_v6Broadcast
    {m : Nat} (hm : m ≤ 128) (a : In6Addr) :
    Agree m (bits (v6Broadcast a m)) (bits a) := by
  intro k hk
  rw [bits_v6Broadcast a m (by omega)]
  exact agree_high m _ k hk

theorem before_congr
    {x y x' y' : Bits}
    (hx : Agree 128 x x') (hy : Agree 128 y y') :
    Before 128 x y ↔ Before 128 x' y' := by
  constructor
  · rintro ⟨k, hk, hAgree, hX, hY⟩
    refine ⟨k, hk, ?_, by rw [← hx k hk, hX],
      by rw [← hy k hk, hY]⟩
    exact ((hx.mono (by omega)).symm.trans hAgree).trans
      (hy.mono (by omega))
  · rintro ⟨k, hk, hAgree, hX, hY⟩
    refine ⟨k, hk, ?_, by rw [hx k hk, hX], by rw [hy k hk, hY]⟩
    exact ((hx.mono (by omega)).trans hAgree).trans
      (hy.mono (by omega)).symm

/- An address lies between the first and the last of a network
   exactly when it shares the network's prefix. -/
theorem between_iff
    {n a : In6Addr} {m : Nat}
    (hm : m ≤ 128)
    (hNet : v6Network n m = n) :
    (1 > v6Cmp n a ∧ 1 > v6Cmp a (v6Broadcast n m)) ↔
      Agree m (bits n) (bits a) := by
  have hLow : bits n = low m (bits n) := by
    rw [← bits_v6Network, hNet]
  have hHigh : Agree 128 (bits (v6Broadcast n m))
      (high m (bits n)) :=
    fun k hk => bits_v6Broadcast n m hk
  rw [v6Cmp_lt_one_iff, v6Cmp_lt_one_iff,
    before_congr hHigh (Agree.refl 128 (bits a)),
    ← between_iff_agree hm (bits n) (bits a), ← hLow]

/- The last address of a network is not after an address that
   leaves the network upwards. -/
theorem broadcast_le_iff
    {n a : In6Addr} {m k : Nat}
    (hm : m ≤ 128) (hk : k < m)
    (hAgree : Agree k (bits n) (bits a))
    (hDiffer : bits n k ≠ bits a k) :
    1 > v6Cmp (v6Broadcast n m) a ↔ bits a k = true := by
  have hPrefix := agree_v6Broadcast hm n
  rw [v6Cmp_lt_one_iff]
  constructor
  · intro hNot
    by_contra hFalse
    rw [Bool.not_eq_true] at hFalse
    rw [hFalse, Bool.ne_false_iff] at hDiffer
    refine hNot ⟨k, by omega, ?_, hFalse, ?_⟩
    · exact hAgree.symm.trans (hPrefix.mono (by omega)).symm
    · rw [hPrefix k hk, hDiffer]
  · intro hTrue
    rw [hTrue, ne_eq, Bool.not_eq_true] at hDiffer
    refine Before.asymm ⟨k, by omega, ?_, ?_, hTrue⟩
    · exact (hPrefix.mono (by omega)).trans hAgree
    · rw [hPrefix k hk, hDiffer]

end Misc

end Soteria
