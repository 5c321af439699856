import Mathlib.Data.List.Pairwise
import Soteria.Foundation.Best
import Soteria.Dns.Literals
import Soteria.Logsvc.Lines

/-
  The device that a log line is attributed to: the one with
  the longest prefix that has the address.

  Key definitions include:
    * `bitAt`, `maskBytes_eq_iff`
    * `Contains`, `networkOf`
    * `resolveDevice_most_specific`
-/

------------------------------------------------------------
-- The Bits of an Address
------------------------------------------------------------

namespace Soteria

namespace Dns

/- A bit of an address, the highest one of a byte first. -/
def bitAt (bytes : List Nat) (i : Nat) : Bool :=
  (bytes.getD (i / 8) 0).testBit (7 - i % 8)

theorem bitAt_cons_of_lt
    (b : Nat)
    (bytes : List Nat)
    {i : Nat}
    (hFirst : i < 8) :
    bitAt (b :: bytes) i = b.testBit (7 - i) := by
  unfold bitAt
  rw [Nat.div_eq_of_lt hFirst, Nat.mod_eq_of_lt hFirst]
  rfl

theorem bitAt_cons_add
    (b : Nat)
    (bytes : List Nat)
    (i : Nat) :
    bitAt (b :: bytes) (i + 8) = bitAt bytes i := by
  unfold bitAt
  rw [Nat.add_div_right i (by decide), Nat.add_mod_right]
  rfl

/- Two bytes agree on their first bits. -/
theorem byte_eq_iff
    {x y : Nat}
    (hx : x ≤ 255)
    (hy : y ≤ 255)
    (n : Nat) :
    x / 2 ^ (8 - n) * 2 ^ (8 - n) =
        y / 2 ^ (8 - n) * 2 ^ (8 - n) ↔
      ∀ i < n, i < 8 → x.testBit (7 - i) = y.testBit (7 - i) := by
  rw [Nat.mul_left_inj (Nat.two_pow_pos _).ne']
  constructor
  · intro hSame i hi hByte
    have hBit :=
      congrArg (Nat.testBit · (7 - i - (8 - n))) hSame
    simp only [Nat.testBit_div_two_pow] at hBit
    have hPlace : 7 - i - (8 - n) + (8 - n) = 7 - i := by omega
    rwa [hPlace] at hBit
  · intro hBits
    apply Nat.eq_of_testBit_eq
    intro j
    rw [Nat.testBit_div_two_pow, Nat.testBit_div_two_pow]
    by_cases hByte : j + (8 - n) < 8
    · have hBit :=
        hBits (7 - (j + (8 - n))) (by omega) (by omega)
      have hPlace :
          7 - (7 - (j + (8 - n))) = j + (8 - n) := by
        omega
      rwa [hPlace] at hBit
    · have hAbove : 2 ^ 8 ≤ 2 ^ (j + (8 - n)) :=
        Nat.pow_le_pow_right (by decide) (by omega)
      rw [Nat.testBit_lt_two_pow (by omega),
        Nat.testBit_lt_two_pow (by omega)]

/- Masked addresses are equal if their first bits are. -/
theorem maskBytes_eq_iff
    {a b : List Nat}
    (hLength : a.length = b.length)
    (hA : Small a)
    (hB : Small b)
    (n : Nat) :
    maskBytes n a = maskBytes n b ↔
      ∀ i < n, bitAt a i = bitAt b i := by
  induction a generalizing b n with
  | nil =>
      cases b with
      | nil => simp
      | cons y b => cases hLength
  | cons x a ih =>
      cases b with
      | nil => cases hLength
      | cons y b =>
          have hRest :=
            ih (Nat.succ.inj hLength)
              (fun v hv => hA v (List.mem_cons_of_mem _ hv))
              (fun v hv => hB v (List.mem_cons_of_mem _ hv))
              (n - 8)
          have hByte :=
            byte_eq_iff (hA x (List.mem_cons_self ..))
              (hB y (List.mem_cons_self ..)) n
          rw [maskBytes, maskBytes, List.cons.injEq, hByte,
            hRest]
          constructor
          · rintro ⟨hFirst, hLater⟩ i hi
            by_cases hEight : i < 8
            · rw [bitAt_cons_of_lt _ _ hEight,
                bitAt_cons_of_lt _ _ hEight]
              exact hFirst i hi hEight
            · have hSame := hLater (i - 8) (by omega)
              rw [← bitAt_cons_add x a, ← bitAt_cons_add y b,
                Nat.sub_add_cancel (by omega)] at hSame
              exact hSame
          · intro hAll
            constructor
            · intro i hi hEight
              rw [← bitAt_cons_of_lt x a hEight,
                ← bitAt_cons_of_lt y b hEight]
              exact hAll i hi
            · intro i hi
              rw [← bitAt_cons_add x a, ← bitAt_cons_add y b]
              exact hAll (i + 8) (by omega)

end Dns

end Soteria

------------------------------------------------------------
-- Prefixes That Have an Address
------------------------------------------------------------

namespace Soteria

namespace Logsvc

open Tacconfig (Device)
open Dns (bitAt)

/-
  The address of the device is a prefix of this length, which
  is not zero, and the first bits of the IP are its bits.
-/
structure Contains (d : Device) (bits : Nat) (ip : Text) :
    Prop where
  nonzero : bits ≠ 0
  inside :
    ∃ addr bytes, Dns.parseAddr ip = some addr ∧
      parsePrefix d.address = some (bytes, bits) ∧
        bytes.length = addr.length ∧
          ∀ i < bits, bitAt bytes i = bitAt addr i

/- The network of a device, with the host bits masked. -/
def networkOf (d : Device) : Option Dns.IPNet :=
  (parsePrefix d.address).map fun p =>
    ⟨Dns.maskBytes p.2 p.1, p.2⟩

/- Two devices do not have one network. -/
def OtherNetwork (d d' : Device) : Prop :=
  ∀ net, networkOf d = some net → networkOf d' ≠ some net

instance : Std.Symm OtherNetwork where
  symm _ _ hOther net hNet hNet' := hOther net hNet' hNet

/- The length of the prefix, if it is a candidate. -/
def candidateBits
    (addr : List Nat)
    (d : Device) : Option Nat :=
  match parsePrefix d.address with
  | none => none
  | some (bytes, bits) =>
      if bits ≠ 0 && bytes.length = addr.length &&
          Dns.maskBytes bits bytes = Dns.maskBytes bits addr
      then some bits
      else none

variable {ip : Text}
variable {addr bytes : List Nat}
variable {bits : Nat}
variable {d : Device}
variable {devices devices' : List Device}

theorem small_of_parsePrefix
    {s : Text}
    (hPrefix : parsePrefix s = some (bytes, bits)) :
    Dns.Small bytes := by
  unfold parsePrefix at hPrefix
  dsimp only at hPrefix
  split at hPrefix
  · rename_i hAddr
    split at hPrefix
    · cases hPrefix
    · split at hPrefix
      · cases hPrefix
      · split at hPrefix
        · cases hPrefix
        · cases hPrefix
          exact Dns.small_of_parseAddr hAddr
  · cases hPrefix

theorem candidateBits_eq_some
    (hAddr : Dns.parseAddr ip = some addr) :
    candidateBits addr d = some bits ↔ Contains d bits ip := by
  have hSmall := Dns.small_of_parseAddr hAddr
  unfold candidateBits
  constructor
  · intro hCandidate
    cases hPrefix : parsePrefix d.address with
    | none =>
        rw [hPrefix] at hCandidate
        cases hCandidate
    | some p =>
        rcases p with ⟨bytes, length⟩
        rw [hPrefix] at hCandidate
        simp only at hCandidate
        split at hCandidate
        · rename_i hTests
          cases hCandidate
          simp only [Bool.and_eq_true, decide_eq_true_eq]
            at hTests
          rcases hTests with ⟨⟨hZero, hLength⟩, hMask⟩
          refine ⟨hZero, addr, bytes, hAddr, hPrefix, hLength,
            ?_⟩
          exact (Dns.maskBytes_eq_iff hLength
            (small_of_parsePrefix hPrefix) hSmall bits).mp hMask
        · cases hCandidate
  · rintro ⟨hZero, addr', bytes, hAddr', hPrefix, hLength,
      hBits⟩
    rw [hAddr] at hAddr'
    cases hAddr'
    rw [hPrefix]
    have hMask :=
      (Dns.maskBytes_eq_iff hLength
        (small_of_parsePrefix hPrefix) hSmall bits).mpr hBits
    simp [hZero, hLength, hMask]

end Logsvc

end Soteria

------------------------------------------------------------
-- The Most Specific Device
------------------------------------------------------------

namespace Soteria

namespace Logsvc

open Tacconfig (Device)

variable {ip : Text}
variable {addr : List Nat}
variable {d : Device}
variable {devices devices' : List Device}

/- What the loop keeps of the best device so far. -/
def kept
    (addr : List Nat)
    (ip : Text) : Option Device → Int × Text
| none => (-1, ip)
| some d => ((candidateBits addr d).getD 0, d.name)

/- A round of the loop looks at candidates only. -/
theorem betterDevice_eq
    (best : Int × Text)
    (d : Device) :
    betterDevice addr best d =
      match candidateBits addr d with
      | none => best
      | some bits =>
          if best.1 < bits then (bits, d.name) else best := by
  unfold betterDevice candidateBits
  cases parsePrefix d.address with
  | none => rfl
  | some p =>
      rcases p with ⟨bytes, bits⟩
      simp only
      by_cases hTests :
          (bits ≠ 0 && bytes.length = addr.length &&
            Dns.maskBytes bits bytes =
              Dns.maskBytes bits addr) = true
      · simp only [hTests, Bool.true_and, if_true,
          decide_eq_true_eq]
      · rw [Bool.not_eq_true] at hTests
        simp only [hTests, Bool.false_and, Bool.false_eq_true,
          if_false]

/- So it is a step of the scan for the best device. -/
theorem betterDevice_kept
    (ip : Text)
    {best : Option Device}
    (hBest : ∀ c ∈ best, (candidateBits addr c).isSome = true)
    (d : Device) :
    betterDevice addr (kept addr ip best) d =
        kept addr ip
          (Best.step (candidateBits addr) best d) ∧
      ∀ c ∈ Best.step (candidateBits addr) best d,
        (candidateBits addr c).isSome = true := by
  rw [betterDevice_eq]
  unfold Best.step
  cases hNew : candidateBits addr d with
  | none => exact ⟨rfl, hBest⟩
  | some bits =>
      have hHere :
          ∀ c ∈ some d, (candidateBits addr c).isSome = true := by
        rintro c ⟨⟩
        rw [hNew]
        rfl
      have hKept :
          kept addr ip (some d) = ((bits : Int), d.name) := by
        simp [kept, hNew]
      cases best with
      | none =>
          have hLess : (-1 : Int) < bits := by omega
          refine ⟨?_, hHere⟩
          rw [Option.bind_none, hKept]
          exact if_pos hLess
      | some c =>
          rcases Option.isSome_iff_exists.mp (hBest c rfl) with
            ⟨old, hOld⟩
          have hKeptOld :
              kept addr ip (some c) = ((old : Int), c.name) := by
            simp [kept, hOld]
          rw [Option.bind_some, hOld, hKeptOld]
          by_cases hLess : old < bits
          · simp only [Int.ofNat_lt, if_pos hLess]
            exact ⟨hKept.symm, hHere⟩
          · simp only [Int.ofNat_lt, if_neg hLess]
            exact ⟨hKeptOld.symm, hBest⟩

/- The loop ends with the best device. -/
theorem foldl_betterDevice
    {best : Option Device}
    (hBest : ∀ c ∈ best, (candidateBits addr c).isSome = true) :
    devices.foldl (betterDevice addr) (kept addr ip best) =
      kept addr ip
        (devices.foldl (Best.step (candidateBits addr))
          best) := by
  induction devices generalizing best with
  | nil => rfl
  | cons d devices ih =>
      rcases betterDevice_kept ip hBest d with
        ⟨hStep, hNext⟩
      rw [List.foldl_cons, List.foldl_cons, hStep, ih hNext]

theorem resolveDevice_eq
    (hAddr : Dns.parseAddr ip = some addr)
    (devices : List Device) :
    resolveDevice ip devices =
      ((Best.best (candidateBits addr) devices).map
        Device.name).getD ip := by
  have hLoop :
      devices.foldl (betterDevice addr) (kept addr ip none) =
        kept addr ip
          (devices.foldl (Best.step (candidateBits addr))
            none) :=
    foldl_betterDevice (by
      rintro c ⟨⟩)
  unfold resolveDevice Best.best
  rw [hAddr]
  show (devices.foldl (betterDevice addr)
    (kept addr ip none)).2 = _
  rw [hLoop]
  cases devices.foldl (Best.step (candidateBits addr)) none with
  | none => rfl
  | some d => rfl

/- Networks of one length that have an address are the same. -/
theorem networkOf_eq
    {d' : Device}
    {bits : Nat}
    (hFirst : Contains d bits ip)
    (hSecond : Contains d' bits ip) :
    ∃ net, networkOf d = some net ∧ networkOf d' = some net := by
  rcases hFirst.inside with
    ⟨addr, bytes, hAddr, hPrefix, hLength, hBits⟩
  rcases hSecond.inside with
    ⟨addr', bytes', hAddr', hPrefix', hLength', hBits'⟩
  rw [hAddr] at hAddr'
  cases hAddr'
  have hSame :
      Dns.maskBytes bits bytes' = Dns.maskBytes bits bytes := by
    rw [Dns.maskBytes_eq_iff (hLength'.trans hLength.symm)
      (small_of_parsePrefix hPrefix')
      (small_of_parsePrefix hPrefix)]
    intro i hi
    rw [hBits' i hi, hBits i hi]
  refine ⟨⟨Dns.maskBytes bits bytes, bits⟩, ?_, ?_⟩
  · simp [networkOf, hPrefix]
  · simp [networkOf, hPrefix', hSame]

/- Devices of different networks are told apart. -/
theorem eq_of_contains
    {d' : Device}
    {bits : Nat}
    (hOther : devices.Pairwise OtherNetwork)
    (hMem : d ∈ devices)
    (hMem' : d' ∈ devices)
    (hFirst : Contains d bits ip)
    (hSecond : Contains d' bits ip) :
    d = d' := by
  by_contra hNe
  rcases networkOf_eq hFirst hSecond with ⟨net, hNet, hNet'⟩
  exact hOther.forall hMem hMem' hNe net hNet hNet'

/-
  A line is attributed to a device whose prefix has the
  address and is the longest such prefix, or to the address
  itself. Devices of different networks may be listed in any
  order.
-/
theorem resolveDevice_most_specific
    (ip : Text)
    (devices : List Device) :
    ((∃ d ∈ devices, ∃ bits, Contains d bits ip ∧
          resolveDevice ip devices = d.name ∧
            ∀ d' ∈ devices, ∀ bits', Contains d' bits' ip →
              bits' ≤ bits) ∨
        (∀ d ∈ devices, ∀ bits, ¬ Contains d bits ip) ∧
          resolveDevice ip devices = ip) ∧
      (devices.Pairwise OtherNetwork →
        ∀ devices', devices'.Perm devices →
          resolveDevice ip devices' =
            resolveDevice ip devices) := by
  cases hAddr : Dns.parseAddr ip with
  | none =>
      have hSelf :
          ∀ list, resolveDevice ip list = ip := by
        intro list
        unfold resolveDevice
        rw [hAddr]
      refine ⟨Or.inr ⟨?_, hSelf devices⟩, ?_⟩
      · intro d _ bits hContains
        rcases hContains.inside with ⟨_, _, hSome, -⟩
        rw [hAddr] at hSome
        cases hSome
      · intro _ devices' _
        rw [hSelf, hSelf]
  | some addr =>
      have hBest :=
        Best.best_optimal (candidateBits addr) devices
      constructor
      · rw [resolveDevice_eq hAddr]
        generalize Best.best (candidateBits addr) devices = best
          at hBest
        cases best with
        | none =>
            refine Or.inr ⟨?_, rfl⟩
            intro d hd bits hContains
            have hSome := (candidateBits_eq_some hAddr).mpr
              hContains
            rw [hBest d hd] at hSome
            cases hSome
        | some d =>
            rcases hBest with ⟨hMem, bits, hBits, hMost⟩
            refine Or.inl ⟨d, hMem, bits,
              (candidateBits_eq_some hAddr).mp hBits, rfl, ?_⟩
            intro d' hd' bits' hContains
            exact hMost d' hd' bits'
              ((candidateBits_eq_some hAddr).mpr hContains)
      · intro hOther devices' hPerm
        have hBest' :=
          Best.best_optimal (candidateBits addr) devices'
        rw [resolveDevice_eq hAddr, resolveDevice_eq hAddr]
        congr 1
        refine (hBest.alike Device.name ?_
          (fun a => hPerm.mem_iff.symm) hBest').symm
        intro a ha b hb bits hBits hBits'
        rw [eq_of_contains hOther ha hb
          ((candidateBits_eq_some hAddr).mp hBits)
          ((candidateBits_eq_some hAddr).mp hBits')]

end Logsvc

end Soteria
