import Mathlib.Data.List.Nodup
import Soteria.Misc.Radix

/-
  Radix trees over whole runs.

  After any sequence of additions the tree answers every
  address as the list of additions does: with the data of the
  longest network the address lies in, the first addition of
  a network being the one that counts. Walking the tree lists
  every network once, the narrower ones first, and copying
  one tree into another merges what they store.

  Key definitions include:
    * `Misc.added`
    * `Misc.radixAddAll`, `Misc.radixCopy`
    * `Misc.Radixnode.size`, `Misc.Radixnode.height`
    * `Misc.lookupWithin`
-/

------------------------------------------------------------
-- Looking Up
------------------------------------------------------------

namespace Soteria

namespace Misc

open Prefixes Radixnode

variable {α : Type}

/- Below the end of its list a lookup goes on with the child on
   the address's side, and stops where there is none. -/
theorem lookupFrom_descend
    (x : In6Addr) (found : Option α) (arr : List α)
    (bit : Bool) (l r : Radixnode α) :
    (if !r.isNull && bit then lookupFrom x found arr r
      else if !l.isNull && !bit then lookupFrom x found arr l
      else (found, arr)) =
      lookupFrom x found arr (if bit then r else l) := by
  cases bit
  · cases l <;> simp [isNull, lookupFrom]
  · cases r <;> simp [isNull, lookupFrom]

/- What a tree stores of the prefixes of an address. -/
def matching (t : Radixnode α) (x : In6Addr) : List (Option α) :=
  ascending (fun m => stored t (v6Network x m) m) 128

theorem matching_null (x : In6Addr) :
    matching (.null : Radixnode α) x = [] :=
  ascending_nil fun _ _ => rfl

/- Nothing below a network matches an address outside it. -/
theorem matching_outside
    {a x : In6Addr} {m : Nat} {i : Bool} {d : Option α}
    {l r : Radixnode α}
    (h : WellFormed (.node a m i d l r))
    (hOut : v6Network x m ≠ a) :
    matching (.node a m i d l r) x = [] := by
  refine ascending_nil fun k hk => ?_
  refine stored_none (wellFormed_all h) ?_
  rintro ⟨hmk, hAgree⟩
  apply hOut
  rw [← h.2.1]
  refine (v6Network_eq_iff x a h.1).mpr (hAgree.trans ?_).symm
  exact (agree_v6Network x k).mono hmk

theorem matching_fork
    {a x : In6Addr} {m : Nat} {i : Bool} {d : Option α}
    {child other : Radixnode α}
    (h : WellFormed (fork a m i d (bits x m) child other))
    (hx : v6Network x m = a) :
    matching (fork a m i d (bits x m) child other) x =
      (if i then [] else [d]) ++ matching child x := by
  rcases wellFormed_fork.mp h with
    ⟨⟨hm, -, -⟩, ⟨hChild, hOther⟩, -, -⟩
  have hStored := fun k : Nat =>
    stored_fork (i := i) (d := d) hChild hOther
      (v6Network x k) k
  have hChildLow : ∀ k ≤ m,
      stored child (v6Network x k) k = none :=
    fun k hk => stored_none hChild fun hIn =>
      absurd hIn.1 (by omega)
  have hOtherNone : ∀ k : Nat,
      stored other (v6Network x k) k = none := by
    refine fun k => stored_none hOther fun hIn => ?_
    have hBit := hIn.2.2
    rw [agree_v6Network x k m hIn.1] at hBit
    cases bits x m <;> simp at hBit
  have hHere : stored (fork a m i d (bits x m) child other)
      (v6Network x m) m = if i then none else some d := by
    rw [hStored, hx, ← hx, hChildLow m le_rfl, hOtherNone]
    cases i <;> simp
  unfold matching
  rw [ascending_above hm (f := fun k =>
      stored (fork a m i d (bits x m) child other)
        (v6Network x k) k)
    (g := fun k => stored child (v6Network x k) k)]
  · rw [hHere]
    cases i <;> rfl
  · intro k hk
    rw [hStored, if_neg (fun hRoot => by omega),
      hChildLow k hk.le, hOtherNone]
    rfl
  · intro k hk
    rw [hStored, if_neg (fun hRoot => by omega), hOtherNone,
      Option.or_none]
  · exact hChildLow

theorem node_eq_fork
    (a : In6Addr) (m : Nat) (i : Bool) (d : Option α)
    (side : Bool) (l r : Radixnode α) :
    Radixnode.node a m i d l r =
      fork a m i d side (if side then r else l)
        (if side then l else r) := by
  cases side <;> rfl

/- A lookup in a well-formed tree. -/
theorem lookupFrom_spec
    {t : Radixnode α} (h : WellFormed t)
    (x : In6Addr) (found : Option α) (arr : List α) :
    lookupFrom x found arr t =
      ((matching t x).getLast?.getD found,
        arr ++ (matching t x).filterMap id) := by
  induction t generalizing found arr with
  | null => simp [lookupFrom, matching_null]
  | node a m i d l r ihl ihr =>
      have hInfra := h.2.2.1
      rw [lookupFrom]
      by_cases hx : v6Network x m = a
      · rw [if_neg (by
          rw [not_not, v6Cmp_eq_zero_iff]
          exact hx.symm)]
        simp only [v6Bitset_eq x m, lookupFrom_descend]
        have hChild : ∀ found arr,
            lookupFrom x found arr
                (if bits x m then r else l) =
              ((matching (if bits x m then r else l) x).getLast?.getD
                  found,
                arr ++ (matching (if bits x m then r else l)
                  x).filterMap id) := by
          intro found arr
          cases bits x m
          · exact ihl h.2.2.2.2.2.1 found arr
          · exact ihr h.2.2.2.2.2.2 found arr
        rw [hChild]
        rw [node_eq_fork a m i d (bits x m) l r] at h ⊢
        rw [matching_fork h hx]
        cases i with
        | true =>
            rw [(hInfra rfl).1]
            simp
        | false =>
            rw [List.getLast?_append]
            cases (matching (if bits x m then r else l)
              x).getLast? <;> cases d <;> simp
      · rw [if_pos (by
          rw [ne_eq, v6Cmp_eq_zero_iff]
          exact fun hEq => hx hEq.symm),
          matching_outside h hx]
        simp

end Misc

end Soteria

------------------------------------------------------------
-- Adding One After Another
------------------------------------------------------------

namespace Soteria

namespace Misc

open Prefixes Radixnode

variable {α : Type} [DecidableEq α]

theorem radixAdd_eq
    (rt : Radixtree α) (a : In6Addr) (m : Nat) (d : Option α) :
    radixAdd rt a m d =
      ({ rt with root :=
          (addFrom rt.cmp (v6Network a m) m d rt.root).1 },
        (addFrom rt.cmp (v6Network a m) m d rt.root).2) := by
  rcases rt with ⟨root, cmp⟩
  cases root <;> rfl

/- A tree in order, with the network added. -/
theorem radixAdd_added
    {rt : Radixtree α} (h : rt.root.WellFormed)
    (a : In6Addr) {m : Nat} (hm : m ≤ 128) (d : Option α) :
    Added rt.root (v6Network a m) m d (radixAdd rt a m d).1.root := by
  rw [radixAdd_eq]
  exact (addFrom_spec rt.cmp d hm
    (v6Network_v6Network a le_rfl) h).1

/- The old data is returned for a network that was there with
   other data. -/
theorem radixAdd_returns
    {rt : Radixtree α} (h : rt.root.WellFormed)
    (a : In6Addr) {m : Nat} (hm : m ≤ 128) (d : Option α) :
    (radixAdd rt a m d).2 =
      (rt.root.stored (v6Network a m) m).elim none
        fun old => clash rt.cmp old d := by
  rw [radixAdd_eq]
  exact (addFrom_spec rt.cmp d hm
    (v6Network_v6Network a le_rfl) h).2

/- A call of `radix_add`: the address, the mask length and the
   data. -/
abbrev Entry (α : Type) := In6Addr × Nat × Option α

/- Adds the entries of a list in order. -/
def radixAddAll
    (rt : Radixtree α) (adds : List (Entry α)) : Radixtree α :=
  adds.foldl (fun rt e => (radixAdd rt e.1 e.2.1 e.2.2).1) rt

/- The data of the first entry for a network. -/
def added
    (adds : List (Entry α)) (n : In6Addr) (k : Nat) :
    Option (Option α) :=
  (adds.find? fun e =>
    v6Network e.1 e.2.1 = n ∧ e.2.1 = k).map fun e => e.2.2

/- Mask lengths are those of `struct radixnode`. -/
def Masks (adds : List (Entry α)) : Prop :=
  ∀ e ∈ adds, e.2.1 ≤ 128

omit [DecidableEq α] in
theorem added_cons
    (e : Entry α) (adds : List (Entry α))
    (n : In6Addr) (k : Nat) :
    added (e :: adds) n k =
      if v6Network e.1 e.2.1 = n ∧ e.2.1 = k then some e.2.2
      else added adds n k := by
  rw [added, List.find?_cons]
  split
  case h_1 hTrue => rw [if_pos (of_decide_eq_true hTrue)]; rfl
  case h_2 hFalse =>
    rw [if_neg (of_decide_eq_false hFalse)]
    rfl

/- A run keeps the tree in order, and stores for a network what
   it had before or else its first entry. -/
theorem radixAddAll_spec
    {rt : Radixtree α} (h : rt.root.WellFormed)
    {adds : List (Entry α)} (hMasks : Masks adds) :
    (radixAddAll rt adds).root.WellFormed ∧
      ∀ n k, (radixAddAll rt adds).root.stored n k =
        (rt.root.stored n k).or (added adds n k) := by
  induction adds generalizing rt with
  | nil => exact ⟨h, fun n k => by simp [radixAddAll, added]⟩
  | cons e adds ih =>
      have hAdded := radixAdd_added h e.1
        (hMasks e List.mem_cons_self) e.2.2
      rcases ih hAdded.wellFormed
        (fun e' he' => hMasks e' (List.mem_cons_of_mem e he'))
        with ⟨hWf, hStored⟩
      refine ⟨hWf, fun n k => (hStored n k).trans ?_⟩
      rw [hAdded.stored, added_cons]
      by_cases hHere : v6Network e.1 e.2.1 = n ∧ e.2.1 = k
      · rw [if_pos hHere, if_pos hHere, ← hHere.1, ← hHere.2]
        cases rt.root.stored (v6Network e.1 e.2.1) e.2.1 <;>
          simp
      · rw [if_neg hHere, if_neg hHere]

/- A run from an empty tree. -/
theorem radixNew_spec
    (cmp : Option (Option α → Option α → Bool))
    {adds : List (Entry α)} (hMasks : Masks adds) :
    (radixAddAll (radixNew cmp) adds).root.WellFormed ∧
      (radixAddAll (radixNew cmp) adds).root.stored =
        added adds := by
  have h : (radixNew cmp : Radixtree α).root.WellFormed :=
    trivial
  rcases radixAddAll_spec h hMasks with ⟨hWf, hStored⟩
  refine ⟨hWf, ?_⟩
  funext n k
  rw [hStored]
  rfl

/- A lookup answers with the longest network of the address,
   and lists the data of all its networks from the shortest to
   the longest. -/
theorem radixLookup_longest
    (cmp : Option (Option α → Option α → Bool))
    {adds : List (Entry α)} (hMasks : Masks adds)
    (x : In6Addr) :
    radixLookup (radixAddAll (radixNew cmp) adds) x =
      ((longest
          (fun m => added adds (v6Network x m) m) 128).join,
        (ascending
          (fun m => added adds (v6Network x m) m) 128).filterMap
            id) := by
  rcases radixNew_spec cmp hMasks with ⟨hWf, hStored⟩
  rw [radixLookup, lookupFrom_spec hWf, matching, hStored,
    longest_eq_getLast]
  cases (ascending
    (fun m => added adds (v6Network x m) m) 128).getLast? <;>
    rfl

/- An IPv4 address, as `v6_ptoh` places it. -/
def ipv4 (a : BitVec 32) : In6Addr :=
  fun i => if i.val = 3 then a else if i.val = 2 then 0xffff else 0

/- The networks 10.0.0.0/8, 10.1.0.0/16 and 10.2.0.0/16. -/
def someNetworks : List (Entry Nat) :=
  [(ipv4 0x0a000000, 104, some 1), (ipv4 0x0a010000, 112, some 2),
    (ipv4 0x0a020000, 112, some 3)]

theorem someNetworks_masks : Masks someNetworks := by
  simp [Masks, someNetworks]

theorem radixLookup_longest_host :
    radixLookup (radixAddAll (radixNew none) someNetworks)
        (ipv4 0x0a020304) =
      (some 3, [1, 3]) :=
  (radixLookup_longest none someNetworks_masks
    (ipv4 0x0a020304)).trans (by decide +kernel)

end Misc

end Soteria

------------------------------------------------------------
-- Walking
------------------------------------------------------------

namespace Soteria

namespace Misc

open Prefixes Radixnode

variable {α : Type}

theorem mem_walkNode_iff
    {t : Radixnode α} (h : WellFormed t)
    (n : In6Addr) (k : Nat) (d : Option α) :
    (n, k, d) ∈ walkNode t ↔ stored t n k = some d := by
  induction t with
  | null => simp [walkNode, stored]
  | node a m i d' l r ihl ihr =>
      rcases stored_root_children h with ⟨hNoneL, hNoneR⟩
      rcases h with ⟨-, -, -, hl, hr, hwl, hwr⟩
      have hSides : stored l n k = none ∨ stored r n k = none :=
        stored_sides hl hr n k
      simp only [walkNode, List.mem_append, ihl hwl, ihr hwr,
        stored]
      by_cases hHere : a = n ∧ m = k
      · rcases hHere with ⟨rfl, rfl⟩
        rw [hNoneL, hNoneR]
        cases i <;> simp [eq_comm]
      · have hNot : (n, k, d) ∉
            (if i then [] else [(a, m, d')] :
              List (In6Addr × Nat × Option α)) := by
          intro hMem
          split at hMem
          · cases hMem
          · rcases List.mem_singleton.mp hMem with hEq
            injection hEq with hn hRest
            injection hRest with hk hd
            exact hHere ⟨hn.symm, hk.symm⟩
        have hNotRoot : ¬ (a = n ∧ m = k ∧ i = false) :=
          fun hRoot => hHere ⟨hRoot.1, hRoot.2.1⟩
        rw [if_neg hNotRoot]
        simp only [hNot, or_false]
        rcases hSides with hNone | hNone <;> rw [hNone] <;> simp

/- The network of a call comes after the networks inside it. -/
def Inside (e e' : Entry α) : Prop :=
  e'.2.1 < e.2.1 ∧ Agree e'.2.1 (bits e'.1) (bits e.1)

/- Two calls of a walk are about different networks, and the
   wider one is not the first. -/
def Ordered (e e' : Entry α) : Prop :=
  (e.1, e.2.1) ≠ (e'.1, e'.2.1) ∧ ¬ Inside e' e

theorem walkNode_all
    {P : In6Addr → Nat → Prop}
    {t : Radixnode α} (h : All P t)
    {e : Entry α} (hMem : e ∈ walkNode t) :
    P e.1 e.2.1 := by
  induction t with
  | null => cases hMem
  | node a m i d l r ihl ihr =>
      simp only [walkNode, List.mem_append] at hMem
      rcases hMem with (hl | hr) | hHere
      · exact ihl h.2.1 hl
      · exact ihr h.2.2 hr
      · split at hHere
        · cases hHere
        · rw [List.mem_singleton] at hHere
          rw [hHere]
          exact h.1

theorem walkNode_ordered
    {t : Radixnode α} (h : WellFormed t) :
    (walkNode t).Pairwise Ordered := by
  induction t with
  | null => exact List.Pairwise.nil
  | node a m i d l r ihl ihr =>
      rcases h with ⟨-, -, -, hl, hr, hwl, hwr⟩
      rw [walkNode, List.pairwise_append, List.pairwise_append]
      refine ⟨⟨ihl hwl, ihr hwr, ?_⟩, ?_, ?_⟩
      · -- the two sides differ at the bit after the prefix
        intro e he e' he'
        have hL := walkNode_all hl he
        have hR := walkNode_all hr he'
        refine ⟨?_, ?_⟩
        · intro hEq
          injection hEq with hn hk
          have hBit := hL.2.2
          rw [hn, hR.2.2] at hBit
          cases hBit
        · rintro ⟨-, hAgree⟩
          have hBit := hAgree m hL.1
          rw [hL.2.2, hR.2.2] at hBit
          cases hBit
      · cases i <;> simp
      · intro e he e' he'
        have hIn : Beyond a m false e.1 e.2.1 ∨
            Beyond a m true e.1 e.2.1 := by
          rcases List.mem_append.mp he with hMem | hMem
          · exact Or.inl (walkNode_all hl hMem)
          · exact Or.inr (walkNode_all hr hMem)
        have hLt : m < e.2.1 := by
          rcases hIn with hIn | hIn <;> exact hIn.1
        have hRoot : e' = (a, m, d) := by
          split at he'
          · cases he'
          · exact List.mem_singleton.mp he'
        rw [hRoot]
        refine ⟨?_, ?_⟩
        · intro hEq
          injection hEq with hn hk
          simp only at hk
          omega
        · rintro ⟨hWide, -⟩
          simp only at hWide
          omega

end Misc

end Soteria

------------------------------------------------------------
-- Walks and Copies of Whole Trees
------------------------------------------------------------

namespace Soteria

namespace Misc

open Prefixes Radixnode

variable {α : Type} [DecidableEq α]

theorem mem_radixWalk_iff
    (cmp : Option (Option α → Option α → Bool))
    {adds : List (Entry α)} (hMasks : Masks adds)
    (n : In6Addr) (k : Nat) (d : Option α) :
    (n, k, d) ∈ radixWalk (radixAddAll (radixNew cmp) adds) ↔
      added adds n k = some d := by
  rcases radixNew_spec cmp hMasks with ⟨hWf, hStored⟩
  rw [← hStored]
  exact mem_walkNode_iff hWf n k d

/- A walk over a tree made by a run calls the function once for
   every network, with the data that counts for it, and for a
   network only after the networks inside it. -/
theorem radixWalk_run
    (cmp : Option (Option α → Option α → Bool))
    {adds : List (Entry α)} (hMasks : Masks adds) :
    (radixWalk (radixAddAll (radixNew cmp) adds)).Pairwise
        Ordered ∧
      ∀ n k d,
        (n, k, d) ∈ radixWalk (radixAddAll (radixNew cmp) adds) ↔
          added adds n k = some d := by
  have hWf := (radixNew_spec cmp hMasks).1
  exact ⟨walkNode_ordered hWf, mem_radixWalk_iff cmp hMasks⟩

theorem radixWalk_run_network :
    (ipv4 0x0a020000, 112, some 3) ∈
      radixWalk (radixAddAll (radixNew none) someNetworks) :=
  ((radixWalk_run none someNetworks_masks).2 _ _ _).mpr
    (by decide +kernel)

/- What adding one more network returns, and that a network
   that is already there changes no lookup. -/
theorem radixAdd_run
    (cmp : Option (Option α → Option α → Bool))
    {adds : List (Entry α)} (hMasks : Masks adds)
    (a : In6Addr) {m : Nat} (hm : m ≤ 128) (d : Option α) :
    let rt := radixAddAll (radixNew cmp) adds
    let old := added adds (v6Network a m) m
    (radixAdd rt a m d).2 =
        old.elim none (fun old => clash rt.cmp old d) ∧
      (old.isSome → ∀ x,
        radixLookup (radixAdd rt a m d).1 x =
          radixLookup rt x) := by
  rcases radixNew_spec cmp hMasks with ⟨hWf, hStored⟩
  refine ⟨?_, fun hOld x => ?_⟩
  · rw [radixAdd_returns hWf a hm, hStored]
  · have hAdded := radixAdd_added hWf a hm d
    rw [radixLookup, radixLookup, lookupFrom_spec hWf,
      lookupFrom_spec hAdded.wellFormed]
    have hSame : (radixAdd (radixAddAll (radixNew cmp) adds)
          a m d).1.root.stored =
        (radixAddAll (radixNew cmp) adds).root.stored := by
      funext n k
      rw [hAdded.stored]
      split
      case isTrue hHere =>
        rw [← hHere.1, ← hHere.2, hStored]
        cases hAt : added adds (v6Network a m) m with
        | none => rw [hAt] at hOld; cases hOld
        | some e => rfl
      case isFalse hHere => rfl
    rw [matching, matching, hSame]

theorem radixAdd_run_clash :
    (radixAdd (radixAddAll (radixNew none) someNetworks)
      (ipv4 0x0a01ff00) 112 (some 9)).2 = some 2 :=
  (radixAdd_run none someNetworks_masks (ipv4 0x0a01ff00)
    (by decide) (some 9)).1.trans (by decide +kernel)

omit [DecidableEq α] in
theorem wellFormed_networks
    {t : Radixnode α} (h : WellFormed t) :
    All (fun a m => m ≤ 128 ∧ v6Network a m = a) t := by
  induction t with
  | null => trivial
  | node a m i d l r ihl ihr =>
      exact ⟨⟨h.1, h.2.1⟩, ihl h.2.2.2.2.2.1,
        ihr h.2.2.2.2.2.2⟩

/- `radix_walk` with `radix_copy_func`. -/
def radixCopy (source target : Radixtree α) : Radixtree α :=
  radixAddAll target (radixWalk source)

omit [DecidableEq α] in
theorem added_walkNode
    {t : Radixnode α} (h : WellFormed t)
    (n : In6Addr) (k : Nat) :
    added (walkNode t) n k = stored t n k := by
  rw [added]
  cases hFind : (walkNode t).find? fun e =>
    v6Network e.1 e.2.1 = n ∧ e.2.1 = k with
  | some e =>
      have hMem := List.mem_of_find?_eq_some hFind
      have hKey := List.find?_some hFind
      rw [decide_eq_true_eq] at hKey
      have hNet := walkNode_all (wellFormed_networks h) hMem
      rw [hNet.2] at hKey
      rw [← hKey.1, ← hKey.2]
      exact ((mem_walkNode_iff h e.1 e.2.1 e.2.2).mp hMem).symm
  | none =>
      rw [List.find?_eq_none] at hFind
      cases hStored : stored t n k with
      | none => rfl
      | some d =>
          have hMem := (mem_walkNode_iff h n k d).mpr hStored
          have hNet := walkNode_all (wellFormed_networks h) hMem
          exact absurd (decide_eq_true ⟨hNet.2, rfl⟩)
            (hFind _ hMem)

omit [DecidableEq α] in
theorem added_append
    (adds adds' : List (Entry α)) (n : In6Addr) (k : Nat) :
    added (adds ++ adds') n k =
      (added adds n k).or (added adds' n k) := by
  rw [added, added, added, List.find?_append]
  cases adds.find? _ <;> rfl

/- A tree with another one copied into it answers as if all
   networks had been added to one tree, its own ones first. -/
theorem radixCopy_lookup
    (cmp cmp' : Option (Option α → Option α → Bool))
    {adds adds' : List (Entry α)}
    (hMasks : Masks adds) (hMasks' : Masks adds')
    (x : In6Addr) :
    radixLookup
        (radixCopy (radixAddAll (radixNew cmp) adds)
          (radixAddAll (radixNew cmp') adds')) x =
      radixLookup
        (radixAddAll (radixNew cmp') (adds' ++ adds)) x := by
  rcases radixNew_spec cmp hMasks with ⟨hWf, hStored⟩
  rcases radixNew_spec cmp' hMasks' with ⟨hWf', hStored'⟩
  have hWalk : Masks
      (radixWalk (radixAddAll (radixNew cmp) adds)) :=
    fun e he => (walkNode_all (wellFormed_networks hWf) he).1
  have hBoth : Masks (adds' ++ adds) := by
    intro e he
    rcases List.mem_append.mp he with hMem | hMem
    · exact hMasks' e hMem
    · exact hMasks e hMem
  rcases radixAddAll_spec hWf' hWalk with ⟨hCopy, hCopied⟩
  rcases radixNew_spec cmp' hBoth with ⟨hAll, hAllStored⟩
  rw [radixLookup, radixLookup, lookupFrom_spec hAll,
    radixCopy, lookupFrom_spec hCopy]
  have hSame : (radixCopy (radixAddAll (radixNew cmp) adds)
        (radixAddAll (radixNew cmp') adds')).root.stored =
      added (adds' ++ adds) := by
    funext n k
    rw [radixCopy, hCopied, hStored', radixWalk,
      added_walkNode hWf, hStored, added_append]
  rw [matching, matching, hAllStored, ← hSame, radixCopy]

theorem radixCopy_lookup_host :
    radixLookup
        (radixCopy (radixAddAll (radixNew none) someNetworks)
          (radixAddAll (radixNew none)
            [(ipv4 0x0a020000, 112, some 7)]))
        (ipv4 0x0a020304) =
      (some 7, [1, 7]) :=
  (radixCopy_lookup none none someNetworks_masks
    (by simp [Masks]) (ipv4 0x0a020304)).trans
      (by decide +kernel)

end Misc

end Soteria

------------------------------------------------------------
-- How Large a Tree Gets
------------------------------------------------------------

namespace Soteria

namespace Misc

open Prefixes Radixnode

variable {α : Type}

namespace Radixnode

/- The nodes of a tree, infrastructural ones included. -/
def size : Radixnode α → Nat
| .null => 0
| .node _ _ _ _ l r => 1 + size l + size r

/- The nodes on the longest way down. -/
def height : Radixnode α → Nat
| .null => 0
| .node _ _ _ _ l r => 1 + max (height l) (height r)

end Radixnode

/- Every infrastructural node joins two trees, so there are
   fewer of them than networks. -/
theorem size_le
    {t : Radixnode α} (h : WellFormed t) :
    t.size ≤ 2 * (walkNode t).length ∧
      (t.isNull = false →
        t.size + 1 ≤ 2 * (walkNode t).length) := by
  induction t with
  | null => exact ⟨by simp [size], nofun⟩
  | node a m i d l r ihl ihr =>
      rcases h with ⟨-, -, hInfra, -, -, hwl, hwr⟩
      have hl := ihl hwl
      have hr := ihr hwr
      simp only [walkNode, List.length_append, size]
      cases i with
      | true =>
          have hl' := hl.2 (hInfra rfl).2.1
          have hr' := hr.2 (hInfra rfl).2.2
          simp only [if_true, List.length_nil]
          omega
      | false =>
          have hl' := hl.1
          have hr' := hr.1
          simp only [Bool.false_eq_true, if_false,
            List.length_singleton]
          omega

/- Masks get longer on the way down. -/
theorem height_le
    {t : Radixnode α} (h : WellFormed t) {k : Nat}
    (hAll : All (fun _ m => k ≤ m) t) :
    t.height ≤ 129 - k := by
  induction t generalizing k with
  | null => simp [height]
  | node a m i d l r ihl ihr =>
      rcases h with ⟨hm, -, -, hl, hr, hwl, hwr⟩
      have hL := ihl hwl (k := m + 1)
        (hl.mono fun _ _ hIn => hIn.1)
      have hR := ihr hwr (k := m + 1)
        (hr.mono fun _ _ hIn => hIn.1)
      have hk : k ≤ m := hAll.1
      rw [height]
      omega

/- The networks a walk visits are among those added. -/
theorem walk_length_le
    [DecidableEq α]
    (cmp : Option (Option α → Option α → Bool))
    {adds : List (Entry α)} (hMasks : Masks adds) :
    (radixWalk (radixAddAll (radixNew cmp) adds)).length ≤
      adds.length := by
  have hOrdered := walkNode_ordered (radixNew_spec cmp hMasks).1
  let walk := radixWalk (radixAddAll (radixNew cmp) adds)
  have hNodup :
      (walk.map fun e => (e.1, e.2.1)).Nodup := by
    rw [List.Nodup, List.pairwise_map]
    exact hOrdered.imp fun h => h.1
  have hSub : (walk.map fun e => (e.1, e.2.1)) ⊆
      adds.map fun e => (v6Network e.1 e.2.1, e.2.1) := by
    intro key hKey
    rcases List.mem_map.mp hKey with ⟨e, he, rfl⟩
    have hAdded :=
      (mem_radixWalk_iff cmp hMasks e.1 e.2.1 e.2.2).mp he
    rw [added, Option.map_eq_some_iff] at hAdded
    rcases hAdded with ⟨e', hFind, -⟩
    have hHere := List.find?_some hFind
    rw [decide_eq_true_eq] at hHere
    exact List.mem_map.mpr ⟨e', List.mem_of_find?_eq_some hFind,
      by rw [hHere.1, hHere.2]⟩
  have hLe := (hNodup.subperm hSub).length_le
  simpa using hLe

/- The loop of `radix_lookup` as far as it gets with so many
   nodes: `none` if it goes on to another one. -/
def lookupWithin
    (a : In6Addr) :
    Nat → Option α → List α → Radixnode α →
      Option (Option α × List α)
| _, found, arr, .null => some (found, arr)
| 0, _, _, .node .. => none
| n + 1, found, arr, .node ra rm ri rd l r =>
    if v6Cmp ra (v6Network a rm) ≠ 0 then some (found, arr)
    else
      let found := if ri then found else rd
      let arr := arr ++ rd.toList
      let bit := v6Bitset a (rm + 1)
      if !r.isNull && bit then lookupWithin a n found arr r
      else if !l.isNull && !bit then
        lookupWithin a n found arr l
      else some (found, arr)

theorem lookupWithin_eq
    {t : Radixnode α} {n : Nat} (h : t.height ≤ n)
    (x : In6Addr) (found : Option α) (arr : List α) :
    lookupWithin x n found arr t =
      some (lookupFrom x found arr t) := by
  induction t generalizing n found arr with
  | null => cases n <;> rfl
  | node a m i d l r ihl ihr =>
      rw [height] at h
      cases n with
      | zero => omega
      | succ n =>
          have hLeft :
              ∀ found arr, lookupWithin x n found arr l =
                some (lookupFrom x found arr l) :=
            fun _ _ => ihl (by omega) _ _
          have hRight :
              ∀ found arr, lookupWithin x n found arr r =
                some (lookupFrom x found arr r) :=
            fun _ _ => ihr (by omega) _ _
          rw [lookupWithin, lookupFrom]
          simp only [hLeft, hRight, apply_ite some]

/- A tree made of some additions has less than twice as many
   nodes, and no way down it is longer than an address has
   bits: a lookup is done after so many nodes. -/
theorem radix_compact
    [DecidableEq α]
    (cmp : Option (Option α → Option α → Bool))
    {adds : List (Entry α)} (hMasks : Masks adds) :
    let root := (radixAddAll (radixNew cmp) adds).root
    root.size ≤ 2 * adds.length - 1 ∧ root.height ≤ 129 ∧
      ∀ x, lookupWithin x 129 none [] root =
        some (lookupFrom x none [] root) := by
  rcases radixNew_spec cmp hMasks with ⟨hWf, -⟩
  have hSize := size_le hWf
  have hLength := walk_length_le cmp hMasks
  rw [radixWalk] at hLength
  have hHeight := height_le hWf (k := 0)
    ((wellFormed_networks hWf).mono fun _ _ _ => Nat.zero_le _)
  refine ⟨?_, hHeight, fun x => lookupWithin_eq hHeight x _ _⟩
  cases hNull : (radixAddAll (radixNew cmp) adds).root with
  | null => simp [size]
  | node a m i d l r =>
      rw [hNull] at hSize hLength
      have h := hSize.2 rfl
      omega

theorem radix_compact_networks :
    (radixAddAll (radixNew none) someNetworks).root.size ≤ 5 :=
  (radix_compact none someNetworks_masks).1

end Misc

end Soteria
