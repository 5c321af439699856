import Soteria.Misc.Net

/-
  The radix tree of networks.

  A node is a network with its data, or an infrastructural
  node that only joins two others. Adding descends to where
  the network belongs and keeps what was there first; looking
  an address up descends along its bits and remembers the
  last data it passed. Seen from outside the tree is a map
  from networks to data, whatever its shape.

  Key definitions include:
    * `Misc.Radixnode`
    * `Misc.radixAdd`, `Misc.radixLookup`, `Misc.radixWalk`
    * `Misc.Radixnode.stored`
    * `Misc.Radixnode.WellFormed`
-/

------------------------------------------------------------
-- Trees
------------------------------------------------------------

namespace Soteria

namespace Misc

variable {α : Type} [DecidableEq α]

/- `struct radixnode`: the base address, the mask length, the
   infrastructure flag, the data (`none` is NULL), the left and
   the right child. -/
inductive Radixnode (α : Type) where
  | null
  | node (a : In6Addr) (m : Nat) (i : Bool) (d : Option α)
      (l r : Radixnode α)

namespace Radixnode

def isNull : Radixnode α → Bool
| .null => true
| .node .. => false

/- A node as `radixnode_alloc` hands it out, filled in. -/
def leaf (a : In6Addr) (m : Nat) (d : Option α) : Radixnode α :=
  .node a m false d .null .null

end Radixnode

open Radixnode

/- `struct radixtree`; the comparison of payloads is
   optional. -/
structure Radixtree (α : Type) where
  root : Radixnode α
  cmp : Option (Option α → Option α → Bool)

/- `radix_new` -/
def radixNew
    (cmp : Option (Option α → Option α → Bool)) :
    Radixtree α :=
  ⟨.null, cmp⟩

/- What is returned for a network that is already there. -/
def clash
    (cmp : Option (Option α → Option α → Bool))
    (old d : Option α) :
    Option α :=
  if old = d then none
  else match cmp with
    | some c => if c old d then old else none
    | none => old

/- The loop of `radix_add`: the tree at `r` afterwards, and
   what is returned. -/
def addFrom
    (cmp : Option (Option α → Option α → Bool))
    (a : In6Addr) (m : Nat) (d : Option α) :
    Radixnode α → Radixnode α × Option α
| .null => (leaf a m d, none)
| .node ra rm ri rd l r =>
    if v6Cmp ra a = 0 ∧ rm = m then
      if ri then (.node ra rm false d l r, none)
      else (.node ra rm ri rd l r, clash cmp rd d)
    else if m < rm ∧ 1 > v6Cmp a ra ∧
        1 > v6Cmp ra (v6Broadcast a m) then
      -- the current root is a subnode of the new node
      if v6Bitset ra (m + 1) then
        (.node a m false d .null (.node ra rm ri rd l r), none)
      else
        (.node a m false d (.node ra rm ri rd l r) .null, none)
    else if rm < m ∧ 1 > v6Cmp ra a ∧
        1 > v6Cmp a (v6Broadcast ra rm) then
      -- the new node is a subnode of the current root
      if v6Bitset a (rm + 1) then
        let res := addFrom cmp a m d r
        (.node ra rm ri rd l res.1, res.2)
      else
        let res := addFrom cmp a m d l
        (.node ra rm ri rd res.1 r, res.2)
    else
      -- an infrastructural root is required
      let cm := v6CommonCidr ra a (if rm < m then rm else m)
      if 1 > v6Cmp (v6Broadcast ra rm) a then
        (.node (v6Network ra cm) cm true none
          (.node ra rm ri rd l r) (leaf a m d), none)
      else
        (.node (v6Network ra cm) cm true none
          (leaf a m d) (.node ra rm ri rd l r), none)

/- `radix_add` -/
def radixAdd
    (rt : Radixtree α) (a : In6Addr) (m : Nat) (d : Option α) :
    Radixtree α × Option α :=
  let a := v6Network a m
  if rt.root.isNull then ({ rt with root := leaf a m d }, none)
  else
    let res := addFrom rt.cmp a m d rt.root
    ({ rt with root := res.1 }, res.2)

/- The loop of `radix_lookup`, with the match so far and what
   is in `arr` so far. -/
def lookupFrom
    (a : In6Addr) (found : Option α) (arr : List α) :
    Radixnode α → Option α × List α
| .null => (found, arr)
| .node ra rm ri rd l r =>
    if v6Cmp ra (v6Network a rm) ≠ 0 then (found, arr)
    else
      let found := if ri then found else rd
      let arr := arr ++ rd.toList
      let bit := v6Bitset a (rm + 1)
      if !r.isNull && bit then lookupFrom a found arr r
      else if !l.isNull && !bit then lookupFrom a found arr l
      else (found, arr)

/- `radix_lookup` -/
def radixLookup
    (rt : Radixtree α) (a : In6Addr) : Option α × List α :=
  lookupFrom a none [] rt.root

/- `radix_walknode`: what the function is called with, in
   order. -/
def walkNode :
    Radixnode α → List (In6Addr × Nat × Option α)
| .null => []
| .node a m i d l r =>
    walkNode l ++ walkNode r ++ (if i then [] else [(a, m, d)])

/- `radix_walk` -/
def radixWalk
    (rt : Radixtree α) : List (In6Addr × Nat × Option α) :=
  walkNode rt.root

end Misc

end Soteria

------------------------------------------------------------
-- What a Tree Stores
------------------------------------------------------------

namespace Soteria

namespace Misc

open Prefixes

variable {α : Type}

namespace Radixnode

/- Every node of the tree. -/
def All (P : In6Addr → Nat → Prop) : Radixnode α → Prop
| .null => True
| .node a m _ _ l r => P a m ∧ All P l ∧ All P r

theorem All.mono
    {P Q : In6Addr → Nat → Prop}
    (hPQ : ∀ a m, P a m → Q a m)
    {t : Radixnode α} (h : All P t) :
    All Q t := by
  induction t with
  | null => trivial
  | node a m i d l r ihl ihr =>
      exact ⟨hPQ a m h.1, ihl h.2.1, ihr h.2.2⟩

/- The data of a network, if the tree has it. -/
def stored : Radixnode α → In6Addr → Nat → Option (Option α)
| .null, _, _ => none
| .node a m i d l r, n, k =>
    if a = n ∧ m = k ∧ i = false then some d
    else (stored l n k).or (stored r n k)

theorem stored_all
    {P : In6Addr → Nat → Prop}
    {t : Radixnode α} (h : All P t)
    {n : In6Addr} {k : Nat} {d : Option α}
    (hStored : stored t n k = some d) :
    P n k := by
  induction t with
  | null => cases hStored
  | node a m i d' l r ihl ihr =>
      rw [stored] at hStored
      split at hStored
      case isTrue hHere =>
        rw [← hHere.1, ← hHere.2.1]
        exact h.1
      case isFalse hHere =>
        rcases Option.or_eq_some_iff.mp hStored with hl | hr
        · exact ihl h.2.1 hl
        · exact ihr h.2.2 hr.2

theorem stored_none
    {P : In6Addr → Nat → Prop}
    {t : Radixnode α} (h : All P t)
    {n : In6Addr} {k : Nat} (hNot : ¬ P n k) :
    stored t n k = none := by
  cases hStored : stored t n k with
  | none => rfl
  | some d => exact absurd (stored_all h hStored) hNot

/- The networks below one side of a network. -/
def Beyond
    (p : In6Addr) (k : Nat) (side : Bool)
    (a : In6Addr) (m : Nat) : Prop :=
  k < m ∧ Agree k (bits p) (bits a) ∧ bits a k = side

/- Children extend their parent's prefix on their own side,
   and an infrastructural node joins two of them. -/
def WellFormed : Radixnode α → Prop
| .null => True
| .node a m i d l r =>
    m ≤ 128 ∧ v6Network a m = a ∧
    (i = true → d = none ∧ l.isNull = false ∧ r.isNull = false) ∧
    All (Beyond a m false) l ∧ All (Beyond a m true) r ∧
    WellFormed l ∧ WellFormed r

/- All of a tree lies in the network of its root. -/
theorem wellFormed_all
    {a : In6Addr} {m : Nat} {i : Bool} {d : Option α}
    {l r : Radixnode α}
    (h : WellFormed (.node a m i d l r)) :
    All (fun n k => m ≤ k ∧ Agree m (bits a) (bits n))
      (.node a m i d l r) := by
  rcases h with ⟨-, -, -, hl, hr, -, -⟩
  refine ⟨⟨le_rfl, Agree.refl _ _⟩, ?_, ?_⟩
  · exact hl.mono fun n k h => ⟨by have := h.1; omega, h.2.1⟩
  · exact hr.mono fun n k h => ⟨by have := h.1; omega, h.2.1⟩

theorem all_null {P : In6Addr → Nat → Prop} :
    All P (.null : Radixnode α) :=
  trivial

@[simp] theorem stored_leaf
    (a : In6Addr) (m : Nat) (d : Option α)
    (n : In6Addr) (k : Nat) :
    stored (leaf a m d) n k =
      if a = n ∧ m = k then some d else none := by
  simp [leaf, stored]

theorem all_leaf
    {P : In6Addr → Nat → Prop}
    {a : In6Addr} {m : Nat} (d : Option α) (h : P a m) :
    All P (leaf a m d) :=
  ⟨h, trivial, trivial⟩

theorem wellFormed_leaf
    {a : In6Addr} {m : Nat} (d : Option α)
    (hm : m ≤ 128) (ha : v6Network a m = a) :
    WellFormed (leaf a m d) :=
  ⟨hm, ha, fun h => absurd h Bool.false_ne_true,
    trivial, trivial, trivial, trivial⟩

end Radixnode

end Misc

end Soteria

------------------------------------------------------------
-- Where a Network Belongs
------------------------------------------------------------

namespace Soteria

namespace Misc

open Prefixes Radixnode

/- Two networks leave each other at bit `k`. -/
def Apart (n : In6Addr) (mn : Nat) (a : In6Addr) (m k : Nat) :
    Prop :=
  k < mn ∧ k < m ∧ Agree k (bits n) (bits a) ∧
    bits n k ≠ bits a k

/- Of two networks, either they are the same, or one is part
   of the other, or they leave each other at some bit. -/
inductive Place
    (n : In6Addr) (mn : Nat) (a : In6Addr) (m : Nat) : Prop
  | same (hn : n = a) (hm : mn = m)
  | above (hm : m < mn) (h : Agree m (bits a) (bits n))
  | below (hm : mn < m) (h : Agree mn (bits n) (bits a))
  | apart (k : Nat) (h : Apart n mn a m k)

theorem eq_of_agree
    {n a : In6Addr} {m : Nat}
    (hn : v6Network n m = n) (ha : v6Network a m = a)
    (hm : m ≤ 128)
    (h : Agree m (bits n) (bits a)) :
    n = a := by
  rw [← hn, ← ha]
  exact (v6Network_eq_iff n a hm).mpr h

theorem place
    {n a : In6Addr} {mn m : Nat}
    (hn : v6Network n mn = n)
    (hm : m ≤ 128) (ha : v6Network a m = a) :
    Place n mn a m := by
  let k := shared (bits n) (bits a) (min mn m)
  have hSpec := shared_spec (bits n) (bits a) (min mn m)
  by_cases hk : k < min mn m
  · exact .apart k ⟨by omega, by omega, hSpec.1, hSpec.2.2 hk⟩
  · have hEq : k = min mn m := le_antisymm hSpec.2.1 (by omega)
    have hAgree : Agree (min mn m) (bits n) (bits a) := by
      rw [← hEq]
      exact hSpec.1
    rcases Nat.lt_trichotomy mn m with hLt | rfl | hGt
    · exact .below hLt (hAgree.mono (by omega))
    · refine .same (eq_of_agree hn ha hm ?_) rfl
      exact hAgree.mono (by omega)
    · exact .above hGt (hAgree.symm.mono (by omega))

theorem Apart.not_agree
    {n a : In6Addr} {mn m k : Nat}
    (h : Apart n mn a m k) {j : Nat} (hj : k < j) :
    ¬ Agree j (bits n) (bits a) :=
  fun hAgree => h.2.2.2 (hAgree k hj)

/- The mask length of the infrastructural node for two
   networks that leave each other. -/
theorem v6CommonCidr_apart
    {n a : In6Addr} {mn m k : Nat}
    (h : Apart n mn a m k) :
    v6CommonCidr n a (if mn < m then mn else m) = k := by
  rw [v6CommonCidr_eq]
  have hBound : k < if mn < m then mn else m := by
    split
    · exact h.1
    · exact h.2.1
  apply le_antisymm
  · by_contra hLt
    exact h.not_agree (Nat.lt_of_not_le hLt)
      (agree_shared _ _ _)
  · exact le_shared_of_agree hBound.le h.2.2.1

section Steps

variable {α : Type} [DecidableEq α]
variable {cmp : Option (Option α → Option α → Bool)}
variable {a : In6Addr} {m : Nat} {d : Option α}
variable {ra : In6Addr} {rm : Nat} {ri : Bool} {rd : Option α}
variable {l r : Radixnode α}

theorem addFrom_same (hn : ra = a) (hm : rm = m) :
    addFrom cmp a m d (.node ra rm ri rd l r) =
      if ri then (.node ra rm false d l r, none)
      else (.node ra rm ri rd l r, clash cmp rd d) := by
  rw [addFrom, if_pos ⟨(v6Cmp_eq_zero_iff ra a).mpr hn, hm⟩]

theorem addFrom_above
    (hm : m ≤ 128) (ha : v6Network a m = a)
    (hLt : m < rm) (h : Agree m (bits a) (bits ra)) :
    addFrom cmp a m d (.node ra rm ri rd l r) =
      if bits ra m then
        (.node a m false d .null (.node ra rm ri rd l r), none)
      else
        (.node a m false d (.node ra rm ri rd l r) .null,
          none) := by
  rw [addFrom, if_neg (fun hSame => by omega),
    if_pos ⟨hLt, (between_iff hm ha).mpr h⟩]
  have hBit := v6Bitset_eq ra m
  rw [hBit]

theorem addFrom_below
    (hrm : rm ≤ 128) (hra : v6Network ra rm = ra)
    (hLt : rm < m) (h : Agree rm (bits ra) (bits a)) :
    addFrom cmp a m d (.node ra rm ri rd l r) =
      if bits a rm then
        (.node ra rm ri rd l (addFrom cmp a m d r).1,
          (addFrom cmp a m d r).2)
      else
        (.node ra rm ri rd (addFrom cmp a m d l).1 r,
          (addFrom cmp a m d l).2) := by
  rw [addFrom, if_neg (fun hSame => by omega),
    if_neg (fun hAbove => by omega),
    if_pos ⟨hLt, (between_iff hrm hra).mpr h⟩]
  have hBit := v6Bitset_eq a rm
  rw [hBit]

theorem addFrom_apart
    {k : Nat}
    (hrm : rm ≤ 128) (hra : v6Network ra rm = ra)
    (hm : m ≤ 128) (ha : v6Network a m = a)
    (h : Apart ra rm a m k) :
    addFrom cmp a m d (.node ra rm ri rd l r) =
      if bits a k then
        (.node (v6Network ra k) k true none
          (.node ra rm ri rd l r) (leaf a m d), none)
      else
        (.node (v6Network ra k) k true none
          (leaf a m d) (.node ra rm ri rd l r), none) := by
  have hSame : ¬ (v6Cmp ra a = 0 ∧ rm = m) := by
    rintro ⟨hZero, -⟩
    rw [v6Cmp_eq_zero_iff] at hZero
    exact h.2.2.2 (by rw [hZero])
  have hAbove : ¬ (m < rm ∧ 1 > v6Cmp a ra ∧
      1 > v6Cmp ra (v6Broadcast a m)) := by
    rintro ⟨-, hBetween⟩
    exact h.not_agree h.2.1
      ((between_iff hm ha).mp hBetween).symm
  have hBelow : ¬ (rm < m ∧ 1 > v6Cmp ra a ∧
      1 > v6Cmp a (v6Broadcast ra rm)) := by
    rintro ⟨-, hBetween⟩
    exact h.not_agree h.1 ((between_iff hrm hra).mp hBetween)
  rw [addFrom, if_neg hSame, if_neg hAbove, if_neg hBelow]
  simp only [v6CommonCidr_apart h]
  have hSide := broadcast_le_iff hrm h.1 h.2.2.1 h.2.2.2
  by_cases hBit : bits a k = true
  · rw [if_pos (hSide.mpr hBit), if_pos hBit]
  · rw [if_neg (fun hLe => hBit (hSide.mp hLe)), if_neg hBit]

end Steps

end Misc

end Soteria

------------------------------------------------------------
-- Nodes With a Chosen Side
------------------------------------------------------------

namespace Soteria

namespace Misc

open Prefixes

namespace Radixnode

variable {α : Type}

/- A node with one child on a side and one on the other. -/
def fork
    (a : In6Addr) (m : Nat) (i : Bool) (d : Option α)
    (side : Bool) (child other : Radixnode α) :
    Radixnode α :=
  if side then .node a m i d other child
  else .node a m i d child other

variable {a : In6Addr} {m : Nat} {i : Bool} {d : Option α}
variable {side : Bool} {child other : Radixnode α}

theorem fork_isNull :
    (fork a m i d side child other).isNull = false := by
  cases side <;> rfl

theorem all_fork
    {P : In6Addr → Nat → Prop} :
    All P (fork a m i d side child other) ↔
      P a m ∧ All P child ∧ All P other := by
  cases side
  · exact Iff.rfl
  · exact and_congr_right fun _ => and_comm

theorem wellFormed_fork :
    WellFormed (fork a m i d side child other) ↔
      (m ≤ 128 ∧ v6Network a m = a ∧
        (i = true → d = none ∧ child.isNull = false ∧
          other.isNull = false)) ∧
      (All (Beyond a m side) child ∧
        All (Beyond a m !side) other) ∧
      WellFormed child ∧ WellFormed other := by
  cases side
  · simp only [fork, WellFormed, Bool.false_eq_true,
      if_false, Bool.not_false]
    tauto
  · simp only [fork, WellFormed, if_true, Bool.not_true]
    tauto

/- Nothing is on both sides of a network. -/
theorem stored_sides
    (hChild : All (Beyond a m side) child)
    (hOther : All (Beyond a m !side) other)
    (n : In6Addr) (k : Nat) :
    stored child n k = none ∨ stored other n k = none := by
  by_cases hSide : Beyond a m side n k
  · refine Or.inr (stored_none hOther fun hBoth => ?_)
    rw [Beyond, hSide.2.2] at hBoth
    cases side <;> simp at hBoth
  · exact Or.inl (stored_none hChild hSide)

theorem stored_fork
    (hChild : All (Beyond a m side) child)
    (hOther : All (Beyond a m !side) other)
    (n : In6Addr) (k : Nat) :
    stored (fork a m i d side child other) n k =
      if a = n ∧ m = k ∧ i = false then some d
      else (stored child n k).or (stored other n k) := by
  cases side
  · rfl
  · simp only [fork, if_true, stored]
    split
    · rfl
    · rcases stored_sides hChild hOther n k with h | h
      · rw [h, Option.or_none, Option.none_or]
      · rw [h, Option.or_none, Option.none_or]

end Radixnode

end Misc

end Soteria

------------------------------------------------------------
-- What Adding Does
------------------------------------------------------------

namespace Soteria

namespace Misc

open Prefixes Radixnode

variable {α : Type}

/- The tree after a network was added: it is in order, stays
   below what it was below, and stores the network's data
   unless it had some. -/
structure Added
    (t : Radixnode α) (a : In6Addr) (m : Nat) (d : Option α)
    (t' : Radixnode α) : Prop where
  wellFormed : WellFormed t'
  notNull : t'.isNull = false
  under : ∀ p k side, All (Beyond p k side) t →
    Beyond p k side a m → All (Beyond p k side) t'
  stored : ∀ n k, stored t' n k =
    if a = n ∧ m = k then some ((Radixnode.stored t a m).getD d)
    else Radixnode.stored t n k

theorem added_null
    {a : In6Addr} {m : Nat} (d : Option α)
    (hm : m ≤ 128) (ha : v6Network a m = a) :
    Added .null a m d (leaf a m d) where
  wellFormed := wellFormed_leaf d hm ha
  notNull := rfl
  under p k side _ hNew := all_leaf d hNew
  stored n k := by simp [Radixnode.stored]

section Cases

variable {a : In6Addr} {m : Nat} {d : Option α}
variable {ra : In6Addr} {rm : Nat} {ri : Bool} {rd : Option α}
variable {l r : Radixnode α}

theorem stored_root_children
    (h : WellFormed (.node ra rm ri rd l r)) :
    stored l ra rm = none ∧ stored r ra rm = none := by
  rcases h with ⟨-, -, -, hl, hr, -, -⟩
  constructor
  · exact stored_none hl fun h => absurd h.1 (by omega)
  · exact stored_none hr fun h => absurd h.1 (by omega)

theorem added_infrastructural
    (h : WellFormed (.node ra rm true rd l r)) :
    Added (.node ra rm true rd l r) ra rm d
      (.node ra rm false d l r) where
  wellFormed :=
    ⟨h.1, h.2.1, fun h => absurd h Bool.false_ne_true, h.2.2.2⟩
  notNull := rfl
  under p k side hAll _ := hAll
  stored n k := by
    rcases stored_root_children h with ⟨hl, hr⟩
    by_cases hHere : ra = n ∧ rm = k
    · rcases hHere with ⟨rfl, rfl⟩
      simp [Radixnode.stored, hl, hr]
    · rw [if_neg hHere, Radixnode.stored, Radixnode.stored,
        if_neg (fun h => hHere ⟨h.1, h.2.1⟩),
        if_neg (fun h => hHere ⟨h.1, h.2.1⟩)]

theorem added_again
    (h : WellFormed (.node ra rm false rd l r)) :
    Added (.node ra rm false rd l r) ra rm d
      (.node ra rm false rd l r) where
  wellFormed := h
  notNull := rfl
  under p k side hAll _ := hAll
  stored n k := by
    by_cases hHere : ra = n ∧ rm = k
    · rcases hHere with ⟨rfl, rfl⟩
      simp [Radixnode.stored]
    · rw [if_neg hHere]

theorem added_above
    (h : WellFormed (.node ra rm ri rd l r))
    (hm : m ≤ 128) (ha : v6Network a m = a)
    (hLt : m < rm) (hAgree : Agree m (bits a) (bits ra)) :
    Added (.node ra rm ri rd l r) a m d
      (fork a m false d (bits ra m)
        (.node ra rm ri rd l r) .null) where
  wellFormed := by
    refine wellFormed_fork.mpr
      ⟨⟨hm, ha, fun h => absurd h Bool.false_ne_true⟩,
        ⟨?_, trivial⟩, h, trivial⟩
    refine (wellFormed_all h).mono fun n k hIn => ?_
    refine ⟨by omega, ?_, (hIn.2 m hLt).symm⟩
    exact hAgree.trans (hIn.2.mono hLt.le)
  notNull := fork_isNull
  under p k side hAll hNew := all_fork.mpr ⟨hNew, hAll, trivial⟩
  stored n k := by
    have hOut : All (fun x j => rm ≤ j) (.node ra rm ri rd l r) :=
      (wellFormed_all h).mono fun _ _ hIn => hIn.1
    have hNone : Radixnode.stored (.node ra rm ri rd l r) a m =
        none := stored_none hOut (by omega)
    have hChild : All (Beyond a m (bits ra m))
        (.node ra rm ri rd l r) :=
      (wellFormed_all h).mono fun n k hIn =>
        ⟨by omega, hAgree.trans (hIn.2.mono hLt.le),
          (hIn.2 m hLt).symm⟩
    rw [stored_fork hChild all_null, hNone]
    by_cases hHere : a = n ∧ m = k
    · rw [if_pos ⟨hHere.1, hHere.2, rfl⟩, if_pos hHere]
      rfl
    · rw [if_neg (fun h => hHere ⟨h.1, h.2.1⟩), if_neg hHere]
      exact Option.or_none

theorem stored_below
    {child other : Radixnode α}
    (h : WellFormed (fork ra rm ri rd (bits a rm) child other))
    (hLt : rm < m) :
    Radixnode.stored
        (fork ra rm ri rd (bits a rm) child other) a m =
      Radixnode.stored child a m := by
  rcases wellFormed_fork.mp h with
    ⟨-, ⟨hChild, hOther⟩, -, -⟩
  have hNone : Radixnode.stored other a m = none := by
    refine stored_none hOther fun hBoth => ?_
    have hBit := hBoth.2.2
    cases bits a rm <;> simp at hBit
  rw [stored_fork hChild hOther,
    if_neg (fun hRoot => by omega), hNone, Option.or_none]

/- Adding below a node, to the child on the network's side. -/
theorem added_below
    {child child' other : Radixnode α}
    (h : WellFormed (fork ra rm ri rd (bits a rm) child other))
    (hLt : rm < m) (hAgree : Agree rm (bits ra) (bits a))
    (hAdded : Added child a m d child') :
    Added (fork ra rm ri rd (bits a rm) child other) a m d
      (fork ra rm ri rd (bits a rm) child' other) := by
  rcases wellFormed_fork.mp h with
    ⟨⟨hrm, hra, hInfra⟩, ⟨hChild, hOther⟩, hWf, hWf'⟩
  have hNew : Beyond ra rm (bits a rm) a m :=
    ⟨hLt, hAgree, rfl⟩
  have hChild' := hAdded.under _ _ _ hChild hNew
  refine ⟨?_, fork_isNull, ?_, ?_⟩
  · refine wellFormed_fork.mpr ⟨⟨hrm, hra, ?_⟩,
      ⟨hChild', hOther⟩, hAdded.wellFormed, hWf'⟩
    intro hi
    exact ⟨(hInfra hi).1, hAdded.notNull, (hInfra hi).2.2⟩
  · intro p k side hAll hUnder
    rcases all_fork.mp hAll with ⟨hRoot, hIn, hIn'⟩
    exact all_fork.mpr
      ⟨hRoot, hAdded.under _ _ _ hIn hUnder, hIn'⟩
  · intro n k
    rw [stored_below h hLt, stored_fork hChild' hOther,
      stored_fork hChild hOther, hAdded.stored]
    by_cases hHere : a = n ∧ m = k
    · rw [if_pos hHere, if_pos hHere, Option.some_or,
        if_neg (fun hRoot => by omega)]
    · rw [if_neg hHere, if_neg hHere]

/- Adding a network that leaves the node's at bit `j`. -/
theorem added_apart
    {j : Nat}
    (h : WellFormed (.node ra rm ri rd l r))
    (hm : m ≤ 128) (ha : v6Network a m = a)
    (hApart : Apart ra rm a m j) :
    Added (.node ra rm ri rd l r) a m d
      (fork (v6Network ra j) j true none (bits a j)
        (leaf a m d) (.node ra rm ri rd l r)) := by
  rcases hApart with ⟨hjrm, hjm, hAgree, hDiffer⟩
  have hIn := wellFormed_all h
  have hBase := agree_v6Network ra j
  have hOld : All (Beyond (v6Network ra j) j !(bits a j))
      (.node ra rm ri rd l r) := by
    refine hIn.mono fun n k hn => ⟨by omega, ?_, ?_⟩
    · exact hBase.trans (hn.2.mono hjrm.le)
    · rw [← hn.2 j hjrm]
      cases hBit : bits a j <;> simp [hBit] at hDiffer <;>
        simp [hDiffer]
  have hNew : All (Beyond (v6Network ra j) j (bits a j))
      (leaf a m d) :=
    all_leaf d ⟨hjm, hBase.trans hAgree, rfl⟩
  refine ⟨?_, fork_isNull, ?_, ?_⟩
  · refine wellFormed_fork.mpr ⟨⟨by omega, ?_, ?_⟩,
      ⟨hNew, hOld⟩, wellFormed_leaf d hm ha, h⟩
    · exact v6Network_v6Network ra le_rfl
    · exact fun _ => ⟨rfl, rfl, rfl⟩
  · intro p k side hAll hUnder
    have hRoot := hAll.1
    refine all_fork.mpr ⟨?_, all_leaf d hUnder, hAll⟩
    -- what both are below is shorter than where they part
    have hkj : k < j := by
      by_contra hNot
      have hSame : bits ra j = bits a j := by
        rcases Nat.lt_or_ge j k with hLt | hGe
        · rw [← hRoot.2.1 j hLt, ← hUnder.2.1 j hLt]
        · obtain rfl : j = k := by omega
          rw [hRoot.2.2, hUnder.2.2]
      exact hDiffer hSame
    refine ⟨hkj, ?_, ?_⟩
    · exact hRoot.2.1.trans (hBase.mono hkj.le).symm
    · rw [hBase k hkj, hRoot.2.2]
  · intro n k
    have hNone : Radixnode.stored (.node ra rm ri rd l r) a m =
        none := by
      refine stored_none hOld fun hBoth => ?_
      have hBit := hBoth.2.2
      cases hSide : bits a j <;> simp [hSide] at hBit
    rw [stored_fork hNew hOld, hNone, stored_leaf, if_neg nofun]
    by_cases hHere : a = n ∧ m = k
    · rw [if_pos hHere, if_pos hHere]
      rfl
    · rw [if_neg hHere, if_neg hHere, Option.none_or]

end Cases

/- What adding to a well-formed tree does, and what it
   returns. -/
theorem addFrom_spec
    [DecidableEq α]
    (cmp : Option (Option α → Option α → Bool))
    {a : In6Addr} {m : Nat} (d : Option α)
    (hm : m ≤ 128) (ha : v6Network a m = a)
    {t : Radixnode α} (h : WellFormed t) :
    Added t a m d (addFrom cmp a m d t).1 ∧
      (addFrom cmp a m d t).2 =
        (stored t a m).elim none fun old => clash cmp old d := by
  induction t with
  | null => exact ⟨added_null d hm ha, rfl⟩
  | node ra rm ri rd l r ihl ihr =>
      have hWf := h
      rcases h with ⟨hrm, hra, hInfra, hl, hr, hwl, hwr⟩
      rcases place hra hm ha with
        ⟨rfl, rfl⟩ | ⟨hLt, hAgree⟩ | ⟨hLt, hAgree⟩ | ⟨k, hApart⟩
      · rw [addFrom_same rfl rfl]
        rcases stored_root_children hWf with ⟨hl', hr'⟩
        cases ri with
        | true =>
            refine ⟨added_infrastructural hWf, ?_⟩
            simp [stored, hl', hr']
        | false =>
            refine ⟨added_again hWf, ?_⟩
            simp [stored]
      · rw [addFrom_above hm ha hLt hAgree]
        have hOut : All (fun x j => rm ≤ j)
            (.node ra rm ri rd l r) :=
          (wellFormed_all hWf).mono fun _ _ hIn => hIn.1
        rw [stored_none hOut (by omega)]
        have hAdded := added_above (d := d) hWf hm ha hLt hAgree
        cases hBit : bits ra m <;> rw [hBit] at hAdded
        · exact ⟨hAdded, rfl⟩
        · exact ⟨hAdded, rfl⟩
      · rw [addFrom_below hrm hra hLt hAgree]
        cases hBit : bits a rm
        · have hFork : WellFormed
              (fork ra rm ri rd (bits a rm) l r) := by
            rw [hBit]
            exact hWf
          have hAdded := added_below hFork hLt hAgree (ihl hwl).1
          have hStored := stored_below hFork hLt
          rw [hBit] at hAdded hStored
          refine ⟨hAdded, (ihl hwl).2.trans ?_⟩
          exact congrArg (Option.elim · none _) hStored.symm
        · have hFork : WellFormed
              (fork ra rm ri rd (bits a rm) r l) := by
            rw [hBit]
            exact hWf
          have hAdded := added_below hFork hLt hAgree (ihr hwr).1
          have hStored := stored_below hFork hLt
          rw [hBit] at hAdded hStored
          refine ⟨hAdded, (ihr hwr).2.trans ?_⟩
          exact congrArg (Option.elim · none _) hStored.symm
      · rw [addFrom_apart hrm hra hm ha hApart]
        have hAdded := added_apart (d := d) hWf hm ha hApart
        have hNone : stored (.node ra rm ri rd l r) a m =
            none :=
          stored_none (wellFormed_all hWf) fun hIn =>
            hApart.not_agree hApart.1 hIn.2
        rw [hNone]
        cases hBit : bits a k <;> rw [hBit] at hAdded
        · exact ⟨hAdded, rfl⟩
        · exact ⟨hAdded, rfl⟩

end Misc

end Soteria
