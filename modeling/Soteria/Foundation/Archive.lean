import Mathlib.Data.List.Basic

/-
  Entries kept under increasing stamps, oldest first, with
  the operation that drops the oldest of them.

  Key definitions include:
    * `Archive`
    * `Archive.get?`, `Archive.put`, `Archive.remove`
    * `Archive.newer`
    * `Archive.prune`
-/

------------------------------------------------------------
-- Archives
------------------------------------------------------------

/- Entries in strictly increasing order of their stamps. -/
structure Archive (α : Type) where
  entries : List (Nat × α)
  sorted : entries.Pairwise fun a b => a.1 < b.1

namespace Archive

variable {α : Type}

/- The archive without entries. -/
def empty : Archive α where
  entries := []
  sorted := .nil

/- The entry of a stamp. -/
def get? (archive : Archive α) (stamp : Nat) : Option α :=
  archive.entries.lookup stamp

/- The number of entries after a stamp. -/
def newer (archive : Archive α) (stamp : Nat) : Nat :=
  (archive.entries.filter fun e => stamp < e.1).length

/- Insert an entry in order, replacing one of its stamp. -/
def putEntry
    (stamp : Nat)
    (value : α) :
    List (Nat × α) → List (Nat × α)
| [] => [(stamp, value)]
| (key, old) :: rest =>
    if stamp < key then (stamp, value) :: (key, old) :: rest
    else if stamp = key then (stamp, value) :: rest
    else (key, old) :: putEntry stamp value rest

theorem fst_mem_putEntry
    {stamp : Nat}
    {value : α}
    {entries : List (Nat × α)}
    {e : Nat × α}
    (hMember : e ∈ putEntry stamp value entries) :
    e.1 = stamp ∨ e ∈ entries := by
  induction entries with
  | nil =>
      left
      simp_all [putEntry]
  | cons head rest ih =>
      rcases head with ⟨key, old⟩
      unfold putEntry at hMember
      split at hMember
      · rcases List.mem_cons.mp hMember with rfl | hOld
        · exact Or.inl rfl
        · exact Or.inr hOld
      · split at hMember
        · rcases List.mem_cons.mp hMember with rfl | hOld
          · exact Or.inl rfl
          · exact Or.inr (List.mem_cons_of_mem _ hOld)
        · rcases List.mem_cons.mp hMember with rfl | hRest
          · exact Or.inr (List.mem_cons_self ..)
          · rcases ih hRest with hStamp | hOld
            · exact Or.inl hStamp
            · exact Or.inr (List.mem_cons_of_mem _ hOld)

theorem putEntry_sorted
    {stamp : Nat}
    {value : α}
    {entries : List (Nat × α)}
    (hSorted : entries.Pairwise fun a b => a.1 < b.1) :
    (putEntry stamp value entries).Pairwise
      fun a b => a.1 < b.1 := by
  induction entries with
  | nil => simp [putEntry]
  | cons head rest ih =>
      rcases head with ⟨key, old⟩
      rcases List.pairwise_cons.mp hSorted with
        ⟨hHead, hRest⟩
      unfold putEntry
      split
      · rename_i hLess
        refine List.pairwise_cons.mpr ⟨?_, hSorted⟩
        intro e he
        rcases List.mem_cons.mp he with rfl | hOld
        · exact hLess
        · exact Nat.lt_trans hLess (hHead e hOld)
      · split
        · rename_i hEq
          subst hEq
          exact List.pairwise_cons.mpr ⟨hHead, hRest⟩
        · refine List.pairwise_cons.mpr ⟨?_, ih hRest⟩
          intro e he
          rcases fst_mem_putEntry he with hStamp | hOld
          · show key < e.1
            omega
          · exact hHead e hOld

/- Store an entry under a stamp. -/
def put
    (archive : Archive α)
    (stamp : Nat)
    (value : α) : Archive α where
  entries := putEntry stamp value archive.entries
  sorted := putEntry_sorted archive.sorted

/- Drop the entry of a stamp. -/
def remove
    (archive : Archive α)
    (stamp : Nat) : Archive α where
  entries := archive.entries.filter fun e => e.1 != stamp
  sorted := archive.sorted.filter _

/- Drop the oldest entries beyond the newest `keep`. -/
def prune (archive : Archive α) (keep : Nat) : Archive α where
  entries :=
    archive.entries.drop (archive.entries.length - keep)
  sorted := archive.sorted.drop

end Archive

------------------------------------------------------------
-- Reading an Archive
------------------------------------------------------------

namespace Archive

variable {α : Type}

theorem get?_eq_some_iff
    (archive : Archive α)
    (stamp : Nat)
    (value : α) :
    archive.get? stamp = some value ↔
      (stamp, value) ∈ archive.entries := by
  rcases archive with ⟨entries, hSorted⟩
  unfold get?
  induction entries with
  | nil => simp
  | cons head rest ih =>
      rcases head with ⟨key, old⟩
      rcases List.pairwise_cons.mp hSorted with
        ⟨hHead, hRest⟩
      by_cases hKey : stamp = key
      · subst hKey
        have hAbsent : (stamp, value) ∉ rest := fun hMem =>
          Nat.lt_irrefl stamp (hHead _ hMem)
        simp [hAbsent, eq_comm]
      · have hFalse : (stamp == key) = false := by
          simpa using hKey
        simpa [List.lookup_cons, hFalse, hKey] using ih hRest

@[simp] theorem get?_empty (stamp : Nat) :
    (empty : Archive α).get? stamp = none := rfl

theorem mem_putEntry_iff
    {stamp : Nat}
    {value : α}
    {entries : List (Nat × α)}
    (hSorted : entries.Pairwise fun a b => a.1 < b.1)
    (e : Nat × α) :
    e ∈ putEntry stamp value entries ↔
      e = (stamp, value) ∨ (e.1 ≠ stamp ∧ e ∈ entries) := by
  induction entries with
  | nil => simp [putEntry]
  | cons head rest ih =>
      rcases head with ⟨key, old⟩
      rcases List.pairwise_cons.mp hSorted with
        ⟨hHead, hRest⟩
      unfold putEntry
      split
      · rename_i hLess
        have hLater :
            ∀ e ∈ (key, old) :: rest, e.1 ≠ stamp := by
          intro e he
          rcases List.mem_cons.mp he with rfl | hOld
          · exact Nat.ne_of_gt hLess
          · exact Nat.ne_of_gt (Nat.lt_trans hLess (hHead e hOld))
        rw [List.mem_cons]
        constructor
        · rintro (hNew | hOld)
          · exact Or.inl hNew
          · exact Or.inr ⟨hLater e hOld, hOld⟩
        · rintro (hNew | ⟨_, hOld⟩)
          · exact Or.inl hNew
          · exact Or.inr hOld
      · split
        · rename_i hEq
          subst hEq
          have hLater : ∀ e ∈ rest, e.1 ≠ stamp :=
            fun e he => Nat.ne_of_gt (hHead e he)
          simp only [List.mem_cons]
          constructor
          · rintro (hNew | hOld)
            · exact Or.inl hNew
            · exact Or.inr ⟨hLater e hOld, Or.inr hOld⟩
          · rintro (hNew | ⟨hNe, rfl | hOld⟩)
            · exact Or.inl hNew
            · exact (hNe rfl).elim
            · exact Or.inr hOld
        · rename_i hNe
          simp only [List.mem_cons, ih hRest]
          constructor
          · rintro (rfl | hNew | ⟨hStamp, hOld⟩)
            · exact Or.inr ⟨fun h => hNe h.symm, Or.inl rfl⟩
            · exact Or.inl hNew
            · exact Or.inr ⟨hStamp, Or.inr hOld⟩
          · rintro (hNew | ⟨hStamp, hHere | hOld⟩)
            · exact Or.inr (Or.inl hNew)
            · exact Or.inl hHere
            · exact Or.inr (Or.inr ⟨hStamp, hOld⟩)

/- Two archives with the same entries read the same. -/
theorem get?_congr
    {first second : Archive α}
    {stamp : Nat}
    (hSame : ∀ value,
      (stamp, value) ∈ first.entries ↔
        (stamp, value) ∈ second.entries) :
    first.get? stamp = second.get? stamp := by
  refine Option.ext fun value => ?_
  rw [get?_eq_some_iff, get?_eq_some_iff]
  exact hSame value

@[simp] theorem get?_put_self
    (archive : Archive α)
    (stamp : Nat)
    (value : α) :
    (archive.put stamp value).get? stamp = some value := by
  rw [get?_eq_some_iff]
  exact (mem_putEntry_iff archive.sorted _).mpr (Or.inl rfl)

theorem get?_put_of_ne
    (archive : Archive α)
    {stamp other : Nat}
    (value : α)
    (hNe : other ≠ stamp) :
    (archive.put stamp value).get? other =
      archive.get? other := by
  refine get?_congr fun content => ?_
  refine (mem_putEntry_iff archive.sorted _).trans ?_
  constructor
  · rintro (hNew | ⟨_, hOld⟩)
    · exact (hNe (congrArg Prod.fst hNew)).elim
    · exact hOld
  · exact fun hOld => Or.inr ⟨hNe, hOld⟩

@[simp] theorem get?_remove_self
    (archive : Archive α)
    (stamp : Nat) :
    (archive.remove stamp).get? stamp = none := by
  refine Option.eq_none_iff_forall_ne_some.mpr ?_
  intro value hSome
  rw [get?_eq_some_iff] at hSome
  simp [remove] at hSome

theorem get?_remove_of_ne
    (archive : Archive α)
    {stamp other : Nat}
    (hNe : other ≠ stamp) :
    (archive.remove stamp).get? other =
      archive.get? other := by
  refine get?_congr fun content => ?_
  simp [remove, hNe]

theorem get?_of_prune
    {archive : Archive α}
    {keep stamp : Nat}
    {value : α}
    (hSome : (archive.prune keep).get? stamp = some value) :
    archive.get? stamp = some value := by
  rw [get?_eq_some_iff] at hSome ⊢
  exact List.mem_of_mem_drop hSome

end Archive

------------------------------------------------------------
-- Pruning Drops the Oldest
------------------------------------------------------------

namespace Archive

variable {α : Type}

/-
  Pruning keeps an entry, or leaves at least `keep` entries
  newer than it.
-/
theorem get?_prune_cases
    {archive : Archive α}
    {stamp : Nat}
    {value : α}
    (keep : Nat)
    (hSome : archive.get? stamp = some value) :
    (archive.prune keep).get? stamp = some value ∨
      ((archive.prune keep).get? stamp = none ∧
        keep ≤ (archive.prune keep).newer stamp) := by
  cases hPruned : (archive.prune keep).get? stamp with
  | some other =>
      have hOther := get?_of_prune hPruned
      rw [hSome] at hOther
      exact Or.inl hOther.symm
  | none =>
      refine Or.inr ⟨rfl, ?_⟩
      have hMember : (stamp, value) ∈ archive.entries :=
        (get?_eq_some_iff ..).mp hSome
      have hKept :
          (stamp, value) ∉ (archive.prune keep).entries := by
        intro hStill
        rw [(get?_eq_some_iff ..).mpr hStill] at hPruned
        cases hPruned
      have hSplit :
          archive.entries =
            archive.entries.take
                (archive.entries.length - keep) ++
              (archive.prune keep).entries :=
        (List.take_append_drop _ _).symm
      rw [hSplit] at hMember
      have hDropped :
          (stamp, value) ∈ archive.entries.take
            (archive.entries.length - keep) :=
        (List.mem_append.mp hMember).resolve_right hKept
      have hSorted := archive.sorted
      rw [hSplit, List.pairwise_append] at hSorted
      have hAllNewer :
          ∀ e ∈ (archive.prune keep).entries,
            decide (stamp < e.1) = true := by
        intro e he
        exact decide_eq_true
          (hSorted.2.2 _ hDropped _ he)
      have hLength :
          0 < archive.entries.length - keep := by
        have hTake := List.length_pos_of_mem hDropped
        rw [List.length_take] at hTake
        omega
      unfold newer
      rw [List.filter_eq_self.mpr hAllNewer]
      unfold prune
      rw [List.length_drop]
      omega

/- Pruning keeps the entries with fewer than `keep` newer. -/
theorem get?_prune_iff
    {archive : Archive α}
    {keep stamp : Nat}
    {value : α} :
    (archive.prune keep).get? stamp = some value ↔
      archive.get? stamp = some value ∧
        archive.newer stamp < keep := by
  constructor
  · intro hKept
    refine ⟨get?_of_prune hKept, ?_⟩
    have hMember :
        (stamp, value) ∈ (archive.prune keep).entries :=
      (get?_eq_some_iff ..).mp hKept
    have hSplit :
        archive.entries =
          archive.entries.take
              (archive.entries.length - keep) ++
            (archive.prune keep).entries :=
      (List.take_append_drop _ _).symm
    have hSorted := archive.sorted
    rw [hSplit, List.pairwise_append] at hSorted
    have hOlder :
        (archive.entries.take
          (archive.entries.length - keep)).filter
            (fun e => decide (stamp < e.1)) = [] := by
      rw [List.filter_eq_nil_iff]
      intro e he
      have hLess := hSorted.2.2 e he _ hMember
      simp only [decide_eq_true_eq]
      omega
    have hSelf :
        ((archive.prune keep).entries.filter
            fun e => decide (stamp < e.1)).length <
          (archive.prune keep).entries.length := by
      refine List.length_filter_lt_length_iff_exists.mpr
        ⟨_, hMember, ?_⟩
      simp
    have hLength :
        (archive.prune keep).entries.length ≤ keep := by
      unfold prune
      rw [List.length_drop]
      omega
    unfold newer
    rw [hSplit, List.filter_append, hOlder, List.nil_append]
    omega
  · rintro ⟨hSome, hNewer⟩
    rcases get?_prune_cases keep hSome with
      hKept | ⟨_, hMany⟩
    · exact hKept
    · have hFewer :
          (archive.prune keep).newer stamp ≤
            archive.newer stamp := by
        unfold newer prune
        exact ((List.drop_sublist _ _).filter _).length_le
      omega

/- An older stamp has at least as many newer entries. -/
theorem newer_le_of_le
    (archive : Archive α)
    {stamp other : Nat}
    (hLe : stamp ≤ other) :
    archive.newer other ≤ archive.newer stamp := by
  unfold newer
  rw [← List.countP_eq_length_filter,
    ← List.countP_eq_length_filter]
  refine List.countP_mono_left fun e _ hNewer => ?_
  simp only [decide_eq_true_eq] at hNewer ⊢
  omega

/- An entry does not count as newer than a later one. -/
theorem newer_put_of_le
    (archive : Archive α)
    {stamp other : Nat}
    (value : α)
    (hLe : stamp ≤ other) :
    (archive.put stamp value).newer other =
      archive.newer other := by
  rcases archive with ⟨entries, hSorted⟩
  have hSkip : ¬other < stamp := by omega
  unfold newer put
  induction entries with
  | nil => simp [putEntry, hSkip]
  | cons head rest ih =>
      rcases head with ⟨key, old⟩
      have hRest := ih (List.pairwise_cons.mp hSorted).2
      simp only [putEntry]
      split
      · simp [List.filter_cons, hSkip]
      · split
        · rename_i hKey
          subst hKey
          simp [hSkip]
        · simp only [List.filter_cons]
          split
          · simpa using hRest
          · exact hRest

/- Pruning to at least one entry keeps the newest one. -/
theorem get?_prune_newest
    {archive : Archive α}
    {keep stamp : Nat}
    {value : α}
    (hKeep : 0 < keep)
    (hSome : archive.get? stamp = some value)
    (hNewest : ∀ e ∈ archive.entries, e.1 ≤ stamp) :
    (archive.prune keep).get? stamp = some value := by
  rcases get?_prune_cases keep hSome with hKept | ⟨_, hNewer⟩
  · exact hKept
  · have hNone : (archive.prune keep).newer stamp = 0 := by
      unfold newer
      rw [List.length_eq_zero_iff, List.filter_eq_nil_iff]
      intro e he
      have hLe := hNewest e (List.mem_of_mem_drop he)
      simpa using hLe
    omega

end Archive
