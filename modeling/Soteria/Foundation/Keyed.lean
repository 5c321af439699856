import Mathlib.Data.List.Basic

/-
  Lists of rows with keys that need not be unique. A new row
  changes the first row with its key, or comes last.

  What a list of new rows leaves is described key by key: the
  first row of a key has the value of the last new one, and
  the rows behind it are as they were.

  Key definitions include:
    * `Keyed.upsert`, `Keyed.upsertAll`
    * `Keyed.rowsOf`, `Keyed.changeFirst`
    * `Keyed.value_mem_upsertAll_iff`
    * `Keyed.filter_upsertAll`
-/

------------------------------------------------------------
-- Adding Rows
------------------------------------------------------------

namespace Keyed

variable {α κ β : Type} [DecidableEq κ]

/- Change the first row with the key of the new one. -/
def upsert
    (key : α → κ)
    (change : α → α → α) : List α → α → List α
| [], new => [new]
| row :: rows, new =>
    if key row = key new then change row new :: rows
    else row :: upsert key change rows new

/- The new rows are added one after the other. -/
def upsertAll
    (key : α → κ)
    (change : α → α → α)
    (rows news : List α) : List α :=
  news.foldl (upsert key change) rows

/- The rows with a key, in order. -/
def rowsOf (key : α → κ) (k : κ) (rows : List α) : List α :=
  rows.filter fun row => decide (key row = k)

/- What a new row does to the rows with its key. -/
def changeFirst
    (change : α → α → α) : List α → α → List α
| [], new => [new]
| row :: rows, new => change row new :: rows

/- A changed row keeps its key and gets the new value. -/
structure Changes
    (key : α → κ)
    (val : α → β)
    (change : α → α → α) : Prop where
  key_eq : ∀ row new, key (change row new) = key row
  val_eq : ∀ row new, val (change row new) = val new

end Keyed

------------------------------------------------------------
-- Rows With One Key
------------------------------------------------------------

namespace Keyed

variable {α κ β : Type} [DecidableEq κ]
variable {key : α → κ}
variable {val : α → β}
variable {change : α → α → α}

theorem mem_rowsOf {k : κ} {rows : List α} {row : α} :
    row ∈ rowsOf key k rows ↔ row ∈ rows ∧ key row = k := by
  simp [rowsOf]

theorem rowsOf_upsert
    (hChanges : Changes key val change)
    (rows : List α)
    (new : α) :
    rowsOf key (key new) (upsert key change rows new) =
      changeFirst change (rowsOf key (key new) rows) new := by
  induction rows with
  | nil => simp [upsert, rowsOf, changeFirst]
  | cons row rows ih =>
      unfold rowsOf at ih ⊢
      by_cases hKey : key row = key new
      · have hChanged := hChanges.key_eq row new
        simp [upsert, hKey, hChanged, changeFirst]
      · simp [upsert, hKey, ih]

/- Rows apart from the new one are not touched. -/
theorem filter_upsert
    (hChanges : Changes key val change)
    (rows : List α)
    {new : α}
    {kept : κ → Bool}
    (hNew : kept (key new) = false) :
    (upsert key change rows new).filter
        (fun row => kept (key row)) =
      rows.filter fun row => kept (key row) := by
  induction rows with
  | nil => simp [upsert, hNew]
  | cons row rows ih =>
      by_cases hKey : key row = key new
      · have hChanged := hChanges.key_eq row new
        simp [upsert, hKey, hChanged, hNew]
      · rw [upsert, if_neg hKey, List.filter_cons,
          List.filter_cons, ih]

theorem filter_upsertAll
    (hChanges : Changes key val change)
    {kept : κ → Bool}
    {news : List α}
    (hNews : ∀ new ∈ news, kept (key new) = false)
    (rows : List α) :
    (upsertAll key change rows news).filter
        (fun row => kept (key row)) =
      rows.filter fun row => kept (key row) := by
  unfold upsertAll
  induction news generalizing rows with
  | nil => rfl
  | cons new news ih =>
      have hRest : ∀ n ∈ news, kept (key n) = false :=
        fun n hMem => hNews n (List.mem_cons_of_mem _ hMem)
      rw [List.foldl_cons, ih hRest]
      exact filter_upsert hChanges rows
        (hNews new (List.mem_cons_self ..))

/- Each key sees only the new rows that have it. -/
theorem rowsOf_upsertAll
    (hChanges : Changes key val change)
    (rows news : List α)
    (k : κ) :
    rowsOf key k (upsertAll key change rows news) =
      (rowsOf key k news).foldl (changeFirst change)
        (rowsOf key k rows) := by
  unfold upsertAll
  induction news generalizing rows with
  | nil => rfl
  | cons new news ih =>
      rw [List.foldl_cons, ih]
      by_cases hKey : key new = k
      · subst hKey
        rw [rowsOf_upsert hChanges]
        simp [rowsOf]
      · have hOther :=
          @filter_upsert _ _ _ _ key val change hChanges rows
            new (fun other => decide (other = k))
            (by simpa using hKey)
        have hNews : rowsOf key k (new :: news) =
            rowsOf key k news := by
          simp [rowsOf, hKey]
        rw [hNews]
        exact congrArg
          ((rowsOf key k news).foldl (changeFirst change))
          hOther

/- The values of a key: the last new one comes first. -/
omit [DecidableEq κ] in
theorem map_foldl_changeFirst
    (hChanges : Changes key val change)
    {news : List α}
    {last : α}
    (hLast : news.getLast? = some last)
    (rows : List α) :
    (news.foldl (changeFirst change) rows).map val =
      val last :: rows.tail.map val := by
  induction news generalizing rows with
  | nil => cases hLast
  | cons new news ih =>
      have hTail : (changeFirst change rows new).tail =
          rows.tail := by
        cases rows with
        | nil => rfl
        | cons row rows => rfl
      rw [List.foldl_cons]
      by_cases hNone : news = []
      · subst hNone
        have hSame : new = last := by simpa using hLast
        subst hSame
        cases rows with
        | nil => rfl
        | cons row rows =>
            simp [changeFirst, hChanges.val_eq]
      · have hNext : news.getLast? = some last := by
          rcases List.exists_cons_of_ne_nil hNone with
            ⟨n, rest, rfl⟩
          simpa [List.getLast?_cons_cons] using hLast
        rw [ih hNext, hTail]

/-
  A key that has new rows ends with the value of the last of
  them and with those of its old rows but the first.
-/
theorem value_mem_upsertAll_iff
    (hChanges : Changes key val change)
    {rows news : List α}
    {k : κ}
    {last : α}
    (hLast : (rowsOf key k news).getLast? = some last)
    {v : β} :
    (∃ row ∈ upsertAll key change rows news,
        key row = k ∧ val row = v) ↔
      v = val last ∨
        ∃ row ∈ (rowsOf key k rows).tail, val row = v := by
  have hValues :
      (rowsOf key k (upsertAll key change rows news)).map val =
        val last :: (rowsOf key k rows).tail.map val := by
    rw [rowsOf_upsertAll hChanges]
    exact map_foldl_changeFirst hChanges hLast _
  have hMem :
      (∃ row ∈ upsertAll key change rows news,
          key row = k ∧ val row = v) ↔
        v ∈ (rowsOf key k
          (upsertAll key change rows news)).map val := by
    simp only [List.mem_map, mem_rowsOf, and_assoc]
  rw [hMem, hValues, List.mem_cons, List.mem_map]

end Keyed
