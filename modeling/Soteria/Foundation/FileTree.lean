import Mathlib.Logic.Basic
import Mathlib.Data.List.Basic

/-
  Directories as partial maps from file names to contents,
  and copying loops in which any read or write may fail.

  A write replaces the whole file or leaves it alone, as a
  write to a temporary file followed by a rename does.

  Key definitions include:
    * `FileTree`
    * `FileTree.Faults`, `FileTree.CopyError`
    * `FileTree.copyExisting`
    * `FileTree.copyAll`
    * `FileTree.passed`
-/

------------------------------------------------------------
-- File Trees
------------------------------------------------------------

/- The files of a directory: absent, or with a content. -/
abbrev FileTree (κ α : Type) := κ → Option α

namespace FileTree

variable {κ α ε : Type}

/- A directory without files. -/
def empty : FileTree κ α := fun _ => none

/- Write one file. -/
def set [DecidableEq κ]
    (tree : FileTree κ α)
    (name : κ)
    (content : α) : FileTree κ α :=
  fun k => if k = name then some content else tree k

section Set

variable [DecidableEq κ]

@[simp] theorem set_self
    (tree : FileTree κ α)
    (name : κ)
    (content : α) :
    tree.set name content name = some content := by
  simp [set]

theorem set_of_ne
    (tree : FileTree κ α)
    {name k : κ}
    (content : α)
    (hNe : k ≠ name) :
    tree.set name content k = tree k := by
  simp [set, hNe]

end Set

/-
  Every file of `small` is also a file of `large`, with any
  content.
-/
def Within (small large : FileTree κ α) : Prop :=
  ∀ name, large name = none → small name = none

theorem Within.refl (tree : FileTree κ α) :
    Within tree tree :=
  fun _ hNone => hNone

theorem Within.trans
    {first second third : FileTree κ α}
    (hFirst : Within first second)
    (hSecond : Within second third) :
    Within first third :=
  fun name hNone => hFirst name (hSecond name hNone)

theorem Within.empty (tree : FileTree κ α) :
    Within FileTree.empty tree :=
  fun _ _ => rfl

end FileTree

------------------------------------------------------------
-- Copying Loops
------------------------------------------------------------

namespace FileTree

variable {κ α ε : Type} [DecidableEq κ]

/- The reads and writes of a loop that fail, with errors. -/
structure Faults (κ ε : Type) where
  read : κ → Option ε
  write : κ → Option ε

/- The operation on which a loop stopped, with its error. -/
inductive CopyError (κ ε : Type) where
  | read (name : κ) (error : ε)
  | write (name : κ) (error : ε)

/- The error the loop reports. -/
def CopyError.error : CopyError κ ε → ε
| .read _ error => error
| .write _ error => error

/- The file the loop stopped on. -/
def CopyError.name : CopyError κ ε → κ
| .read name _ => name
| .write name _ => name

/- No read and no write fails. -/
def Faults.none : Faults κ ε where
  read := fun _ => Option.none
  write := fun _ => Option.none

/-
  Copy the listed files that exist in `source`, stopping at
  the first failure. The result is the destination and the
  error, if any.
-/
def copyExisting
    (faults : Faults κ ε)
    (source : FileTree κ α) :
    List κ → FileTree κ α →
      FileTree κ α × Option (CopyError κ ε)
| [], target => (target, none)
| name :: rest, target =>
    match faults.read name with
    | some error => (target, some (.read name error))
    | none =>
        match source name with
        | none => copyExisting faults source rest target
        | some content =>
            match faults.write name with
            | some error => (target, some (.write name error))
            | none =>
                copyExisting faults source rest
                  (target.set name content)

/-
  Copy the listed files, stopping at the first failure. A
  file absent from `source` is a failed read, reported by
  `missing`.
-/
def copyAll
    (faults : Faults κ ε)
    (missing : κ → ε)
    (source : FileTree κ α) :
    List κ → FileTree κ α →
      FileTree κ α × Option (CopyError κ ε)
| [], target => (target, none)
| name :: rest, target =>
    match faults.read name with
    | some error => (target, some (.read name error))
    | none =>
        match source name with
        | none => (target, some (.read name (missing name)))
        | some content =>
            match faults.write name with
            | some error => (target, some (.write name error))
            | none =>
                copyAll faults missing source rest
                  (target.set name content)

end FileTree

------------------------------------------------------------
-- What a Loop Copies
------------------------------------------------------------

namespace FileTree

variable {κ α ε : Type} [DecidableEq κ]
variable {faults : Faults κ ε}
variable {source : FileTree κ α}
variable {files : List κ}

/- A file a loop does not list keeps its content. -/
theorem copyExisting_of_not_mem
    {target : FileTree κ α}
    {name : κ}
    (hName : name ∉ files) :
    (copyExisting faults source files target).1 name =
      target name := by
  induction files generalizing target with
  | nil => rfl
  | cons head rest ih =>
      have hHead : name ≠ head := by
        rintro rfl
        exact hName (List.mem_cons_self ..)
      have hRest : name ∉ rest := fun hMember =>
        hName (List.mem_cons_of_mem _ hMember)
      unfold copyExisting
      split
      · rfl
      · split
        · exact ih hRest
        · split
          · rfl
          · rw [ih hRest, set_of_ne _ _ hHead]

/- Each file keeps its content or takes the source's. -/
theorem copyExisting_apply_cases
    (faults : Faults κ ε)
    (source : FileTree κ α)
    (files : List κ)
    (target : FileTree κ α)
    (name : κ) :
    (copyExisting faults source files target).1 name =
        target name ∨
      ((copyExisting faults source files target).1 name =
          source name ∧
        source name ≠ none) := by
  induction files generalizing target with
  | nil => exact Or.inl rfl
  | cons head rest ih =>
      unfold copyExisting
      split
      · exact Or.inl rfl
      · split
        · exact ih target
        · rename_i content hContent
          split
          · exact Or.inl rfl
          · rcases ih (target.set head content) with
              hKept | hCopied
            · rw [hKept]
              by_cases hHead : name = head
              · subst hHead
                right
                simp [hContent]
              · exact Or.inl (set_of_ne _ _ hHead)
            · exact Or.inr hCopied

/- A loop without faults copies every file it lists. -/
theorem copyExisting_none
    (target : FileTree κ α) :
    copyExisting (Faults.none : Faults κ ε) source files
        target =
      (fun name =>
        if name ∈ files then (source name).or (target name)
        else target name, none) := by
  induction files generalizing target with
  | nil => simp [copyExisting]
  | cons head rest ih =>
      cases hContent : source head with
      | none =>
          simp only [copyExisting, Faults.none, hContent] at ih ⊢
          rw [ih]
          refine Prod.ext (funext fun name => ?_) rfl
          by_cases hHead : name = head
          · subst hHead
            simp [hContent]
          · simp [hHead]
      | some content =>
          simp only [copyExisting, Faults.none, hContent] at ih ⊢
          rw [ih]
          refine Prod.ext (funext fun name => ?_) rfl
          by_cases hHead : name = head
          · subst hHead
            simp [hContent]
          · simp [hHead, set]

/- A loop that reports no error read every listed file. -/
theorem copyExisting_of_ok
    {target result : FileTree κ α}
    (hCopy :
      copyExisting faults source files target =
        (result, none))
    (name : κ) :
    result name =
      if name ∈ files then (source name).or (target name)
      else target name := by
  induction files generalizing target with
  | nil =>
      cases hCopy
      simp
  | cons head rest ih =>
      unfold copyExisting at hCopy
      split at hCopy
      · cases hCopy
      · split at hCopy
        · rename_i hNone
          rw [ih hCopy]
          by_cases hHead : name = head
          · subst hHead
            simp [hNone]
          · simp [hHead]
        · rename_i content hContent
          split at hCopy
          · cases hCopy
          · rw [ih hCopy]
            by_cases hHead : name = head
            · subst hHead
              simp [hContent]
            · simp [hHead, set_of_ne]

/- Copying adds no files beyond those of the source. -/
theorem copyExisting_within
    {target large : FileTree κ α}
    (hSource : Within source large)
    (hTarget : Within target large)
    (faults : Faults κ ε)
    (files : List κ) :
    Within (copyExisting faults source files target).1
      large := by
  intro name hNone
  rcases copyExisting_apply_cases faults source files target
      name with
    hKept | ⟨hCopied, _⟩
  · rw [hKept, hTarget name hNone]
  · rw [hCopied, hSource name hNone]

/- Copying removes no file. -/
theorem within_copyExisting
    {target result : FileTree κ α}
    {error : Option (CopyError κ ε)}
    (hCopy :
      copyExisting faults source files target =
        (result, error)) :
    Within target result := by
  intro name hNone
  rcases copyExisting_apply_cases faults source files target
      name with
    hKept | ⟨hCopied, hSome⟩
  · rw [hCopy] at hKept
    exact hKept.symm.trans hNone
  · rw [hCopy] at hCopied
    exact (hSome (hCopied ▸ hNone)).elim

/- Each file keeps its content or takes the source's. -/
theorem copyAll_apply_cases
    (faults : Faults κ ε)
    (missing : κ → ε)
    (source : FileTree κ α)
    (files : List κ)
    (target : FileTree κ α)
    (name : κ) :
    (copyAll faults missing source files target).1 name =
        target name ∨
      (name ∈ files ∧
        (copyAll faults missing source files target).1 name =
          source name ∧
        source name ≠ none) := by
  induction files generalizing target with
  | nil => exact Or.inl rfl
  | cons head rest ih =>
      unfold copyAll
      split
      · exact Or.inl rfl
      · split
        · exact Or.inl rfl
        · rename_i content hContent
          split
          · exact Or.inl rfl
          · rcases ih (target.set head content) with
              hKept | ⟨hMember, hCopied⟩
            · rw [hKept]
              by_cases hHead : name = head
              · subst hHead
                right
                simp [hContent]
              · exact Or.inl (set_of_ne _ _ hHead)
            · exact Or.inr
                ⟨List.mem_cons_of_mem _ hMember, hCopied⟩

/- A loop that reports no error copied every listed file. -/
theorem copyAll_of_ok
    {missing : κ → ε}
    {target result : FileTree κ α}
    (hCopy :
      copyAll faults missing source files target =
        (result, none))
    (name : κ) :
    result name =
      if name ∈ files then source name
      else target name := by
  induction files generalizing target with
  | nil =>
      cases hCopy
      simp
  | cons head rest ih =>
      unfold copyAll at hCopy
      split at hCopy
      · cases hCopy
      · split at hCopy
        · cases hCopy
        · rename_i content hContent
          split at hCopy
          · cases hCopy
          · rw [ih hCopy]
            by_cases hHead : name = head
            · subst hHead
              simp [hContent]
            · simp [hHead, set_of_ne]

/- The files a loop gets through before it stops. -/
def passed
    (faults : Faults κ ε)
    (source : FileTree κ α)
    (files : List κ) : List κ :=
  files.takeWhile fun name =>
    (faults.read name).isNone &&
      ((source name).isNone || (faults.write name).isNone)

omit [DecidableEq κ] in
theorem passed_cons
    (faults : Faults κ ε)
    (source : FileTree κ α)
    (name : κ)
    (rest : List κ) :
    passed faults source (name :: rest) =
      if faults.read name = none ∧
          (source name = none ∨ faults.write name = none)
      then name :: passed faults source rest
      else [] := by
  unfold passed
  rw [List.takeWhile_cons]
  simp [Bool.and_eq_true, Bool.or_eq_true]

/- A loop copies the files it gets through, and no other. -/
theorem copyExisting_apply
    (faults : Faults κ ε)
    (source : FileTree κ α)
    (files : List κ)
    (target : FileTree κ α)
    (name : κ) :
    (copyExisting faults source files target).1 name =
      if name ∈ passed faults source files then
        (source name).or (target name)
      else target name := by
  induction files generalizing target with
  | nil => simp [copyExisting, passed]
  | cons head rest ih =>
      rw [passed_cons]
      cases hRead : faults.read head with
      | some error => simp [copyExisting, hRead]
      | none =>
          cases hSource : source head with
          | none =>
              simp only [copyExisting, hRead, hSource, ih]
              by_cases hHead : name = head
              · subst hHead
                simp [hSource]
              · simp [hHead]
          | some content =>
              cases hWrite : faults.write head with
              | some error =>
                  simp [copyExisting, hRead, hSource, hWrite]
              | none =>
                  simp only [copyExisting, hRead, hSource,
                    hWrite, ih]
                  by_cases hHead : name = head
                  · subst hHead
                    simp [hSource]
                  · simp [hHead, set_of_ne]

/- A loop reports no error when no operation of it fails. -/
theorem copyExisting_ok_iff
    (faults : Faults κ ε)
    (source : FileTree κ α)
    (files : List κ)
    (target : FileTree κ α) :
    (copyExisting faults source files target).2 = none ↔
      ∀ name ∈ files, faults.read name = none ∧
        (source name = none ∨ faults.write name = none) := by
  induction files generalizing target with
  | nil => simp [copyExisting]
  | cons head rest ih =>
      rw [List.forall_mem_cons]
      cases hRead : faults.read head with
      | some error => simp [copyExisting, hRead]
      | none =>
          cases hSource : source head with
          | none => simp [copyExisting, hRead, hSource, ih]
          | some content =>
              cases hWrite : faults.write head with
              | some error =>
                  simp [copyExisting, hRead, hSource, hWrite]
              | none =>
                  simp [copyExisting, hRead, hSource, hWrite,
                    ih]

/- The same for a loop whose files must all exist. -/
theorem copyAll_ok_iff
    (faults : Faults κ ε)
    (missing : κ → ε)
    (source : FileTree κ α)
    (files : List κ)
    (target : FileTree κ α) :
    (copyAll faults missing source files target).2 = none ↔
      ∀ name ∈ files, faults.read name = none ∧
        source name ≠ none ∧ faults.write name = none := by
  induction files generalizing target with
  | nil => simp [copyAll]
  | cons head rest ih =>
      rw [List.forall_mem_cons]
      cases hRead : faults.read head with
      | some error => simp [copyAll, hRead]
      | none =>
          cases hSource : source head with
          | none => simp [copyAll, hRead, hSource]
          | some content =>
              cases hWrite : faults.write head with
              | some error =>
                  simp [copyAll, hRead, hSource, hWrite]
              | none =>
                  simp [copyAll, hRead, hSource, hWrite, ih]

/- Copying removes no file. -/
theorem within_copyAll
    {missing : κ → ε}
    {target result : FileTree κ α}
    {error : Option (CopyError κ ε)}
    (hCopy :
      copyAll faults missing source files target =
        (result, error)) :
    Within target result := by
  intro name hNone
  rcases copyAll_apply_cases faults missing source files
      target name with
    hKept | ⟨_, hCopied, hSome⟩
  · rw [hCopy] at hKept
    exact hKept.symm.trans hNone
  · rw [hCopy] at hCopied
    exact (hSome (hCopied ▸ hNone)).elim

end FileTree
