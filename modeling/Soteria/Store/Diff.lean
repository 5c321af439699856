import Soteria.Foundation.Decimal
import Soteria.Foundation.Patches

/-
  Unified diffs of two texts.

  Key definitions include:
    * `splitLines`
    * `lcsTable`, `diffOps`
    * `hunkRange`, `diffHunks`
    * `unifiedDiff`
-/

------------------------------------------------------------
-- Operations
------------------------------------------------------------

namespace Soteria

namespace Store

/- What a diff does with a line. -/
inductive DiffKind where
  | equal
  | removed
  | added
deriving DecidableEq

/- The character in front of the line. -/
def DiffKind.mark : DiffKind → Char
| .equal => ' '
| .removed => '-'
| .added => '+'

/- A line with its numbers in both texts, or zero. -/
structure DiffOp where
  kind : DiffKind
  text : Text
  aIdx : Nat
  bIdx : Nat
deriving DecidableEq

/- `splitLines`. -/
def splitLines (s : Text) : List Text :=
  if s.trimSuffix "\n" = [] then []
  else (s.trimSuffix "\n").splitOn '\n'

/- A row of the table, from the row below it. -/
def lcsRow (line : Text) : List Text → List Nat → List Nat
| [], _ => [0]
| other :: b, below =>
    let row := lcsRow line b below.tail
    (if line = other then below.tail.headD 0 + 1
      else if row.headD 0 ≤ below.headD 0 then below.headD 0
      else row.headD 0) :: row

/- The table `lcs` of `diffOps`, filled from its last row. -/
def lcsTable (b : List Text) : List Text → List (List Nat)
| [] => [List.replicate (b.length + 1) 0]
| line :: a =>
    lcsRow line b ((lcsTable b a).headD []) :: lcsTable b a

/- An entry of the table. -/
def lcsAt (lcs : List (List Nat)) (i j : Nat) : Nat :=
  (lcs.getD i []).getD j 0

/-
  The loops of `diffOps`, with the lines that are left from
  the indexes `i` and `j` on.
-/
def diffWalk (lcs : List (List Nat)) (i j : Nat) :
    List Text → List Text → List DiffOp
| [], [] => []
| x :: a, [] =>
    ⟨.removed, x, i + 1, 0⟩ :: diffWalk lcs (i + 1) j a []
| [], y :: b =>
    ⟨.added, y, 0, j + 1⟩ :: diffWalk lcs i (j + 1) [] b
| x :: a, y :: b =>
    if x = y then
      ⟨.equal, x, i + 1, j + 1⟩ ::
        diffWalk lcs (i + 1) (j + 1) a b
    else if lcsAt lcs i (j + 1) ≤ lcsAt lcs (i + 1) j then
      ⟨.removed, x, i + 1, 0⟩ ::
        diffWalk lcs (i + 1) j a (y :: b)
    else
      ⟨.added, y, 0, j + 1⟩ ::
        diffWalk lcs i (j + 1) (x :: a) b
termination_by a b => a.length + b.length

/- `diffOps`. -/
def diffOps (a b : List Text) : List DiffOp :=
  diffWalk (lcsTable b a) 0 0 a b

end Store

end Soteria

------------------------------------------------------------
-- Hunks
------------------------------------------------------------

namespace Soteria

namespace Store

/- The numbers of a hunk's header. -/
structure HunkRange where
  aStart : Nat
  aCount : Nat
  bStart : Nat
  bCount : Nat
deriving DecidableEq

/- One turn of the loop of `hunkRange`. -/
def HunkRange.step (r : HunkRange) (op : DiffOp) : HunkRange :=
  match op.kind with
  | .equal =>
      { aStart := if r.aCount = 0 then op.aIdx else r.aStart
        aCount := r.aCount + 1
        bStart := if r.bCount = 0 then op.bIdx else r.bStart
        bCount := r.bCount + 1 }
  | .removed =>
      { r with
        aStart := if r.aCount = 0 then op.aIdx else r.aStart
        aCount := r.aCount + 1 }
  | .added =>
      { r with
        bStart := if r.bCount = 0 then op.bIdx else r.bStart
        bCount := r.bCount + 1 }

/- `hunkRange` of the operations of a hunk. -/
def hunkRange (ops : List DiffOp) : HunkRange :=
  let r := ops.foldl HunkRange.step ⟨0, 0, 0, 0⟩
  { r with
    aStart := if r.aCount = 0 then 0 else r.aStart
    bStart := if r.bCount = 0 then 0 else r.bStart }

/- A hunk: its header and its lines. -/
structure Hunk where
  range : HunkRange
  ops : List DiffOp
deriving DecidableEq

/- The lines of context around a change. -/
def context : Nat := 3

/-
  The inner loop: where the hunk ends, and how many equal
  lines it has seen since the last change.
-/
def hunkEnd : List DiffOp → Nat → Nat → Nat × Nat
| [], stop, equal => (stop, equal)
| op :: ops, stop, equal =>
    if op.kind = .equal then
      if 2 * context < equal + 1 then (stop, equal + 1)
      else hunkEnd ops (stop + 1) (equal + 1)
    else hunkEnd ops (stop + 1) 0

/- The loop does not go back. -/
theorem le_hunkEnd
    (ops : List DiffOp)
    (stop equal : Nat) :
    stop ≤ (hunkEnd ops stop equal).1 := by
  induction ops generalizing stop equal with
  | nil => exact Nat.le_refl stop
  | cons op ops ih =>
      unfold hunkEnd
      split
      · split
        · exact Nat.le_refl stop
        · exact Nat.le_of_succ_le (ih _ _)
      · exact Nat.le_of_succ_le (ih _ _)

/- Where the hunk's last line of context ends. -/
def hunkTrail (stop equal : Nat) : Nat :=
  if context < equal then stop - (equal - context) else stop

/- The operations of a hunk, with its header. -/
def hunkOf (ops : List DiffOp) (start trail : Nat) : Hunk where
  range := hunkRange ((ops.take trail).drop start)
  ops := (ops.take trail).drop start

theorem lt_hunkEnd
    {ops : List DiffOp}
    {i : Nat}
    (hLt : i < ops.length)
    (hChange : ops[i].kind ≠ .equal) :
    i < (hunkEnd (ops.drop i) i 0).1 := by
  rw [List.drop_eq_getElem_cons hLt]
  unfold hunkEnd
  rw [if_neg hChange]
  exact le_hunkEnd _ _ _

/-
  The loop over the operations, from index `i` on. A hunk
  begins with the context in front of its first change.
-/
def diffHunks (ops : List DiffOp) (i : Nat) : List Hunk :=
  if hLt : i < ops.length then
    if hEqual : ops[i].kind = .equal then
      diffHunks ops (i + 1)
    else
      let ends := hunkEnd (ops.drop i) i 0
      hunkOf ops (i - context) (hunkTrail ends.1 ends.2) ::
        diffHunks ops ends.1
  else []
termination_by ops.length - i
decreasing_by
  · omega
  · have hEnd := lt_hunkEnd hLt hEqual
    omega

/- A hunk as it is written. -/
def Hunk.text (h : Hunk) : Text :=
  ("@@ -" : Text) ++ Text.ofNat h.range.aStart ++ ",".toList ++
    Text.ofNat h.range.aCount ++ " +".toList ++
    Text.ofNat h.range.bStart ++ ",".toList ++
    Text.ofNat h.range.bCount ++ " @@\n".toList ++
    h.ops.flatMap fun op =>
      op.kind.mark :: op.text ++ "\n".toList

/- The hunks of the lines of two texts. -/
def hunksOf (aText bText : Text) : List Hunk :=
  diffHunks (diffOps (splitLines aText) (splitLines bText)) 0

/- `UnifiedDiff`. -/
def unifiedDiff (aText bText : Text) : Text :=
  if aText = bText then []
  else (hunksOf aText bText).flatMap Hunk.text

end Store

end Soteria

------------------------------------------------------------
-- Sides
------------------------------------------------------------

namespace Soteria

namespace Store

/- The two texts that are compared. -/
inductive Side where
  | a
  | b

/- Whether lines of a kind are lines of that text. -/
def DiffKind.on : DiffKind → Side → Bool
| .added, .a => false
| .removed, .b => false
| _, _ => true

def DiffOp.idx (op : DiffOp) : Side → Nat
| .a => op.aIdx
| .b => op.bIdx

def HunkRange.start (r : HunkRange) : Side → Nat
| .a => r.aStart
| .b => r.bStart

def HunkRange.count (r : HunkRange) : Side → Nat
| .a => r.aCount
| .b => r.bCount

/- The lines of one text among the operations. -/
def linesOf (side : Side) (ops : List DiffOp) : List Text :=
  (ops.filter (·.kind.on side)).map (·.text)

/- The lines of one text carry their numbers, from one on. -/
def Numbered (side : Side) : Nat → List DiffOp → Prop
| _, [] => True
| n, op :: ops =>
    if op.kind.on side then
      op.idx side = n + 1 ∧ Numbered side (n + 1) ops
    else Numbered side n ops

variable {side : Side}
variable {ops : List DiffOp}
variable {n : Nat}

@[simp] theorem linesOf_nil : linesOf side [] = [] := rfl

theorem linesOf_cons
    (side : Side)
    (op : DiffOp)
    (ops : List DiffOp) :
    linesOf side (op :: ops) =
      if op.kind.on side then op.text :: linesOf side ops
      else linesOf side ops := by
  unfold linesOf
  rw [List.filter_cons]
  split
  · rfl
  · rfl

@[simp] theorem linesOf_append
    (side : Side)
    (p q : List DiffOp) :
    linesOf side (p ++ q) = linesOf side p ++ linesOf side q := by
  unfold linesOf
  rw [List.filter_append, List.map_append]

theorem numbered_cons
    {op : DiffOp} :
    Numbered side n (op :: ops) ↔
      if op.kind.on side then
        op.idx side = n + 1 ∧ Numbered side (n + 1) ops
      else Numbered side n ops :=
  Iff.rfl

theorem numbered_append
    {p q : List DiffOp} :
    Numbered side n (p ++ q) ↔
      Numbered side n p ∧
        Numbered side (n + (linesOf side p).length) q := by
  induction p generalizing n with
  | nil =>
      rw [List.nil_append, linesOf_nil]
      exact (and_iff_right trivial).symm
  | cons op p ih =>
      rw [List.cons_append, numbered_cons, numbered_cons,
        linesOf_cons]
      split
      · rw [ih, and_assoc, List.length_cons, Nat.add_assoc,
          Nat.add_comm 1]
      · exact ih

/-
  The walk goes through the lines of both texts, with their
  numbers.
-/
theorem linesOf_diffWalk
    (lcs : List (List Nat))
    (i j : Nat)
    (a b : List Text) :
    linesOf .a (diffWalk lcs i j a b) = a ∧
      linesOf .b (diffWalk lcs i j a b) = b := by
  fun_induction diffWalk lcs i j a b with
  | case1 => exact ⟨rfl, rfl⟩
  | case2 i j x a ih =>
      simpa [linesOf_cons, DiffKind.on] using ih
  | case3 i j y b ih =>
      simpa [linesOf_cons, DiffKind.on] using ih
  | case4 i j x a b ih =>
      simpa [linesOf_cons, DiffKind.on] using ih
  | case5 i j x a y b hNe hTable ih =>
      simpa [linesOf_cons, DiffKind.on] using ih
  | case6 i j x a y b hNe hTable ih =>
      simpa [linesOf_cons, DiffKind.on] using ih

theorem numbered_diffWalk
    (lcs : List (List Nat))
    (i j : Nat)
    (a b : List Text) :
    Numbered .a i (diffWalk lcs i j a b) ∧
      Numbered .b j (diffWalk lcs i j a b) := by
  fun_induction diffWalk lcs i j a b with
  | case1 => exact ⟨trivial, trivial⟩
  | case2 i j x a ih =>
      simpa [Numbered, DiffKind.on, DiffOp.idx] using ih
  | case3 i j y b ih =>
      simpa [Numbered, DiffKind.on, DiffOp.idx] using ih
  | case4 i j x a b ih =>
      simpa [Numbered, DiffKind.on, DiffOp.idx] using ih
  | case5 i j x a y b hNe hTable ih =>
      simpa [Numbered, DiffKind.on, DiffOp.idx] using ih
  | case6 i j x a y b hNe hTable ih =>
      simpa [Numbered, DiffKind.on, DiffOp.idx] using ih

theorem step_count (r : HunkRange) (op : DiffOp) :
    (r.step op).count side =
      r.count side + if op.kind.on side then 1 else 0 := by
  unfold HunkRange.step
  cases op.kind with
  | equal => cases side <;> rfl
  | removed => cases side <;> rfl
  | added => cases side <;> rfl

theorem step_start (r : HunkRange) (op : DiffOp) :
    (r.step op).start side =
      if op.kind.on side ∧ r.count side = 0 then op.idx side
      else r.start side := by
  unfold HunkRange.step
  cases op.kind with
  | equal =>
      cases side <;>
        simp [HunkRange.start, HunkRange.count, DiffKind.on,
          DiffOp.idx]
  | removed =>
      cases side <;>
        simp [HunkRange.start, HunkRange.count, DiffKind.on,
          DiffOp.idx]
  | added =>
      cases side <;>
        simp [HunkRange.start, HunkRange.count, DiffKind.on,
          DiffOp.idx]

theorem foldl_step_count (r : HunkRange) :
    (ops.foldl HunkRange.step r).count side =
      r.count side + (linesOf side ops).length := by
  induction ops generalizing r with
  | nil => rfl
  | cons op ops ih =>
      rw [List.foldl_cons, ih, step_count, linesOf_cons]
      split
      · rw [List.length_cons]
        omega
      · rfl

/- The start is set by the first line of the text. -/
theorem foldl_step_start
    (hNumbered : Numbered side n ops)
    (r : HunkRange) :
    (ops.foldl HunkRange.step r).start side =
      if r.count side = 0 ∧ linesOf side ops ≠ [] then n + 1
      else r.start side := by
  induction ops generalizing r n with
  | nil => simp
  | cons op ops ih =>
      rw [List.foldl_cons, linesOf_cons]
      rw [numbered_cons] at hNumbered
      by_cases hOn : op.kind.on side = true
      · rw [if_pos hOn] at hNumbered
        have hCount : (r.step op).count side ≠ 0 := by
          rw [step_count, if_pos hOn]
          omega
        rw [ih hNumbered.2, if_neg fun h => hCount h.1,
          step_start, hNumbered.1, if_pos hOn]
        simp [hOn]
      · rw [if_neg hOn] at hNumbered
        rw [ih hNumbered, step_count, step_start, if_neg hOn,
          if_neg hOn]
        simp [hOn]

theorem hunkRange_count :
    (hunkRange ops).count side = (linesOf side ops).length := by
  have hCount :
      (ops.foldl HunkRange.step ⟨0, 0, 0, 0⟩).count side =
        (linesOf side ops).length := by
    rw [foldl_step_count]
    cases side <;> exact Nat.zero_add _
  rw [← hCount]
  cases side with
  | a => rfl
  | b => rfl

theorem hunkRange_start
    (hNumbered : Numbered side n ops) :
    (hunkRange ops).start side =
      if linesOf side ops = [] then 0 else n + 1 := by
  have hStart := foldl_step_start hNumbered ⟨0, 0, 0, 0⟩
  have hCount :
      (ops.foldl HunkRange.step ⟨0, 0, 0, 0⟩).count side =
        (linesOf side ops).length := by
    rw [foldl_step_count]
    cases side <;> exact Nat.zero_add _
  have hRange :
      (hunkRange ops).start side =
        if (ops.foldl HunkRange.step
            ⟨0, 0, 0, 0⟩).count side = 0 then 0
        else (ops.foldl HunkRange.step
            ⟨0, 0, 0, 0⟩).start side := by
    cases side with
    | a => rfl
    | b => rfl
  rw [hRange, hCount, hStart]
  by_cases hNone : linesOf side ops = []
  · rw [hNone]
    rfl
  · rw [if_neg (by simpa using hNone), if_neg hNone, if_pos]
    refine ⟨?_, hNone⟩
    cases side with
    | a => rfl
    | b => rfl

end Store

end Soteria

------------------------------------------------------------
-- Hunks Along the Operations
------------------------------------------------------------

namespace Soteria

namespace Store

/- Every line is in both texts. -/
def Unchanged (ops : List DiffOp) : Prop :=
  ∀ op ∈ ops, op.kind = .equal

/-
  Hunks of the operations behind `front`: between them are
  unchanged lines only. A hunk that is not at the start, or
  not the last one, has unchanged lines of its own.
-/
inductive Hunked :
    List DiffOp → List DiffOp → List Hunk → Prop
  | done {front gap : List DiffOp} :
      Unchanged gap → Hunked front gap []
  | hunk {front gap body rest : List DiffOp}
      {hunks : List Hunk} :
      Unchanged gap →
        (front ++ gap = [] ∨ ∃ op ∈ body, op.kind = .equal) →
          (hunks ≠ [] → ∃ op ∈ body, op.kind = .equal) →
            Hunked (front ++ gap ++ body) rest hunks →
              Hunked front (gap ++ body ++ rest)
                (⟨hunkRange body, body⟩ :: hunks)

variable {ops : List DiffOp}

theorem Unchanged.append
    {p q : List DiffOp}
    (hFirst : Unchanged p)
    (hSecond : Unchanged q) :
    Unchanged (p ++ q) := by
  intro op hMem
  rcases List.mem_append.mp hMem with hOp | hOp
  · exact hFirst op hOp
  · exact hSecond op hOp

theorem Unchanged.drop
    {p : List DiffOp}
    (hUnchanged : Unchanged p)
    (n : Nat) :
    Unchanged (p.drop n) :=
  fun op hMem => hUnchanged op (List.mem_of_mem_drop hMem)

theorem Unchanged.take
    {p : List DiffOp}
    (hUnchanged : Unchanged p)
    (n : Nat) :
    Unchanged (p.take n) :=
  fun op hMem => hUnchanged op (List.mem_of_mem_take hMem)

/-
  The inner loop stops behind a run of unchanged lines: at
  the end of the operations, or one line before the run is
  too long. The run it has just seen is `run`.
-/
theorem hunkEnd_cases
    (ops run : List DiffOp)
    (stop : Nat)
    (hRun : Unchanged run)
    (hShort : run.length ≤ 2 * context) :
    ∃ core last after,
      run ++ ops = core ++ last ++ after ∧ Unchanged last ∧
        (∀ op ∈ core.getLast?, op.kind ≠ .equal) ∧
        (hunkEnd ops stop run.length).1 + run.length =
            stop + (core ++ last).length ∧
          ((after = [] ∧ last.length ≤ 2 * context ∧
              (hunkEnd ops stop run.length).2 =
                last.length) ∨
            ((∃ op ∈ after.head?, op.kind = .equal) ∧
              last.length = 2 * context ∧
                (hunkEnd ops stop run.length).2 =
                  2 * context + 1)) := by
  induction ops generalizing run stop with
  | nil =>
      refine ⟨[], run, [], by simp, hRun, by simp, rfl,
        Or.inl ?_⟩
      exact ⟨rfl, hShort, rfl⟩
  | cons op ops ih =>
      unfold hunkEnd
      by_cases hEqual : op.kind = .equal
      · rw [if_pos hEqual]
        by_cases hLong : 2 * context < run.length + 1
        · rw [if_pos hLong]
          refine ⟨[], run, op :: ops, rfl, hRun, by simp, rfl,
            Or.inr ⟨⟨op, rfl, hEqual⟩, ?_, ?_⟩⟩
          · omega
          · simp only
            omega
        · rw [if_neg hLong]
          have hMore : Unchanged (run ++ [op]) :=
            hRun.append fun other hMem => by
              rw [List.mem_singleton.mp hMem]
              exact hEqual
          have hLength :
              (run ++ [op]).length = run.length + 1 :=
            List.length_append
          rcases ih (run ++ [op]) (stop + 1) hMore
              (by omega) with
            ⟨core, last, after, hSplit, hLast, hChange, hStop,
              hEnd⟩
          rw [hLength] at hStop hEnd
          refine ⟨core, last, after, ?_, hLast, hChange, ?_,
            hEnd⟩
          · rw [← hSplit, List.append_assoc]
            rfl
          · omega
      · rw [if_neg hEqual]
        rcases ih [] (stop + 1) (fun _ h => nomatch h)
            (Nat.zero_le _) with
          ⟨core, last, after, hSplit, hLast, hChange, hStop,
            hEnd⟩
        refine ⟨run ++ op :: core, last, after, ?_, hLast, ?_,
          ?_, hEnd⟩
        · rw [List.nil_append] at hSplit
          rw [hSplit]
          simp
        · intro other hMem
          rw [List.getLast?_append, List.getLast?_cons] at hMem
          cases hCore : core.getLast? with
          | none =>
              rw [hCore] at hMem
              cases hMem
              exact hEqual
          | some final =>
              rw [hCore] at hMem
              cases hMem
              exact hChange final hCore
        · simp only [List.length_nil, List.length_append,
            List.length_cons] at hStop ⊢
          omega

theorem hunkOf_middle
    (front body rest : List DiffOp)
    {start trail : Nat}
    (hStart : start = front.length)
    (hTrail : trail = (front ++ body).length) :
    hunkOf (front ++ body ++ rest) start trail =
      ⟨hunkRange body, body⟩ := by
  have hBody :
      ((front ++ body ++ rest).take trail).drop start =
        body := by
    rw [hStart, hTrail, List.take_left, List.drop_left]
  unfold hunkOf
  rw [hBody]

theorem diffHunks_of_le
    {i : Nat}
    (hEnd : ops.length ≤ i) :
    diffHunks ops i = [] := by
  unfold diffHunks
  exact dif_neg (Nat.not_lt.mpr hEnd)

theorem diffHunks_step
    (front rest : List DiffOp)
    (op : DiffOp) :
    diffHunks (front ++ op :: rest) front.length =
      if op.kind = .equal then
        diffHunks (front ++ op :: rest) (front.length + 1)
      else
        hunkOf (front ++ op :: rest) (front.length - context)
            (hunkTrail (hunkEnd (op :: rest) front.length 0).1
              (hunkEnd (op :: rest) front.length 0).2) ::
          diffHunks (front ++ op :: rest)
            (hunkEnd (op :: rest) front.length 0).1 := by
  have hLt : front.length < (front ++ op :: rest).length := by
    simp
  have hOp : (front ++ op :: rest)[front.length] = op := by
    rw [List.getElem_append_right (Nat.le_refl _)]
    simp
  conv_lhs => unfold diffHunks
  rw [dif_pos hLt, hOp, List.drop_left]
  rfl

/- A list that begins with a change has one. -/
theorem core_ne_nil
    {op : DiffOp}
    {core last after rest : List DiffOp}
    (hChange : op.kind ≠ .equal)
    (hLast : Unchanged last)
    (hAfter : after = [] ∨ ∃ op ∈ after.head?, op.kind = .equal)
    (hSplit : op :: rest = core ++ last ++ after) :
    core ≠ [] := by
  rintro rfl
  cases last with
  | cons first last =>
      cases hSplit
      exact hChange (hLast _ (List.mem_cons_self ..))
  | nil =>
      rcases hAfter with rfl | ⟨first, hHead, hEqual⟩
      · cases hSplit
      · rw [List.nil_append, List.nil_append] at hSplit
        rw [← hSplit] at hHead
        cases hHead
        exact hChange hEqual

/-
  The end of a hunk whose first change is at `i`: the lines
  that stay in the hunk behind its last change, and those the
  loop has passed over.
-/
theorem hunkEnd_change
    {op : DiffOp}
    (rest : List DiffOp)
    (i : Nat)
    (hChange : op.kind ≠ .equal) :
    ∃ core kept left after,
      op :: rest = core ++ kept ++ left ++ after ∧
        core ≠ [] ∧ Unchanged kept ∧ Unchanged left ∧
          (hunkEnd (op :: rest) i 0).1 =
              i + (core ++ kept ++ left).length ∧
            hunkTrail (hunkEnd (op :: rest) i 0).1
                (hunkEnd (op :: rest) i 0).2 =
              i + (core ++ kept).length ∧
              (after ≠ [] →
                kept ≠ [] ∧ context < left.length) := by
  rcases hunkEnd_cases (op :: rest) [] i
      (fun _ h => nomatch h) (Nat.zero_le _) with
    ⟨core, last, after, hSplit, hLast, -, hStop, hEnd⟩
  rw [List.nil_append] at hSplit
  rw [List.length_nil] at hStop hEnd
  have hCore : core ≠ [] := by
    refine core_ne_nil hChange hLast ?_ hSplit
    rcases hEnd with ⟨hAfter, -⟩ | ⟨hHead, -⟩
    · exact Or.inl hAfter
    · exact Or.inr hHead
  have hLength : (core ++ last).length =
      core.length + last.length := List.length_append
  -- How many lines of the run the hunk keeps.
  have hCut :
      ∃ n, n ≤ last.length ∧
        hunkTrail (hunkEnd (op :: rest) i 0).1
            (hunkEnd (op :: rest) i 0).2 =
          i + core.length + n ∧
          (after ≠ [] → 0 < n ∧ n + context < last.length) := by
    unfold hunkTrail
    rcases hEnd with ⟨hAfter, hShort, hEqual⟩ |
      ⟨-, hLong, hEqual⟩
    · refine ⟨min context last.length, Nat.min_le_right _ _,
        ?_, fun h => absurd hAfter h⟩
      rw [hEqual]
      split
      · omega
      · omega
    · refine ⟨context - 1, ?_, ?_, fun _ => ⟨?_, ?_⟩⟩
      · unfold context at *
        omega
      · rw [hEqual]
        unfold context at *
        split
        · omega
        · omega
      · decide
      · unfold context at *
        omega
  rcases hCut with ⟨n, hLe, hTrail, hMore⟩
  have hKept : (last.take n).length = n :=
    List.length_take_of_le hLe
  refine ⟨core, last.take n, last.drop n, after, ?_, hCore,
    hLast.take n, hLast.drop n, ?_, ?_, ?_⟩
  · rw [List.append_assoc core, List.take_append_drop, hSplit]
  · rw [List.append_assoc, List.take_append_drop]
    exact hStop
  · rw [List.length_append, hKept, hTrail, Nat.add_assoc]
  · intro hAfter
    rcases hMore hAfter with ⟨hPos, hFar⟩
    refine ⟨?_, ?_⟩
    · rw [← List.length_pos_iff, hKept]
      exact hPos
    · rw [List.length_drop]
      omega

/- The context in front of a change is cut off a gap. -/
theorem exists_lead (gap : List DiffOp) :
    ∃ away lead, gap = away ++ lead ∧
      away.length = (away ++ lead).length - context ∧
        (lead = [] → away ++ lead = []) := by
  refine ⟨gap.take (gap.length - context),
    gap.drop (gap.length - context), ?_, ?_, ?_⟩
  · exact (List.take_append_drop _ _).symm
  · rw [List.take_append_drop, List.length_take]
    omega
  · rw [List.take_append_drop, List.drop_eq_nil_iff,
      ← List.length_eq_zero_iff]
    unfold context
    omega

/-
  The hunks of the loop, from behind the unchanged lines
  `gap` on. Only at the start may these be fewer than the
  context of a hunk.
-/
theorem hunked_diffHunks
    (front gap rest : List DiffOp)
    (hGap : Unchanged gap)
    (hFar : front = [] ∨ context < gap.length) :
    Hunked front (gap ++ rest)
      (diffHunks (front ++ gap ++ rest)
        (front ++ gap).length) := by
  induction hSize : rest.length using Nat.strong_induction_on
    generalizing front gap rest with
  | _ size ih =>
  subst hSize
  cases rest with
  | nil =>
      rw [diffHunks_of_le (by simp), List.append_nil]
      exact .done hGap
  | cons op rest =>
      rw [diffHunks_step]
      by_cases hEqual : op.kind = .equal
      · rw [if_pos hEqual]
        have hMore : Unchanged (gap ++ [op]) :=
          hGap.append fun other hMem => by
            rw [List.mem_singleton.mp hMem]
            exact hEqual
        have hNext := ih rest.length (Nat.lt_succ_self _)
          front (gap ++ [op]) rest hMore
          (hFar.imp_right fun h => by
            rw [List.length_append]
            omega) rfl
        simpa [List.append_assoc, Nat.add_assoc] using hNext
      · rw [if_neg hEqual]
        rcases hunkEnd_change rest (front ++ gap).length
            hEqual with
          ⟨core, kept, left, after, hSplit, hCore, hKept,
            hLeft, hStop, hTrail, hAfter⟩
        rcases exists_lead gap with
          ⟨away, lead, rfl, hAway, hLead⟩
        have hRest :
            away ++ lead ++ op :: rest =
              away ++ (lead ++ core ++ kept) ++
                (left ++ after) := by
          rw [hSplit]
          simp only [List.append_assoc]
        have hWhole :
            front ++ (away ++ lead) ++ op :: rest =
              front ++ away ++ (lead ++ core ++ kept) ++
                (left ++ after) := by
          rw [hSplit]
          simp only [List.append_assoc]
        have hStart :
            (front ++ (away ++ lead)).length - context =
              (front ++ away).length := by
          simp only [List.length_append] at hAway ⊢
          rcases hFar with rfl | hFar
          · rw [List.length_nil]
            omega
          · rw [List.length_append] at hFar
            omega
        have hBody :
            (front ++ (away ++ lead)).length +
                (core ++ kept).length =
              (front ++ away ++
                (lead ++ core ++ kept)).length := by
          simp only [List.length_append]
          omega
        have hIndex :
            (front ++ (away ++ lead)).length +
                (core ++ kept ++ left).length =
              (front ++ away ++ (lead ++ core ++ kept) ++
                left).length := by
          simp only [List.length_append]
          omega
        rw [hTrail, hStop, hIndex, hBody, hStart, hWhole,
          hRest, hunkOf_middle _ _ _ rfl rfl]
        refine .hunk (fun op hMem => hGap op ?_) ?_ ?_ ?_
        · exact List.mem_append_left _ hMem
        · cases lead with
          | nil =>
              left
              rcases hFar with rfl | hFar
              · simpa using hLead rfl
              · rw [hLead rfl] at hFar
                cases hFar
          | cons first lead =>
              exact Or.inr ⟨first, by simp, hGap first (by simp)⟩
        · intro hMore
          have hSome : after ≠ [] := by
            rintro rfl
            exact hMore (diffHunks_of_le (by simp))
          rcases List.exists_mem_of_ne_nil kept
              (hAfter hSome).1 with
            ⟨first, hFirst⟩
          exact ⟨first, by simp [hFirst],
            hKept first hFirst⟩
        · by_cases hNone : after = []
          · rw [diffHunks_of_le (by simp [hNone]), hNone,
              List.append_nil]
            exact .done hLeft
          · rw [← List.append_assoc _ left after]
            refine ih after.length ?_ _ left after hLeft
              (Or.inr (hAfter hNone).2) rfl
            have hPos := List.length_pos_iff.mpr hCore
            rw [hSplit]
            simp only [List.length_append]
            omega

end Store

end Soteria

------------------------------------------------------------
-- Diffs as Patches
------------------------------------------------------------

namespace Soteria

namespace Store

open Patches

/- The lines of a hunk that are lines of one text. -/
def Hunk.lines (h : Hunk) (side : Side) : List Text :=
  linesOf side h.ops

/- The change a hunk describes, with the header's number. -/
def Hunk.change (h : Hunk) : Change Text where
  start := h.range.aStart - 1
  old := h.lines .a
  new := h.lines .b

/-
  A header's numbers for the lines it covers: the number of
  the first one and how many they are.
-/
structure Covers
    (whole : List Text)
    (start count : Nat)
    (covered : List Text) : Prop where
  count_eq : count = covered.length
  empty : covered = [] → start = 0
  stands : covered ≠ [] →
    0 < start ∧ (whole.drop (start - 1)).take count = covered

/- The text on one side of a diff. -/
def Side.pick {α : Type} (a b : α) : Side → α
| .a => a
| .b => b

variable {side : Side}
variable {front ops : List DiffOp}
variable {hunks : List Hunk}

/- An unchanged line is a line of both texts. -/
theorem linesOf_ne_nil
    (side : Side)
    (hKeeps : ∃ op ∈ ops, op.kind = .equal) :
    linesOf side ops ≠ [] := by
  rcases hKeeps with ⟨op, hMem, hEqual⟩
  have hOn : op.kind.on side = true := by
    rw [hEqual]
    cases side with
    | a => rfl
    | b => rfl
  exact List.ne_nil_of_mem (List.mem_map_of_mem
    (List.mem_filter.mpr ⟨hMem, hOn⟩))

theorem linesOf_unchanged
    (hUnchanged : Unchanged ops) :
    linesOf .a ops = linesOf .b ops := by
  unfold linesOf
  congr 1
  refine List.filter_congr fun op hMem => ?_
  rw [hUnchanged op hMem]
  rfl

/- Where a hunk stands among the operations. -/
theorem Hunked.mem
    (hHunked : Hunked front ops hunks)
    {h : Hunk}
    (hMem : h ∈ hunks) :
    ∃ before after,
      front ++ ops = front ++ before ++ h.ops ++ after ∧
        h.range = hunkRange h.ops ∧
          (front ++ before = [] ∨
            ∃ op ∈ h.ops, op.kind = .equal) := by
  induction hHunked with
  | done hGap => cases hMem
  | @hunk front gap body rest hunks hGap hFirst hInner hRest ih =>
      rcases List.mem_cons.mp hMem with rfl | hLater
      · refine ⟨gap, rest, ?_, rfl, hFirst⟩
        simp only [List.append_assoc]
      · rcases ih hLater with
          ⟨before, after, hSplit, hRange, hAnchor⟩
        refine ⟨gap ++ body ++ before, after, ?_, hRange, ?_⟩
        · simpa only [List.append_assoc] using hSplit
        · simpa only [List.append_assoc] using hAnchor

/- The start of the header, at the place of the hunk. -/
theorem hunkRange_start_at
    {before body after : List DiffOp}
    (hNumbered : Numbered side 0 (before ++ body ++ after)) :
    (hunkRange body).start side =
      if linesOf side body = [] then 0
      else (linesOf side before).length + 1 := by
  have hBody :=
    (numbered_append.mp (numbered_append.mp hNumbered).1).2
  rw [Nat.zero_add] at hBody
  exact hunkRange_start hBody

theorem Hunked.covers
    (hHunked : Hunked [] ops hunks)
    (hNumbered : Numbered side 0 ops)
    {h : Hunk}
    (hMem : h ∈ hunks) :
    Covers (linesOf side ops) (h.range.start side)
      (h.range.count side) (h.lines side) := by
  rcases hHunked.mem hMem with
    ⟨before, after, hSplit, hRange, -⟩
  rw [List.nil_append, List.nil_append] at hSplit
  subst hSplit
  have hStart := hunkRange_start_at hNumbered
  rw [hRange, hStart]
  unfold Hunk.lines
  refine ⟨hunkRange_count, fun hNone => if_pos hNone, ?_⟩
  intro hSome
  rw [if_neg hSome, hunkRange_count]
  refine ⟨Nat.succ_pos _, ?_⟩
  rw [Nat.add_sub_cancel, linesOf_append, linesOf_append,
    List.append_assoc, List.drop_left]
  exact List.take_left

/- A hunk ends before the next one begins. -/
theorem Hunked.ordered
    (hHunked : Hunked front ops hunks)
    (hNumbered : Numbered side 0 (front ++ ops)) :
    hunks.Pairwise fun h next =>
      h.range.start side + h.range.count side ≤
        next.range.start side := by
  induction hHunked with
  | done hGap => exact .nil
  | @hunk front gap body rest hunks hGap hFirst hInner hRest ih =>
      have hWhole :
          Numbered side 0 (front ++ gap ++ body ++ rest) := by
        simpa only [List.append_assoc] using hNumbered
      refine .cons ?_ (ih hWhole)
      intro next hNext
      have hKeeps := hInner (List.ne_nil_of_mem hNext)
      have hLines := linesOf_ne_nil side hKeeps
      rcases hRest.mem hNext with
        ⟨before, after, hSplit, hRange, hAnchor⟩
      have hLater : linesOf side next.ops ≠ [] := by
        refine linesOf_ne_nil side (hAnchor.resolve_left ?_)
        rcases hKeeps with ⟨op, hMem, -⟩
        intro hNil
        simp only [List.append_eq_nil_iff] at hNil
        rw [hNil.1.2] at hMem
        cases hMem
      have hBefore := hWhole
      rw [hSplit] at hBefore
      rw [hRange, hunkRange_start_at hBefore, if_neg hLater]
      simp only
      rw [hunkRange_start_at hWhole, if_neg hLines,
        hunkRange_count]
      simp only [linesOf_append, List.length_append]
      omega

/- The changes of the hunks make the new text. -/
theorem Hunked.patched
    (hHunked : Hunked front ops hunks)
    (hNumbered : Numbered .a 0 (front ++ ops)) :
    patched (linesOf .a (front ++ ops))
        (linesOf .a front).length (hunks.map Hunk.change) =
      linesOf .b ops := by
  induction hHunked with
  | @done front gap hGap =>
      rw [linesOf_append, List.map_nil, patched_nil]
      exact linesOf_unchanged hGap
  | @hunk front gap body rest hunks hGap hFirst hInner hRest ih =>
      have hWhole :
          Numbered .a 0 (front ++ gap ++ body ++ rest) := by
        simpa only [List.append_assoc] using hNumbered
      have hStart :
          (hunkRange body).aStart - 1 =
            (linesOf .a front ++ linesOf .a gap).length := by
        have hRange : (hunkRange body).start .a = _ :=
          hunkRange_start_at hWhole
        change (hunkRange body).start .a - 1 = _
        rw [hRange, ← linesOf_append]
        split
        · rename_i hNone
          rcases hFirst with hNil | hKeeps
          · rw [hNil]
            rfl
          · exact absurd hNone (linesOf_ne_nil .a hKeeps)
        · rfl
      have hNext := ih hWhole
      have hLines :
          linesOf .a (front ++ (gap ++ body ++ rest)) =
            linesOf .a front ++
              (linesOf .a gap ++ linesOf .a body ++
                linesOf .a rest) := by
        simp only [linesOf_append]
      have hOther :
          linesOf .a (front ++ gap ++ body ++ rest) =
            linesOf .a front ++
              (linesOf .a gap ++ linesOf .a body ++
                linesOf .a rest) := by
        simp only [linesOf_append, List.append_assoc]
      rw [hOther, linesOf_append, linesOf_append] at hNext
      have hChange :
          Hunk.change ⟨hunkRange body, body⟩ =
            ⟨(linesOf .a front ++ linesOf .a gap).length,
              linesOf .a body, linesOf .b body⟩ := by
        unfold Hunk.change
        rw [hStart]
        rfl
      rw [List.map_cons, hChange, hLines, patched_cons, hNext,
        linesOf_append, linesOf_append, linesOf_unchanged hGap]

theorem hunked_hunksOf (aText bText : Text) :
    Hunked []
      (diffOps (splitLines aText) (splitLines bText))
      (hunksOf aText bText) :=
  hunked_diffHunks [] [] _ (fun _ h => nomatch h) (Or.inl rfl)

theorem numbered_diffOps
    (side : Side)
    (a b : List Text) :
    Numbered side 0 (diffOps a b) := by
  cases side with
  | a => exact (numbered_diffWalk _ 0 0 a b).1
  | b => exact (numbered_diffWalk _ 0 0 a b).2

theorem linesOf_diffOps
    (side : Side)
    (a b : List Text) :
    linesOf side (diffOps a b) = side.pick a b := by
  cases side with
  | a => exact (linesOf_diffWalk _ 0 0 a b).1
  | b => exact (linesOf_diffWalk _ 0 0 a b).2

theorem patched_hunksOf (aText bText : Text) :
    Patches.patched (splitLines aText) 0
        ((hunksOf aText bText).map Hunk.change) =
      splitLines bText := by
  have hPatched := (hunked_hunksOf aText bText).patched
    (numbered_diffOps .a _ _)
  rw [List.nil_append, linesOf_diffOps,
    linesOf_diffOps] at hPatched
  exact hPatched

/- Unchanged lines make no hunk. -/
theorem diffHunks_unchanged
    (front : List DiffOp)
    (hUnchanged : Unchanged ops) :
    diffHunks (front ++ ops) front.length = [] := by
  induction ops generalizing front with
  | nil => exact diffHunks_of_le (by simp)
  | cons op ops ih =>
      rw [diffHunks_step,
        if_pos (hUnchanged op (List.mem_cons_self ..))]
      have hNext := ih (front ++ [op]) fun other hMem =>
        hUnchanged other (List.mem_cons_of_mem _ hMem)
      simpa using hNext

theorem unchanged_diffWalk
    (lcs : List (List Nat))
    (i j : Nat)
    (a : List Text) :
    Unchanged (diffWalk lcs i j a a) := by
  induction a generalizing i j with
  | nil =>
      unfold diffWalk
      exact fun _ h => nomatch h
  | cons x a ih =>
      unfold diffWalk
      rw [if_pos rfl]
      intro op hMem
      rcases List.mem_cons.mp hMem with rfl | hLater
      · rfl
      · exact ih _ _ op hLater

/- There is no hunk exactly between texts of equal lines. -/
theorem hunksOf_eq_nil_iff
    {aText bText : Text} :
    hunksOf aText bText = [] ↔
      splitLines aText = splitLines bText := by
  constructor
  · intro hNone
    have hPatched := patched_hunksOf aText bText
    rw [hNone] at hPatched
    exact hPatched
  · intro hSame
    unfold hunksOf diffOps
    rw [hSame]
    exact diffHunks_unchanged [] (unchanged_diffWalk _ 0 0 _)

/-
  A unified diff is a patch: its hunks are in order and do
  not overlap, every header has the numbers of the lines it
  covers, and replacing the old lines of each hunk by its new
  ones makes the second text.
-/
theorem unifiedDiff_patches (aText bText : Text) :
    unifiedDiff aText bText =
        (hunksOf aText bText).flatMap Hunk.text ∧
      (∀ side : Side,
        (hunksOf aText bText).Pairwise fun h next =>
          h.range.start side + h.range.count side ≤
            next.range.start side) ∧
        (∀ h ∈ hunksOf aText bText, ∀ side : Side,
          Covers (splitLines (side.pick aText bText))
            (h.range.start side) (h.range.count side)
            (h.lines side)) ∧
          Patches.patched (splitLines aText) 0
              ((hunksOf aText bText).map Hunk.change) =
            splitLines bText := by
  have hHunked := hunked_hunksOf aText bText
  refine ⟨?_, ?_, ?_, patched_hunksOf aText bText⟩
  · unfold unifiedDiff
    by_cases hSame : aText = bText
    · rw [if_pos hSame,
        hunksOf_eq_nil_iff.mpr (congrArg splitLines hSame)]
      rfl
    · rw [if_neg hSame]
  · intro side
    exact hHunked.ordered (numbered_diffOps side _ _)
  · intro h hMem side
    have hCovers :=
      hHunked.covers (numbered_diffOps side _ _) hMem
    rw [linesOf_diffOps] at hCovers
    cases side with
    | a => exact hCovers
    | b => exact hCovers

end Store

end Soteria
