import Soteria.Store.Diff

/-
  The context of the hunks of a diff.

  Key definitions include:
    * `Framed`, `FullContext`
    * `Tight`
    * `fullContext_iff`
-/

------------------------------------------------------------
-- Hunks With Their Context
------------------------------------------------------------

namespace Soteria

namespace Store

/- A list of operations that begins with a change, or none. -/
def ChangeFirst (ops : List DiffOp) : Prop :=
  ∀ op ∈ ops.head?, op.kind ≠ .equal

/- A list of operations that ends with a change, or none. -/
def ChangeLast (ops : List DiffOp) : Prop :=
  ∀ op ∈ ops.getLast?, op.kind ≠ .equal

/-
  Hunks of the operations behind the unchanged lines `gap`:
  each has its changes, up to three of the unchanged lines
  in front of them and up to three of those behind them.
-/
inductive Framed :
    List DiffOp → List DiffOp → List Hunk → Prop
  | done {gap : List DiffOp} : Framed gap [] []
  | hunk {gap core next rest : List DiffOp}
      {h : Hunk} {hunks : List Hunk} :
      core ≠ [] → ChangeFirst core → ChangeLast core →
        Unchanged next → ChangeFirst rest →
          h.ops =
              gap.drop (gap.length - context) ++ core ++
                next.take context →
            Framed next rest hunks →
              Framed gap (core ++ next ++ rest) (h :: hunks)

/- All hunks have the context there is. -/
def FullContext
    (ops : List DiffOp)
    (hunks : List Hunk) : Prop :=
  ∃ gap rest, ops = gap ++ rest ∧ Unchanged gap ∧
    ChangeFirst rest ∧ Framed gap rest hunks

/- Behind a change there are at most six unchanged lines. -/
def Tight (ops : List DiffOp) : Prop :=
  ∀ front op gap rest, ops = front ++ op :: (gap ++ rest) →
    op.kind ≠ .equal → Unchanged gap →
      gap.length ≤ 2 * context

variable {ops : List DiffOp}

theorem changeFirst_cons
    {op : DiffOp}
    (ops : List DiffOp)
    (hChange : op.kind ≠ .equal) :
    ChangeFirst (op :: ops) := by
  intro other hMem
  cases hMem
  exact hChange

theorem unchanged_nil : Unchanged [] :=
  fun _ h => nomatch h

theorem changeFirst_nil : ChangeFirst [] :=
  fun _ h => nomatch h

theorem takeWhile_gap
    {gap rest : List DiffOp}
    (hGap : Unchanged gap)
    (hRest : ChangeFirst rest) :
    (gap ++ rest).takeWhile (fun op => op.kind = .equal) =
      gap := by
  have hNone :
      rest.takeWhile (fun op => op.kind = .equal) = [] := by
    cases rest with
    | nil => rfl
    | cons op rest =>
        exact List.takeWhile_cons_of_neg
          (by simpa using hRest op rfl)
  rw [List.takeWhile_append_of_pos
    (fun op hMem => by simpa using hGap op hMem), hNone,
    List.append_nil]

/- There is one cut behind the unchanged lines at the start. -/
theorem gap_unique
    {gap gap' rest rest' : List DiffOp}
    (hGap : Unchanged gap)
    (hGap' : Unchanged gap')
    (hRest : ChangeFirst rest)
    (hRest' : ChangeFirst rest')
    (hSame : gap ++ rest = gap' ++ rest') :
    gap = gap' ∧ rest = rest' := by
  have hFirst : gap = gap' := by
    rw [← takeWhile_gap hGap hRest, hSame,
      takeWhile_gap hGap' hRest']
  subst hFirst
  exact ⟨rfl, List.append_cancel_left hSame⟩

/- There is one cut in front of those at the end. -/
theorem last_unique
    {core core' gap gap' : List DiffOp}
    (hCore : ChangeLast core)
    (hCore' : ChangeLast core')
    (hGap : Unchanged gap)
    (hGap' : Unchanged gap')
    (hSame : core ++ gap = core' ++ gap') :
    core = core' ∧ gap = gap' := by
  have hReverse :
      gap.reverse ++ core.reverse =
        gap'.reverse ++ core'.reverse := by
    rw [← List.reverse_append, hSame, List.reverse_append]
  have hUnchanged :
      ∀ {p : List DiffOp}, Unchanged p → Unchanged p.reverse :=
    fun hp op hMem => hp op (List.mem_reverse.mp hMem)
  have hFirst :
      ∀ {p : List DiffOp}, ChangeLast p →
        ChangeFirst p.reverse := by
    intro p hp op hMem
    rw [List.head?_reverse] at hMem
    exact hp op hMem
  rcases gap_unique (hUnchanged hGap) (hUnchanged hGap')
      (hFirst hCore) (hFirst hCore') hReverse with
    ⟨hLeft, hRight⟩
  exact ⟨List.reverse_inj.mp hRight, List.reverse_inj.mp hLeft⟩

theorem exists_gap (ops : List DiffOp) :
    ∃ gap rest, ops = gap ++ rest ∧ Unchanged gap ∧
      ChangeFirst rest := by
  induction ops with
  | nil => exact ⟨[], [], rfl, unchanged_nil, changeFirst_nil⟩
  | cons op ops ih =>
      by_cases hEqual : op.kind = .equal
      · rcases ih with ⟨gap, rest, rfl, hGap, hRest⟩
        refine ⟨op :: gap, rest, rfl, ?_, hRest⟩
        intro other hMem
        rcases List.mem_cons.mp hMem with rfl | hMem
        · exact hEqual
        · exact hGap other hMem
      · exact ⟨[], op :: ops, rfl, unchanged_nil,
          changeFirst_cons ops hEqual⟩

end Store

end Soteria

------------------------------------------------------------
-- The First Hunk
------------------------------------------------------------

namespace Soteria

namespace Store

variable {ops : List DiffOp}

/-
  The inner loop reaches the end only if no run of unchanged
  lines is too long, the one that is open included.
-/
theorem hunkEnd_tight
    (ops run : List DiffOp)
    (stop : Nat)
    (hRun : Unchanged run)
    (hShort : run.length ≤ 2 * context)
    (hEnd :
      (hunkEnd ops stop run.length).2 ≤ 2 * context) :
    Tight ops ∧
      ∀ gap rest, run ++ ops = gap ++ rest → Unchanged gap →
        gap.length ≤ 2 * context := by
  induction ops generalizing run stop with
  | nil =>
      constructor
      · intro front op gap rest hSplit
        simp at hSplit
      · intro gap rest hSplit hGap
        have hLength := congrArg List.length hSplit
        simp only [List.length_append, List.length_nil]
          at hLength
        omega
  | cons op ops ih =>
      unfold hunkEnd at hEnd
      by_cases hEqual : op.kind = .equal
      · rw [if_pos hEqual] at hEnd
        by_cases hLong : 2 * context < run.length + 1
        · rw [if_pos hLong] at hEnd
          simp only at hEnd
          omega
        · rw [if_neg hLong] at hEnd
          have hMore : Unchanged (run ++ [op]) :=
            hRun.append fun other hMem => by
              rw [List.mem_singleton.mp hMem]
              exact hEqual
          have hLength :
              (run ++ [op]).length = run.length + 1 :=
            List.length_append
          rw [← hLength] at hEnd
          rcases ih (run ++ [op]) (stop + 1) hMore (by omega)
              hEnd with
            ⟨hTight, hFirst⟩
          constructor
          · intro front other gap rest hSplit hChange hGap
            cases front with
            | nil =>
                cases hSplit
                exact absurd hEqual hChange
            | cons first front =>
                exact hTight front other gap rest
                  (List.cons.inj hSplit).2 hChange hGap
          · intro gap rest hSplit hGap
            apply hFirst gap rest _ hGap
            rw [← hSplit]
            simp
      · rw [if_neg hEqual] at hEnd
        have hNone : Unchanged [] :=
          fun _ hMem => absurd hMem List.not_mem_nil
        rcases ih [] (stop + 1) hNone (Nat.zero_le _) hEnd with
          ⟨hTight, hFirst⟩
        constructor
        · intro front other gap rest hSplit hChange hGap
          cases front with
          | nil =>
              cases hSplit
              exact hFirst gap rest rfl hGap
          | cons first front =>
              exact hTight front other gap rest
                (List.cons.inj hSplit).2 hChange hGap
        · intro gap rest hSplit hGap
          have hSame :=
            takeWhile_gap hRun (changeFirst_cons ops hEqual)
          rw [hSplit, List.takeWhile_append_of_pos
            (fun op hMem => by simpa using hGap op hMem)]
            at hSame
          have hLength := congrArg List.length hSame
          rw [List.length_append] at hLength
          omega

/- The loop passes over unchanged lines. -/
theorem diffHunks_gap
    (front gap rest : List DiffOp)
    (hGap : Unchanged gap) :
    diffHunks (front ++ gap ++ rest) front.length =
      diffHunks (front ++ gap ++ rest)
        (front ++ gap).length := by
  induction gap generalizing front with
  | nil => rw [List.append_nil]
  | cons op gap ih =>
      have hNext :=
        ih (front ++ [op]) fun other hMem =>
          hGap other (List.mem_cons_of_mem _ hMem)
      have hStep := diffHunks_step front (gap ++ rest) op
      rw [if_pos (hGap op (List.mem_cons_self ..))] at hStep
      simp only [List.append_assoc, List.length_append,
        List.length_cons, List.length_nil, List.cons_append,
        List.nil_append, Nat.zero_add] at hNext hStep ⊢
      rw [hStep, hNext]

/- The trim keeps three lines, if the run has been counted. -/
theorem hunkTrail_end (front last : List DiffOp) :
    hunkTrail (front ++ last).length last.length =
      (front ++ last.take context).length := by
  unfold hunkTrail
  rw [List.length_append, List.length_append, List.length_take]
  split
  · omega
  · omega

/- It keeps two where the run has been found too long. -/
theorem hunkTrail_gap
    (front last : List DiffOp)
    (hLong : last.length = 2 * context) :
    hunkTrail (front ++ last).length (2 * context + 1) =
      (front ++ last.take 2).length := by
  unfold hunkTrail context at *
  rw [List.length_append, List.length_append, List.length_take]
  split
  · omega
  · omega

/-
  The first hunk, behind the unchanged lines `gap`. Either it
  reaches the end, with all its context, or seven unchanged
  lines follow its last change, of which it has two.
-/
theorem diffHunks_first
    {gap rest : List DiffOp}
    (hGap : Unchanged gap)
    (hSome : rest ≠ [])
    (hRest : ChangeFirst rest) :
    ∃ core last after h hunks,
      rest = core ++ last ++ after ∧ core ≠ [] ∧
        ChangeFirst core ∧ ChangeLast core ∧ Unchanged last ∧
          diffHunks (gap ++ rest) 0 = h :: hunks ∧
            ((after = [] ∧ hunks = [] ∧ Tight rest ∧
                h.ops =
                  gap.drop (gap.length - context) ++ core ++
                    last.take context) ∨
              ((∃ op ∈ after.head?, op.kind = .equal) ∧
                last.length = 2 * context ∧
                  h.ops =
                    gap.drop (gap.length - context) ++ core ++
                      last.take 2)) := by
  rcases List.exists_cons_of_ne_nil hSome with ⟨op, more, rfl⟩
  have hChange : op.kind ≠ .equal := hRest op rfl
  rcases hunkEnd_cases (op :: more) [] gap.length unchanged_nil
      (Nat.zero_le _) with
    ⟨core, last, after, hSplit, hLast, hLastCore, hStop, hEnd⟩
  rw [List.nil_append] at hSplit
  rw [List.length_nil, Nat.add_zero] at hStop
  rw [List.length_nil] at hEnd
  have hCore : core ≠ [] := by
    refine core_ne_nil hChange hLast ?_ hSplit
    rcases hEnd with ⟨hAfter, -⟩ | ⟨hHead, -⟩
    · exact Or.inl hAfter
    · exact Or.inr hHead
  have hFirstCore : ChangeFirst core := by
    rcases List.exists_cons_of_ne_nil hCore with
      ⟨first, core, rfl⟩
    cases hSplit
    exact changeFirst_cons core hChange
  have hLoop :
      diffHunks (gap ++ op :: more) 0 =
        hunkOf (gap ++ op :: more) (gap.length - context)
            (hunkTrail (hunkEnd (op :: more) gap.length 0).1
              (hunkEnd (op :: more) gap.length 0).2) ::
          diffHunks (gap ++ op :: more)
            (hunkEnd (op :: more) gap.length 0).1 := by
    have hSkip := diffHunks_gap [] gap (op :: more) hGap
    have hStep := diffHunks_step gap more op
    rw [if_neg hChange] at hStep
    rw [List.nil_append] at hSkip
    rw [List.length_nil] at hSkip
    rw [hSkip, hStep]
  have hStopAt :
      (hunkEnd (op :: more) gap.length 0).1 =
        (gap ++ core ++ last).length := by
    rw [hStop]
    simp only [List.length_append]
    omega
  have hBody :
      ∀ n, (hunkOf (gap ++ op :: more) (gap.length - context)
          (gap ++ core ++ last.take n).length).ops =
        gap.drop (gap.length - context) ++ core ++
          last.take n := by
    intro n
    have hWhole :
        gap ++ op :: more =
          gap.take (gap.length - context) ++
            (gap.drop (gap.length - context) ++ core ++
              last.take n) ++ (last.drop n ++ after) := by
      have hLead :
          gap.take (gap.length - context) ++
            gap.drop (gap.length - context) = gap :=
        List.take_append_drop _ _
      have hEnd : last.take n ++ last.drop n = last :=
        List.take_append_drop _ _
      calc gap ++ op :: more
          = gap ++ (core ++ (last ++ after)) := by
            rw [hSplit]
            simp only [List.append_assoc]
        _ = (gap.take (gap.length - context) ++
              gap.drop (gap.length - context)) ++ (core ++
                ((last.take n ++ last.drop n) ++ after)) := by
            rw [hLead, hEnd]
        _ = _ := by simp only [List.append_assoc]
    rw [hWhole, hunkOf_middle]
    · rw [List.length_take]
      omega
    · simp only [List.length_append, List.length_take,
        List.length_drop]
      omega
  rcases hEnd with ⟨rfl, hShort, hEqual⟩ |
    ⟨hHead, hLong, hEqual⟩
  · refine ⟨core, last, [], _, _, hSplit, hCore, hFirstCore,
      hLastCore, hLast, hLoop, Or.inl ⟨rfl, ?_, ?_, ?_⟩⟩
    · apply diffHunks_of_le
      rw [hStopAt, hSplit]
      simp
    · have hCount :
          (hunkEnd (op :: more) gap.length 0).2 ≤
            2 * context := by
        rw [hEqual]
        exact hShort
      exact (hunkEnd_tight (op :: more) [] gap.length
        unchanged_nil (Nat.zero_le _) hCount).1
    · rw [hStopAt, hEqual, hunkTrail_end _ last]
      exact hBody context
  · refine ⟨core, last, after, _, _, hSplit, hCore, hFirstCore,
      hLastCore, hLast, hLoop, Or.inr ⟨hHead, hLong, ?_⟩⟩
    rw [hStopAt, hEqual, hunkTrail_gap _ last hLong]
    exact hBody 2

/- Unchanged lines in front of the first change do not count. -/
theorem tight_append
    {gap rest : List DiffOp}
    (hGap : Unchanged gap)
    (hTight : Tight rest) :
    Tight (gap ++ rest) := by
  induction gap with
  | nil => exact hTight
  | cons first gap ih =>
      intro front op run after hSplit hChange hRun
      cases front with
      | nil =>
          rw [(List.cons.inj hSplit).1.symm] at hChange
          exact absurd (hGap _ (List.mem_cons_self ..)) hChange
      | cons other front =>
          exact ih
            (fun op hMem => hGap op (List.mem_cons_of_mem _ hMem))
            front op run after (List.cons.inj hSplit).2 hChange
            hRun

theorem Framed.inv
    {gap ops : List DiffOp}
    {h : Hunk}
    {hunks : List Hunk}
    (hFramed : Framed gap ops (h :: hunks)) :
    ∃ core next rest, ops = core ++ next ++ rest ∧
      ChangeLast core ∧ Unchanged next ∧ ChangeFirst rest ∧
        h.ops =
          gap.drop (gap.length - context) ++ core ++
            next.take context := by
  cases hFramed with
  | hunk hCore hFirst hLast hNext hRest hOps hMore =>
      exact ⟨_, _, _, rfl, hLast, hNext, hRest, hOps⟩

/-
  A hunk that has two of seven unchanged lines behind its
  changes does not have its full context.
-/
theorem not_framed
    {gap core last after : List DiffOp}
    {h : Hunk}
    {hunks : List Hunk}
    (hLast : ChangeLast core)
    (hUnchanged : Unchanged last)
    (hLong : last.length = 2 * context)
    (hOps :
      h.ops =
        gap.drop (gap.length - context) ++ core ++
          last.take 2) :
    ¬ Framed gap (core ++ last ++ after) (h :: hunks) := by
  intro hFramed
  rcases hFramed.inv with
    ⟨core', next, rest, hSplit, hLast', hNext, hRest, hOps'⟩
  have hBodies :
      core ++ last.take 2 = core' ++ next.take context := by
    rw [hOps', List.append_assoc, List.append_assoc] at hOps
    exact (List.append_cancel_left hOps).symm
  rcases last_unique hLast hLast' (hUnchanged.take 2)
      (hNext.take context) hBodies with
    ⟨rfl, hTaken⟩
  have hLengths := congrArg List.length hTaken
  rw [List.length_take, List.length_take, hLong] at hLengths
  have hTwo : next.length = 2 := by
    unfold context at hLengths
    omega
  rw [List.append_assoc, List.append_assoc] at hSplit
  have hBehind := List.append_cancel_left hSplit
  have hThird :
      (last ++ after)[2]? = (next ++ rest)[2]? := by
    rw [hBehind]
  rw [List.getElem?_append_left (by rw [hLong]; decide),
    List.getElem?_append_right (by omega), hTwo] at hThird
  have hIn : (2 : Nat) < last.length := by
    rw [hLong]
    decide
  rw [List.getElem?_eq_getElem hIn] at hThird
  have hHead : last[2] ∈ rest.head? := by
    rw [List.head?_eq_getElem?]
    exact hThird.symm
  exact hRest _ hHead (hUnchanged _ (List.getElem_mem hIn))

/-
  The hunks have their full context exactly if no change is
  followed by more than six unchanged lines.
-/
theorem fullContext_iff (ops : List DiffOp) :
    FullContext ops (diffHunks ops 0) ↔ Tight ops := by
  rcases exists_gap ops with ⟨gap, rest, rfl, hGap, hRest⟩
  by_cases hNone : rest = []
  · subst hNone
    have hLoop : diffHunks (gap ++ []) 0 = [] := by
      have hLoop := diffHunks_unchanged [] hGap
      rw [List.append_nil]
      exact hLoop
    have hTight : Tight ([] : List DiffOp) := by
      intro front op run after hSplit
      simp at hSplit
    rw [hLoop]
    exact iff_of_true ⟨gap, [], rfl, hGap, hRest, .done⟩
      (tight_append hGap hTight)
  · rcases diffHunks_first hGap hNone hRest with
      ⟨core, last, after, h, hunks, hSplit, hCore, hFirst,
        hLast, hUnchanged, hLoop, hEnd⟩
    rw [hLoop]
    rcases hEnd with ⟨rfl, rfl, hTight, hOps⟩ |
      ⟨⟨op, hHead, hEqual⟩, hLong, hOps⟩
    · refine iff_of_true ⟨gap, rest, rfl, hGap, hRest, ?_⟩
        (tight_append hGap hTight)
      rw [hSplit]
      exact .hunk hCore hFirst hLast hUnchanged changeFirst_nil
        hOps .done
    · refine iff_of_false ?_ ?_
      · rintro ⟨gap', rest', hSame, hGap', hRest', hFramed⟩
        rcases gap_unique hGap hGap' hRest hRest' hSame with
          ⟨rfl, rfl⟩
        rw [hSplit] at hFramed
        exact not_framed hLast hUnchanged hLong hOps hFramed
      · intro hTight
        rcases List.eq_nil_or_concat core with
          hNil | ⟨front, final, hConcat⟩
        · exact hCore hNil
        · have hChange : final.kind ≠ .equal := by
            apply hLast
            rw [hConcat]
            simp
          cases after with
          | nil => cases hHead
          | cons first after =>
              cases hHead
              have hRun : Unchanged (last ++ [op]) :=
                hUnchanged.append fun other hMem => by
                  rw [List.mem_singleton.mp hMem]
                  exact hEqual
              have hBound :=
                hTight (gap ++ front) final (last ++ [op]) after
                  (by
                    rw [hSplit, hConcat, List.concat_eq_append]
                    simp only [List.append_assoc,
                      List.cons_append, List.nil_append])
                  hChange hRun
              rw [List.length_append, hLong] at hBound
              exact Nat.not_succ_le_self _ hBound

/-
  The hunks of a diff of two texts have their full context
  exactly if no change is followed by more than six unchanged
  lines.
-/
theorem unifiedDiff_context_iff (aText bText : Text) :
    unifiedDiff aText bText =
        (hunksOf aText bText).flatMap Hunk.text ∧
      (FullContext
          (diffOps (splitLines aText) (splitLines bText))
          (hunksOf aText bText) ↔
        Tight
          (diffOps (splitLines aText) (splitLines bText))) := by
  refine ⟨?_, fullContext_iff _⟩
  unfold unifiedDiff
  by_cases hSame : aText = bText
  · rw [if_pos hSame,
      hunksOf_eq_nil_iff.mpr (congrArg splitLines hSame)]
    rfl
  · rw [if_neg hSame]

/- Nine lines of which the first and the last are changed. -/
def farText (first last : Text) : Text :=
  first ++ "\n1\n2\n3\n4\n5\n6\n7\n".toList ++ last ++
    "\n".toList

def farOps : List DiffOp :=
  diffOps (splitLines (farText "a" "c"))
    (splitLines (farText "b" "d"))

/-
  The first of their two hunks has two unchanged lines behind
  its change, of seven.
-/
theorem far_context_missing :
    (hunksOf (farText "a" "c") (farText "b" "d")).map
        (fun h => h.ops.map DiffOp.text) =
      [[("a" : Text), ("b" : Text), ("1" : Text),
          ("2" : Text)],
        [("5" : Text), ("6" : Text), ("7" : Text),
          ("c" : Text), ("d" : Text)]] ∧
    ¬ FullContext
        (diffOps (splitLines (farText "a" "c"))
          (splitLines (farText "b" "d")))
        (hunksOf (farText "a" "c") (farText "b" "d")) := by
  constructor
  · decide +kernel
  · unfold hunksOf
    rw [fullContext_iff]
    intro hTight
    have hRun : Unchanged ((farOps.drop 2).take 7) := by
      unfold Unchanged
      decide +kernel
    have hBound :=
      hTight (farOps.take 1) ⟨.added, "b", 0, 1⟩
        ((farOps.drop 2).take 7) (farOps.drop 9)
        (by decide +kernel) (by decide) hRun
    exact absurd hBound (by decide +kernel)

end Store

end Soteria
