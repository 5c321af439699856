import Soteria.Foundation.Occurrences

/-
  Regular expressions that have a head and, behind a loop
  that takes as little as it can, a rest, and what becomes of
  their matches when the text goes on.

  Key definitions include:
    * `Regex.Pattern.first_lazy`
    * `Regex.Pattern.Sole`, `Regex.Pattern.Apace`
    * `Regex.Pattern.Steady`
    * `Regex.Pattern.Cuts.append`, `Regex.Pattern.Inert`
    * `Regex.Pattern.Cuts.exchange`
-/

------------------------------------------------------------
-- Sequences
------------------------------------------------------------

namespace Regex

namespace Pattern

variable {prev prev' : Option Char}

/- The brackets of a sequence do not matter. -/
theorem run_seq_assoc
    (a b c : Pattern)
    (prev : Option Char)
    (input : Text) :
    (Pattern.seq (.seq a b) c).run prev input =
      (Pattern.seq a (.seq b c)).run prev input := by
  simp only [run, List.flatMap_assoc, List.flatMap_map,
    List.map_flatMap, List.map_map, Match.last,
    List.append_assoc]
  apply congrArg (List.flatMap · _)
  funext m
  apply congrArg (List.flatMap · _)
  funext n
  have hLast :
      (m.text ++ n.text).getLast?.or prev =
        n.text.getLast?.or (m.text.getLast?.or prev) := by
    rw [List.getLast?_append, Option.or_assoc]
  rw [hLast]
  rfl

theorem run_seq_congr
    {first second second' : Pattern}
    (hRun : ∀ prev input,
      second.run prev input = second'.run prev input)
    (prev : Option Char)
    (input : Text) :
    (Pattern.seq first second).run prev input =
      (Pattern.seq first second').run prev input := by
  simp only [run, hRun]

theorem run_seq_empty
    (r : Pattern)
    (prev : Option Char)
    (input : Text) :
    (Pattern.seq .empty r).run prev input =
      r.run prev input := by
  simp [run, Match.last]

/- A list of patterns is cut into two. -/
theorem run_all_append
    (parts more : List Pattern)
    (prev : Option Char)
    (input : Text) :
    (all (parts ++ more)).run prev input =
      (Pattern.seq (all parts) (all more)).run prev input := by
  induction parts generalizing prev input with
  | nil => exact (run_seq_empty (all more) prev input).symm
  | cons part parts ih =>
      exact (run_seq_congr ih prev input).trans
        (run_seq_assoc part (all parts) (all more) prev
          input).symm

/- What is before a text does not matter to such a pattern. -/
theorem run_anywhere
    {r : Pattern}
    (hAnywhere : r.anywhere = true)
    (prev prev' : Option Char)
    (input : Text) :
    r.run prev input = r.run prev' input := by
  induction r generalizing prev prev' input with
  | empty => rfl
  | one p => cases input <;> rfl
  | many greedy p => rfl
  | seq first second ihFirst ihSecond =>
      rw [anywhere, Bool.and_eq_true] at hAnywhere
      simp only [run]
      rw [ihFirst hAnywhere.1 prev prev']
      apply congrArg (List.flatMap · _)
      funext m
      rw [ihSecond hAnywhere.2 (m.last prev) (m.last prev')]
  | alt preferred other ihPreferred ihOther =>
      rw [anywhere, Bool.and_eq_true] at hAnywhere
      simp only [run]
      rw [ihPreferred hAnywhere.1 prev prev',
        ihOther hAnywhere.2 prev prev']
  | group index inner ih =>
      simp only [run]
      rw [ih hAnywhere prev prev']
  | lineStart => cases hAnywhere
  | lineEnd => cases hAnywhere

theorem skips_anywhere
    {r : Pattern}
    (hAnywhere : r.anywhere = true)
    {gap rest : Text}
    (hSkips : Skips r prev gap rest) :
    Skips r prev' gap rest := by
  induction gap generalizing prev prev' with
  | nil => trivial
  | cons c gap ih =>
      refine ⟨?_, ih hSkips.2⟩
      rw [run_anywhere hAnywhere prev' prev]
      exact hSkips.1

/- A match of a first class begins with one of the class. -/
theorem run_seq_one
    {p : Char → Bool}
    {second : Pattern}
    {c : Char}
    (hNot : p c = false)
    (prev : Option Char)
    (rest : Text) :
    (Pattern.seq (.one p) second).run prev (c :: rest) = [] := by
  unfold run
  rw [run, if_neg (by simp [hNot])]
  rfl

theorem takes_litFold
    {s rest text : Text}
    {groups : List (Nat × Text)}
    (hTakes : (litFold s).Takes prev rest text groups) :
    text.map Text.foldChar = s.map Text.foldChar ∧
      groups = [] := by
  induction s generalizing prev text groups with
  | nil =>
      rcases hTakes with ⟨rfl, rfl⟩
      exact ⟨rfl, rfl⟩
  | cons c s ih =>
      rcases hTakes with
        ⟨_, y, _, gy, ⟨d, hSame, rfl, rfl⟩, hRest, rfl, rfl⟩
      rcases ih hRest with ⟨hFold, rfl⟩
      refine ⟨?_, rfl⟩
      rw [List.singleton_append, List.map_cons, List.map_cons,
        hFold, eq_of_beq hSame]

/- What is found stands in the text. -/
theorem takes_of_findFrom
    {r : Pattern}
    {input : Text}
    {m : Match}
    (hFind : r.findFrom prev input = some m) :
    ∃ gap, input = gap ++ (m.text ++ m.rest) ∧
      r.Takes (lastOf prev gap) m.rest m.text m.groups := by
  induction input generalizing prev with
  | nil =>
      have hFirst : First r prev [] m := hFind
      exact ⟨[], hFirst.input_eq, hFirst.takes⟩
  | cons c input ih =>
      rw [findFrom] at hFind
      split at hFind
      · rename_i n hHead
        cases hFind
        have hFirst : First r prev (c :: input) m := hHead
        exact ⟨[], hFirst.input_eq, hFirst.takes⟩
      · rcases ih hFind with ⟨gap, hInput, hTakes⟩
        refine ⟨c :: gap, by rw [hInput]; rfl, ?_⟩
        rw [lastOf_cons]
        exact hTakes

theorem first_litFold
    (s rest : Text) :
    First (litFold s) prev (s ++ rest) ⟨s, rest, []⟩ := by
  induction s generalizing prev with
  | nil => rfl
  | cons c s ih =>
      have hOne :
          First
            (.one fun d => Text.foldChar d == Text.foldChar c)
            prev (c :: (s ++ rest)) ⟨[c], s ++ rest, []⟩ := by
        unfold First run
        rw [if_pos (beq_self_eq_true _)]
        rfl
      exact first_seq hOne ih

theorem skips_seq
    {first second : Pattern}
    {gap rest : Text}
    (hSkips : Skips first prev gap rest) :
    Skips (.seq first second) prev gap rest := by
  induction gap generalizing prev with
  | nil => trivial
  | cons c gap ih =>
      refine ⟨?_, ih hSkips.2⟩
      rw [run, hSkips.1, List.flatMap_nil]

theorem skips_congr
    {r r' : Pattern}
    (hRun : ∀ prev input, r'.run prev input = r.run prev input)
    {gap rest : Text}
    (hSkips : Skips r prev gap rest) :
    Skips r' prev gap rest := by
  induction gap generalizing prev with
  | nil => trivial
  | cons c gap ih =>
      exact ⟨(hRun _ _).trans hSkips.1, ih hSkips.2⟩

end Pattern

end Regex

------------------------------------------------------------
-- Lazy Loops
------------------------------------------------------------

namespace Regex

namespace Pattern

variable {p : Char → Bool}
variable {q : Pattern}
variable {prev : Option Char}

theorem run_lazy_nil (prev : Option Char) :
    (Pattern.seq (.many false p) q).run prev [] =
      q.run prev [] := by
  simp [run, spans, Match.last]

/- A lazy loop tries what is behind it before it goes on. -/
theorem run_lazy_cons
    (prev : Option Char)
    (c : Char)
    (rest : Text) :
    (Pattern.seq (.many false p) q).run prev (c :: rest) =
      q.run prev (c :: rest) ++
        if p c then
          ((Pattern.seq (.many false p) q).run (some c)
            rest).map
              fun m => ⟨c :: m.text, m.rest, m.groups⟩
        else [] := by
  have hLast :
      ∀ s : Text,
        (c :: s).getLast?.or prev = s.getLast?.or (some c) :=
    lastOf_cons prev c
  cases hp : p c with
  | false => simp [run, spans, Match.last, hp]
  | true =>
      simp [run, spans, Match.last, hp, hLast,
        List.map_flatMap, List.flatMap_map, List.map_map,
        Function.comp_def]

/- The loop ends where the pattern behind it first matches. -/
theorem first_lazy
    {gap input : Text}
    {m : Match}
    (hAll : ∀ c ∈ gap, p c = true)
    (hSkips : Skips q prev gap input)
    (hFirst : First q (lastOf prev gap) input m) :
    First (.seq (.many false p) q) prev (gap ++ input)
      ⟨gap ++ m.text, m.rest, m.groups⟩ := by
  induction gap generalizing prev with
  | nil =>
      unfold First at hFirst ⊢
      rw [lastOf_nil] at hFirst
      cases input with
      | nil => exact (congrArg _ (run_lazy_nil prev)).trans hFirst
      | cons c rest =>
          rw [List.nil_append, run_lazy_cons,
            List.head?_append, hFirst]
          rfl
  | cons c gap ih =>
      have hRest :=
        ih (fun d hd => hAll d (List.mem_cons_of_mem _ hd))
          hSkips.2 (by rwa [lastOf_cons] at hFirst)
      unfold First at hRest ⊢
      rw [List.cons_append, run_lazy_cons, hSkips.1,
        if_pos (hAll c (List.mem_cons_self ..)),
        List.nil_append, List.head?_map, hRest]
      rfl

/- Every first match of a lazy loop is such a one. -/
theorem exists_of_first_lazy
    {input : Text}
    {m : Match}
    (hFirst : First (.seq (.many false p) q) prev input m) :
    ∃ gap rest n, input = gap ++ rest ∧
      (∀ c ∈ gap, p c = true) ∧ Skips q prev gap rest ∧
        First q (lastOf prev gap) rest n ∧
          m = ⟨gap ++ n.text, n.rest, n.groups⟩ := by
  induction input generalizing prev m with
  | nil =>
      unfold First at hFirst
      rw [run_lazy_nil] at hFirst
      exact ⟨[], [], m, rfl, by simp, trivial, hFirst, rfl⟩
  | cons c input ih =>
      unfold First at hFirst
      rw [run_lazy_cons] at hFirst
      cases hRun : q.run prev (c :: input) with
      | cons n later =>
          rw [hRun] at hFirst
          cases hFirst
          refine ⟨[], c :: input, m, rfl, by simp, trivial, ?_,
            rfl⟩
          exact congrArg List.head? hRun
      | nil =>
          rw [hRun, List.nil_append] at hFirst
          split at hFirst
          · rename_i hp
            rw [List.head?_map] at hFirst
            rcases Option.map_eq_some_iff.mp hFirst with
              ⟨k, hNext, rfl⟩
            rcases ih hNext with
              ⟨gap, rest, n, rfl, hAll, hSkips, hHere, rfl⟩
            refine ⟨c :: gap, rest, n, rfl, ?_,
              ⟨hRun, hSkips⟩, ?_, rfl⟩
            · intro d hd
              rcases List.mem_cons.mp hd with rfl | hd
              · exact hp
              · exact hAll d hd
            · rw [lastOf_cons]
              exact hHere
          · cases hFirst

/-
  Of the splits of a lazy loop the first one is taken behind
  which there is a match, whatever is made of it.
-/
theorem head_spans
    {f : Text → Match → Match}
    {gap input : Text}
    {m : Match}
    (hAll : ∀ c ∈ gap, p c = true)
    (hSkips : Skips q prev gap input)
    (hFirst : First q (lastOf prev gap) input m) :
    ((spans p (gap ++ input)).flatMap fun split =>
        (q.run (lastOf prev split.1) split.2).map
          (f split.1)).head? =
      some (f gap m) := by
  induction gap generalizing prev f with
  | nil =>
      rcases hRun : q.run prev input with _ | ⟨n, later⟩
      · rw [First, lastOf_nil, hRun] at hFirst
        cases hFirst
      · rw [First, lastOf_nil, hRun] at hFirst
        cases hFirst
        cases input with
        | nil => simp [spans, hRun]
        | cons c input =>
            simp [spans, hRun]
  | cons c gap ih =>
      rw [lastOf_cons] at hFirst
      have hRest :=
        ih (f := fun s => f (c :: s))
          (fun d hd => hAll d (List.mem_cons_of_mem _ hd))
          hSkips.2 hFirst
      rw [List.cons_append, spans,
        if_pos (hAll c (List.mem_cons_self ..)),
        List.flatMap_cons, lastOf_nil, hSkips.1, List.map_nil,
        List.nil_append, List.flatMap_map]
      simpa only [lastOf_cons] using hRest

/- A group of a lazy loop, with what is behind it. -/
theorem first_group_lazy
    {index : Nat}
    {c : Char}
    {gap input : Text}
    {m : Match}
    (hc : p c = true)
    (hAll : ∀ d ∈ gap, p d = true)
    (hSkips : Skips q (some c) gap input)
    (hFirst : First q (lastOf (some c) gap) input m) :
    First (.seq (.group index (plusLazy p)) q) prev
      (c :: (gap ++ input))
      ⟨c :: (gap ++ m.text), m.rest,
        (index, c :: gap) :: m.groups⟩ := by
  have hHead :=
    head_spans (p := p) (f := fun s n =>
      ⟨c :: (s ++ n.text), n.rest, (index, c :: s) :: n.groups⟩)
      hAll hSkips hFirst
  unfold First
  rw [← hHead]
  unfold plusLazy
  simp only [run, if_pos hc, List.flatMap_cons,
    List.flatMap_nil, List.append_nil, List.map_map,
    List.flatMap_map]
  apply congrArg (fun f => (List.flatMap f _).head?)
  funext split
  show (q.run (lastOf prev (c :: split.1)) split.2).map _ = _
  rw [lastOf_cons]
  rfl

end Pattern

end Regex

------------------------------------------------------------
-- Texts That Go On
------------------------------------------------------------

namespace Regex

namespace Pattern

variable {r : Pattern}
variable {prev prev' : Option Char}

/- Of what stands in one place, one text can be taken. -/
def Sole (r : Pattern) : Prop :=
  ∀ {prev prev' rest rest' x x' y y' g g'},
    r.Takes prev rest x g → r.Takes prev' rest' x' g' →
      x ++ y = x' ++ y' → x = x' ∧ g = g'

/- A text that is taken later does not end before. -/
def Apace (r : Pattern) : Prop :=
  ∀ {prev prev' rest rest' x x' y y' g g' a},
    r.Takes prev rest x g → r.Takes prev' rest' x' g' →
      a ≠ [] → x ++ y = a ++ (x' ++ y') →
        x.length ≤ (a ++ x').length

/-
  What is matched in a text is also matched where it goes on,
  and so is what is not matched in front of a match.
-/
structure Steady (r : Pattern) : Prop where
  anywhere : r.anywhere = true
  first :
    ∀ {prev input m} (more : Text), First r prev input m →
      First r prev (input ++ more)
        ⟨m.text, m.rest ++ more, m.groups⟩
  none :
    ∀ {prev prev' c gap t rest rest' g} (more : Text),
      r.Takes prev' rest' t g →
        r.run prev (c :: (gap ++ (t ++ rest))) = [] →
          r.run prev (c :: (gap ++ (t ++ (rest ++ more)))) = []

/- The one text that can be taken is taken. -/
theorem Sole.first
    (hSole : Sole r)
    {text rest : Text}
    {g : List (Nat × Text)}
    (hTakes : r.Takes prev rest text g) :
    First r prev (text ++ rest) ⟨text, rest, g⟩ := by
  have hMem : ⟨text, rest, g⟩ ∈ r.run prev (text ++ rest) :=
    mem_run_iff.mpr ⟨rfl, hTakes⟩
  rcases List.exists_cons_of_ne_nil
      (List.ne_nil_of_mem hMem) with ⟨m, others, hRun⟩
  have hHere : m ∈ r.run prev (text ++ rest) := by
    rw [hRun]
    exact List.mem_cons_self ..
  rcases mem_run_iff.mp hHere with ⟨hInput, hAgain⟩
  rcases hSole hTakes hAgain hInput with ⟨hText, hGroups⟩
  have hRest : rest = m.rest := by
    rw [hText] at hInput
    exact List.append_cancel_left hInput
  unfold First
  rw [hRun, List.head?_cons, hText, hGroups, hRest]

/- A first match begins with the one text of the head. -/
theorem Sole.exists_of_first_seq
    (hSole : Sole r)
    {second : Pattern}
    {input : Text}
    {m : Match}
    (hFirst : First (.seq r second) prev input m) :
    ∃ x g n rest, input = x ++ rest ∧
      r.Takes prev rest x g ∧
        First second (lastOf prev x) rest n ∧
          m = ⟨x ++ n.text, n.rest, g ++ n.groups⟩ := by
  have hTakes := hFirst.takes
  have hInput := hFirst.input_eq
  rcases hTakes with
    ⟨x, y, g, gy, hHead, hSecond, hText, hGroups⟩
  rw [hText, List.append_assoc] at hInput
  have hHere := hSole.first hHead
  cases hRun :
      second.run (lastOf prev x) (y ++ m.rest) with
  | nil =>
      have hMem :
          ⟨y, m.rest, gy⟩ ∈
            second.run (lastOf prev x) (y ++ m.rest) :=
        mem_run_iff.mpr ⟨rfl, hSecond⟩
      rw [hRun] at hMem
      cases hMem
  | cons n later =>
      have hNext :
          First second (lastOf prev x) (y ++ m.rest) n := by
        unfold First
        rw [hRun, List.head?_cons]
      have hSame := first_seq hHere hNext
      rw [← hInput, First, hFirst, Option.some_inj] at hSame
      exact ⟨x, g, n, y ++ m.rest, hInput, hHead, hNext, hSame⟩

theorem Steady.skips
    (hSteady : Steady r)
    {gap t rest rest' : Text}
    {g : List (Nat × Text)}
    (more : Text)
    (hTakes : r.Takes prev' rest' t g)
    (hSkips : Skips r prev gap (t ++ rest)) :
    Skips r prev gap (t ++ (rest ++ more)) := by
  induction gap generalizing prev with
  | nil => trivial
  | cons c gap ih =>
      exact ⟨hSteady.none more hTakes hSkips.1, ih hSkips.2⟩

/- Where a text is taken there is a match. -/
theorem run_ne_nil
    (hAnywhere : r.anywhere = true)
    {rest' text : Text}
    {g : List (Nat × Text)}
    (hTakes : r.Takes prev' rest' text g)
    (rest : Text) :
    r.run prev (text ++ rest) ≠ [] := by
  have hMem : ⟨text, rest, g⟩ ∈ r.run prev (text ++ rest) :=
    mem_run_iff.mpr ⟨rfl, takes_anywhere hAnywhere hTakes⟩
  exact List.ne_nil_of_mem hMem

/-
  Where both parts of a pattern are skipped, the first one is
  skipped alone, if the second one matches whatever is left.
-/
theorem skips_of_seq
    {q : Pattern}
    (hAnywhere : r.anywhere = true)
    {gap t rest : Text}
    (hThen : ∀ before x, q.run before (x ++ rest) ≠ [])
    (hSkips : Skips (.seq r q) prev gap (t ++ rest)) :
    Skips r prev' gap t := by
  induction gap generalizing prev prev' with
  | nil => trivial
  | cons c gap ih =>
      refine ⟨?_, ih hSkips.2⟩
      by_contra hSome
      rcases List.exists_mem_of_ne_nil _ hSome with ⟨m, hMem⟩
      rcases mem_run_iff.mp hMem with ⟨hInput, hTakes⟩
      rcases List.exists_mem_of_ne_nil _
          (hThen (lastOf prev m.text) m.rest) with ⟨n, hNext⟩
      rcases mem_run_iff.mp hNext with ⟨hLeft, hMore⟩
      have hBoth :
          (Pattern.seq r q).Takes prev n.rest (m.text ++ n.text)
            (m.groups ++ n.groups) :=
        ⟨m.text, n.text, m.groups, n.groups,
          takes_anywhere hAnywhere hTakes, hMore, rfl, rfl⟩
      have hHere :
          c :: (gap ++ (t ++ rest)) =
            (m.text ++ n.text) ++ n.rest := by
        rw [List.append_assoc, ← hLeft, ← List.append_assoc m.text,
          ← hInput]
        simp
      have hFound :
          (⟨m.text ++ n.text, n.rest,
              m.groups ++ n.groups⟩ : Match) ∈
            (Pattern.seq r q).run prev
              (c :: (gap ++ (t ++ rest))) :=
        mem_run_iff.mpr ⟨hHere, hBoth⟩
      rw [hSkips.1] at hFound
      cases hFound

/- What is skipped in a text is skipped where it ends before. -/
theorem Skips.truncate
    (hAnywhere : r.anywhere = true)
    {gap t rest : Text}
    (hSkips : Skips r prev gap (t ++ rest)) :
    Skips r prev' gap t :=
  skips_of_seq (q := .empty) hAnywhere
    (fun _ _ => by simp [run]) (skips_seq hSkips)

/- A loop over any characters comes to what is taken later. -/
theorem lazy_run_ne_nil
    {p : Char → Bool}
    {q : Pattern}
    (hAll : ∀ c, p c = true)
    (hAnywhere : q.anywhere = true)
    {rest' t : Text}
    {g : List (Nat × Text)}
    (hTakes : q.Takes prev' rest' t g)
    (x rest : Text) :
    (Pattern.seq (.many false p) q).run prev
      (x ++ (t ++ rest)) ≠ [] := by
  have hBoth :
      (Pattern.seq (.many false p) q).Takes prev rest (x ++ t)
        ([] ++ g) :=
    ⟨x, t, [], g, ⟨fun c _ => hAll c, rfl⟩,
      takes_anywhere hAnywhere hTakes, rfl, rfl⟩
  have hMem :
      (⟨x ++ t, rest, [] ++ g⟩ : Match) ∈
        (Pattern.seq (.many false p) q).run prev
          (x ++ (t ++ rest)) :=
    mem_run_iff.mpr ⟨by simp, hBoth⟩
  exact List.ne_nil_of_mem hMem

/- A text that is not longer is at the start of the other. -/
theorem exists_append_of_le
    {x y a b : Text}
    (hSame : x ++ y = a ++ b)
    (hLess : x.length ≤ a.length) :
    ∃ z, a = x ++ z ∧ y = z ++ b := by
  rcases List.append_eq_append_iff.mp hSame with
    ⟨z, hA, hY⟩ | ⟨z, hX, hB⟩
  · exact ⟨z, hA, hY⟩
  · have hNone : z = [] := by
      rw [hX, List.length_append] at hLess
      exact List.length_eq_zero_iff.mp (by omega)
    subst hNone
    exact ⟨[], by simpa using hX.symm, by simpa using hB.symm⟩

theorem Sole.steady
    (hSole : Sole r)
    (hApace : Apace r)
    (hAnywhere : r.anywhere = true) :
    Steady r where
  anywhere := hAnywhere
  first := by
    intro prev input m more hFirst
    rw [hFirst.input_eq, List.append_assoc]
    exact hSole.first (takes_anywhere hAnywhere hFirst.takes)
  none := by
    intro prev prev' c gap t rest rest' g more hTakes hNone
    by_contra hSome
    rcases List.exists_mem_of_ne_nil _ hSome with ⟨m, hMem⟩
    rcases mem_run_iff.mp hMem with ⟨hInput, hEarly⟩
    have hLess :=
      hApace hEarly hTakes (a := c :: gap) (by simp)
        hInput.symm
    rw [← List.append_assoc t, ← List.cons_append,
      ← List.append_assoc (c :: gap)] at hInput
    rcases exists_append_of_le hInput.symm (by
        simp only [List.length_append] at hLess ⊢
        omega) with ⟨z, hText, -⟩
    apply run_ne_nil hAnywhere hEarly
    rw [← List.cons_append, hText] at hNone
    exact hNone

/-
  A head, a lazy loop and a steady pattern: if there is an
  early match in the longer text, its head ends before the
  later match does, so that it has the end of this match.
-/
theorem Steady.lazySeq
    {p : Char → Bool}
    {q : Pattern}
    (hSteady : Steady q)
    (hAll : ∀ c, p c = true)
    (hSole : Sole r)
    (hApace : Apace r)
    (hAnywhere : r.anywhere = true) :
    Steady (.seq r (.seq (.many false p) q)) where
  anywhere := by
    simp [Pattern.anywhere, hAnywhere, hSteady.anywhere]
  first := by
    intro prev input m more hFirst
    rcases hSole.exists_of_first_seq hFirst with
      ⟨x, g, n, rest, rfl, hHead, hNext, rfl⟩
    rcases exists_of_first_lazy hNext with
      ⟨gap, behind, k, rfl, hGap, hSkips, hLast, rfl⟩
    have hInput := hLast.input_eq
    rw [hInput] at hSkips
    have hMore := hSteady.first more hLast
    rw [List.append_assoc]
    apply first_seq (hSole.first
      (takes_anywhere hAnywhere hHead))
    rw [List.append_assoc]
    apply first_lazy (fun c _ => hAll c) ?_ hMore
    rw [hInput, List.append_assoc]
    exact hSteady.skips more hLast.takes hSkips
  none := by
    intro prev prev' c gap t rest rest' g more hTakes hNone
    by_contra hSome
    rcases List.exists_mem_of_ne_nil _ hSome with ⟨m, hMem⟩
    rcases mem_run_iff.mp hMem with ⟨hInput, hEarly⟩
    rcases hEarly with
      ⟨x, y, gx, gy, hHead, -, hText, -⟩
    rcases hTakes with
      ⟨x', y', gx', gy', hHead', ⟨k, w, gk, gw, hLoop, hEnd,
        rfl, rfl⟩, rfl, rfl⟩
    rw [hText] at hInput
    have hSame :
        x ++ (y ++ m.rest) =
          (c :: gap) ++ (x' ++ (k ++ w ++ (rest ++ more))) := by
      simpa using hInput.symm
    have hLess := hApace hHead hHead' (by simp) hSame
    rw [← List.append_assoc (c :: gap)] at hSame
    rcases exists_append_of_le hSame hLess with ⟨z, hz, -⟩
    have hWhole :
        (Pattern.seq r (.seq (.many false p) q)).Takes prev
          rest (x ++ (z ++ k ++ w)) (gx ++ ([] ++ gw)) :=
      ⟨x, z ++ k ++ w, gx, [] ++ gw,
        takes_anywhere hAnywhere hHead,
        ⟨z ++ k, w, [], gw, ⟨fun d _ => hAll d, rfl⟩,
          takes_anywhere hSteady.anywhere hEnd, rfl, rfl⟩,
        rfl, rfl⟩
    apply run_ne_nil ?_ hWhole rest
    · have hText :
          x ++ (z ++ k ++ w) ++ rest =
            c :: (gap ++ (x' ++ (k ++ w) ++ rest)) := by
        have hAgain := congrArg (· ++ (k ++ w ++ rest)) hz.symm
        simpa using hAgain
      rw [hText]
      exact hNone
    · simp [Pattern.anywhere, hAnywhere, hSteady.anywhere]

/- Steadiness is one of the matches. -/
theorem Steady.congr
    {r' : Pattern}
    (hSteady : Steady r)
    (hRun : ∀ prev input, r'.run prev input = r.run prev input)
    (hAnywhere : r'.anywhere = true) :
    Steady r' where
  anywhere := hAnywhere
  first := by
    intro prev input m more hFirst
    unfold First at hFirst ⊢
    rw [hRun] at hFirst ⊢
    exact hSteady.first more hFirst
  none := by
    intro prev prev' c gap t rest rest' g more hTakes hNone
    have hMem : ⟨t, rest', g⟩ ∈ r'.run prev' (t ++ rest') :=
      mem_run_iff.mpr ⟨rfl, hTakes⟩
    rw [hRun] at hMem hNone ⊢
    exact hSteady.none more (mem_run_iff.mp hMem).2 hNone

end Pattern

end Regex

------------------------------------------------------------
-- Cuts of Texts That Go On
------------------------------------------------------------

namespace Regex

namespace Pattern

variable {r : Pattern}
variable {prev prev' : Option Char}
variable {input more : Text}
variable {cuts later : List (Char ⊕ Match)}

/- A piece of a text that goes on. -/
def followedBy (more : Text) :
    Char ⊕ Match → Char ⊕ Match
| .inl c => .inl c
| .inr m => .inr ⟨m.text, m.rest ++ more, m.groups⟩

/- What is left of a text behind the last match of a cut. -/
def behind (input : Text) (cuts : List (Char ⊕ Match)) : Text :=
  (((cuts.filterMap Sum.getRight?).getLast?).map
    Match.rest).getD input

theorem behind_skip
    {c : Char}
    (hSome : cuts.filterMap Sum.getRight? ≠ []) :
    behind (c :: input) (.inl c :: cuts) = behind input cuts := by
  unfold behind
  rcases List.exists_cons_of_ne_nil hSome with ⟨m, ms, hCuts⟩
  rw [List.filterMap_cons_none rfl, hCuts, List.getLast?_cons]
  rfl

theorem behind_take (m : Match) :
    behind input (.inr m :: cuts) = behind m.rest cuts := by
  unfold behind
  have hMatches :
      (Sum.inr m :: cuts).filterMap Sum.getRight? =
        m :: cuts.filterMap Sum.getRight? :=
    rfl
  rw [hMatches, List.getLast?_cons]
  cases (cuts.filterMap Sum.getRight?).getLast? with
  | none => rfl
  | some n => rfl

/- A match of a cut stands in the text. -/
theorem Cuts.exists_take
    (hCuts : Cuts r prev input cuts)
    (hSome : cuts.filterMap Sum.getRight? ≠ []) :
    ∃ (gap : Text) (m : Match) (before : Option Char),
      input = gap ++ (m.text ++ m.rest) ∧
        r.Takes before m.rest m.text m.groups := by
  induction hCuts with
  | stop => exact absurd rfl hSome
  | skip hNone hRest ih =>
      rename_i prev c rest cuts
      rcases ih hSome with ⟨gap, m, before, hInput, hTakes⟩
      exact ⟨c :: gap, m, before, by rw [hInput]; rfl, hTakes⟩
  | take hFirst _ _ _ =>
      exact ⟨[], _, _, hFirst.input_eq, hFirst.takes⟩

/-
  The cut of a text that goes on begins with the cut of the
  text, if no match begins behind the last match of this one.
-/
theorem Cuts.append
    (hSteady : Steady r)
    (hCuts : Cuts r prev input cuts)
    (hBehind : Skips r none (behind input cuts) more)
    (hMore : Cuts r (lastOf prev input) more later) :
    Cuts r prev (input ++ more)
      (cuts.map (followedBy more) ++ later) := by
  induction hCuts with
  | stop => exact hMore
  | skip hNone hRest ih =>
      rename_i prev c rest cuts
      rw [lastOf_cons] at hMore
      by_cases hSome : cuts.filterMap Sum.getRight? = []
      · have hEach : behind (c :: rest) (.inl c :: cuts) =
            c :: rest := by
          unfold behind
          rw [List.filterMap_cons_none rfl, hSome]
          rfl
        have hLater : behind rest cuts = rest := by
          unfold behind
          rw [hSome]
          rfl
        rw [hEach] at hBehind
        apply Cuts.skip
        · rw [run_anywhere hSteady.anywhere prev none]
          exact hBehind.1
        · apply ih _ hMore
          rw [hLater]
          exact skips_anywhere hSteady.anywhere hBehind.2
      · rw [behind_skip hSome] at hBehind
        rcases hRest.exists_take hSome with
          ⟨gap, m, before, hInput, hTakes⟩
        apply Cuts.skip _ (ih hBehind hMore)
        rw [hInput] at hNone ⊢
        have hLonger := hSteady.none more hTakes hNone
        simpa using hLonger
  | take hFirst hSome hRest ih =>
      rename_i prev c rest m cuts
      rw [behind_take] at hBehind
      apply Cuts.take (hSteady.first more hFirst) hSome
      apply ih hBehind
      rw [hFirst.input_eq, lastOf_append] at hMore
      exact hMore

/- No match ends in such a text. -/
def Inert (r : Pattern) (more : Text) : Prop :=
  ∀ {prev rest text g}, r.Takes prev rest text g →
    ∃ x c, text = x ++ [c] ∧ c ∉ more

theorem Inert.skips
    (hInert : Inert r more)
    {gap : Text}
    (hGap : ∀ c ∈ gap, c ∈ more) :
    Skips r prev gap [] := by
  induction gap generalizing prev with
  | nil => trivial
  | cons c gap ih =>
      refine ⟨?_, ih fun d hd => hGap d (by simp [hd])⟩
      by_contra hSome
      rcases List.exists_mem_of_ne_nil _ hSome with ⟨m, hMem⟩
      rcases mem_run_iff.mp hMem with ⟨hInput, hTakes⟩
      rcases hInert hTakes with ⟨x, d, hText, hNot⟩
      apply hNot (hGap d _)
      rw [List.append_nil, hText] at hInput
      rw [hInput]
      simp

/- What is not matched is not where such a text follows. -/
theorem Inert.none
    (hInert : Inert r more)
    (hAnywhere : r.anywhere = true)
    (hNone : r.run prev input = []) :
    r.run prev (input ++ more) = [] := by
  by_contra hSome
  rcases List.exists_mem_of_ne_nil _ hSome with ⟨m, hMem⟩
  rcases mem_run_iff.mp hMem with ⟨hInput, hTakes⟩
  rcases hInert hTakes with ⟨x, d, hText, hNot⟩
  rcases List.append_eq_append_iff.mp hInput with
    ⟨z, hOver, hMore⟩ | ⟨z, hInside, -⟩
  · rcases List.eq_nil_or_concat z with rfl | ⟨w, c, rfl⟩
    · rw [List.append_nil] at hOver
      have hRun : r.run prev (m.text ++ []) ≠ [] :=
        run_ne_nil hAnywhere hTakes []
      rw [List.append_nil, hOver] at hRun
      exact hRun hNone
    · rw [hText, List.concat_eq_append, ← List.append_assoc]
        at hOver
      rcases List.append_inj' hOver rfl with ⟨-, hLast⟩
      cases hLast
      apply hNot
      rw [hMore]
      simp
  · have hRun : r.run prev (m.text ++ z) ≠ [] :=
      run_ne_nil hAnywhere hTakes z
    rw [← hInside] at hRun
    exact hRun hNone

/- Such a text adds no match. -/
theorem Cuts.append_inert
    (hSteady : Steady r)
    (hInert : Inert r more)
    (hCuts : Cuts r prev input cuts) :
    Cuts r prev (input ++ more)
      (cuts.map (followedBy more) ++ more.map .inl) := by
  induction hCuts with
  | stop => exact .of_skips_end (hInert.skips fun _ h => h)
  | skip hNone _ ih =>
      exact .skip (hInert.none hSteady.anywhere hNone) ih
  | take hFirst hSome _ ih =>
      exact .take (hSteady.first more hFirst) hSome ih

end Pattern

end Regex

------------------------------------------------------------
-- Cuts of Texts That Are Changed
------------------------------------------------------------

namespace Regex

namespace Pattern

variable {r : Pattern}
variable {prev prev' : Option Char}
variable {input front tail tail' : Text}
variable {cuts later later' : List (Char ⊕ Match)}

/- The text of a piece of a cut. -/
def pieceText : Char ⊕ Match → Text :=
  Sum.elim (fun c => [c]) Match.text

/- A cut does not depend on what stands before the text. -/
theorem Cuts.elsewhere
    (hAnywhere : r.anywhere = true)
    (hCuts : Cuts r prev input cuts) :
    Cuts r prev' input cuts := by
  cases hCuts with
  | stop => exact .stop
  | skip hNone hRest =>
      rw [run_anywhere hAnywhere prev prev'] at hNone
      exact .skip hNone hRest
  | take hFirst hSome hRest =>
      refine .take ?_ hSome ?_
      · unfold First at hFirst ⊢
        rwa [run_anywhere hAnywhere prev' prev]
      · rename_i c rest m cuts
        have hLast : m.last prev' = m.last prev := by
          unfold Match.last
          cases hText : m.text.getLast? with
          | none =>
              exact absurd (List.getLast?_eq_none_iff.mp hText)
                hSome
          | some d => rfl
        rwa [hLast]

/- A match of a cut, with what stands before and behind it. -/
theorem Cuts.split
    {m : Match}
    (hCuts : Cuts r prev input (cuts ++ .inr m :: later)) :
    input = cuts.flatMap pieceText ++ (m.text ++ m.rest) ∧
      ∃ before, First r before (m.text ++ m.rest) m ∧
        m.text ≠ [] ∧ Cuts r (m.last before) m.rest later := by
  induction cuts generalizing prev input with
  | nil =>
      cases hCuts with
      | take hFirst hSome hRest =>
          have hInput := hFirst.input_eq
          rw [hInput] at hFirst
          exact ⟨hInput, prev, hFirst, hSome, hRest⟩
  | cons piece cuts ih =>
      cases hCuts with
      | skip hNone hRest =>
          rcases ih hRest with ⟨rfl, hMore⟩
          exact ⟨rfl, hMore⟩
      | take hFirst hSome hRest =>
          rename_i n c rest
          have hInput := hFirst.input_eq
          rcases ih hRest with ⟨hTail, hMore⟩
          refine ⟨?_, hMore⟩
          rw [hInput, hTail, List.flatMap_cons,
            List.append_assoc]
          rfl

/- What a cut says of a match, wherever it stands. -/
def told : Char ⊕ Match → Char ⊕ Text × List (Nat × Text) :=
  Sum.map id fun m => (m.text, m.groups)

/-
  Behind a part of a text stands another text. The cut of the
  part stays, if its matches do not depend on what follows
  and no match begins where there was none.
-/
theorem Cuts.exchange
    (hFirst :
      ∀ {prev t rest g}, First r prev (t ++ rest) ⟨t, rest, g⟩ →
        ∀ rest', First r prev (t ++ rest') ⟨t, rest', g⟩)
    (hCuts : Cuts r prev (front ++ tail) (cuts ++ later))
    (hFront : cuts.flatMap pieceText = front)
    (hNone :
      ∀ {prev c gap}, (c :: gap) <:+ front →
        r.run prev (c :: (gap ++ tail)) = [] →
          r.run prev (c :: (gap ++ tail')) = [])
    (hLater : Cuts r (lastOf prev front) tail' later') :
    ∃ cuts', Cuts r prev (front ++ tail') (cuts' ++ later') ∧
      cuts'.map told = cuts.map told := by
  induction cuts generalizing prev front with
  | nil =>
      subst hFront
      exact ⟨[], hLater, rfl⟩
  | cons piece cuts ih =>
      rw [List.flatMap_cons] at hFront
      generalize hRest : cuts.flatMap pieceText = rest at hFront
      subst hFront
      have hInner :
          ∀ {prev c gap}, (c :: gap) <:+ rest →
            r.run prev (c :: (gap ++ tail)) = [] →
              r.run prev (c :: (gap ++ tail')) = [] :=
        fun hGap => hNone (hGap.trans (List.suffix_append ..))
      rw [lastOf_append] at hLater
      rw [List.append_assoc] at hCuts ⊢
      cases piece with
      | inl c =>
          cases hCuts with
          | skip hHere hMore =>
              rcases ih hMore hRest hInner hLater with
                ⟨cuts', hCuts', hTold⟩
              refine ⟨.inl c :: cuts', ?_, ?_⟩
              · exact .skip (hNone List.suffix_rfl hHere) hCuts'
              · rw [List.map_cons, List.map_cons, hTold]
      | inr m =>
          change Cuts r prev (m.text ++ (rest ++ tail))
            (.inr m :: (cuts ++ later)) at hCuts
          change Cuts r (lastOf (m.last prev) rest) tail' later'
            at hLater
          generalize hInput : m.text ++ (rest ++ tail) = input
            at hCuts
          cases hCuts with
          | take hHere hSome hMore =>
              have hLeft : m.rest = rest ++ tail := by
                rw [hHere.input_eq] at hInput
                exact (List.append_cancel_left hInput).symm
              rw [hLeft] at hMore
              rcases ih hMore hRest hInner hLater with
                ⟨cuts', hCuts', hTold⟩
              have hOld :
                  First r prev (m.text ++ (rest ++ tail))
                    ⟨m.text, rest ++ tail, m.groups⟩ := by
                rw [hInput, ← hLeft]
                exact hHere
              have hNew := hFirst hOld (rest ++ tail')
              refine ⟨.inr ⟨m.text, rest ++ tail', m.groups⟩ ::
                cuts', ?_, ?_⟩
              · change Cuts r prev (m.text ++ (rest ++ tail')) _
                rcases List.exists_cons_of_ne_nil hSome with
                  ⟨d, t, hText⟩
                generalize hWhole :
                  m.text ++ (rest ++ tail') = whole at hNew ⊢
                rw [hText, List.cons_append] at hWhole
                subst hWhole
                exact .take hNew hSome hCuts'
              · rw [List.map_cons, List.map_cons, hTold]
                rfl

end Pattern

end Regex
