import Soteria.Foundation.Regex

/-
  What the matches of a regular expression are, without the
  order they are tried in.

  Key definitions include:
    * `Regex.Pattern.Takes`
    * `Regex.Pattern.mem_run_iff`
    * `Regex.Pattern.wholly`, `Regex.Pattern.First`
    * `Regex.Pattern.Anchored`
-/

------------------------------------------------------------
-- Texts That Are Taken
------------------------------------------------------------

namespace Regex

/-
  A property of the first character is decided there, not
  over all characters.
-/
instance decidableForallFirst
    (first : Option Char)
    (p : Char → Prop)
    [DecidablePred p] :
    Decidable (∀ c ∈ first, p c) :=
  match first with
  | none => isTrue (by simp)
  | some c => decidable_of_iff (p c) (by simp)

/- Behind this character a line starts. -/
def startsLine (prev : Option Char) : Prop :=
  prev = none ∨ prev = some '\n'

/- In front of this text a line ends. -/
def endsLine (rest : Text) : Prop :=
  rest.head? = none ∨ rest.head? = some '\n'

namespace Pattern

/-
  The pattern takes the text between `prev` and `rest`, and
  the groups are these.
-/
def Takes :
    Pattern → Option Char → Text → Text →
      List (Nat × Text) → Prop
| .empty, _, _, text, groups => text = [] ∧ groups = []
| .one p, _, _, text, groups =>
    ∃ c, p c = true ∧ text = [c] ∧ groups = []
| .many _ p, _, _, text, groups =>
    (∀ c ∈ text, p c = true) ∧ groups = []
| .seq first second, prev, rest, text, groups =>
    ∃ x y gx gy,
      first.Takes prev (y ++ rest) x gx ∧
        second.Takes (x.getLast?.or prev) rest y gy ∧
          text = x ++ y ∧ groups = gx ++ gy
| .alt preferred other, prev, rest, text, groups =>
    preferred.Takes prev rest text groups ∨
      other.Takes prev rest text groups
| .group index inner, prev, rest, text, groups =>
    ∃ more,
      inner.Takes prev rest text more ∧
        groups = (index, text) :: more
| .lineStart, prev, _, text, groups =>
    startsLine prev ∧ text = [] ∧ groups = []
| .lineEnd, _, rest, text, groups =>
    endsLine rest ∧ text = [] ∧ groups = []

end Pattern

theorem mem_spans
    {p : Char → Bool}
    {input : Text}
    {split : Text × Text} :
    split ∈ spans p input ↔
      input = split.1 ++ split.2 ∧ ∀ c ∈ split.1, p c = true := by
  induction input generalizing split with
  | nil =>
      rcases split with ⟨a, b⟩
      constructor
      · intro hMem
        cases List.mem_singleton.mp hMem
        exact ⟨rfl, by simp⟩
      · rintro ⟨hNil, _⟩
        rcases List.append_eq_nil_iff.mp hNil.symm with
          ⟨hFirst, hRest⟩
        apply List.mem_singleton.mpr
        exact Prod.ext hFirst hRest
  | cons c input ih =>
      rcases split with ⟨a, b⟩
      rw [spans, List.mem_cons]
      constructor
      · rintro (hEq | hMem)
        · cases hEq
          exact ⟨rfl, by simp⟩
        · split at hMem
          · rename_i hp
            rcases List.mem_map.mp hMem with
              ⟨⟨x, y⟩, hxy, hEq⟩
            cases hEq
            rcases ih.mp hxy with ⟨hInput, hAll⟩
            refine ⟨congrArg (c :: ·) hInput, ?_⟩
            intro d hd
            rcases List.mem_cons.mp hd with rfl | hd
            · exact hp
            · exact hAll d hd
          · cases hMem
      · rintro ⟨hInput, hAll⟩
        cases a with
        | nil =>
            left
            exact Prod.ext rfl hInput.symm
        | cons d a =>
            cases hInput
            right
            have hp := hAll c (List.mem_cons_self ..)
            rw [if_pos hp]
            apply List.mem_map.mpr
            refine ⟨(a, b), ih.mpr ⟨rfl, ?_⟩, rfl⟩
            exact fun d hd => hAll d (List.mem_cons_of_mem _ hd)

namespace Pattern

/- The matches at a position are the texts that are taken. -/
theorem mem_run_iff
    {r : Pattern}
    {prev : Option Char}
    {input : Text}
    {m : Match} :
    m ∈ r.run prev input ↔
      input = m.text ++ m.rest ∧
        r.Takes prev m.rest m.text m.groups := by
  induction r generalizing prev input m with
  | empty =>
      rcases m with ⟨text, rest, groups⟩
      simp only [run, Takes, List.mem_singleton,
        Match.mk.injEq]
      constructor
      · rintro ⟨rfl, rfl, rfl⟩
        exact ⟨rfl, rfl, rfl⟩
      · rintro ⟨rfl, rfl, rfl⟩
        exact ⟨rfl, rfl, rfl⟩
  | one p =>
      rcases m with ⟨text, rest, groups⟩
      cases input with
      | nil =>
          simp only [run, Takes, List.not_mem_nil, false_iff]
          rintro ⟨hNil, c, _, rfl, _⟩
          cases hNil
      | cons c input =>
          simp only [run, Takes]
          constructor
          · intro hMem
            split at hMem
            · rename_i hp
              cases List.mem_singleton.mp hMem
              exact ⟨rfl, c, hp, rfl, rfl⟩
            · cases hMem
          · rintro ⟨hInput, d, hd, rfl, rfl⟩
            cases hInput
            rw [if_pos hd]
            exact List.mem_singleton.mpr rfl
  | many greedy p =>
      rcases m with ⟨text, rest, groups⟩
      simp only [run, Takes]
      have hSplits :
          ∀ split : Text × Text,
            (split ∈ if greedy then (spans p input).reverse
              else spans p input) ↔ split ∈ spans p input := by
        intro split
        cases greedy with
        | true => exact List.mem_reverse
        | false => exact Iff.rfl
      constructor
      · intro hMem
        rcases List.mem_map.mp hMem with ⟨split, hs, hEq⟩
        cases hEq
        rcases mem_spans.mp ((hSplits split).mp hs) with
          ⟨hInput, hAll⟩
        exact ⟨hInput, hAll, rfl⟩
      · rintro ⟨hInput, hAll, rfl⟩
        apply List.mem_map.mpr
        refine ⟨(text, rest), ?_, rfl⟩
        exact (hSplits _).mpr (mem_spans.mpr ⟨hInput, hAll⟩)
  | seq first second ihFirst ihSecond =>
      rcases m with ⟨text, rest, groups⟩
      simp only [run, Takes]
      constructor
      · intro hMem
        rcases List.mem_flatMap.mp hMem with ⟨a, ha, hb⟩
        rcases List.mem_map.mp hb with ⟨b, hSecondRun, hEq⟩
        cases hEq
        rcases ihFirst.mp ha with ⟨hInput, hFirst⟩
        rcases ihSecond.mp hSecondRun with ⟨hRest, hSecond⟩
        rw [hRest] at hFirst
        refine ⟨?_, a.text, b.text, a.groups, b.groups, hFirst,
          hSecond, rfl, rfl⟩
        rw [hInput, hRest, List.append_assoc]
      · rintro ⟨hInput, x, y, gx, gy, hFirst, hSecond, rfl, rfl⟩
        apply List.mem_flatMap.mpr
        refine ⟨⟨x, y ++ rest, gx⟩, ?_, ?_⟩
        · apply ihFirst.mpr
          exact ⟨by rw [hInput, List.append_assoc], hFirst⟩
        · apply List.mem_map.mpr
          refine ⟨⟨y, rest, gy⟩, ?_, rfl⟩
          apply ihSecond.mpr
          exact ⟨rfl, hSecond⟩
  | alt preferred other ihPreferred ihOther =>
      simp only [run, Takes, List.mem_append, ihPreferred,
        ihOther]
      constructor
      · rintro (⟨hInput, hTakes⟩ | ⟨hInput, hTakes⟩)
        · exact ⟨hInput, Or.inl hTakes⟩
        · exact ⟨hInput, Or.inr hTakes⟩
      · rintro ⟨hInput, hTakes | hTakes⟩
        · exact Or.inl ⟨hInput, hTakes⟩
        · exact Or.inr ⟨hInput, hTakes⟩
  | group index inner ih =>
      rcases m with ⟨text, rest, groups⟩
      simp only [run, Takes]
      constructor
      · intro hMem
        rcases List.mem_map.mp hMem with ⟨a, ha, hEq⟩
        cases hEq
        rcases ih.mp ha with ⟨hInput, hTakes⟩
        exact ⟨hInput, a.groups, hTakes, rfl⟩
      · rintro ⟨hInput, more, hTakes, rfl⟩
        apply List.mem_map.mpr
        exact ⟨⟨text, rest, more⟩, ih.mpr ⟨hInput, hTakes⟩, rfl⟩
  | lineStart =>
      rcases m with ⟨text, rest, groups⟩
      simp only [run, Takes, startsLine]
      constructor
      · intro hMem
        split at hMem
        · rename_i hStart
          cases List.mem_singleton.mp hMem
          exact ⟨rfl, by simpa using hStart, rfl, rfl⟩
        · cases hMem
      · rintro ⟨rfl, hStart, rfl, rfl⟩
        rw [if_pos (by simpa using hStart)]
        exact List.mem_singleton.mpr rfl
  | lineEnd =>
      rcases m with ⟨text, rest, groups⟩
      simp only [run, Takes, endsLine]
      constructor
      · intro hMem
        split at hMem
        · rename_i hEnd
          cases List.mem_singleton.mp hMem
          exact ⟨rfl, by simpa using hEnd, rfl, rfl⟩
        · cases hMem
      · rintro ⟨rfl, hEnd, rfl, rfl⟩
        rw [List.nil_append, if_pos (by simpa using hEnd)]
        exact List.mem_singleton.mpr rfl

end Pattern

end Regex

------------------------------------------------------------
-- Literals and Whole Texts
------------------------------------------------------------

namespace Regex

namespace Pattern

theorem takes_lit
    {s : Text}
    {prev : Option Char}
    {rest text : Text}
    {groups : List (Nat × Text)} :
    (lit s).Takes prev rest text groups ↔
      text = s ∧ groups = [] := by
  induction s generalizing prev text groups with
  | nil => exact Iff.rfl
  | cons c s ih =>
      constructor
      · rintro ⟨x, y, gx, gy, ⟨d, hd, rfl, rfl⟩, hRest, rfl, rfl⟩
        rcases ih.mp hRest with ⟨rfl, rfl⟩
        have hChar : d = c := by simpa using hd
        rw [hChar]
        exact ⟨rfl, rfl⟩
      · rintro ⟨rfl, rfl⟩
        exact ⟨[c], s, [], [], ⟨c, beq_self_eq_true c, rfl, rfl⟩,
          ih.mpr ⟨rfl, rfl⟩, rfl, rfl⟩

theorem takes_plus
    {p : Char → Bool}
    {prev : Option Char}
    {rest text : Text}
    {groups : List (Nat × Text)} :
    (plus p).Takes prev rest text groups ↔
      text ≠ [] ∧ (∀ c ∈ text, p c = true) ∧ groups = [] := by
  constructor
  · rintro ⟨x, y, gx, gy, ⟨c, hc, rfl, rfl⟩, ⟨hAll, rfl⟩, rfl,
      rfl⟩
    refine ⟨by simp, ?_, rfl⟩
    intro d hd
    rcases List.mem_cons.mp hd with rfl | hd
    · exact hc
    · exact hAll d hd
  · rintro ⟨hSome, hAll, rfl⟩
    rcases List.exists_cons_of_ne_nil hSome with ⟨c, y, rfl⟩
    exact ⟨[c], y, [], [],
      ⟨c, hAll c (List.mem_cons_self ..), rfl, rfl⟩,
      ⟨fun d hd => hAll d (List.mem_cons_of_mem _ hd), rfl⟩,
      rfl, rfl⟩

/- The whole text is a match at the start of a text. -/
def wholly (r : Pattern) (s : Text) : Bool :=
  (r.run none s).any (·.rest.isEmpty)

theorem wholly_iff {r : Pattern} {s : Text} :
    r.wholly s = true ↔ ∃ groups, r.Takes none [] s groups := by
  unfold wholly
  rw [List.any_eq_true]
  constructor
  · rintro ⟨⟨text, rest, groups⟩, hMem, hRest⟩
    rcases mem_run_iff.mp hMem with ⟨hInput, hTakes⟩
    have hEnd : rest = [] := List.isEmpty_iff.mp hRest
    subst hEnd
    have hText : s = text := by simpa using hInput
    subst hText
    exact ⟨groups, hTakes⟩
  · rintro ⟨groups, hTakes⟩
    refine ⟨⟨s, [], groups⟩, ?_, rfl⟩
    apply mem_run_iff.mpr
    exact ⟨(List.append_nil s).symm, hTakes⟩

theorem findFrom_here
    {r : Pattern}
    {prev : Option Char}
    {input : Text}
    {m : Match}
    (hHead : (r.run prev input).head? = some m) :
    r.findFrom prev input = some m := by
  cases input with
  | nil => exact hHead
  | cons c rest =>
      unfold findFrom
      rw [hHead]

theorem findFrom_later
    {r : Pattern}
    {prev : Option Char}
    {c : Char}
    {rest : Text}
    (hNone : r.run prev (c :: rest) = []) :
    r.findFrom prev (c :: rest) = r.findFrom (some c) rest := by
  rw [findFrom, hNone]
  rfl

end Pattern

end Regex

------------------------------------------------------------
-- First Matches
------------------------------------------------------------

namespace Regex

namespace Pattern

/- The match that is tried first, of those there are. -/
def First
    (r : Pattern)
    (prev : Option Char)
    (input : Text)
    (m : Match) : Prop :=
  (r.run prev input).head? = some m

theorem first_empty
    {prev : Option Char}
    {input : Text} :
    First .empty prev input ⟨[], input, []⟩ :=
  rfl

theorem first_seq
    {first second : Pattern}
    {prev : Option Char}
    {input x y rest rest' : Text}
    {gx gy : List (Nat × Text)}
    (hFirst : First first prev input ⟨x, rest, gx⟩)
    (hSecond :
      First second (x.getLast?.or prev) rest ⟨y, rest', gy⟩) :
    First (.seq first second) prev input
      ⟨x ++ y, rest', gx ++ gy⟩ := by
  unfold First at hFirst hSecond ⊢
  cases hRun : first.run prev input with
  | nil =>
      rw [hRun] at hFirst
      cases hFirst
  | cons m others =>
      rw [hRun] at hFirst
      cases hFirst
      cases hNext : second.run (x.getLast?.or prev) rest with
      | nil =>
          rw [hNext] at hSecond
          cases hSecond
      | cons n later =>
          rw [hNext] at hSecond
          cases hSecond
          simp only [run, hRun, List.flatMap_cons, Match.last,
            hNext, List.map_cons, List.cons_append]
          rfl

theorem first_alt
    {preferred other : Pattern}
    {prev : Option Char}
    {input : Text}
    {m : Match}
    (hFirst : First preferred prev input m) :
    First (.alt preferred other) prev input m := by
  unfold First at hFirst ⊢
  rw [run, List.head?_append, hFirst]
  rfl

theorem first_other
    {preferred other : Pattern}
    {prev : Option Char}
    {input : Text}
    {m : Match}
    (hNone : preferred.run prev input = [])
    (hFirst : First other prev input m) :
    First (.alt preferred other) prev input m := by
  unfold First at hFirst ⊢
  rw [run, hNone, List.nil_append]
  exact hFirst

theorem first_group
    {index : Nat}
    {inner : Pattern}
    {prev : Option Char}
    {input text rest : Text}
    {groups : List (Nat × Text)}
    (hFirst : First inner prev input ⟨text, rest, groups⟩) :
    First (.group index inner) prev input
      ⟨text, rest, (index, text) :: groups⟩ := by
  unfold First at hFirst ⊢
  rw [run, List.head?_map, hFirst]
  rfl

theorem first_lit
    {prev : Option Char}
    (s rest : Text) :
    First (lit s) prev (s ++ rest) ⟨s, rest, []⟩ := by
  induction s generalizing prev with
  | nil => rfl
  | cons c s ih =>
      have hOne :
          First (.one (· == c)) prev (c :: (s ++ rest))
            ⟨[c], s ++ rest, []⟩ := by
        unfold First run
        rw [if_pos (beq_self_eq_true c)]
        rfl
      exact first_seq hOne ih

/- A loop takes all it can if it is greedy. -/
theorem first_many
    {p : Char → Bool}
    {prev : Option Char}
    {s rest : Text}
    (hAll : ∀ c ∈ s, p c = true)
    (hEnd : ∀ c ∈ rest.head?, p c = false) :
    First (.many true p) prev (s ++ rest) ⟨s, rest, []⟩ := by
  have hLast :
      (spans p (s ++ rest)).getLast? = some (s, rest) := by
    induction s with
    | nil =>
        cases rest with
        | nil => rfl
        | cons c rest =>
            have hNot : p c = false := hEnd c rfl
            rw [List.nil_append, spans, if_neg (by simp [hNot])]
            rfl
    | cons c s ih =>
        have hc := hAll c (List.mem_cons_self ..)
        have hRest :=
          ih fun d hd => hAll d (List.mem_cons_of_mem _ hd)
        have hSome : spans p (s ++ rest) ≠ [] := by
          intro hNil
          rw [hNil] at hRest
          cases hRest
        rw [List.cons_append, spans, if_pos hc,
          List.getLast?_cons, List.getLast?_map, hRest]
        rfl
  unfold First run
  rw [if_pos rfl, List.head?_map, List.head?_reverse, hLast]
  rfl

theorem first_plus
    {p : Char → Bool}
    {prev : Option Char}
    {s rest : Text}
    (hSome : s ≠ [])
    (hAll : ∀ c ∈ s, p c = true)
    (hEnd : ∀ c ∈ rest.head?, p c = false) :
    First (plus p) prev (s ++ rest) ⟨s, rest, []⟩ := by
  rcases List.exists_cons_of_ne_nil hSome with ⟨c, s, rfl⟩
  have hc := hAll c (List.mem_cons_self ..)
  have hOne :
      First (.one p) prev (c :: (s ++ rest))
        ⟨[c], s ++ rest, []⟩ := by
    unfold First run
    rw [if_pos hc]
    rfl
  exact first_seq hOne
    (first_many (fun d hd => hAll d (List.mem_cons_of_mem _ hd))
      hEnd)

theorem first_lineStart
    {prev : Option Char}
    {input : Text}
    (hStart : startsLine prev) :
    First .lineStart prev input ⟨[], input, []⟩ := by
  rcases hStart with rfl | rfl
  · rfl
  · rfl

theorem first_lineEnd
    {prev : Option Char}
    {input : Text}
    (hEnd : endsLine input) :
    First .lineEnd prev input ⟨[], input, []⟩ := by
  unfold First run
  rw [if_pos (by simpa [endsLine] using hEnd)]
  rfl

/- Every match is at the start of a line. -/
def Anchored (r : Pattern) : Prop :=
  ∀ prev rest text groups,
    r.Takes prev rest text groups → startsLine prev

theorem anchored_lineStart : Anchored .lineStart :=
  fun _ _ _ _ hTakes => hTakes.1

theorem Anchored.seq
    {first : Pattern}
    (hFirst : Anchored first)
    (second : Pattern) :
    Anchored (.seq first second) := by
  rintro prev rest text groups ⟨x, y, gx, gy, hTakes, _⟩
  exact hFirst prev (y ++ rest) x gx hTakes

theorem Anchored.run_eq_nil
    {r : Pattern}
    {c : Char}
    (hAnchored : r.Anchored)
    (hInside : c ≠ '\n')
    (input : Text) :
    r.run (some c) input = [] := by
  apply List.eq_nil_iff_forall_not_mem.mpr
  intro m hMem
  rcases mem_run_iff.mp hMem with ⟨_, hTakes⟩
  rcases hAnchored _ _ _ _ hTakes with hNone | hSame
  · cases hNone
  · exact hInside (Option.some.inj hSame)

/- An anchored pattern is looked for at the starts of lines. -/
theorem Anchored.findFrom_line
    {r : Pattern}
    {prev : Option Char}
    {line rest : Text}
    (hAnchored : r.Anchored)
    (hLine : '\n' ∉ line)
    (hNone : r.run prev (line ++ '\n' :: rest) = []) :
    r.findFrom prev (line ++ '\n' :: rest) =
      r.findFrom (some '\n') rest := by
  induction line generalizing prev with
  | nil => exact findFrom_later hNone
  | cons c line ih =>
      rw [List.cons_append] at hNone ⊢
      rw [findFrom_later hNone]
      have hLater : '\n' ∉ line :=
        fun h => hLine (List.mem_cons_of_mem _ h)
      apply ih hLater
      have hInside : c ≠ '\n' := by
        rintro rfl
        exact hLine (List.mem_cons_self ..)
      exact hAnchored.run_eq_nil hInside _

end Pattern

end Regex
