import Soteria.Foundation.Matches

/-
  All occurrences of a regular expression in a text, as the
  cut of the text into characters between the matches and
  the matches themselves.

  Key definitions include:
    * `Regex.Pattern.findAll`
    * `Regex.Pattern.Skips`
    * `Regex.Pattern.Cuts`
    * `Regex.Pattern.Cuts.replaceAll`,
      `Regex.Pattern.Cuts.findAll`
-/

------------------------------------------------------------
-- Finding All
------------------------------------------------------------

namespace Regex

namespace Pattern

/- The matches from a position on, one behind the other. -/
def findAllFrom (r : Pattern) :
    Nat → Option Char → Text → List Match
| 0, _, _ => []
| _ + 1, _, [] => []
| fuel + 1, prev, c :: rest =>
    match (r.run prev (c :: rest)).head? with
    | some m => m :: r.findAllFrom fuel (m.last prev) m.rest
    | none => r.findAllFrom fuel (some c) rest

/-
  `FindAllStringSubmatch`, for a pattern that matches no
  empty text.
-/
def findAll (r : Pattern) (s : Text) : List Match :=
  r.findAllFrom s.length none s

/- The text itself, whatever the case of its letters. -/
def litFold (s : Text) : Pattern :=
  s.foldr
    (fun c rest =>
      .seq (.one fun d => Text.foldChar d == Text.foldChar c)
        rest) .empty

/- `+?` over a class. -/
def plusLazy (p : Char → Bool) : Pattern :=
  .seq (.one p) (.many false p)

end Pattern

end Regex

------------------------------------------------------------
-- Texts Without a Match
------------------------------------------------------------

namespace Regex

namespace Pattern

/- The character before what follows a text. -/
def lastOf (prev : Option Char) (s : Text) : Option Char :=
  s.getLast?.or prev

@[simp] theorem lastOf_nil (prev : Option Char) :
    lastOf prev [] = prev := rfl

theorem lastOf_cons
    (prev : Option Char)
    (c : Char)
    (s : Text) :
    lastOf prev (c :: s) = lastOf (some c) s := by
  unfold lastOf
  cases hLast : s.getLast? with
  | none =>
      have hNone : s = [] := List.getLast?_eq_none_iff.mp hLast
      subst hNone
      rfl
  | some d =>
      rw [List.getLast?_cons, hLast]
      rfl

theorem lastOf_append
    (prev : Option Char)
    (s t : Text) :
    lastOf prev (s ++ t) = lastOf (lastOf prev s) t := by
  induction s generalizing prev with
  | nil => rfl
  | cons c s ih => rw [List.cons_append, lastOf_cons, ih,
      lastOf_cons]

/-
  No match starts inside the first text, which comes before
  the second.
-/
def Skips (r : Pattern) :
    Option Char → Text → Text → Prop
| _, [], _ => True
| prev, c :: gap, rest =>
    r.run prev (c :: (gap ++ rest)) = [] ∧
      Skips r (some c) gap rest

variable {r : Pattern}
variable {prev : Option Char}

theorem skips_append
    {gap more rest : Text} :
    Skips r prev (gap ++ more) rest ↔
      Skips r prev gap (more ++ rest) ∧
        Skips r (lastOf prev gap) more rest := by
  induction gap generalizing prev with
  | nil => simp [Skips]
  | cons c gap ih =>
      rw [List.cons_append, Skips, Skips, ih, lastOf_cons,
        List.append_assoc, and_assoc]

theorem findFrom_skips
    {gap rest : Text}
    (hSkips : Skips r prev gap rest) :
    r.findFrom prev (gap ++ rest) =
      r.findFrom (lastOf prev gap) rest := by
  induction gap generalizing prev with
  | nil => rfl
  | cons c gap ih =>
      rw [List.cons_append, findFrom_later hSkips.1,
        ih hSkips.2, lastOf_cons]

/- A pattern whose matches start with a class skips others. -/
theorem skips_of_first
    {first : Char → Bool}
    (hFirst : ∀ prev c rest, first c = false →
      r.run prev (c :: rest) = [])
    {gap : Text}
    (hGap : ∀ c ∈ gap, first c = false)
    (rest : Text) :
    Skips r prev gap rest := by
  induction gap generalizing prev with
  | nil => trivial
  | cons c gap ih =>
      refine ⟨hFirst _ _ _ (hGap c (List.mem_cons_self ..)), ?_⟩
      exact ih fun d hd => hGap d (List.mem_cons_of_mem _ hd)

end Pattern

end Regex

------------------------------------------------------------
-- Cuts
------------------------------------------------------------

namespace Regex

namespace Pattern

/-
  The cut of a text into the characters that no match covers
  and the matches, as a scan from the left finds them.
-/
inductive Cuts (r : Pattern) :
    Option Char → Text → List (Char ⊕ Match) → Prop where
  | stop {prev : Option Char} : Cuts r prev [] []
  | skip {prev : Option Char} {c : Char} {rest : Text}
      {cuts : List (Char ⊕ Match)} :
      r.run prev (c :: rest) = [] →
        Cuts r (some c) rest cuts →
          Cuts r prev (c :: rest) (.inl c :: cuts)
  | take {prev : Option Char} {c : Char} {rest : Text}
      {m : Match} {cuts : List (Char ⊕ Match)} :
      First r prev (c :: rest) m →
        m.text ≠ [] →
          Cuts r (m.last prev) m.rest cuts →
            Cuts r prev (c :: rest) (.inr m :: cuts)

variable {r : Pattern}
variable {prev : Option Char}
variable {input : Text}
variable {cuts : List (Char ⊕ Match)}

/- The text of a match comes before what is left. -/
theorem First.input_eq
    {m : Match}
    (hFirst : First r prev input m) :
    input = m.text ++ m.rest :=
  (mem_run_iff.mp (List.mem_of_mem_head? hFirst)).1

theorem First.takes
    {m : Match}
    (hFirst : First r prev input m) :
    r.Takes prev m.rest m.text m.groups :=
  (mem_run_iff.mp (List.mem_of_mem_head? hFirst)).2

theorem First.rest_lt
    {m : Match}
    (hFirst : First r prev input m)
    (hSome : m.text ≠ []) :
    m.rest.length < input.length := by
  have hLength := congrArg List.length hFirst.input_eq
  have hPositive := List.length_pos_of_ne_nil hSome
  rw [List.length_append] at hLength
  omega

theorem Cuts.replaceFrom
    (hCuts : Cuts r prev input cuts)
    (f : Text → Text)
    {fuel : Nat}
    (hFuel : input.length ≤ fuel) :
    r.replaceFrom f fuel prev input =
      cuts.flatMap
        (Sum.elim (fun c => [c]) fun m => f m.text) := by
  induction hCuts generalizing fuel with
  | stop =>
      cases fuel with
      | zero => rfl
      | succ fuel => rfl
  | skip hNone _ ih =>
      cases fuel with
      | zero => simp at hFuel
      | succ fuel =>
          have hRest := @ih fuel (by
            simpa using hFuel)
          rw [Pattern.replaceFrom, hNone]
          show _ :: r.replaceFrom f fuel _ _ = _
          rw [hRest]
          rfl
  | take hFirst hSome _ ih =>
      cases fuel with
      | zero => simp at hFuel
      | succ fuel =>
          have hLess := hFirst.rest_lt hSome
          have hRest := @ih fuel (by omega)
          rw [Pattern.replaceFrom, hFirst]
          show _ ++ r.replaceFrom f fuel _ _ = _
          rw [hRest]
          rfl

/- `ReplaceAllStringFunc` maps the matches of the cut. -/
theorem Cuts.replaceAll
    {s : Text}
    (hCuts : Cuts r none s cuts)
    (f : Text → Text) :
    r.replaceAll f s =
      cuts.flatMap
        (Sum.elim (fun c => [c]) fun m => f m.text) :=
  hCuts.replaceFrom f le_rfl

theorem Cuts.findAllFrom
    (hCuts : Cuts r prev input cuts)
    {fuel : Nat}
    (hFuel : input.length ≤ fuel) :
    r.findAllFrom fuel prev input =
      cuts.filterMap Sum.getRight? := by
  induction hCuts generalizing fuel with
  | stop =>
      cases fuel with
      | zero => rfl
      | succ fuel => rfl
  | skip hNone _ ih =>
      cases fuel with
      | zero => simp at hFuel
      | succ fuel =>
          have hRest := @ih fuel (by
            simpa using hFuel)
          rw [Pattern.findAllFrom, hNone]
          exact hRest
  | take hFirst hSome _ ih =>
      cases fuel with
      | zero => simp at hFuel
      | succ fuel =>
          have hLess := hFirst.rest_lt hSome
          have hRest := @ih fuel (by omega)
          rw [Pattern.findAllFrom, hFirst]
          show _ :: r.findAllFrom fuel _ _ = _
          rw [hRest]
          rfl

/- `FindAllStringSubmatch` lists the matches of the cut. -/
theorem Cuts.findAll
    {s : Text}
    (hCuts : Cuts r none s cuts) :
    r.findAll s = cuts.filterMap Sum.getRight? :=
  hCuts.findAllFrom le_rfl

theorem Cuts.of_skips
    {gap rest : Text}
    (hSkips : Skips r prev gap rest)
    (hCuts : Cuts r (lastOf prev gap) rest cuts) :
    Cuts r prev (gap ++ rest) (gap.map .inl ++ cuts) := by
  induction gap generalizing prev with
  | nil => exact hCuts
  | cons c gap ih =>
      rw [lastOf_cons] at hCuts
      exact .skip hSkips.1 (ih hSkips.2 hCuts)

/- A text in which nothing matches is cut into characters. -/
theorem Cuts.of_skips_end
    {gap : Text}
    (hSkips : Skips r prev gap []) :
    Cuts r prev gap (gap.map .inl) := by
  have hCuts := Cuts.of_skips hSkips .stop
  rwa [List.append_nil, List.append_nil] at hCuts

theorem Cuts.of_first
    {input : Text}
    {m : Match}
    {cuts : List (Char ⊕ Match)}
    (hFirst : First r prev input m)
    (hSome : m.text ≠ [])
    (hRest : Cuts r (m.last prev) m.rest cuts) :
    Cuts r prev input (.inr m :: cuts) := by
  cases input with
  | nil =>
      have hNone := hFirst.input_eq
      rw [List.nil_eq_append_iff] at hNone
      exact absurd hNone.1 hSome
  | cons c input => exact .take hFirst hSome hRest

/- Every text has a cut, if no match is empty. -/
theorem exists_cuts
    (hSome : ∀ prev input m, First r prev input m →
      m.text ≠ [])
    (prev : Option Char)
    (input : Text) :
    ∃ cuts, Cuts r prev input cuts := by
  induction hLength : input.length using Nat.strong_induction_on
    generalizing prev input with
  | _ n ih =>
      cases input with
      | nil => exact ⟨[], .stop⟩
      | cons c rest =>
          cases hRun : (r.run prev (c :: rest)).head? with
          | none =>
              rcases ih rest.length (by
                  rw [← hLength]
                  exact Nat.lt_succ_self _) (some c) rest rfl with
                ⟨cuts, hCuts⟩
              exact ⟨_, .skip (List.head?_eq_none_iff.mp hRun)
                hCuts⟩
          | some m =>
              have hFirst : First r prev (c :: rest) m := hRun
              have hText := hSome _ _ _ hFirst
              have hLess := hFirst.rest_lt hText
              rcases ih m.rest.length (by omega)
                  (m.last prev) m.rest rfl with
                ⟨cuts, hCuts⟩
              exact ⟨_, .take hFirst hText hCuts⟩

end Pattern

end Regex

------------------------------------------------------------
-- Matches of Their Own
------------------------------------------------------------

namespace Regex

namespace Pattern

/- The pattern looks at nothing but the text it takes. -/
def anywhere : Pattern → Bool
| .seq first second => first.anywhere && second.anywhere
| .alt preferred other =>
    preferred.anywhere && other.anywhere
| .group _ inner => inner.anywhere
| .lineStart => false
| .lineEnd => false
| _ => true

/- What is taken in one place is taken in every place. -/
theorem takes_anywhere
    {r : Pattern}
    (hAnywhere : r.anywhere = true)
    {prev prev' : Option Char}
    {rest rest' text : Text}
    {groups : List (Nat × Text)}
    (hTakes : r.Takes prev rest text groups) :
    r.Takes prev' rest' text groups := by
  induction r generalizing prev prev' rest rest' text groups with
  | empty => exact hTakes
  | one p => exact hTakes
  | many greedy p => exact hTakes
  | seq first second ihFirst ihSecond =>
      rw [anywhere, Bool.and_eq_true] at hAnywhere
      rcases hTakes with
        ⟨x, y, gx, gy, hFirst, hSecond, hText, hGroups⟩
      exact ⟨x, y, gx, gy, ihFirst hAnywhere.1 hFirst,
        ihSecond hAnywhere.2 hSecond, hText, hGroups⟩
  | alt preferred other ihPreferred ihOther =>
      rw [anywhere, Bool.and_eq_true] at hAnywhere
      rcases hTakes with hTakes | hTakes
      · exact Or.inl (ihPreferred hAnywhere.1 hTakes)
      · exact Or.inr (ihOther hAnywhere.2 hTakes)
  | group index inner ih =>
      rcases hTakes with ⟨more, hTakes, hGroups⟩
      exact ⟨more, ih hAnywhere hTakes, hGroups⟩
  | lineStart => cases hAnywhere
  | lineEnd => cases hAnywhere

/- The text of a match has a match at its start. -/
theorem find_of_takes
    {r : Pattern}
    (hAnywhere : r.anywhere = true)
    {prev : Option Char}
    {rest text : Text}
    {groups : List (Nat × Text)}
    (hSome : text ≠ [])
    (hTakes : r.Takes prev rest text groups) :
    ∃ m, r.find text = some m ∧ text = m.text ++ m.rest ∧
      r.Takes none m.rest m.text m.groups := by
  have hMem : ⟨text, [], groups⟩ ∈ r.run none text := by
    rw [mem_run_iff]
    exact ⟨(List.append_nil text).symm,
      takes_anywhere hAnywhere hTakes⟩
  rcases List.exists_cons_of_ne_nil
      (List.ne_nil_of_mem hMem) with ⟨m, others, hRun⟩
  have hFirst : m ∈ r.run none text := by simp [hRun]
  rcases List.exists_cons_of_ne_nil hSome with ⟨c, s, rfl⟩
  refine ⟨m, ?_, mem_run_iff.mp hFirst⟩
  rw [find, findFrom, hRun]
  rfl

/- A text is put together from the pieces of its cut. -/
theorem Cuts.input_eq
    {r : Pattern}
    {prev : Option Char}
    {input : Text}
    {cuts : List (Char ⊕ Match)}
    (hCuts : Cuts r prev input cuts) :
    input =
      cuts.flatMap (Sum.elim (fun c => [c]) Match.text) := by
  induction hCuts with
  | stop => rfl
  | skip _ _ ih =>
      rw [List.flatMap_cons, ← ih]
      rfl
  | take hFirst _ _ ih =>
      rw [List.flatMap_cons, ← ih]
      exact hFirst.input_eq

/- The matches of a cut are matches. -/
theorem Cuts.takes
    {r : Pattern}
    {prev : Option Char}
    {input : Text}
    {cuts : List (Char ⊕ Match)}
    (hCuts : Cuts r prev input cuts)
    {m : Match}
    (hMem : .inr m ∈ cuts) :
    ∃ before, r.Takes before m.rest m.text m.groups := by
  induction hCuts with
  | stop => cases hMem
  | skip _ _ ih =>
      apply ih
      simpa using hMem
  | take hFirst _ _ ih =>
      rcases List.mem_cons.mp hMem with hHere | hLater
      · cases hHere
        exact ⟨_, hFirst.takes⟩
      · exact ih hLater

end Pattern

end Regex
