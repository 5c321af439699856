import Soteria.Foundation.Shell

/-
  What the characters of a script leave behind.

  No character leaves more than itself, every character that
  is left is in one word, and inside a word an equals sign is
  never lost.

  Key definitions include:
    * `Shell.PlainStep`, `Shell.DoubleStep`
    * `Shell.chars`, `Shell.litCount`, `Shell.held`
    * `Shell.inWord`
-/

------------------------------------------------------------
-- Texts That Are Not Literal
------------------------------------------------------------

namespace Shell

/- The characters that are left behind. -/
def chars : List Mark → Text
| [] => []
| .lit c _ :: ms => c :: chars ms
| .quote :: ms => chars ms
| .blank :: ms => chars ms
| .stop :: ms => chars ms

theorem chars_append (ms more : List Mark) :
    chars (ms ++ more) = chars ms ++ chars more := by
  induction ms with
  | nil => rfl
  | cons mark ms ih =>
      cases mark with
      | lit c quoted => exact congrArg (c :: ·) ih
      | quote => exact ih
      | blank => exact ih
      | stop => exact ih

theorem chars_lits (quoted : Bool) (s : Text) :
    chars (lits quoted s) = s := by
  induction s with
  | nil => rfl
  | cons c s ih => exact congrArg (c :: ·) ih

theorem chars_spelled
    {ms : List Mark}
    {w : Word}
    (hSpelled : spelled ms = some w) :
    Word.text w = chars ms := by
  induction ms generalizing w with
  | nil =>
      cases hSpelled
      rfl
  | cons mark ms ih =>
      cases mark with
      | lit c quoted =>
          rcases Option.map_eq_some_iff.mp hSpelled with
            ⟨v, hv, rfl⟩
          exact congrArg (c :: ·) (ih hv)
      | quote => exact ih hSpelled
      | blank => cases hSpelled
      | stop => cases hSpelled

/- The characters that are held back in a mode. -/
def held : Mode → Nat
| .dollar => 1
| .doubleDollar => 1
| .doubleEscape => 1
| _ => 0

/- How many marks are characters. -/
def litCount (ms : List Mark) : Nat :=
  (chars ms).length

/- A character that is not in quotes, by what becomes of it. -/
inductive PlainStep (inWord : Bool) (c : Char) :
    List Mark → Mode → Prop where
  | stop : PlainStep inWord c [.stop] .fresh
  | blank : PlainStep inWord c [.blank] .fresh
  | single : PlainStep inWord c [.quote] .single
  | double : PlainStep inWord c [.quote] .double
  | escape : PlainStep inWord c [] (.escape inWord)
  | dollar (hDollar : c = '$') : PlainStep inWord c [] .dollar
  | lit
      (hPlain : special c = false)
      (hDollar : c ≠ '$') :
      PlainStep inWord c [.lit c false] .plain

theorem plainStep
    {inWord : Bool}
    {c : Char}
    {ms : List Mark}
    {m : Mode}
    (hStep : stepPlain inWord c = some (ms, m)) :
    PlainStep inWord c ms m := by
  unfold stepPlain at hStep
  split at hStep
  · cases hStep
    exact .stop
  rename_i hStop
  split at hStep
  · cases hStep
    exact .blank
  rename_i hBlank
  split at hStep
  · cases hStep
    exact .single
  rename_i hSingle
  split at hStep
  · cases hStep
    exact .double
  rename_i hDouble
  split at hStep
  · cases hStep
    exact .escape
  rename_i hEscape
  split at hStep
  · rename_i hDollar
    cases hStep
    exact .dollar hDollar
  rename_i hDollar
  split at hStep
  · cases hStep
  rename_i hOperator
  cases hStep
  simp only [not_or] at hStop hBlank hOperator
  have hPlain : special c = false := by
    simp [special, hStop, hBlank, hSingle, hDouble, hEscape,
      hOperator]
  exact .lit hPlain hDollar

/- A character in double quotes. -/
inductive DoubleStep (c : Char) : List Mark → Mode → Prop where
  | close : DoubleStep c [] .plain
  | escape : DoubleStep c [] .doubleEscape
  | dollar : DoubleStep c [] .doubleDollar
  | lit : DoubleStep c [.lit c true] .double

theorem doubleStep
    {c : Char}
    {ms : List Mark}
    {m : Mode}
    (hStep : stepDouble c = some (ms, m)) :
    DoubleStep c ms m := by
  unfold stepDouble at hStep
  split at hStep
  · cases hStep
    exact .close
  split at hStep
  · cases hStep
    exact .escape
  split at hStep
  · cases hStep
    exact .dollar
  split at hStep
  · cases hStep
  · cases hStep
    exact .lit

theorem stepPlain_count
    {inWord : Bool}
    {c : Char}
    {ms : List Mark}
    {m : Mode}
    (hStep : stepPlain inWord c = some (ms, m)) :
    litCount ms + held m ≤ 1 ∧
      (1 ≤ litCount ms + held m →
        special c = false ∧ m = literalMode c) := by
  cases plainStep hStep with
  | stop =>
      exact ⟨by decide, fun hOne => absurd hOne (by decide)⟩
  | blank =>
      exact ⟨by decide, fun hOne => absurd hOne (by decide)⟩
  | single =>
      exact ⟨by decide, fun hOne => absurd hOne (by decide)⟩
  | double =>
      exact ⟨by decide, fun hOne => absurd hOne (by decide)⟩
  | escape =>
      refine ⟨Nat.zero_le 1, fun hOne => absurd hOne ?_⟩
      simp [litCount, chars, held]
  | dollar hDollar =>
      refine ⟨le_rfl, fun _ => ?_⟩
      rw [hDollar]
      exact ⟨by decide, rfl⟩
  | lit hPlain hDollar =>
      refine ⟨le_rfl, fun _ => ⟨hPlain, ?_⟩⟩
      rw [literalMode, if_neg hDollar]

theorem stepDouble_count
    {c : Char}
    {ms : List Mark}
    {m : Mode}
    (hStep : stepDouble c = some (ms, m)) :
    litCount ms + held m ≤ 1 := by
  cases doubleStep hStep with
  | close => decide
  | escape => decide
  | dollar => decide
  | lit => exact le_rfl

theorem litCount_cons (mark : Mark) (ms : List Mark) :
    litCount (mark :: ms) ≤ litCount ms + 1 := by
  cases mark with
  | lit c quoted => exact le_rfl
  | quote => exact Nat.le_succ _
  | blank => exact Nat.le_succ _
  | stop => exact Nat.le_succ _

theorem behind_some
    {mark : Mark}
    {next : Option (List Mark × Mode)}
    {ms : List Mark}
    {m : Mode}
    (hBehind : behind mark next = some (ms, m)) :
    ∃ more, next = some (more, m) ∧ ms = mark :: more := by
  rcases Option.map_eq_some_iff.mp hBehind with
    ⟨⟨more, m'⟩, hNext, hEq⟩
  cases hEq
  exact ⟨more, hNext, rfl⟩

/- A character leaves no more than itself behind. -/
theorem step_count
    {m m' : Mode}
    {c : Char}
    {ms : List Mark}
    (hStep : step m c = some (ms, m')) :
    litCount ms + held m' ≤ 1 + held m := by
  cases m with
  | fresh =>
      simp only [step] at hStep
      split at hStep
      · cases hStep
        decide
      · exact (stepPlain_count hStep).1
  | comment =>
      simp only [step] at hStep
      split at hStep
      · cases hStep
        decide
      · cases hStep
        decide
  | plain => exact (stepPlain_count hStep).1
  | escape inWord =>
      simp only [step] at hStep
      split at hStep
      · cases hStep
        cases inWord <;> decide
      · cases hStep
        exact le_rfl
  | dollar =>
      simp only [step] at hStep
      split at hStep
      · cases hStep
      · rcases behind_some hStep with ⟨more, hPlain, rfl⟩
        have hCount := (stepPlain_count hPlain).1
        have hCons := litCount_cons (.lit '$' false) more
        have hHeld : held .dollar = 1 := rfl
        omega
  | single =>
      simp only [step] at hStep
      split at hStep
      · cases hStep
        decide
      · cases hStep
        exact le_rfl
  | double => exact stepDouble_count hStep
  | doubleEscape =>
      simp only [step] at hStep
      split at hStep
      · cases hStep
        decide
      · split at hStep
        · cases hStep
          exact Nat.le_succ 1
        · cases hStep
          exact le_rfl
  | doubleDollar =>
      simp only [step] at hStep
      split at hStep
      · cases hStep
      · rcases behind_some hStep with ⟨more, hDouble, rfl⟩
        have hCount := stepDouble_count hDouble
        have hCons := litCount_cons (.lit '$' true) more
        have hHeld : held .doubleDollar = 1 := rfl
        omega

theorem litCount_append (ms more : List Mark) :
    litCount (ms ++ more) = litCount ms + litCount more := by
  unfold litCount
  rw [chars_append, List.length_append]

theorem run_count
    {m m' : Mode}
    {s : Text}
    {ms : List Mark}
    (hRun : run m s = some (ms, m')) :
    litCount ms + held m' ≤ s.length + held m := by
  induction s generalizing m ms with
  | nil =>
      cases hRun
      simp [litCount, chars]
  | cons c s ih =>
      rcases run_cons_some hRun with
        ⟨first, mid, more, hStep, hRest, rfl⟩
      have hFirst := step_count hStep
      have hMore := ih hRest
      rw [litCount_append, List.length_cons]
      omega

/-
  A text that leaves all of its characters behind has none
  that is special, and no dollar sign before an expansion.
-/
theorem literal_of_count
    {m m' : Mode}
    {s : Text}
    {ms : List Mark}
    (hMode : m = .plain ∨ m = .dollar)
    (hRun : run m s = some (ms, m'))
    (hCount : s.length + held m ≤ litCount ms + held m') :
    (∀ c ∈ s, special c = false) ∧
      List.IsChain
          (fun a b => a = '$' → startsExpansion b = false) s ∧
        (m = .dollar → ∀ c ∈ s.head?, startsExpansion c = false) := by
  induction s generalizing m ms with
  | nil => exact ⟨by simp, List.IsChain.nil, by simp⟩
  | cons c s ih =>
      rcases run_cons_some hRun with
        ⟨first, mid, more, hStep, hRest, rfl⟩
      have hFirst := step_count hStep
      have hMore := run_count hRest
      rw [litCount_append, List.length_cons] at hCount
      have hChar :
          special c = false ∧ mid = literalMode c ∧
            (m = .dollar → startsExpansion c = false) := by
        rcases hMode with rfl | rfl
        · have hHeld : held .plain = 0 := rfl
          have hOne : 1 ≤ litCount first + held mid := by
            omega
          rcases (stepPlain_count hStep).2 hOne with
            ⟨hSpecial, hMid⟩
          exact ⟨hSpecial, hMid, by simp⟩
        · simp only [step] at hStep
          split at hStep
          · cases hStep
          · rename_i hExpansion
            rcases behind_some hStep with ⟨others, hPlain, rfl⟩
            have hCons := litCount_cons (.lit '$' false) others
            have hHeld : held .dollar = 1 := rfl
            have hOne : 1 ≤ litCount others + held mid := by
              omega
            rcases (stepPlain_count hPlain).2 hOne with
              ⟨hSpecial, hMid⟩
            exact ⟨hSpecial, hMid,
              fun _ => by simpa using hExpansion⟩
      rcases hChar with ⟨hSpecial, hMid, hExpansion⟩
      have hLater :
          mid = .plain ∨ mid = .dollar := by
        rw [hMid, literalMode]
        split
        · exact Or.inr rfl
        · exact Or.inl rfl
      have hLeft :
          s.length + held mid ≤ litCount more + held m' := by
        omega
      rcases ih hLater hRest hLeft with
        ⟨hPlain, hChain, hHead⟩
      refine ⟨?_, ?_, ?_⟩
      · intro d hd
        rcases List.mem_cons.mp hd with rfl | hd
        · exact hSpecial
        · exact hPlain d hd
      · apply List.isChain_cons.mpr
        refine ⟨?_, hChain⟩
        rintro d hd rfl
        exact hHead (by rw [hMid]; rfl) d hd
      · intro hDollar d hd
        cases hd
        exact hExpansion hDollar

end Shell

------------------------------------------------------------
-- Characters That Are Left
------------------------------------------------------------

namespace Shell

/-
  A character that is never held back is left once for each
  time it is read, or less.
-/
theorem stepPlain_chars
    {z c : Char}
    {inWord : Bool}
    {ms : List Mark}
    {m : Mode}
    (hStep : stepPlain inWord c = some (ms, m)) :
    (chars ms).count z ≤ [c].count z := by
  cases plainStep hStep with
  | lit => exact le_rfl
  | _ => exact Nat.zero_le _

theorem stepDouble_chars
    {z c : Char}
    {ms : List Mark}
    {m : Mode}
    (hStep : stepDouble c = some (ms, m)) :
    (chars ms).count z ≤ [c].count z := by
  cases doubleStep hStep with
  | lit => exact le_rfl
  | _ => exact Nat.zero_le _

theorem step_chars
    {z c : Char}
    {m m' : Mode}
    {ms : List Mark}
    (hDollar : '$' ≠ z)
    (hEscape : '\\' ≠ z)
    (hStep : step m c = some (ms, m')) :
    (chars ms).count z ≤ [c].count z := by
  cases m with
  | fresh =>
      simp only [step] at hStep
      split at hStep
      · cases hStep
        exact Nat.zero_le _
      · exact stepPlain_chars hStep
  | comment =>
      simp only [step] at hStep
      split at hStep
      · cases hStep
        exact Nat.zero_le _
      · cases hStep
        exact Nat.zero_le _
  | plain => exact stepPlain_chars hStep
  | escape inWord =>
      simp only [step] at hStep
      split at hStep
      · cases hStep
        exact Nat.zero_le _
      · cases hStep
        exact le_rfl
  | dollar =>
      simp only [step] at hStep
      split at hStep
      · cases hStep
      · rcases behind_some hStep with ⟨more, hPlain, rfl⟩
        rw [chars, List.count_cons_of_ne hDollar]
        exact stepPlain_chars hPlain
  | single =>
      simp only [step] at hStep
      split at hStep
      · cases hStep
        exact Nat.zero_le _
      · cases hStep
        exact le_rfl
  | double => exact stepDouble_chars hStep
  | doubleEscape =>
      simp only [step] at hStep
      split at hStep
      · cases hStep
        exact Nat.zero_le _
      · split at hStep
        · cases hStep
          exact le_rfl
        · cases hStep
          rw [chars, List.count_cons_of_ne hEscape]
          exact le_rfl
  | doubleDollar =>
      simp only [step] at hStep
      split at hStep
      · cases hStep
      · rcases behind_some hStep with ⟨more, hDouble, rfl⟩
        rw [chars, List.count_cons_of_ne hDollar]
        exact stepDouble_chars hDouble

theorem run_chars
    {z : Char}
    {m m' : Mode}
    {s : Text}
    {ms : List Mark}
    (hDollar : '$' ≠ z)
    (hEscape : '\\' ≠ z)
    (hRun : run m s = some (ms, m')) :
    (chars ms).count z ≤ s.count z := by
  induction s generalizing m ms with
  | nil =>
      cases hRun
      exact le_rfl
  | cons c s ih =>
      rcases run_cons_some hRun with
        ⟨first, mid, more, hStep, hRest, rfl⟩
      have hFirst := step_chars hDollar hEscape hStep
      have hMore := ih hRest
      rw [chars_append, List.count_append,
        ← List.singleton_append, List.count_append]
      omega

theorem finish_chars
    {z : Char}
    {m : Mode}
    {ms : List Mark}
    (hDollar : '$' ≠ z)
    (hEscape : '\\' ≠ z)
    (hFinish : finish m = some ms) :
    (chars ms).count z = 0 := by
  cases m with
  | escape inWord =>
      cases hFinish
      exact List.count_cons_of_ne hEscape
  | dollar =>
      cases hFinish
      exact List.count_cons_of_ne hDollar
  | fresh =>
      cases hFinish
      rfl
  | comment =>
      cases hFinish
      rfl
  | plain =>
      cases hFinish
      rfl
  | single => cases hFinish
  | double => cases hFinish
  | doubleEscape => cases hFinish
  | doubleDollar => cases hFinish

/- The characters of all words are those of the marks. -/
theorem texts_parts (ms : List Mark) :
    ((parts ms).first ++ (parts ms).commands.flatten).flatMap
        Word.text =
      chars ms := by
  induction ms with
  | nil => rfl
  | cons mark ms ih =>
      unfold Parts.first at ih
      cases mark with
      | lit c quoted =>
          simp only [parts, Parts.first, chars, ← ih]
          cases (parts ms).word <;> simp [Word.text]
      | quote =>
          simp only [parts, Parts.first, chars, ← ih]
          cases (parts ms).word <;> simp [Word.text]
      | blank =>
          simp only [parts, Parts.first, chars, ← ih]
          simp
      | stop =>
          simp only [parts, Parts.first, chars, ← ih]
          simp

theorem texts_wordLists (ms : List Mark) :
    (wordLists ms).flatten.flatMap Word.text = chars ms := by
  unfold wordLists
  rw [List.flatten_filter_ne_nil, List.flatten_cons,
    texts_parts]

end Shell

------------------------------------------------------------
-- The Word a Text Is In
------------------------------------------------------------

namespace Shell

/- A mode between two characters of a word. -/
def inWord : Mode → Bool
| .fresh => false
| .comment => false
| .escape inWord => inWord
| _ => true

theorem stepPlain_inWord
    {c : Char}
    {ms : List Mark}
    {m : Mode}
    {w : Word}
    (hStep : stepPlain true c = some (ms, m))
    (hSpelled : spelled ms = some w) :
    inWord m = true := by
  cases plainStep hStep with
  | stop => cases hSpelled
  | blank => cases hSpelled
  | _ => rfl

theorem stepDouble_inWord
    {c : Char}
    {ms : List Mark}
    {m : Mode}
    (hStep : stepDouble c = some (ms, m)) :
    inWord m = true := by
  cases doubleStep hStep with
  | _ => rfl

/- Inside a word, a step that does not end it stays inside. -/
theorem step_inWord
    {c : Char}
    {m m' : Mode}
    {ms : List Mark}
    {w : Word}
    (hIn : inWord m = true)
    (hStep : step m c = some (ms, m'))
    (hSpelled : spelled ms = some w) :
    inWord m' = true := by
  cases m with
  | fresh => cases hIn
  | comment => cases hIn
  | plain => exact stepPlain_inWord hStep hSpelled
  | escape inside =>
      have hInside : inside = true := hIn
      subst hInside
      simp only [step] at hStep
      split at hStep
      · cases hStep
        rfl
      · cases hStep
        rfl
  | dollar =>
      simp only [step] at hStep
      split at hStep
      · cases hStep
      · rcases behind_some hStep with ⟨more, hPlain, rfl⟩
        rcases Option.map_eq_some_iff.mp hSpelled with
          ⟨v, hv, _⟩
        exact stepPlain_inWord hPlain hv
  | single =>
      simp only [step] at hStep
      split at hStep
      · cases hStep
        rfl
      · cases hStep
        rfl
  | double => exact stepDouble_inWord hStep
  | doubleEscape =>
      simp only [step] at hStep
      split at hStep
      · cases hStep
        rfl
      · split at hStep
        · cases hStep
          rfl
        · cases hStep
          rfl
  | doubleDollar =>
      simp only [step] at hStep
      split at hStep
      · cases hStep
      · rcases behind_some hStep with ⟨more, hDouble, rfl⟩
        exact stepDouble_inWord hDouble

/- Inside a word an equals sign is left behind. -/
theorem step_equals
    {m m' : Mode}
    {ms : List Mark}
    (hIn : inWord m = true)
    (hStep : step m '=' = some (ms, m')) :
    1 ≤ (chars ms).count '=' := by
  cases m with
  | fresh => cases hIn
  | comment => cases hIn
  | plain =>
      cases hStep
      decide
  | escape =>
      cases hStep
      decide
  | dollar =>
      cases hStep
      decide
  | single =>
      cases hStep
      decide
  | double =>
      cases hStep
      decide
  | doubleEscape =>
      cases hStep
      decide
  | doubleDollar =>
      cases hStep
      decide

theorem run_inWord
    {s : Text}
    {m m' : Mode}
    {ms : List Mark}
    {w : Word}
    (hIn : inWord m = true)
    (hRun : run m s = some (ms, m'))
    (hSpelled : spelled ms = some w) :
    inWord m' = true ∧ s.count '=' ≤ (Word.text w).count '=' := by
  induction s generalizing m ms w with
  | nil =>
      cases hRun
      exact ⟨hIn, Nat.zero_le _⟩
  | cons c s ih =>
      rcases run_cons_some hRun with
        ⟨first, mid, more, hStep, hRest, rfl⟩
      rw [spelled_append] at hSpelled
      rcases Option.bind_eq_some_iff.mp hSpelled with
        ⟨u, hFirst, hLater⟩
      rcases Option.map_eq_some_iff.mp hLater with
        ⟨v, hMore, rfl⟩
      have hMid := step_inWord hIn hStep hFirst
      rcases ih hMid hRest hMore with ⟨hEnd, hCount⟩
      refine ⟨hEnd, ?_⟩
      have hText :
          Word.text (u ++ v) = Word.text u ++ Word.text v :=
        List.map_append
      rw [hText, List.count_append, chars_spelled hFirst]
      by_cases hEquals : c = '='
      · subst hEquals
        have hOne := step_equals hIn hStep
        rw [List.count_cons_self]
        omega
      · rw [List.count_cons_of_ne hEquals]
        omega

/- The word that marks start in goes on behind them. -/
theorem word_spelled
    {ms : List Mark}
    {w : Word}
    (hSpelled : spelled ms = some w)
    (more : List Mark) :
    (parts (ms ++ more)).word.getD [] =
      w ++ (parts more).word.getD [] := by
  induction ms generalizing w with
  | nil =>
      cases hSpelled
      rfl
  | cons mark ms ih =>
      cases mark with
      | lit c quoted =>
          rcases Option.map_eq_some_iff.mp hSpelled with
            ⟨v, hv, rfl⟩
          exact congrArg ((c, quoted) :: ·) (ih hv)
      | quote => exact ih hSpelled
      | blank => cases hSpelled
      | stop => cases hSpelled

/- Marks that end the word have all of its characters. -/
theorem word_ended
    {ms : List Mark}
    (hSpelled : spelled ms = none)
    (more : List Mark) :
    ((parts (ms ++ more)).word.getD []).length ≤ litCount ms := by
  induction ms with
  | nil => cases hSpelled
  | cons mark ms ih =>
      cases mark with
      | lit c quoted =>
          have hRest := ih (Option.map_eq_none_iff.mp hSpelled)
          exact Nat.succ_le_succ hRest
      | quote => exact ih hSpelled
      | blank => exact Nat.zero_le _
      | stop => exact Nat.zero_le _

end Shell
