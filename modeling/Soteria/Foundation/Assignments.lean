import Mathlib.Data.List.Flatten
import Mathlib.Data.List.Perm.Subperm
import Soteria.Foundation.Marks

/-
  What a script assigns, read backwards: a value that a
  variable has as it was written is a literal text.

  Where some variables have their values, the words that
  assign them are charged with characters of the script. A
  character of which the script has no more than that decides
  where the first of these words is.

  Key definitions include:
    * `Shell.Assigned`
    * `Shell.closes`
    * `Shell.literal_of_assigned`
-/

------------------------------------------------------------
-- Words That Assign
------------------------------------------------------------

namespace Shell

/- The word assigns the variable its value. -/
def Assigned (a : Text × Text) (w : Word) : Prop :=
  ∃ value,
    assignment w = some (a.1, value) ∧
      Word.text value = a.2 ∧ hasTilde true value = false

/- The command that assigns a variable, by its word. -/
theorem command_assigns
    {ws : List Word}
    {c : Command}
    {name v : Text}
    (hCommand : command ws = some c)
    (hMem : (name, v) ∈ c.assigns) :
    ∃ w ∈ ws, Assigned (name, v) w := by
  unfold command at hCommand
  dsimp only at hCommand
  split at hCommand
  · cases hCommand
  rename_i hPlain
  cases hCommand
  rcases List.mem_map.mp hMem with ⟨⟨other, value⟩, ha, hEq⟩
  cases hEq
  rcases List.mem_filterMap.mp ha with ⟨w, hw, hAssign⟩
  refine ⟨w, ?_, value, hAssign, rfl, ?_⟩
  · exact (List.takeWhile_prefix _).subset hw
  · by_contra hTilde
    have hSome : hasTilde true value = true := by
      simpa using hTilde
    exact hPlain (Bool.or_eq_true_iff.mpr
      (Or.inl (List.any_eq_true.mpr ⟨_, ha, hSome⟩)))

theorem lastAssigned_mem
    {commands : List Command}
    {name v : Text}
    (hLast : lastAssigned commands name = some v) :
    ∃ c ∈ commands, (name, v) ∈ c.assigns := by
  unfold lastAssigned at hLast
  rcases Option.map_eq_some_iff.mp hLast with
    ⟨⟨other, value⟩, hFind, hEq⟩
  cases hEq
  have hName := List.find?_some hFind
  have hSame : other = name := by simpa using hName
  subst hSame
  have hMem :=
    List.mem_reverse.mp (List.mem_of_find?_eq_some hFind)
  rcases List.mem_flatMap.mp hMem with ⟨c, hc, ha⟩
  exact ⟨c, hc, ha⟩

theorem mem_of_mapM_some
    {α β : Type}
    {f : α → Option β}
    {xs : List α}
    {ys : List β}
    (hAll : xs.mapM f = some ys)
    {y : β}
    (hy : y ∈ ys) :
    ∃ x ∈ xs, f x = some y := by
  induction xs generalizing ys with
  | nil =>
      cases hAll
      cases hy
  | cons x xs ih =>
      rw [List.mapM_cons] at hAll
      rcases Option.bind_eq_some_iff.mp hAll with
        ⟨first, hFirst, hRest⟩
      rcases Option.bind_eq_some_iff.mp hRest with
        ⟨others, hOthers, hEq⟩
      cases hEq
      rcases List.mem_cons.mp hy with rfl | hy
      · exact ⟨x, List.mem_cons_self .., hFirst⟩
      · rcases ih hOthers hy with ⟨z, hz, hSame⟩
        exact ⟨z, List.mem_cons_of_mem _ hz, hSame⟩

/- A word that assigns is the name, `=` and the value. -/
theorem assignment_word
    {w value : Word}
    {name : Text}
    (hAssign : assignment w = some (name, value)) :
    ∃ lead : Word,
      w = lead ++ ('=', false) :: value ∧
        Word.text lead = name := by
  unfold assignment at hAssign
  dsimp only at hAssign
  have hSplit :=
    List.takeWhile_append_dropWhile (p := bareName) (l := w)
  split at hAssign
  · rename_i rest hDrop
    rw [hDrop] at hSplit
    split at hAssign
    · cases hAssign
    · split at hAssign
      · cases hAssign
      · cases hAssign
        exact ⟨_, hSplit.symm, rfl⟩
  · cases hAssign


/- The value a script assigns last is from a word of it. -/
theorem assigned_of_last
    {ms : List Mark}
    {commands : List Command}
    {a : Text × Text}
    (hCommands : (wordLists ms).mapM command = some commands)
    (hLast : lastAssigned commands a.1 = some a.2) :
    ∃ w ∈ (wordLists ms).flatten, Assigned a w := by
  rcases lastAssigned_mem hLast with ⟨c, hc, ha⟩
  rcases mem_of_mapM_some hCommands hc with
    ⟨ws, hws, hCommand⟩
  rcases command_assigns hCommand ha with ⟨w, hw, hAssigned⟩
  exact ⟨w, List.mem_flatten.mpr ⟨ws, hws, hw⟩, hAssigned⟩

/-
  Variables with names of their own have words of their own,
  which have the characters of the names and the values.
-/
theorem assigned_words
    {z : Char}
    {words : List Word}
    {vars : List (Text × Text)}
    (hEquals : '=' ≠ z)
    (hNames : (vars.map Prod.fst).Nodup)
    (hAssigned :
      ∀ a ∈ vars, ∃ w ∈ words, Assigned a w) :
    ∃ ws : List Word,
      ws.Nodup ∧ ws ⊆ words ∧
        (∀ w ∈ ws, ∃ a ∈ vars, Assigned a w) ∧
          (ws.flatMap Word.text).count z =
            (vars.flatMap fun a => a.1 ++ a.2).count z := by
  induction vars with
  | nil =>
      exact ⟨[], List.nodup_nil, List.nil_subset _, by simp,
        rfl⟩
  | cons a vars ih =>
      rcases List.nodup_cons.mp hNames with ⟨hNew, hRest⟩
      rcases ih hRest
          fun b hb => hAssigned b (List.mem_cons_of_mem _ hb)
        with ⟨ws, hNodup, hWords, hEach, hCount⟩
      rcases hAssigned a (List.mem_cons_self ..) with
        ⟨w, hw, value, hAssign, hText, hTilde⟩
      have hOther : w ∉ ws := by
        intro hMem
        rcases hEach w hMem with
          ⟨b, hb, value', hAssign', _, _⟩
        have hSame := Option.some.inj (hAssign.symm.trans hAssign')
        have hName : a.1 = b.1 := (Prod.mk.inj hSame).1
        apply hNew
        rw [hName]
        exact List.mem_map_of_mem hb
      refine ⟨w :: ws, List.nodup_cons.mpr ⟨hOther, hNodup⟩,
        List.cons_subset.mpr ⟨hw, hWords⟩, ?_, ?_⟩
      · intro u hu
        rcases List.mem_cons.mp hu with rfl | hu
        · exact ⟨a, List.mem_cons_self .., value, hAssign,
            hText, hTilde⟩
        · rcases hEach u hu with ⟨b, hb, hb'⟩
          exact ⟨b, List.mem_cons_of_mem _ hb, hb'⟩
      · have hWord : (Word.text w).count z =
            (a.1 ++ a.2).count z := by
          rcases assignment_word hAssign with
            ⟨lead, rfl, hLead⟩
          have hAll :
              Word.text (lead ++ ('=', false) :: value) =
                a.1 ++ '=' :: a.2 := by
            rw [← hLead, ← hText]
            simp [Word.text]
          rw [hAll, List.count_append, List.count_append,
            List.count_cons_of_ne hEquals]
        rw [List.flatMap_cons, List.flatMap_cons,
          List.count_append, List.count_append, hWord, hCount]

/- Words of their own have no more characters than all. -/
theorem count_words
    {ws words : List Word}
    (hNodup : ws.Nodup)
    (hWords : ws ⊆ words)
    (z : Char) :
    (ws.flatMap Word.text).count z ≤
      (words.flatMap Word.text).count z := by
  rcases hNodup.subperm hWords with ⟨mid, hPerm, hSublist⟩
  calc
    (ws.flatMap Word.text).count z
      = (mid.flatMap Word.text).count z :=
        (hPerm.flatMap_right Word.text).symm.count_eq z
    _ ≤ (words.flatMap Word.text).count z :=
        (hSublist.flatMap Word.text).count_le z

end Shell

------------------------------------------------------------
-- The First Assignment
------------------------------------------------------------

namespace Shell

/- A text that has a meaning has one in both of its parts. -/
theorem run_split
    {m m' : Mode}
    {a b : Text}
    {all : List Mark}
    (hRun : run m (a ++ b) = some (all, m')) :
    ∃ ms mid more,
      run m a = some (ms, mid) ∧ run mid b = some (more, m') ∧
        all = ms ++ more := by
  rw [run_append] at hRun
  rcases Option.bind_eq_some_iff.mp hRun with
    ⟨⟨ms, mid⟩, hFirst, hRest⟩
  rcases Option.map_eq_some_iff.mp hRest with
    ⟨⟨more, m⟩, hSecond, hEq⟩
  cases hEq
  exact ⟨ms, mid, more, hFirst, hSecond, rfl⟩

theorem nul_of_source
    {script : Text}
    {commands : List Command}
    (hSource : source script = some commands) :
    '\x00' ∉ script := by
  intro hNul
  unfold source at hSource
  rw [if_pos hNul] at hSource
  cases hSource

/- The commands of a script that starts with an assignment. -/
theorem source_assignment
    {head name s : Text}
    {commands : List Command}
    (hHead : Sources head [])
    (hName : Name name)
    (hSource : source (head ++ (name ++ "=" ++ s)) = some commands) :
    ∃ ms m last,
      run .plain s = some (ms, m) ∧ finish m = some last ∧
        (wordLists
            (lits false name ++
              .lit '=' false :: (ms ++ last))).mapM command =
          some commands := by
  have hNul := nul_of_source hSource
  unfold source read at hSource
  rw [if_neg hNul] at hSource
  rcases Option.bind_eq_some_iff.mp hSource with
    ⟨all, hRead, hCommands⟩
  rcases Option.bind_eq_some_iff.mp hRead with
    ⟨⟨marks, m⟩, hRun, hFinish⟩
  rcases Option.map_eq_some_iff.mp hFinish with
    ⟨last, hLast, rfl⟩
  rcases run_split hRun with
    ⟨first, mid, others, hFirst, hOthers, rfl⟩
  rcases run_split hOthers with
    ⟨sign, mid', ms, hSign, hMs, rfl⟩
  rcases hHead with ⟨first', ws, hFirst', hLists, hNone⟩
  cases hFirst.symm.trans hFirst'
  have hStart : run .plain [] = some ([], .plain) := rfl
  have hAssign := run_assign hName hStart
  rw [List.append_nil] at hAssign
  cases hSign.symm.trans hAssign
  refine ⟨ms, m, last, hMs, hLast, ?_⟩
  -- there is no word in front of the assignment
  have hEmpty : ws = [] := by
    cases ws with
    | nil => rfl
    | cons w ws =>
        rw [List.mapM_cons] at hNone
        rcases Option.bind_eq_some_iff.mp hNone with
          ⟨c, _, hRest⟩
        rcases Option.bind_eq_some_iff.mp hRest with
          ⟨cs, _, hEq⟩
        cases hEq
  have hAll := hLists (lits false name ++
    .lit '=' false :: (ms ++ last))
  rw [hEmpty, List.nil_append] at hAll
  rw [← hAll]
  have hMarks : first ++
      (lits false name ++ .lit '=' false :: (ms ++ last)) =
        first ++ (lits false name ++ [.lit '=' false] ++ ms) ++
          last := by
    simp
  rw [hMarks]
  exact hCommands

/-
  Where the script has no more of a character of the first
  name than the variables need, the first word is the one
  that assigns its variable.
-/
theorem first_assigned
    {z : Char}
    {name v : Text}
    {vars : List (Text × Text)}
    {rest : List Mark}
    (hName : Name name)
    (hNames : (vars.map Prod.fst).Nodup)
    (hMem : (name, v) ∈ vars)
    (hz : z ∈ name)
    (hCount :
      (name ++ chars rest).count z ≤
        (vars.flatMap fun a => a.1 ++ a.2).count z)
    (hAssigned :
      ∀ a ∈ vars,
        ∃ w ∈ (wordLists
            (lits false name ++
              .lit '=' false :: rest)).flatten,
          Assigned a w) :
    Word.text ((parts rest).word.getD []) = v ∧
      hasTilde true ((parts rest).word.getD []) = false := by
  have hEquals : '=' ≠ z := by
    rintro rfl
    exact (isNameChar_bare (hName.chars _ hz)).2.2.2 rfl
  rcases assigned_words hEquals hNames hAssigned with
    ⟨ws, hNodup, hWords, hEach, hNeeded⟩
  -- the first word
  have hSigned :
      spelled (lits false name ++ [.lit '=' false]) =
        some
          (name.map (fun c => (c, false)) ++
            [('=', false)]) := by
    rw [spelled_append, spelled_lits]
    rfl
  have hFirst :
      (parts
          (lits false name ++ .lit '=' false :: rest)).word =
        some
          (name.map (fun c => (c, false)) ++
            ('=', false) :: (parts rest).word.getD []) := by
    have hGetD := word_spelled hSigned rest
    rw [List.append_assoc, List.singleton_append,
      List.append_assoc, List.singleton_append] at hGetD
    cases hWord :
        (parts
          (lits false name ++
            .lit '=' false :: rest)).word with
    | none =>
        rw [hWord] at hGetD
        simp at hGetD
    | some w =>
        rw [hWord] at hGetD
        exact congrArg some hGetD
  have hIn :
      name.map (fun c => (c, false)) ++
          ('=', false) :: (parts rest).word.getD [] ∈
        (wordLists
          (lits false name ++
            .lit '=' false :: rest)).flatten := by
    unfold wordLists
    rw [List.flatten_filter_ne_nil, List.flatten_cons]
    unfold Parts.first
    rw [hFirst]
    exact List.mem_append_left _
      (List.mem_append_left _ (List.mem_singleton.mpr rfl))
  -- it is one of those that are needed
  have hNeed :
      name.map (fun c => (c, false)) ++
          ('=', false) :: (parts rest).word.getD [] ∈ ws := by
    by_contra hOther
    have hAll :=
      count_words (List.nodup_cons.mpr ⟨hOther, hNodup⟩)
        (List.cons_subset.mpr ⟨hIn, hWords⟩) z
    rw [texts_wordLists, chars_append, chars_lits,
      List.flatMap_cons, List.count_append, hNeeded] at hAll
    have hText :
        (Word.text
            (name.map (fun c => (c, false)) ++
              ('=', false) ::
                (parts rest).word.getD [])).count z ≥
          name.count z := by
      unfold Word.text
      rw [List.map_append, List.count_append, List.map_map]
      simp [Function.comp_def]
    have hSome : 1 ≤ name.count z := List.count_pos_iff.mpr hz
    rw [chars, List.count_append,
      List.count_cons_of_ne hEquals] at hAll
    rw [List.count_append] at hCount
    omega
  rcases hEach _ hNeed with
    ⟨⟨other, value⟩, ha, u, hAssign, hText, hTilde⟩
  rw [assignment_name hName] at hAssign
  cases hAssign
  have hSame :=
    List.inj_on_of_nodup_map hNames ha hMem rfl
  cases hSame
  exact ⟨hText, hTilde⟩

end Shell

------------------------------------------------------------
-- Ends of Lines
------------------------------------------------------------

namespace Shell

theorem chain_of_hasTilde
    {v : Text}
    {here : Bool}
    (hTilde : hasTilde here (v.map fun c => (c, false)) = false) :
    List.IsChain (fun a b => a = ':' → b ≠ '~') v ∧
      (here = true → ∀ c ∈ v.head?, c ≠ '~') := by
  induction v generalizing here with
  | nil => exact ⟨List.IsChain.nil, by simp⟩
  | cons c v ih =>
      rcases Bool.or_eq_false_iff.mp hTilde with ⟨hFirst, hRest⟩
      rcases ih hRest with ⟨hChain, hHead⟩
      refine ⟨List.isChain_cons.mpr ⟨?_, hChain⟩, ?_⟩
      · rintro d hd rfl
        exact hHead rfl d hd
      · rintro rfl d hd
        cases hd
        simpa using hFirst


/- A mode that the end of a line leaves. -/
def closes : Mode → Bool
| .fresh => true
| .comment => true
| .plain => true
| .dollar => true
| _ => false

theorem run_closes
    {m : Mode}
    (hCloses : closes m = true) :
    run m "\n" = some (heldMarks m ++ [.stop], .fresh) ∧
      litCount (heldMarks m) = held m := by
  cases m with
  | fresh => exact ⟨rfl, rfl⟩
  | comment => exact ⟨rfl, rfl⟩
  | plain => exact ⟨rfl, rfl⟩
  | dollar => exact ⟨rfl, rfl⟩
  | escape => cases hCloses
  | single => cases hCloses
  | double => cases hCloses
  | doubleEscape => cases hCloses
  | doubleDollar => cases hCloses

/- In double quotes most characters are literal. -/
theorem run_double
    {s : Text}
    (hBare : ∀ c ∈ s, special c = false ∧ c ≠ '$') :
    run .double s = some (lits true s, .double) := by
  induction s with
  | nil => rfl
  | cons c s ih =>
      have hFirst := hBare c (List.mem_cons_self ..)
      have hRest :=
        ih fun d hd => hBare d (List.mem_cons_of_mem _ hd)
      have hStep :
          step .double c = some ([.lit c true], .double) := by
        rcases hFirst with ⟨hPlain, hDollar⟩
        simp only [special, Bool.or_eq_false_iff,
          decide_eq_false_iff_not, List.mem_cons,
          List.not_mem_nil, or_false, not_or] at hPlain
        simp [step, stepDouble, hPlain, hDollar]
      exact run_cons hStep hRest

/- A mode that goes on in the next line takes it in. -/
theorem run_open
    {m : Mode}
    {s : Text}
    (hIn : inWord m = true)
    (hOpen : closes m = false)
    (hBare : ∀ c ∈ s, special c = false ∧ c ≠ '$') :
    ∃ ms m' w,
      run m ("\n" ++ s) = some (ms, m') ∧
        spelled ms = some w ∧
          s.count '=' ≤ (Word.text w).count '=' := by
  have hQuote : '\'' ∉ s := by
    intro hMem
    exact absurd (hBare _ hMem).1 (by decide)
  have hLits :
      ∀ quoted,
        s.count '=' ≤
          (Word.text (s.map fun c => (c, quoted))).count '=' := by
    intro quoted
    rw [Word.text_map]
  cases m with
  | fresh => cases hIn
  | comment => cases hIn
  | plain => cases hOpen
  | dollar => cases hOpen
  | escape inside =>
      have hInside : inside = true := hIn
      subst hInside
      have hLine : step (.escape true) '\n' = some ([], .plain) :=
        rfl
      exact ⟨_, _, _, run_cons hLine (run_bare hBare),
        spelled_lits false s, hLits false⟩
  | single =>
      have hLine :
          step .single '\n' = some ([.lit '\n' true], .single) :=
        rfl
      refine ⟨_, _, _, run_cons hLine (run_single hQuote),
        spelled_lits true ('\n' :: s), ?_⟩
      rw [Word.text_map]
      exact List.count_le_count_cons
  | double =>
      have hLine :
          step .double '\n' = some ([.lit '\n' true], .double) :=
        rfl
      refine ⟨_, _, _, run_cons hLine (run_double hBare),
        spelled_lits true ('\n' :: s), ?_⟩
      rw [Word.text_map]
      exact List.count_le_count_cons
  | doubleEscape =>
      have hLine :
          step .doubleEscape '\n' = some ([], .double) := rfl
      exact ⟨_, _, _, run_cons hLine (run_double hBare),
        spelled_lits true s, hLits true⟩
  | doubleDollar =>
      have hLine :
          step .doubleDollar '\n' =
            some ([.lit '$' true, .lit '\n' true], .double) := rfl
      refine ⟨_, _, _, run_cons hLine (run_double hBare),
        spelled_lits true ('$' :: '\n' :: s), ?_⟩
      rw [Word.text_map]
      exact List.count_le_count_cons.trans
        List.count_le_count_cons

end Shell

------------------------------------------------------------
-- Literal Values
------------------------------------------------------------

namespace Shell

/- A value that lost no character is its own word. -/
theorem marks_of_count
    {v : Text}
    {ms : List Mark}
    {m : Mode}
    (hRun : run .plain v = some (ms, m))
    (hCount : v.length ≤ litCount ms + held m) :
    (∀ c ∈ v, special c = false) ∧
      List.IsChain
          (fun a b => a = '$' → startsExpansion b = false) v ∧
        (m = .plain ∨ m = .dollar) ∧
          ms ++ heldMarks m = lits false v := by
  rcases literal_of_count (Or.inl rfl) hRun hCount with
    ⟨hPlain, hDollars, hHead⟩
  rcases run_literal (Or.inl rfl) hPlain hDollars hHead with
    ⟨ms', m', hRun', hMode, hMarks⟩
  cases hRun.symm.trans hRun'
  exact ⟨hPlain, hDollars, hMode, hMarks⟩

/-
  A value is literal if the word that it starts in has its
  text, and the line behind it assigns.
-/
theorem literal_of_word
    {v next more : Text}
    {all last : List Mark}
    {m' : Mode}
    (hNext : Name next)
    (hRun :
      run .plain (v ++ ("\n" ++ (next ++ "=") ++ more)) =
        some (all, m'))
    (hText :
      Word.text ((parts (all ++ last)).word.getD []) = v)
    (hTilde :
      hasTilde true ((parts (all ++ last)).word.getD []) =
        false) :
    Literal v := by
  rcases run_split hRun with ⟨ms, m, tail, hValue, hTail, rfl⟩
  have hLength :
      ((parts (ms ++ tail ++ last)).word.getD []).length =
        v.length := by
    rw [← congrArg List.length hText]
    exact (List.length_map ..).symm
  rw [List.append_assoc] at hLength hText hTilde
  -- the value has not lost a character
  have hCount : v.length ≤ litCount ms + held m := by
    cases hSpelled : spelled ms with
    | none =>
        have hShort := word_ended hSpelled (tail ++ last)
        omega
    | some w =>
        have hWord := word_spelled hSpelled (tail ++ last)
        rcases run_inWord rfl hValue hSpelled with
          ⟨hIn, hSigns⟩
        cases hCloses : closes m with
        | true =>
            rcases run_closes hCloses with ⟨hEnd, hHeld⟩
            rw [List.append_assoc] at hTail
            rcases run_split hTail with
              ⟨line, mid, others, hLine, hOthers, rfl⟩
            cases hLine.symm.trans hEnd
            have hEnded :
                spelled (heldMarks m ++ [.stop]) = none := by
              rw [spelled_append]
              cases spelled (heldMarks m) <;> rfl
            have hShort := word_ended hEnded (others ++ last)
            have hStop : litCount [.stop] = 0 := rfl
            rw [litCount_append, hHeld, hStop,
              ← List.append_assoc] at hShort
            have hOwn : w.length = litCount ms := by
              unfold litCount
              rw [← chars_spelled hSpelled]
              exact (List.length_map ..).symm
            rw [hWord, List.length_append] at hLength
            omega
        | false =>
            -- the next line's equals sign is in the word
            have hBare :
                ∀ c ∈ next ++ "=",
                  special c = false ∧ c ≠ '$' := by
              intro c hc
              rcases List.mem_append.mp hc with hc | hc
              · have hName :=
                  isNameChar_bare (hNext.chars c hc)
                exact ⟨hName.1, hName.2.1⟩
              · rw [List.mem_singleton.mp hc]
                decide
            rcases run_open hIn hCloses hBare with
              ⟨line, mid, x, hLine, hx, hSign⟩
            rcases run_split hTail with
              ⟨line', mid', others, hLine', hOthers, rfl⟩
            cases hLine.symm.trans hLine'
            have hLater := word_spelled hx (others ++ last)
            rw [← List.append_assoc] at hLater
            have hAll :
                v =
                  Word.text w ++ (Word.text x ++
                    Word.text
                      ((parts (others ++ last)).word.getD
                        [])) := by
              rw [← hText, hWord, hLater]
              simp [Word.text]
            have hEquals := congrArg (List.count '=') hAll
            have hOne : List.count '=' "=".toList = 1 := rfl
            rw [List.count_append, List.count_append] at hEquals
            rw [List.count_append, hOne] at hSign
            omega
  rcases marks_of_count hValue hCount with
    ⟨hPlain, hDollars, hMode, hMarks⟩
  -- so that the word is the value, without a tilde
  have hWord :
      (parts (ms ++ (tail ++ last))).word.getD [] =
        v.map fun c => (c, false) := by
    rw [List.append_assoc] at hTail
    rcases run_split hTail with
      ⟨line, mid, others, hLine, hOthers, rfl⟩
    cases hLine.symm.trans (run_newline hMode)
    have hEach :
        ms ++ (heldMarks m ++ [.stop] ++ others ++ last) =
          lits false v ++ (.stop :: (others ++ last)) := by
      rw [← hMarks]
      simp
    rw [hEach, word_spelled (spelled_lits false v)]
    exact List.append_nil _
  rw [hWord] at hTilde
  rcases chain_of_hasTilde hTilde with ⟨hChain, hStart⟩
  refine ⟨hPlain, hDollars, ?_⟩
  exact List.isChain_cons.mpr
    ⟨fun c hc _ => hStart rfl c hc, hChain⟩

/-
  A script starts with an assignment and goes on with another
  one in the next line. If all variables have their values,
  and need all that there is of some character of the first
  name, then the first value is literal.
-/
theorem literal_of_assigned
    {z : Char}
    {head name v next more : Text}
    {vars : List (Text × Text)}
    {commands : List Command}
    (hHead : Sources head [])
    (hName : Name name)
    (hNext : Name next)
    (hNames : (vars.map Prod.fst).Nodup)
    (hMem : (name, v) ∈ vars)
    (hz : z ∈ name)
    (hCount :
      (name ++ (v ++ ("\n" ++ (next ++ "=") ++ more))).count z ≤
        (vars.flatMap fun a => a.1 ++ a.2).count z)
    (hSource :
      source
          (head ++
            (name ++ "=" ++
              (v ++ ("\n" ++ (next ++ "=") ++ more)))) =
        some commands)
    (hLast :
      ∀ a ∈ vars, lastAssigned commands a.1 = some a.2) :
    Literal v := by
  rcases source_assignment hHead hName hSource with
    ⟨all, m, last, hRun, hFinish, hCommands⟩
  have hBare := isNameChar_bare (hName.chars z hz)
  have hDollar : '$' ≠ z := fun h => hBare.2.1 h.symm
  have hEscape : '\\' ≠ z := by
    rintro rfl
    exact absurd hBare.1 (by decide)
  have hChars : (name ++ chars (all ++ last)).count z ≤
      (vars.flatMap fun a => a.1 ++ a.2).count z := by
    have hAll := run_chars hDollar hEscape hRun
    have hEnd := finish_chars hDollar hEscape hFinish
    rw [List.count_append] at hCount
    rw [List.count_append, chars_append, List.count_append,
      hEnd]
    omega
  rcases first_assigned hName hNames hMem hz hChars
      fun a ha => assigned_of_last hCommands (hLast a ha) with
    ⟨hText, hTilde⟩
  exact literal_of_word hNext hRun hText hTilde

end Shell
