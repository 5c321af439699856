import Soteria.Foundation.Text

/-
  Words joined by blanks, and texts that are part of others.

  Key definitions include:
    * `Text.Word`
    * `Text.fields_join`
    * `Text.contains_iff`, `Text.cut_unique`
-/

------------------------------------------------------------
-- Words
------------------------------------------------------------

namespace Text

/- Some characters, none of them white space. -/
structure Word (s : Text) : Prop where
  nonempty : s ≠ []
  noSpace : ∀ c ∈ s, isSpace c = false

/- A scan over a word keeps all of it. -/
theorem fieldsFrom_word
    {word : Text}
    (hWord : ∀ c ∈ word, isSpace c = false)
    (lead s : Text) :
    fieldsFrom lead (word ++ s) =
      fieldsFrom (word.reverse ++ lead) s := by
  induction word generalizing lead with
  | nil => rfl
  | cons c rest ih =>
      have hFirst := hWord c (List.mem_cons_self ..)
      have hRest :=
        ih (fun d hd => hWord d (List.mem_cons_of_mem _ hd))
          (c :: lead)
      rw [List.cons_append, fieldsFrom, hFirst, hRest]
      simp

/- The field a scan begins with. -/
theorem fieldsFrom_next
    {word : Text}
    {c : Char}
    (hWord : Word word)
    (hSpace : isSpace c = true)
    (rest : Text) :
    fieldsFrom [] (word ++ c :: rest) =
      word :: fieldsFrom [] rest := by
  have hSome : word.reverse ≠ [] := by
    simpa using hWord.nonempty
  rw [fieldsFrom_word hWord.noSpace, List.append_nil, fieldsFrom,
    if_pos hSpace, if_neg hSome, List.reverse_reverse]

theorem joined_cons
    {word : Text}
    {words : List Text}
    (separator : Char)
    (hMore : words ≠ []) :
    join (word :: words) [separator] =
      word ++ separator :: join words [separator] := by
  unfold join
  rw [List.intercalate_cons_of_ne_nil hMore]
  simp

theorem join_cons
    {word : Text}
    {words : List Text}
    (hMore : words ≠ []) :
    join (word :: words) " " =
      word ++ ' ' :: join words " " :=
  joined_cons ' ' hMore

/- Changing the characters of a join changes its words. -/
theorem map_joined
    {f : Char → Char}
    {separator : Char}
    (hSame : f separator = separator)
    (words : List Text) :
    (join words [separator]).map f =
      join (words.map fun w => w.map f) [separator] := by
  induction words with
  | nil => rfl
  | cons w words ih =>
      by_cases hMore : words = []
      · subst hMore
        simp [join]
      · rw [List.map_cons, joined_cons separator hMore,
          joined_cons separator (by simpa using hMore),
          List.map_append, List.map_cons, hSame, ih]

/- A join starts with its first part. -/
theorem prefix_join
    (part : Text)
    (parts : List Text)
    (separator : Text) :
    part <+: join (part :: parts) separator := by
  unfold join
  cases parts with
  | nil => rw [List.intercalate_singleton]
  | cons next parts =>
      rw [List.intercalate_cons_cons, List.append_assoc]
      exact List.prefix_append part _

/- Joined words are the fields of the text. -/
theorem fields_join
    {words : List Text}
    (hWords : ∀ w ∈ words, Word w) :
    (join words " ").fields = words := by
  induction words with
  | nil => rfl
  | cons w words ih =>
      have hFirst := hWords w (List.mem_cons_self ..)
      have hRest :=
        ih fun v hv => hWords v (List.mem_cons_of_mem _ hv)
      have hReverse : w.reverse ≠ [] := by
        simpa using hFirst.nonempty
      cases words with
      | nil =>
          have hScan := fieldsFrom_word hFirst.noSpace [] []
          rw [List.append_nil, List.append_nil] at hScan
          unfold join fields
          rw [List.intercalate_singleton, hScan, fieldsFrom,
            if_neg hReverse, List.reverse_reverse]
      | cons v words =>
          have hSpace : isSpace ' ' = true := by decide
          rw [join_cons (by simp)]
          unfold fields at hRest ⊢
          rw [fieldsFrom_word hFirst.noSpace, List.append_nil,
            fieldsFrom, if_pos hSpace, if_neg hReverse,
            List.reverse_reverse, hRest]

theorem toLower_join (words : List Text) :
    (join words " ").toLower = join (words.map toLower) " " :=
  map_joined (by decide) words

/- The characters of joined words are theirs, or separators. -/
theorem mem_joined
    {words : List Text}
    {separator c : Char}
    (hMem : c ∈ join words [separator]) :
    c = separator ∨ ∃ w ∈ words, c ∈ w := by
  induction words with
  | nil => cases hMem
  | cons w words ih =>
      by_cases hMore : words = []
      · subst hMore
        unfold join at hMem
        rw [List.intercalate_singleton] at hMem
        exact Or.inr ⟨w, List.mem_cons_self .., hMem⟩
      · rw [joined_cons separator hMore] at hMem
        rcases List.mem_append.mp hMem with hFirst | hRest
        · exact Or.inr ⟨w, List.mem_cons_self .., hFirst⟩
        · rcases List.mem_cons.mp hRest with rfl | hRest
          · exact Or.inl rfl
          · rcases ih hRest with hBlank | ⟨v, hv, hChar⟩
            · exact Or.inl hBlank
            · exact Or.inr
                ⟨v, List.mem_cons_of_mem _ hv, hChar⟩

theorem mem_joined_of_mem
    {words : List Text}
    {w : Text}
    {separator c : Char}
    (hWord : w ∈ words)
    (hMem : c ∈ w) :
    c ∈ join words [separator] := by
  induction words with
  | nil => cases hWord
  | cons v words ih =>
      by_cases hMore : words = []
      · subst hMore
        rw [List.mem_singleton.mp hWord] at hMem
        unfold join
        rw [List.intercalate_singleton]
        exact hMem
      · rw [joined_cons separator hMore, List.mem_append]
        rcases List.mem_cons.mp hWord with rfl | hRest
        · exact Or.inl hMem
        · exact Or.inr (List.mem_cons_of_mem _ (ih hRest))

end Text

------------------------------------------------------------
-- Parts of Texts
------------------------------------------------------------

namespace Text

theorem contains_iff {s part : Text} :
    s.contains part = true ↔ part <:+: s := by
  unfold contains
  rw [List.any_eq_true]
  constructor
  · rintro ⟨t, ht, hPart⟩
    have hPrefix := List.isPrefixOf_iff_prefix.mp hPart
    have hSuffix := (List.mem_tails _ _).mp ht
    exact hPrefix.isInfix.trans hSuffix.isInfix
  · rintro ⟨x, y, rfl⟩
    refine ⟨part ++ y, ?_, ?_⟩
    · apply (List.mem_tails _ _).mpr
      exact ⟨x, by rw [List.append_assoc]⟩
    · apply List.isPrefixOf_iff_prefix.mpr
      exact List.prefix_append part y

/- A text is cut at its first such character in one way only. -/
theorem cut_unique
    {a b x y : Text}
    {z : Char}
    (ha : z ∉ a)
    (hb : z ∉ b)
    (hSame : a ++ z :: x = b ++ z :: y) :
    a = b ∧ x = y := by
  induction a generalizing b with
  | nil =>
      cases b with
      | nil =>
          cases hSame
          exact ⟨rfl, rfl⟩
      | cons d b =>
          cases hSame
          exact (hb (List.mem_cons_self ..)).elim
  | cons c a ih =>
      cases b with
      | nil =>
          cases hSame
          exact (ha (List.mem_cons_self ..)).elim
      | cons d b =>
          rcases List.cons.inj hSame with ⟨rfl, hRest⟩
          rcases ih (fun h => ha (List.mem_cons_of_mem _ h))
            (fun h => hb (List.mem_cons_of_mem _ h)) hRest with
            ⟨rfl, hBehind⟩
          exact ⟨rfl, hBehind⟩

theorem prefix_append_cons
    {part a b : Text}
    {c : Char}
    (hPart : part <+: a ++ c :: b)
    (hc : c ∉ part) :
    part <+: a := by
  have hLead : a <+: a ++ c :: b := List.prefix_append a _
  rcases List.prefix_or_prefix_of_prefix hPart hLead with
    hShort | ⟨t, rfl⟩
  · exact hShort
  · cases t with
    | nil => rw [List.append_nil]
    | cons d t =>
        rcases hPart with ⟨y, hSplit⟩
        rw [List.append_assoc] at hSplit
        have hRest := List.append_cancel_left hSplit
        have hChar : d = c := (List.cons.inj hRest).1
        subst hChar
        exact (hc (by simp)).elim

/- A part without some character is on one side of it. -/
theorem infix_append_cons
    {part a b : Text}
    {c : Char}
    (hPart : part <:+: a ++ c :: b)
    (hc : c ∉ part) :
    part <:+: a ∨ part <:+: b := by
  induction a with
  | nil =>
      rcases List.infix_cons_iff.mp hPart with hFirst | hRest
      · left
        exact (prefix_append_cons (a := []) hFirst hc).isInfix
      · exact Or.inr hRest
  | cons d a ih =>
      rcases List.infix_cons_iff.mp hPart with hFirst | hRest
      · left
        have hWhole : part <+: (d :: a) ++ c :: b := hFirst
        exact (prefix_append_cons hWhole hc).isInfix
      · rcases ih hRest with hLead | hBehind
        · exact Or.inl (List.infix_cons hLead)
        · exact Or.inr hBehind

/- A part without the separator is in one of the words. -/
theorem infix_joined_iff
    {part : Text}
    {words : List Text}
    {separator : Char}
    (hSome : part ≠ [])
    (hSeparator : separator ∉ part) :
    part <:+: join words [separator] ↔
      ∃ w ∈ words, part <:+: w := by
  induction words with
  | nil =>
      refine iff_of_false ?_ (by simp)
      exact fun hPart => hSome (List.infix_nil.mp hPart)
  | cons w words ih =>
      by_cases hMore : words = []
      · subst hMore
        unfold join
        rw [List.intercalate_singleton]
        simp
      · rw [joined_cons separator hMore]
        constructor
        · intro hPart
          rcases infix_append_cons hPart hSeparator with
            hFirst | hRest
          · exact ⟨w, List.mem_cons_self .., hFirst⟩
          · rcases ih.mp hRest with ⟨v, hv, hInfix⟩
            exact ⟨v, List.mem_cons_of_mem _ hv, hInfix⟩
        · rintro ⟨v, hv, hInfix⟩
          rcases List.mem_cons.mp hv with rfl | hv
          · exact hInfix.trans (List.infix_append' [] v _)
          · have hRest := ih.mpr ⟨v, hv, hInfix⟩
            refine hRest.trans ⟨w ++ [separator], [], ?_⟩
            simp

/- A part without blanks is in one of the words. -/
theorem infix_join
    {part : Text}
    {words : List Text}
    (hPart : part <:+: join words " ")
    (hSome : part ≠ [])
    (hBlank : ' ' ∉ part) :
    ∃ w ∈ words, part <:+: w :=
  (infix_joined_iff hSome hBlank).mp hPart

end Text

------------------------------------------------------------
-- Trimming
------------------------------------------------------------

namespace Text

variable {s blanks : Text}

/- A text with a first character that is not a blank. -/
theorem trimSpace_cons
    {c : Char}
    (hOut : isSpace c = false)
    (s : Text) :
    trimSpace (c :: s) = c :: s.rdropWhile isSpace := by
  unfold trimSpace
  rw [List.dropWhile_cons_of_neg (by simp [hOut])]
  unfold List.rdropWhile
  rw [List.reverse_cons, List.dropWhile_append]
  split
  · rename_i hEmpty
    rw [List.isEmpty_iff] at hEmpty
    rw [hEmpty, List.dropWhile_cons_of_neg (by simp [hOut])]
    rfl
  · rw [List.reverse_append]
    rfl

theorem trimSpace_append_left
    (hBlanks : ∀ c ∈ blanks, isSpace c = true)
    (s : Text) :
    trimSpace (blanks ++ s) = trimSpace s := by
  unfold trimSpace
  rw [List.dropWhile_append_of_pos hBlanks]

/- The first character that is not of a class. -/
theorem exists_first_out
    {p : Char → Bool}
    (hSome : ∃ c ∈ s, p c = false) :
    ∃ lead c more, s = lead ++ c :: more ∧
      (∀ d ∈ lead, p d = true) ∧ p c = false := by
  have hDrop : s.dropWhile p ≠ [] := by
    intro hNone
    rw [List.dropWhile_eq_nil_iff] at hNone
    rcases hSome with ⟨c, hMem, hOut⟩
    rw [hNone c hMem] at hOut
    cases hOut
  rcases List.exists_cons_of_ne_nil hDrop with ⟨c, more, hMore⟩
  refine ⟨s.takeWhile p, c, more, ?_, ?_, ?_⟩
  · rw [← hMore, List.takeWhile_append_dropWhile]
  · exact fun d hMem => List.mem_takeWhile_imp hMem
  · have hHead := List.head_dropWhile_not p hDrop
    simp only [hMore, List.head_cons] at hHead
    exact hHead

theorem exists_of_trimSpace_ne_nil
    (hSome : trimSpace s ≠ []) :
    ∃ c ∈ s, isSpace c = false := by
  by_contra hNone
  push Not at hNone
  apply hSome
  unfold trimSpace
  rw [List.dropWhile_eq_nil_iff.mpr]
  · rfl
  · intro c hMem
    have hc := hNone c hMem
    simpa using hc

theorem trimSpace_append_right
    (hBlanks : ∀ c ∈ blanks, isSpace c = true)
    (s : Text) :
    trimSpace (s ++ blanks) = trimSpace s := by
  unfold trimSpace
  rw [List.dropWhile_append]
  split
  · rename_i hEmpty
    rw [List.isEmpty_iff] at hEmpty
    rw [hEmpty, List.dropWhile_eq_nil_iff.mpr hBlanks]
  · unfold List.rdropWhile
    rw [List.reverse_append, List.dropWhile_append_of_pos]
    exact fun c hMem => hBlanks c (List.mem_reverse.mp hMem)

/- Where a text that is not blank begins does not change. -/
theorem hasPrefix_trimSpace_append
    (hSome : trimSpace s ≠ [])
    (c : Char)
    (rest : Text) :
    (trimSpace (s ++ rest)).hasPrefix [c] =
      (trimSpace s).hasPrefix [c] := by
  rcases exists_first_out (exists_of_trimSpace_ne_nil hSome)
    with ⟨lead, d, more, rfl, hLead, hOut⟩
  rw [List.append_assoc, List.cons_append,
    trimSpace_append_left hLead, trimSpace_append_left hLead,
    trimSpace_cons hOut, trimSpace_cons hOut]
  rfl

/- Trimming takes no other characters. -/
theorem count_trimSpace
    {c : Char}
    (hOut : isSpace c = false)
    (s : Text) :
    (trimSpace s).count c = s.count c := by
  have hNone :
      ∀ t : Text, (∀ d ∈ t, isSpace d = true) →
        t.count c = 0 := by
    intro t hAll
    rw [List.count_eq_zero]
    intro hMem
    rw [hAll c hMem] at hOut
    cases hOut
  have hRight :
      (s.dropWhile isSpace).rdropWhile isSpace ++
          (s.dropWhile isSpace).rtakeWhile isSpace =
        s.dropWhile isSpace :=
    List.rdropWhile_append_rtakeWhile
  have hBoth := congrArg (List.count c) hRight
  have hWhole :=
    congrArg (List.count c)
      (List.takeWhile_append_dropWhile (p := isSpace) (l := s))
  rw [List.count_append] at hBoth hWhole
  have hFirst :=
    hNone _ fun d (hMem : d ∈ s.takeWhile isSpace) =>
      List.mem_takeWhile_imp hMem
  have hLast :=
    hNone _ fun d
        (hMem : d ∈ (s.dropWhile isSpace).rtakeWhile isSpace) =>
      List.mem_rtakeWhile_imp hMem
  unfold trimSpace
  omega

end Text
