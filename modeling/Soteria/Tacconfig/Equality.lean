import Soteria.Tacconfig.Operands

/-
  The operands of `==` and `!=`, rendered and read again.

  An operand is quoted if it is empty or has a blank; else
  it is pasted as it is, and the lexer must read it as one
  token. A quoted one without quotes and backslashes is
  always kept.

  Key definitions include:
    * `LineText`
    * `condText_quoted`, `condText_bare`
    * `equality_rereads_iff`
-/

------------------------------------------------------------
-- Quoted Operands
------------------------------------------------------------

namespace Soteria

namespace Tacconfig

/- One trimmed line without quotes and backslashes. -/
structure LineText (v : Text) : Prop where
  oneLine : '\n' ∉ v
  trimmed : v.trimSpace = v
  noQuote : '"' ∉ v
  noEscape : '\\' ∉ v

/- There are no quotes around such a text to be stripped. -/
theorem stripQuotes_plain
    {v : Text}
    (hTrimmed : v.trimSpace = v)
    (hQuote : '"' ∉ v) :
    stripQuotes v = v := by
  have hPrefix : ('"' :: ([] : Text)).isPrefixOf v = false := by
    cases v with
    | nil => rfl
    | cons c v =>
        have hc : ('"' == c) = false := by
          rw [beq_eq_false_iff_ne]
          rintro rfl
          exact hQuote (List.mem_cons_self ..)
        rw [List.isPrefixOf, hc]
        rfl
  have hNone : v.hasPrefix "\"" = false := hPrefix
  unfold stripQuotes
  rw [hTrimmed]
  simp only [hNone, Bool.and_false, Bool.false_and,
    Bool.false_eq_true, if_false]

/- A quoted operand is read as one string. -/
theorem condText_quoted
    (test : Test)
    (hAttr : WordText test.attr)
    (hOp : WordText test.op)
    (hTrimmed : test.value.trimSpace = test.value)
    (hQuote : '"' ∉ test.value)
    (hEscape : '\\' ∉ test.value) :
    CondText (·.returned = test) test
      ("\"" ++ test.value ++ "\"") := by
  have hClosed := closed_of_plain hQuote hEscape
  refine ⟨hAttr, hOp, [⟨.string, test.value, 0⟩],
    (hClosed.splits 0).lexesTo, by simp, ?_⟩
  have hJoin :
      Text.join ([⟨.string, test.value, 0⟩].map Token.text)
        " " = test.value := by
    simp [Text.join, List.intercalate]
  have hStrip := stripQuotes_plain hTrimmed hQuote
  simp only [Cond.returned, condValue, hJoin, List.any_cons,
    BEq.rfl, Bool.true_or, if_true, hStrip]

/- An operand that is pasted is read as its plain tokens. -/
theorem condText_bare
    (test : Test)
    (hAttr : WordText test.attr)
    (hOp : WordText test.op)
    (hSurvives : bareSurvives test.value = true) :
    CondText (·.returned = test) test test.value := by
  by_cases hEmpty : test.value = []
  · refine ⟨hAttr, hOp, [], ?_, by simp, ?_⟩
    · rw [hEmpty]
      exact splits_nil.lexesTo
    · rcases test with ⟨attr, op, value⟩
      subst hEmpty
      rfl
  · have hPlain :
        ∀ s ∈ test.value.splitOn ' ', plainToken s = true := by
      simpa [bareSurvives, hEmpty] using hSurvives
    have hPieces := operand_of_plain hPlain
    rw [join_splitOn] at hPieces
    rcases hPieces with ⟨hLexes, hKinds, hJoin⟩
    refine ⟨hAttr, hOp, _, hLexes, hKinds, ?_⟩
    have hUnquoted :
        (((test.value.splitOn ' ').map tokenOf).any
          fun t => t.kind == .string) = false := by
      rw [List.any_eq_false]
      intro t ht
      rcases List.mem_map.mp ht with ⟨s, hs, rfl⟩
      have hKind := (wellWritten_tokenOf (hPlain s hs)).2.2.2
      simpa using hKind
    simp only [Cond.returned, condValue, hJoin, hUnquoted,
      Bool.false_eq_true, if_false]

end Tacconfig

end Soteria

------------------------------------------------------------
-- Operands of Equalities
------------------------------------------------------------

namespace Soteria

namespace Tacconfig

theorem wordText_of_equality
    {op : Text}
    (hOp : op = "==" ∨ op = "!=") :
    WordText op := by
  rcases hOp with rfl | rfl
  · exact (splits_operator "==" (Or.inl rfl) 0).lexesTo
  · exact (splits_operator "!=" (Or.inr (Or.inr rfl)) 0).lexesTo

theorem renderCondValue_equality
    {op : Text}
    (hOp : op = "==" ∨ op = "!=")
    (v : Text) :
    renderCondValue op v =
      if v = [] || v.containsAny " \t" then
        "\"" ++ v ++ "\""
      else v := by
  have hRegex : op ≠ "=~" := by
    rcases hOp with rfl | rfl <;> decide
  rw [renderCondValue, if_neg hRegex]

theorem bareSurvives_iff_plain
    {v : Text}
    (hBlank : ' ' ∉ v) :
    bareSurvives v = true ↔ v = [] ∨ plainToken v = true := by
  rw [bareSurvives, List.splitOn_eq_singleton hBlank,
    Bool.or_eq_true, beq_iff_eq]
  simp

theorem not_mem_blank
    {v : Text}
    (hBlank : v.containsAny " \t" ≠ true) :
    ' ' ∉ v := by
  intro hMem
  apply hBlank
  exact List.any_eq_true.mpr ⟨' ', hMem, by decide⟩

/- An operand that is quoted, or read as one token. -/
theorem rereads_of_equality
    {attr op v : Text}
    (hAttr : PlainWord attr)
    (hOp : op = "==" ∨ op = "!=")
    (hValue : LineText v)
    (hKept :
      v = [] ∨ v.containsAny " \t" = true ∨
        plainToken v = true) :
    Test.Rereads ⟨attr, op, v⟩ := by
  have hAttrText : WordText attr := hAttr.lexesTo 0
  have hOpText := wordText_of_equality hOp
  apply CondText.rereads
  rw [renderCondValue_equality hOp]
  by_cases hQuoted : v = [] ∨ v.containsAny " \t" = true
  · rw [if_pos (by simpa using hQuoted)]
    exact condText_quoted ⟨attr, op, v⟩ hAttrText
      hOpText hValue.trimmed hValue.noQuote hValue.noEscape
  · rw [if_neg (by simpa using hQuoted)]
    rw [not_or] at hQuoted
    have hPlain :=
      (hKept.resolve_left hQuoted.1).resolve_left hQuoted.2
    refine condText_bare ⟨attr, op, v⟩ hAttrText
      hOpText ?_
    exact (bareSurvives_iff_plain
      (not_mem_blank hQuoted.2)).mpr (Or.inr hPlain)

/-
  What is left of a line in a comment: no closing parenthesis
  can come from it.
-/
theorem lexAt_hash
    {s : Text}
    (hLine : '\n' ∉ s)
    (line : Nat) :
    (lexAt line ('#' :: s)).tokens = [⟨.eof, "", line⟩] := by
  have hDrop : s.dropWhile (· != '\n') = [] := by
    rw [List.dropWhile_eq_nil_iff]
    intro c hc
    have hNe : c ≠ '\n' := by
      rintro rfl
      exact hLine hc
    simpa using hNe
  rw [lexAt_cons]
  show
    ((lexAt line (s.dropWhile (· != '\n'))).add
      (.comment _)).tokens = _
  rw [hDrop]
  rfl

/-
  The operand of a condition that is pasted on one line: up
  to the first parenthesis or comment it is bare.
-/
theorem operand_of_pasted
    {v : Text}
    (hLine : '\n' ∉ v)
    (hQuote : '"' ∉ v)
    {parts after : List Token}
    {rp : Token}
    {line : Nat}
    (hParts : ∀ t ∈ parts, t.kind ≠ .rparen ∧ t.kind ≠ .eof)
    (hRp : rp.kind = .rparen)
    (hTokens :
      (lexAt line (v ++ ")")).tokens =
        parts ++ rp :: after) :
    ∃ toks : List Token,
      (∀ t ∈ toks, BareToken t) ∧
        parts = toks.map (Token.onLine line) := by
  let stays : Char → Bool := fun c => c != ')' && c != '#'
  have hSplit :=
    List.takeWhile_append_dropWhile (p := stays) (l := v)
  have hBare : Bare (v.takeWhile stays) := by
    intro c hc
    have hMem : c ∈ v := (List.takeWhile_subset stays) hc
    have hStays := List.mem_takeWhile_imp hc
    simp only [stays, Bool.and_eq_true, bne_iff_ne] at hStays
    simp only [List.mem_cons, List.not_mem_nil, or_false,
      not_or]
    refine ⟨?_, hStays.1, ?_, hStays.2⟩
    · rintro rfl
      exact hLine hMem
    · rintro rfl
      exact hQuote hMem
  rcases lexAt_bare hBare with ⟨toks, hToks, hLexes⟩
  refine ⟨toks, hToks, ?_⟩
  have hKinds :
      ∀ t ∈ toks.map (Token.onLine line),
        t.kind ≠ .rparen ∧ t.kind ≠ .eof := by
    intro t ht
    rcases List.mem_map.mp ht with ⟨u, hu, rfl⟩
    have hKind := (hToks u hu).kind
    simp only [List.mem_cons, List.not_mem_nil, or_false,
      not_or] at hKind
    exact hKind.2
  -- what stands behind the bare part
  have hBehind :
      ∃ (c : Char) (w : Text),
        v.dropWhile stays ++ (")" : Text) = c :: w ∧
          (c = ')' ∨ c = '#') := by
    cases hRest : v.dropWhile stays with
    | nil => exact ⟨')', [], rfl, Or.inl rfl⟩
    | cons c w =>
        have hNot := List.head?_dropWhile_not stays v
        rw [hRest] at hNot
        refine ⟨c, w ++ ")", rfl, ?_⟩
        simpa [stays, imp_iff_not_or] using hNot
  rcases hBehind with ⟨c, w, hRest, hStop⟩
  have hEnds : Ends (c :: w) := by
    rintro d ⟨⟩
    rcases hStop with rfl | rfl <;> decide
  have hAll := hLexes line _ hEnds
  rw [← hRest, ← List.append_assoc, hSplit, hTokens, hRest]
    at hAll
  rcases hStop with rfl | rfl
  · rw [lexAt_cons] at hAll
    exact operand_unique hParts hKinds hRp rfl hAll
  · have hRestLine : '\n' ∉ w := by
      intro hMem
      have hLater :
          '\n' ∈ v.dropWhile stays ++ (")" : Text) := by
        rw [hRest]
        exact List.mem_cons_of_mem _ hMem
      rcases List.mem_append.mp hLater with hLater | hLater
      · exact hLine ((List.dropWhile_suffix stays).subset hLater)
      · exact absurd hLater (by decide)
    rw [lexAt_hash hRestLine] at hAll
    have hMem : rp ∈ parts ++ rp :: after := by simp
    rw [hAll] at hMem
    rcases List.mem_append.mp hMem with hMem | hMem
    · exact ((hKinds rp hMem).1 hRp).elim
    · rw [List.mem_singleton.mp hMem] at hRp
      cases hRp

/-
  An operand of an equality is kept, with everything behind
  it, if and only if it is quoted or reads as one token.
-/
theorem equality_rereads_iff
    {attr op v : Text}
    (hAttr : PlainWord attr)
    (hOp : op = "==" ∨ op = "!=")
    (hValue : LineText v) :
    Test.Rereads ⟨attr, op, v⟩ ↔
      v = [] ∨ v.containsAny " \t" = true ∨
        plainToken v = true := by
  constructor
  · intro hRereads
    by_cases hQuoted : v = [] ∨ v.containsAny " \t" = true
    · exact hQuoted.imp_right Or.inl
    rw [not_or] at hQuoted
    rcases hRereads 0 [] with
      ⟨toks, cond, hTokens, hParse, hCond⟩
    have hHead :=
      @Test.head_splits ⟨attr, op, v⟩
        (hAttr.lexesTo 0) (wordText_of_equality hOp) 0
        (v ++ ")")
    have hText :
        Test.rendered ⟨attr, op, v⟩ ++ ([] : Text) =
          ("if (" : Text) ++ attr ++ " " ++ op ++ " " ++
            (v ++ (")" : Text)) := by
      have hBare :
          ¬ ((v = [] || v.containsAny " \t") = true) := by
        simpa using hQuoted
      unfold Test.rendered Test.text
      rw [renderCondValue_equality hOp, if_neg hBare,
        List.append_nil]
      simp only [List.append_assoc]
    rw [hText, hHead] at hTokens
    rcases parseCond_ok_iff.mp hParse with
      ⟨lp, a, o, parts, rp, rfl, _, _, _, hRp, _, hParts, hIs⟩
    have hOperand :
        (lexAt 0 (v ++ ")")).tokens =
          parts ++ rp :: (lexAt 0 []).tokens := by
      simp only [List.map_cons, List.map_nil, List.cons_append,
        List.nil_append, List.cons.injEq] at hTokens
      exact hTokens.2.2.2.2
    rcases operand_of_pasted hValue.oneLine hValue.noQuote
        hParts hRp hOperand with ⟨bare, hBare, rfl⟩
    have hUnquoted :
        ((bare.map (Token.onLine 0)).any
          fun t => t.kind == .string) = false := by
      rw [List.any_eq_false]
      intro t ht
      rcases List.mem_map.mp ht with ⟨u, hu, rfl⟩
      have hKind := (hBare u hu).kind
      simp only [List.mem_cons, not_or] at hKind
      show ¬ ((u.kind == .string) = true)
      simpa using hKind.1
    have hJoin :
        Text.join (bare.map Token.text) " " = v := by
      rw [← map_text_onLine 0 bare]
      have hReturned := congrArg Test.value hCond
      rw [hIs] at hReturned
      simpa only [Cond.returned, condValue, hUnquoted,
        Bool.false_eq_true, if_false] using hReturned
    have hSurvives := bareSurvives_of_join hBare hJoin
    exact Or.inr (Or.inr
      (((bareSurvives_iff_plain
        (not_mem_blank hQuoted.2)).mp hSurvives).resolve_left
          hQuoted.1))
  · exact rereads_of_equality hAttr hOp hValue

/- A command with a blank is quoted. -/
theorem equality_rereads_blank :
    Test.Rereads ⟨"cmd", "!=", "show run"⟩ :=
  (equality_rereads_iff ⟨by decide, by decide⟩ (Or.inr rfl)
    ⟨by decide, by decide, by decide, by decide⟩).mpr
    (Or.inr (Or.inl (by decide)))

/- A bare `#` makes a comment of the rest of the line. -/
theorem hash_not_reread :
    LineText "port#1" ∧
      ¬ Test.Rereads ⟨"nas", "==", "port#1"⟩ := by
  refine ⟨⟨by decide, by decide, by decide, by decide⟩, ?_⟩
  intro hRereads
  rcases hRereads 0 [] with ⟨toks, cond, hTokens, hParse, _⟩
  have hLexed :
      (lexAt 0 (Test.rendered ⟨"nas", "==", "port#1"⟩ ++
          [])).tokens =
        [⟨.word, "if", 0⟩, ⟨.lparen, "(", 0⟩,
          ⟨.word, "nas", 0⟩, ⟨.word, "==", 0⟩,
          ⟨.word, "port", 0⟩, ⟨.eof, "", 0⟩] := by
    decide +kernel
  rw [hLexed] at hTokens
  cases hTokens
  have hFailed :
      (parseCond
        [⟨.lparen, "(", 0⟩, ⟨.word, "nas", 0⟩,
          ⟨.word, "==", 0⟩, ⟨.word, "port", 0⟩,
          ⟨.eof, "", 0⟩]).toOption = none := by
    decide +kernel
  rw [hParse] at hFailed
  cases hFailed

end Tacconfig

end Soteria
