import Soteria.Tacconfig.Bodies
import Soteria.Tacconfig.Equality

/-
  The texts of actions that are stable.

  Such a text is one line that, parsed on its own, is one
  statement with this very text. It lexes to the tokens of
  its statement, also within a file: the last of them cannot
  be a string that lacks its quote, as the text of the
  statement has one.

  Key definitions include:
    * `Stable`, `ActionList`
    * `rereads_front`, `Stable.statementText`
    * `Stable.valueText`
    * `ActionList.splitDefault`
-/

------------------------------------------------------------
-- The Tokens of a Text
------------------------------------------------------------

namespace Soteria

namespace Tacconfig

/- What is left in front of the end of a file is its end. -/
theorem Sound.only_eof
    {t : Token}
    {rest : List Token}
    (hSound : Sound (t :: rest))
    (hKind : t.kind = .eof) :
    rest = [] := by
  rcases hSound.1 with hToken | ⟨_, hRest⟩ | ⟨hString, _⟩
  · exact absurd hKind hToken.kind_ne_eof
  · exact hRest
  · rw [hKind] at hString
    cases hString

/-
  A string that is written with its quotes is read with its
  quotes: it is closed.
-/
theorem wellWritten_of_quoted
    {lead : Text}
    {front after : List Token}
    {last : Token}
    (hLead : Splits lead front)
    (hKind : last.kind = .string)
    (hTokens :
      (lexAt 1 (lead ++ tokenText last)).tokens =
        front ++ last :: after) :
    WellWritten last := by
  rcases last with ⟨kind, body, line⟩
  cases hKind
  have hQuoted :
      tokenText ⟨.string, body, line⟩ =
        '"' :: (body ++ "\"") := rfl
  have hStep :
      lexStep 1 '"' (body ++ "\"") =
        (.token ⟨.string, (stringBody (body ++ "\"")).1, 1⟩, 1,
          (stringBody (body ++ "\"")).2) := rfl
  rw [hLead 1, hQuoted, lexAt_cons, hStep] at hTokens
  have hRest := (List.append_inj hTokens (by simp)).2
  have hBody : (stringBody (body ++ "\"")).1 = body :=
    congrArg Token.text (List.cons.inj hRest).1
  rcases stringBody_cases (body ++ "\"") with
    ⟨hClosed, _⟩ | ⟨hAll, _⟩
  · rw [hBody] at hClosed
    exact .string rfl hClosed
  · rw [hBody] at hAll
    simp at hAll

/- The node of a text that parses to one statement. -/
theorem rereads_parse
    {a : Text}
    (hRereads : rereads a = true) :
    ∃ n comments, parse a = .ok ([n], comments) ∧
      n.isStatement = true ∧ n.actionText = a := by
  unfold rereads at hRereads
  split at hRereads
  · rename_i n comments hParse
    simp only [Bool.and_eq_true, beq_iff_eq] at hRereads
    exact ⟨n, comments, hParse, hRereads.1, hRereads.2⟩
  · cases hRereads

/-
  The text is the line of its tokens, but for the blank
  after the sign of an assignment without a value.
-/
def LineOf (toks : List Token) (a : Text) : Prop :=
  lineOf toks = a ∨
    a = lineOf toks ++ " " ∧
      ∃ lead t, toks = lead ++ [t] ∧ t.kind = .equals

/- The tokens of a statement, with its text. -/
theorem Parses.statement_tokens
    {toks after : List Token}
    {n : Node}
    (hParses : Parses (.stmt toks n after))
    (hSound : Sound toks)
    (hStatement : n.isStatement = true) :
    ∃ front, toks = front ++ after ∧ front ≠ [] ∧
      (∀ t ∈ front, t.isValue = true) ∧
      LineOf front n.actionText := by
  cases hParses with
  | ifStmt _ _ hIf => cases hIf <;> cases hStatement
  | block => cases hStatement
  | @action t next rest words after hText _ hWords =>
      rcases takeToks_ok_iff.mp hWords with ⟨rfl, hAll, _⟩
      refine ⟨t :: words, rfl, by simp, ?_, Or.inl rfl⟩
      intro u hu
      rcases List.mem_cons.mp hu with rfl | hu
      · simp [Token.isValue, hText]
      · have hPass := hAll u hu
        simp only [Bool.and_eq_true] at hPass
        simp [Token.isValue, hPass.1]
  | @assign t next rest words parts after after' hText _ hWords
      hKind hValue =>
      rcases takeToks_ok_iff.mp hWords with ⟨rfl, hAll, _⟩
      rcases takeToks_ok_iff.mp hValue with ⟨rfl, hParts, _⟩
      refine ⟨t :: words ++ next :: parts, by simp, by simp, ?_,
        ?_⟩
      · intro u hu
        rcases List.mem_append.mp hu with hu | hu
        · rcases List.mem_cons.mp hu with rfl | hu
          · simp [Token.isValue, hText]
          · have hPass := hAll u hu
            simp only [Bool.and_eq_true] at hPass
            simp [Token.isValue, hPass.1]
        · rcases List.mem_cons.mp hu with rfl | hu
          · simp [Token.isValue, hKind]
          · have hPass := hParts u hu
            simp only [Bool.and_eq_true] at hPass
            exact hPass.2
      · -- the sign is written as the lexer leaves it
        have hSign : tokenText next = "=" := by
          have hNext : WellWritten next := by
            have hTail :
                Sound (next :: (parts ++ after)) :=
              hSound.suffix ⟨t :: words, by simp⟩
            rcases hTail.1 with hToken | ⟨hEof, _⟩ | ⟨hString, _⟩
            · exact hToken
            · rw [hKind] at hEof
              cases hEof
            · rw [hKind] at hString
              cases hString
          cases hNext with
          | equals line => rfl
          | word hWord =>
              rw [hKind] at hWord
              cases hWord
          | string hString =>
              rw [hKind] at hString
              cases hString
          | _ => cases hKind
        have hBlanks : (" = " : Text) = " " ++ "=" ++ " " := rfl
        have hName :
            lineOf (t :: words ++ [next]) =
              lineOf (t :: words) ++ " " ++ "=" := by
          rw [lineOf_append (by simp) (by simp), lineOf_single,
            hSign]
        cases parts with
        | nil =>
            right
            refine ⟨?_, t :: words, next, rfl, hKind⟩
            rw [hName, Node.actionText, hBlanks, lineOf_nil]
            simp only [List.append_assoc, List.append_nil]
        | cons u others =>
            left
            have hSplit :
                t :: words ++ next :: u :: others =
                  (t :: words ++ [next]) ++ u :: others := by
              simp
            rw [hSplit, lineOf_append (by simp) (by simp), hName,
              Node.actionText, hBlanks]
            simp only [List.append_assoc]

/- The last token of the text is closed as it is written. -/
theorem LineOf.wellWritten
    {a : Text}
    {front : List Token}
    {u : Token}
    (hLine : LineOf front a)
    (hTokens : (lex a).tokens = front ++ [u])
    (hNonempty : front ≠ [])
    (hValue : ∀ t ∈ front, t.isValue = true) :
    ∀ t ∈ front, WellWritten t := by
  have hSound : Sound (front ++ [u]) := hTokens ▸ lex_sound a
  rcases List.eq_nil_or_concat' front with
    rfl | ⟨lead, last, rfl⟩
  · exact (hNonempty rfl).elim
  have hLastValue := hValue last (by simp)
  have hSplit :
      lead ++ [last] ++ [u] = lead ++ last :: [u] := by
    simp
  have hNotEof : last.kind ≠ .eof := by
    intro hKind
    simp [Token.isValue, Token.isText, hKind] at hLastValue
  have hLead : ∀ t ∈ lead, WellWritten t :=
    Sound.consumed lead (hSplit ▸ hSound) hNotEof
  have hLast : WellWritten last := by
    have hTail : Sound (last :: [u]) :=
      hSound.suffix ⟨lead, by simp⟩
    rcases hTail.1 with hToken | ⟨hKind, _⟩ | ⟨hKind, _⟩
    · exact hToken
    · exact (hNotEof hKind).elim
    rcases hLine with hLine | ⟨_, before, t, hSame, hSign⟩
    · rcases lineOf_concat (solid_of_wellWritten hLead) last with
        ⟨text, hText, hSplits⟩
      apply wellWritten_of_quoted hSplits hKind
      rw [← hText, hLine, ← hSplit]
      exact hTokens
    · have hEq := (List.append_inj' hSame rfl).2
      rw [(List.cons.inj hEq).1, hSign] at hKind
      cases hKind
  intro t ht
  rcases List.mem_append.mp ht with ht | ht
  · exact hLead t ht
  · rw [List.mem_singleton.mp ht]
    exact hLast

theorem LineOf.lexesTo
    {a : Text}
    {toks : List Token}
    (hLine : LineOf toks a)
    (hToks : ∀ t ∈ toks, WellWritten t) :
    LexesTo a toks := by
  have hLexes := lexesTo_lineOf (solid_of_wellWritten hToks)
  rcases hLine with rfl | ⟨rfl, _⟩
  · exact hLexes
  · exact hLexes.blank.lexesTo

/- A text that parses to one statement lexes to its tokens. -/
theorem rereads_front
    {a : Text}
    (hRereads : rereads a = true) :
    ∃ toks, LexesTo a toks ∧
      (∀ t ∈ toks, t.isValue = true) ∧ LineOf toks a := by
  rcases rereads_parse hRereads with
    ⟨n, comments, hParse, hStatement, hText⟩
  rcases parseTokens_ok_iff.mp (parse_ok_iff.mp hParse).1 with
    ⟨endLine, after', hParses⟩
  have hSound := lex_sound a
  generalize hToks : (lex a).tokens = toks at hParses hSound
  cases hParses with
  | @cons _ t rest mid _ _ _ _ _ _ hStmt hEnd =>
      cases hEnd with
      | @eof u others hKind =>
          rcases hStmt.statement_tokens hSound hStatement with
            ⟨front, hFront, hNonempty, hValue, hLine⟩
          rw [hText] at hLine
          have hTail : Sound (u :: others) :=
            hSound.suffix ⟨front, hFront.symm⟩
          cases hTail.only_eof hKind
          have hWritten : ∀ v ∈ front, WellWritten v :=
            hLine.wellWritten (hToks.trans hFront) hNonempty
              hValue
          exact ⟨front, hLine.lexesTo hWritten, hValue, hLine⟩

end Tacconfig

end Soteria

------------------------------------------------------------
-- Stable Actions
------------------------------------------------------------

namespace Soteria

namespace Tacconfig

/-
  One line that is not blank and, parsed on its own, is one
  statement with this text.
-/
structure Stable (a : Text) : Prop where
  oneLine : '\n' ∉ a
  notBlank : a.trimSpace ≠ []
  rereads : rereads a = true

theorem Stable.statementText
    {a : Text}
    (hStable : Stable a) :
    StatementText a := by
  rcases rereads_front hStable.rereads with
    ⟨toks, hLexes, hValue, _⟩
  apply statementText_of_rereads _ hStable.rereads
  refine ⟨toks, hLexes, ?_⟩
  intro t ht hKind
  have hToken := hValue t ht
  simp [Token.isValue, Token.isText, hKind] at hToken

/- A stable text that does not end in a blank is a value. -/
theorem Stable.valueText
    {a : Text}
    (hStable : Stable a)
    (hLast : a.getLast? ≠ some ' ') :
    ValueText a := by
  rcases rereads_front hStable.rereads with
    ⟨toks, hLexes, hValue, hLine⟩
  refine ⟨toks, hLexes, hValue, ?_⟩
  rcases hLine with hLine | ⟨hText, _⟩
  · exact hLine
  · exfalso
    apply hLast
    rw [hText]
    simp

/- The actions of a body beside its default action. -/
structure ActionList
    (actions : List Text)
    (action : Text) : Prop where
  stable : ∀ a ∈ actions, Stable a
  default : action = [] ∨ isTerminalAction action = true
  last :
    action = [] →
      ∀ a ∈ actions.getLast?, isTerminalAction a = false

theorem ActionList.written
    {actions : List Text}
    {action : Text}
    (hActions : ActionList actions action) :
    ∀ a ∈ actions, ActionWritten a :=
  fun a ha => Or.inr (hActions.stable a ha).statementText

/- Of stable actions all are written. -/
theorem ActionList.writtenActions
    {actions : List Text}
    {action : Text}
    (hActions : ActionList actions action) :
    writtenActions actions = actions := by
  rw [Tacconfig.writtenActions, List.filter_eq_self]
  intro a ha
  simpa using (hActions.stable a ha).notBlank

/- The actions and the default action are told apart. -/
theorem ActionList.splitDefault
    {actions : List Text}
    {action : Text}
    (hActions : ActionList actions action) :
    splitDefault
        (Tacconfig.writtenActions actions ++
          defaultText action) =
      (actions, action) := by
  rw [hActions.writtenActions]
  unfold defaultText
  by_cases hEmpty : action = []
  · have hLast := hActions.last hEmpty
    rw [if_pos hEmpty, List.append_nil, hEmpty]
    unfold Tacconfig.splitDefault
    cases hGet : actions.getLast? with
    | none => rfl
    | some last =>
        have hOther := hLast last hGet
        simp only [hOther, Bool.false_eq_true, if_false]
  · rw [if_neg hEmpty]
    exact splitDefault_terminal actions
      (hActions.default.resolve_left hEmpty)

end Tacconfig

end Soteria

------------------------------------------------------------
-- Operands
------------------------------------------------------------

namespace Soteria

namespace Tacconfig

/- The condition is returned as the test. -/
def Returns (test : Test) (c : Cond) : Prop :=
  c.returned = test

/- Words with single blanks between them, or nothing. -/
def Words (v : Text) : Prop :=
  ∃ words : List Text,
    (∀ w ∈ words, PlainWord w) ∧ v = Text.join words " "

/-
  What a condition compares: a regular expression is made of
  words; any other operand is a word, or empty, or a trimmed
  line with a blank and without quotes and backslashes.
-/
inductive Operand (op v : Text) : Prop
| regex
    (hOp : op = "=~")
    (hValue : Words v)
| word
    (hOp : op = "==" ∨ op = "!=")
    (hValue : PlainWord v)
| empty
    (hOp : op = "==" ∨ op = "!=")
    (hValue : v = [])
| spaced
    (hOp : op = "==" ∨ op = "!=")
    (hValue : LineText v)
    (hBlank : ' ' ∈ v)

theorem bareSurvives_of_words
    {v : Text}
    (hWords : Words v) :
    bareSurvives v = true := by
  rcases hWords with ⟨words, hPlain, rfl⟩
  have hToks :
      ∀ t ∈ words.map fun w => (⟨.word, w, 0⟩ : Token),
        BareToken t := by
    intro t ht
    rcases List.mem_map.mp ht with ⟨w, hw, rfl⟩
    exact bareToken_of_word (Or.inl (hPlain w hw)) 0
  apply bareSurvives_of_join hToks
  rw [List.map_map]
  congr 1
  exact List.map_id words

theorem bareSurvives_of_plainWord
    {v : Text}
    (hWord : PlainWord v) :
    bareSurvives v = true := by
  apply bareSurvives_of_words
  refine ⟨[v], by simpa using hWord, ?_⟩
  simp [Text.join, List.intercalate]

/- Such an operand is read as it was. -/
theorem Operand.condText
    {attr op v : Text}
    (hAttr : PlainWord attr)
    (hOperand : Operand op v) :
    CondText (Returns ⟨attr, op, v⟩) ⟨attr, op, v⟩
      (renderCondValue op v) := by
  have hAttrText : WordText attr := hAttr.lexesTo 0
  cases hOperand with
  | regex hOp hWords =>
      have hOpText : WordText op := by
        rw [hOp]
        exact (splits_operator "=~" (Or.inr (Or.inl rfl))
          0).lexesTo
      rw [renderCondValue, if_pos hOp]
      exact condText_bare ⟨attr, op, v⟩ hAttrText hOpText
        (bareSurvives_of_words hWords)
  | word hOp hWord =>
      have hQuoted :
          ¬ (v = [] ∨ v.containsAny " \t" = true) := by
        rintro (hEmpty | hAny)
        · exact hWord.1 hEmpty
        · rcases List.any_eq_true.mp hAny with ⟨c, hc, hBlank⟩
          have hPlain := hWord.2 c hc
          have hMem : c ∈ (" \t" : Text) := by
            simpa using hBlank
          have hCases : c = ' ' ∨ c = '\t' := by
            simpa using hMem
          rcases hCases with rfl | rfl
          · exact absurd hPlain (by decide)
          · exact absurd hPlain (by decide)
      rw [renderCondValue_equality hOp,
        if_neg (by simpa using hQuoted)]
      exact condText_bare ⟨attr, op, v⟩ hAttrText
        (wordText_of_equality hOp)
        (bareSurvives_of_plainWord hWord)
  | empty hOp hEmpty =>
      subst hEmpty
      rw [renderCondValue_equality hOp]
      exact condText_quoted ⟨attr, op, []⟩ hAttrText
        (wordText_of_equality hOp) rfl (by simp) (by simp)
  | spaced hOp hLine hBlank =>
      have hQuoted : v = [] ∨ v.containsAny " \t" = true :=
        Or.inr (List.any_eq_true.mpr ⟨' ', hBlank, by decide⟩)
      rw [renderCondValue_equality hOp,
        if_pos (by simpa using hQuoted)]
      exact condText_quoted ⟨attr, op, v⟩ hAttrText
        (wordText_of_equality hOp) hLine.trimmed hLine.noQuote
        hLine.noEscape

end Tacconfig

end Soteria
