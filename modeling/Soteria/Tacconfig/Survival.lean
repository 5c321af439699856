import Soteria.Tacconfig.Reads

/-
  The texts that survive being written and read again.

  An action survives if, parsed on its own, it is one
  statement with its own text. An operand survives if the
  way it is rendered gives its tokens back: a regular
  expression needs a plain token between any two blanks.

  Key definitions include:
    * `rereads`, `actionSurvives`
    * `plainToken`, `closedString`
    * `bareSurvives`, `valueSurvives`, `operandSurvives`
    * `statementText_of_rereads`
    * `operandText_of_survives`
-/

------------------------------------------------------------
-- Actions
------------------------------------------------------------

namespace Soteria

namespace Tacconfig

/- The text parses to one statement with this text. -/
def rereads (action : Text) : Bool :=
  match parse action with
  | .ok ([n], _) => n.isStatement && n.actionText == action
  | _ => false

/- A text of white space is not written at all. -/
def actionSurvives (action : Text) : Bool :=
  action.trimSpace == [] || rereads action

/- The last of the tokens before the end of the file. -/
theorem eof_suffix
    {toks : List Token}
    {u t : Token}
    {rest : List Token}
    (hToks : ∀ v ∈ toks, v.kind ≠ .eof)
    (hSuffix : t :: rest <:+ toks ++ [u])
    (hKind : t.kind = .eof) :
    t :: rest = [u] := by
  rcases hSuffix with ⟨lead, hLead⟩
  rcases List.append_eq_append_iff.mp hLead with
    ⟨more, rfl, hMore⟩ | ⟨more, rfl, hMore⟩
  · cases more with
    | nil => simpa using hMore
    | cons v more =>
        have hv : t = v := (List.cons.inj hMore).1
        subst hv
        exact (hToks t (by simp) hKind).elim
  · cases more with
    | nil => simpa using hMore.symm
    | cons v more =>
        have hEnd := (List.cons.inj hMore).2
        simp at hEnd

/- A statement can be moved to another line. -/
theorem Parses.move
    {toks rest : List Token}
    {u : Token}
    {n : Node}
    (hParses : Parses (.stmt (toks ++ u :: rest) n (u :: rest)))
    (hStatement : n.isStatement = true)
    (line : Nat)
    {after : List Token}
    (hAfter : Elsewhere line after) :
    ∃ m : Node, m.isStatement = true ∧
      m.actionText = n.actionText ∧
        Parses
          (.stmt (toks.map (Token.onLine line) ++ after) m
            after) := by
  rcases hAfter with ⟨v, tail, rfl, hLine, hBrace, hEquals⟩
  generalize hToks : toks ++ u :: rest = all at hParses
  generalize hRest : u :: rest = left at hParses
  cases hParses with
  | ifStmt _ _ hIf => cases hIf <;> cases hStatement
  | block => cases hStatement
  | @action t next words' words after' hText hWord hWords =>
      rcases takeToks_ok_iff.mp hWords with ⟨rfl, hAll, _⟩
      rw [hRest] at hToks
      have hEq : toks = t :: words := by
        refine (List.append_left_inj (next :: after')).mp ?_
        simpa using hToks
      subst hEq
      refine ⟨.action
        (lineOf ((t :: words).map (Token.onLine line))) line
        line, rfl, by rw [lineOf_onLine]; rfl, ?_⟩
      refine .action (t := t.onLine line) hText hWord ?_
        hEquals hBrace
      refine takeToks_ok_iff.mpr ⟨rfl, ?_, v, tail, rfl, ?_⟩
      · intro w hw
        rcases List.mem_map.mp hw with ⟨x, hx, rfl⟩
        have hPass := hAll x hx
        simp only [Bool.and_eq_true] at hPass
        simpa [Token.onLine, Token.isText] using hPass.1
      · simp [Token.onLine, hLine]
  | @assign t next words' words parts mid after' hText hWord
      hWords hKind hValue =>
      rcases takeToks_ok_iff.mp hWords with ⟨rfl, hAll, _⟩
      rcases takeToks_ok_iff.mp hValue with ⟨rfl, hParts, _⟩
      rw [hRest] at hToks
      have hEq : toks = t :: words ++ next :: parts := by
        refine (List.append_left_inj left).mp ?_
        simpa using hToks
      subst hEq
      refine ⟨.assign
        (lineOf ((t :: words).map (Token.onLine line)))
        (lineOf (parts.map (Token.onLine line))) line line,
        rfl, by rw [lineOf_onLine, lineOf_onLine]; rfl, ?_⟩
      have hMoved :
          (t :: words ++ next :: parts).map
              (Token.onLine line) ++ v :: tail =
            t.onLine line ::
              (words.map (Token.onLine line) ++
                next.onLine line ::
                  (parts.map (Token.onLine line) ++
                    v :: tail)) := by
        simp
      rw [hMoved]
      have hTaken :
          takeWords line
              (words.map (Token.onLine line) ++
                next.onLine line ::
                  (parts.map (Token.onLine line) ++
                    v :: tail)) =
            .ok (words.map (Token.onLine line),
              next.onLine line ::
                (parts.map (Token.onLine line) ++
                  v :: tail)) := by
        refine takeToks_ok_iff.mpr ⟨rfl, ?_, _, _, rfl, ?_⟩
        · intro w hw
          rcases List.mem_map.mp hw with ⟨x, hx, rfl⟩
          have hPass := hAll x hx
          simp only [Bool.and_eq_true] at hPass
          simpa [Token.onLine, Token.isText] using hPass.1
        · simp [Token.onLine, Token.isText, hKind]
      refine .assign (t := t.onLine line) hText hWord hTaken
        hKind ?_
      · refine takeToks_ok_iff.mpr ⟨rfl, ?_, v, tail, rfl, ?_⟩
        · intro w hw
          rcases List.mem_map.mp hw with ⟨x, hx, rfl⟩
          have hPass := hParts x hx
          simp only [Bool.and_eq_true] at hPass
          simpa [Token.onLine, Token.isValue, Token.isText]
            using hPass.2
        · simp [Token.onLine, hLine]

/- An action of a source that rereads is a statement. -/
theorem statementText_of_rereads
    {action : Text}
    (hLexical : Lexical action)
    (hRereads : rereads action = true) :
    StatementText action := by
  rcases hLexical with ⟨toks, hLexes, hEof⟩
  have hParse :
      ∃ n comments, parse action = .ok ([n], comments) ∧
        n.isStatement = true ∧ n.actionText = action := by
    unfold rereads at hRereads
    split at hRereads
    · rename_i n comments hParse
      simp only [Bool.and_eq_true, beq_iff_eq] at hRereads
      exact ⟨n, comments, hParse, hRereads.1, hRereads.2⟩
    · cases hRereads
  rcases hParse with
    ⟨n, comments, hParse, hStatement, hAction⟩
  rcases parseTokens_ok_iff.mp (parse_ok_iff.mp hParse).1 with
    ⟨endLine, after', hParses⟩
  have hToks :
      (lex action).tokens =
        toks.map (Token.onLine 1) ++ [⟨.eof, "", 1⟩] := by
    have hLexed := hLexes 1 [] stops_nil
    rw [List.append_nil, lexAt_nil] at hLexed
    exact hLexed
  rw [hToks] at hParses
  have hMapped :
      ∀ v ∈ toks.map (Token.onLine 1), v.kind ≠ .eof := by
    intro v hv
    rcases List.mem_map.mp hv with ⟨w, hw, rfl⟩
    exact hEof w hw
  generalize hAll :
    toks.map (Token.onLine 1) ++ [⟨.eof, "", 1⟩] = all
      at hParses
  cases hParses with
  | @cons _ t rest mid _ _ _ _ _ _ hStmt hEnd =>
      cases hEnd with
      | @eof u others hKind =>
          have hSuffix := hStmt.suffix.1
          rw [← hAll] at hSuffix hStmt
          have hLast := eof_suffix hMapped hSuffix hKind
          rw [hLast] at hStmt
          refine ⟨toks, hLexes, ?_⟩
          intro line after hAfter
          rcases hStmt.move hStatement line hAfter with
            ⟨m, hm, hText, hMoved⟩
          refine ⟨m, hm, hText.trans hAction, ?_⟩
          simpa [Function.comp_def] using hMoved

end Tacconfig

end Soteria

------------------------------------------------------------
-- Operands
------------------------------------------------------------

namespace Soteria

namespace Tacconfig

/- The kind of a token that is written as the text. -/
def tokenKind (s : Text) : Option TokKind :=
  if s = "\x7b" then some .lbrace
  else if s = "\x7d" then some .rbrace
  else if s = "(" then some .lparen
  else if s = "=" then some .equals
  else if s = "==" ∨ s = "=~" ∨ s = "!=" then some .word
  else if s ≠ [] ∧ s.all (fun c => !delimiter c) then
    some .word
  else none

/- The text is read as one token, no string and no `)`. -/
def plainToken (s : Text) : Bool :=
  (tokenKind s).isSome

/- Between quotes, the text is read as one string. -/
def closedString (s : Text) : Bool :=
  stringBody (s ++ "\"") == (s, [])

/- Without quotes, the text is read as it was. -/
def bareSurvives (v : Text) : Bool :=
  v == [] || (v.splitOn ' ').all plainToken

/- The operand, as it is rendered, is read as it was. -/
def valueSurvives (op v : Text) : Bool :=
  if op = "=~" then bareSurvives v
  else if v = [] || v.containsAny " \t" then closedString v
  else plainToken v

/- The operand of a condition is kept by the round trip. -/
def operandSurvives (c : Cond) : Bool :=
  condValue c == c.value && valueSurvives c.op c.value

theorem wellWritten_of_tokenKind
    {s : Text}
    {kind : TokKind}
    (hKind : tokenKind s = some kind) :
    WellWritten ⟨kind, s, 0⟩ ∧ kind ≠ .rparen ∧ kind ≠ .eof ∧
      kind ≠ .string := by
  unfold tokenKind at hKind
  split at hKind
  · rename_i hs
    subst hs
    cases hKind
    exact ⟨.lbrace 0, by simp⟩
  split at hKind
  · rename_i hs
    subst hs
    cases hKind
    exact ⟨.rbrace 0, by simp⟩
  split at hKind
  · rename_i hs
    subst hs
    cases hKind
    exact ⟨.lparen 0, by simp⟩
  split at hKind
  · rename_i hs
    subst hs
    cases hKind
    exact ⟨.equals 0, by simp⟩
  split at hKind
  · rename_i hs
    cases hKind
    exact ⟨.word rfl (Or.inr hs), by simp⟩
  split at hKind
  · rename_i hs
    cases hKind
    refine ⟨.word rfl (Or.inl ⟨hs.1, ?_⟩), by simp⟩
    intro c hc
    simpa using List.all_eq_true.mp hs.2 c hc
  · cases hKind

/- The token that is written as the text. -/
def tokenOf (s : Text) : Token :=
  ⟨(tokenKind s).getD .eof, s, 0⟩

theorem wellWritten_tokenOf
    {s : Text}
    (hPlain : plainToken s = true) :
    WellWritten (tokenOf s) ∧ (tokenOf s).kind ≠ .rparen ∧
      (tokenOf s).kind ≠ .eof ∧
        (tokenOf s).kind ≠ .string := by
  rcases Option.isSome_iff_exists.mp hPlain with ⟨kind, hKind⟩
  have hToken : tokenOf s = ⟨kind, s, 0⟩ := by
    simp [tokenOf, hKind]
  rw [hToken]
  exact wellWritten_of_tokenKind hKind

theorem tokenText_tokenOf
    {s : Text}
    (hPlain : plainToken s = true) :
    tokenText (tokenOf s) = s := by
  have hString := (wellWritten_tokenOf hPlain).2.2.2
  rw [tokenText, if_neg hString]
  rfl

theorem closed_of_closedString
    {s : Text}
    (hClosed : closedString s = true) :
    Closed s := by
  have hBody : stringBody (s ++ "\"") = (s, []) := by
    simpa [closedString] using hClosed
  rcases stringBody_cases (s ++ "\"") with
    ⟨hText, _⟩ | ⟨hText, _⟩
  · rwa [hBody] at hText
  · rw [hBody] at hText
    simp at hText

/- Plain tokens with blanks between them. -/
theorem operand_of_plain
    {pieces : List Text}
    (hPlain : ∀ s ∈ pieces, plainToken s = true) :
    LexesTo (Text.join pieces " ") (pieces.map tokenOf) ∧
      (∀ t ∈ pieces.map tokenOf,
        t.kind ≠ .rparen ∧ t.kind ≠ .eof) ∧
      Text.join ((pieces.map tokenOf).map Token.text) " " =
        Text.join pieces " " := by
  have hTexts :
      (pieces.map tokenOf).map tokenText = pieces := by
    rw [List.map_map]
    refine (List.map_congr_left ?_).trans (List.map_id _)
    intro s hs
    exact tokenText_tokenOf (hPlain s hs)
  have hSolid : ∀ t ∈ pieces.map tokenOf, Solid t := by
    intro t ht
    rcases List.mem_map.mp ht with ⟨s, hs, rfl⟩
    exact (wellWritten_tokenOf (hPlain s hs)).1.solid
  refine ⟨?_, ?_, ?_⟩
  · have hLine := lexesTo_lineOf hSolid
    rw [lineOf, hTexts] at hLine
    exact hLine
  · intro t ht
    rcases List.mem_map.mp ht with ⟨s, hs, rfl⟩
    have hToken := wellWritten_tokenOf (hPlain s hs)
    exact ⟨hToken.2.1, hToken.2.2.1⟩
  · rw [List.map_map]
    congr 1
    exact (List.map_congr_left fun _ _ => rfl).trans
      (List.map_id _)

theorem join_splitOn (v : Text) :
    Text.join (v.splitOn ' ') " " = v :=
  List.intercalate_splitOn ' '

theorem operandText_of_bare
    {v : Text}
    (hSurvives : bareSurvives v = true) :
    OperandText v v := by
  by_cases hEmpty : v = []
  · subst hEmpty
    exact ⟨[], splits_nil.lexesTo, by simp, rfl⟩
  · have hPlain : ∀ s ∈ v.splitOn ' ', plainToken s = true := by
      simpa [bareSurvives, hEmpty] using hSurvives
    have hPieces := operand_of_plain hPlain
    rw [join_splitOn] at hPieces
    exact ⟨_, hPieces⟩

/- An operand that survives is read as it was. -/
theorem operandText_of_survives
    {op v : Text}
    (hSurvives : valueSurvives op v = true) :
    OperandText (renderCondValue op v) v := by
  unfold valueSurvives at hSurvives
  unfold renderCondValue
  by_cases hOp : op = "=~"
  · rw [if_pos hOp] at hSurvives ⊢
    exact operandText_of_bare hSurvives
  · rw [if_neg hOp] at hSurvives ⊢
    split
    · rename_i hBlank
      rw [if_pos hBlank] at hSurvives
      have hClosed := closed_of_closedString hSurvives
      refine ⟨[⟨.string, v, 0⟩], (hClosed.splits 0).lexesTo,
        by simp, ?_⟩
      simp [Text.join, List.intercalate]
    · rename_i hBlank
      rw [if_neg hBlank] at hSurvives
      have hPlain : ∀ s ∈ [v], plainToken s = true := by
        simpa using hSurvives
      have hPieces := operand_of_plain hPlain
      have hJoin : Text.join [v] " " = v := by
        simp [Text.join, List.intercalate]
      rw [hJoin] at hPieces
      exact ⟨_, hPieces⟩

theorem operandSurvives_test
    {cond : Cond}
    (hOperand : operandSurvives cond = true) :
    cond.test =
      ⟨cond.attr, cond.op, condValue cond⟩ := by
  simp only [operandSurvives, Bool.and_eq_true, beq_iff_eq]
    at hOperand
  rw [hOperand.1]
  rfl

end Tacconfig

end Soteria
