import Soteria.Foundation.Words
import Soteria.Tacconfig.Confined
import Soteria.Tacconfig.Layout

/-
  The names of entities as tokens.

  The check of a name and the lexer agree on every character
  but the carriage return, which the check lets pass and the
  lexer takes for white space.

  Key definitions include:
    * `blockHeader`, `HeaderReads`, `SingleToken`
    * `headerReads_iff`, `singleToken_iff`
-/

------------------------------------------------------------
-- Names in Headers
------------------------------------------------------------

namespace Soteria

namespace Tacconfig

/- The first line of a block. -/
def blockHeader (kind name : Text) : Text :=
  kind ++ " " ++ name ++ " \x7b"

/-
  Whatever stands behind the header, it is read as that of a
  block with this label, to which the statements up to the
  next closing brace belong.
-/
def HeaderReads (kind name : Text) : Prop :=
  ∀ rest nodes comments,
    parse (blockHeader kind name ++ rest) =
        .ok (nodes, comments) ↔
      ∃ children endLine left more line after,
        nodes = .block kind name children 1 endLine :: more ∧
          Parses
            (.stmts true (lex rest).tokens children endLine
              left) ∧
            Parses (.stmts false left more line after) ∧
              comments = (lex rest).comments

/- The name is one token, also where it is a label. -/
structure SingleToken (name : Text) : Prop where
  lexed :
    lex name = ⟨[⟨.word, name, 1⟩, ⟨.eof, "", 1⟩], []⟩
  header :
    ∀ kind, PlainWord kind → kind ≠ "if" →
      HeaderReads kind name

variable {kind name : Text}

theorem lex_plainWord
    (hName : PlainWord name) :
    lex name = ⟨[⟨.word, name, 1⟩, ⟨.eof, "", 1⟩], []⟩ := by
  have hLexed := lexAt_word hName stops_nil 1
  rw [List.append_nil] at hLexed
  exact hLexed

/- The three tokens of a header. -/
theorem lex_blockHeader
    (hKind : PlainWord kind)
    (hName : PlainWord name)
    (rest : Text) :
    lex (blockHeader kind name ++ rest) =
      (lex rest).before
        [⟨.word, kind, 1⟩, ⟨.word, name, 1⟩,
          ⟨.lbrace, "\x7b", 1⟩] := by
  have hText :
      blockHeader kind name ++ rest =
        kind ++ (' ' :: (name ++ (' ' :: '\x7b' :: rest))) := by
    unfold blockHeader
    simp
  have hBrace :
      lexAt 1 (' ' :: '\x7b' :: rest) =
        (lexAt 1 rest).add
          (.token ⟨.lbrace, "\x7b", 1⟩) := by
    rw [lexAt_cons]
    show lexAt 1 ('\x7b' :: rest) = _
    rw [lexAt_cons]
    rfl
  have hBlank :
      ∀ s, lexAt 1 (' ' :: s) = lexAt 1 s := by
    intro s
    rw [lexAt_cons]
    rfl
  unfold lex
  rw [hText, lexAt_word hKind (stops_cons (by decide) _),
    hBlank, lexAt_word hName (stops_cons (by decide) _), hBrace]
  rfl

/- A header of two plain words is read as it is written. -/
theorem PlainWord.headerReads
    (hKind : PlainWord kind)
    (hIf : kind ≠ "if")
    (hName : PlainWord name) :
    HeaderReads kind name := by
  intro rest nodes comments
  have hLexed := lex_blockHeader hKind hName rest
  rw [parse_ok_iff, parseTokens_ok_iff, hLexed]
  have hWords :
      takeWords 1
          (⟨.word, name, 1⟩ :: ⟨.lbrace, "\x7b", 1⟩ ::
            (lex rest).tokens) =
        .ok ([⟨.word, name, 1⟩],
          ⟨.lbrace, "\x7b", 1⟩ :: (lex rest).tokens) :=
    takeToks_ok_iff.mpr ⟨rfl, by simp [Token.isText], _, _, rfl,
      rfl⟩
  constructor
  · rintro ⟨⟨line, after, hParses⟩, rfl⟩
    cases hParses with
    | eof hEof => cases hEof
    | cons hEof hBrace hStmt hRest =>
        cases hStmt with
        | ifStmt _ hSame _ => exact (hIf hSame).elim
        | assign _ _ hTaken hEquals _ =>
            have hSame := hWords.symm.trans hTaken
            cases hSame
            cases hEquals
        | block _ _ hTaken _ hBody =>
            have hSame := hWords.symm.trans hTaken
            cases hSame
            rw [lineOf_single]
            exact ⟨_, _, _, _, _, _, rfl, hBody, hRest, rfl⟩
        | action _ _ hTaken _ hOther =>
            have hSame := hWords.symm.trans hTaken
            cases hSame
            exact (hOther rfl).elim
  · rintro ⟨children, endLine, left, more, line, after, rfl,
      hBody, hRest, rfl⟩
    refine ⟨⟨line, after, ?_⟩, rfl⟩
    have hStmt :=
      Parses.block (t := ⟨.word, kind, 1⟩) rfl hIf hWords rfl
        hBody
    rw [lineOf_single] at hStmt
    exact hStmt.cons_stmt hRest

end Tacconfig

end Soteria

------------------------------------------------------------
-- Names That Are Split
------------------------------------------------------------

namespace Soteria

namespace Tacconfig

variable {kind name check : Text}

/- No word of a source has a carriage return. -/
theorem return_not_mem_word
    {src : Text}
    {t : Token}
    (hMem : t ∈ (lex src).tokens)
    (hKind : t.kind = .word) :
    '\r' ∉ t.text := by
  rcases List.append_of_mem hMem with ⟨front, back, hTokens⟩
  have hSound := lex_sound src
  rw [hTokens] at hSound
  have hHere := (hSound.suffix ⟨front, rfl⟩).1
  intro hReturn
  rcases hHere with hWritten | ⟨hEof, -⟩ | ⟨hString, -⟩
  · cases hWritten with
    | word _ hText =>
        rcases hText with hPlain | hText | hText | hText
        · exact absurd (hPlain.2 _ hReturn) (by decide)
        all_goals
          rw [hText] at hReturn
          exact absurd hReturn (by decide)
    | string hString _ =>
        rw [hKind] at hString
        cases hString
    | _ => cases hKind
  · rw [hKind] at hEof
    cases hEof
  · rw [hKind] at hString
    cases hString

/- A label that is read as it is written has none, either. -/
theorem LabelText.return_not_mem
    (hLabel : LabelText name)
    (hQuote : '"' ∉ name) :
    '\r' ∉ name := by
  rcases hLabel with ⟨words, hLexes, hWords, hLine⟩
  intro hReturn
  rw [← hLine] at hReturn
  rcases Text.mem_joined hReturn with hBlank | ⟨s, hs, hMem⟩
  · exact absurd hBlank (by decide)
  · rcases List.mem_map.mp hs with ⟨t, ht, rfl⟩
    cases hKind : t.kind with
    | word =>
        have hTokens := hLexes 1 [] stops_nil
        rw [List.append_nil] at hTokens
        have hHere :
            t.onLine 1 ∈ (lex name).tokens := by
          unfold lex
          rw [hTokens]
          exact List.mem_append_left _ (List.mem_map_of_mem ht)
        apply return_not_mem_word hHere hKind
        show '\r' ∈ t.text
        simpa [tokenText, hKind] using hMem
    | string =>
        apply hQuote
        rw [← hLine]
        apply Text.mem_joined_of_mem hs
        simp [tokenText, hKind]
    | _ =>
        have hText := hWords t ht
        simp [Token.isText, hKind] at hText

/- The quote is among the characters that are not accepted. -/
theorem quote_not_mem_of_valid
    (hValid : validateEntityName check name = none) :
    '"' ∉ name := by
  intro hMem
  have hReturn :=
    (validateEntityName_none_iff.mp hValid).2 _ hMem rfl
  exact absurd hReturn (by decide)

/- The label of a header is an accepted name as a whole. -/
theorem headerReads_iff
    (hValid : validateEntityName check name = none)
    (hKind : PlainWord kind)
    (hIf : kind ≠ "if") :
    HeaderReads kind name ↔ '\r' ∉ name := by
  constructor
  · intro hReads
    have hBody :
        Parses (.stmts true (lex "\x7d").tokens [] 1
          [⟨.eof, "", 1⟩]) :=
      .rbrace rfl
    have hParse :=
      (hReads "\x7d" _ []).mpr
        ⟨[], 1, _, [], 0, _, rfl, hBody, .eof rfl, rfl⟩
    have hWritten :=
      parse_written hParse (List.mem_cons_self ..)
    exact LabelText.return_not_mem hWritten.1
      (quote_not_mem_of_valid hValid)
  · intro hReturn
    exact hKind.headerReads hIf
      (plainWord_of_valid hValid hReturn)

/- An accepted name is one token if it has no carriage return. -/
theorem singleToken_iff
    (hValid : validateEntityName check name = none) :
    SingleToken name ↔ '\r' ∉ name := by
  constructor
  · intro hSingle
    have hMem : ⟨.word, name, 1⟩ ∈ (lex name).tokens := by
      rw [hSingle.lexed]
      exact List.mem_cons_self ..
    exact return_not_mem_word hMem rfl
  · intro hReturn
    refine ⟨lex_plainWord (plainWord_of_valid hValid hReturn),
      fun kind hKind hIf => ?_⟩
    exact (headerReads_iff hValid hKind hIf).mpr hReturn

theorem singleToken_netops :
    validateEntityName "group" "net-ops" = none ∧
      SingleToken "net-ops" := by
  have hValid : validateEntityName "group" "net-ops" = none := by
    decide
  exact ⟨hValid, (singleToken_iff hValid).mpr (by decide)⟩

/- A carriage return makes two tokens of an accepted name. -/
theorem accepted_name_split :
    validateEntityName "user" "net\rops" = none ∧
      (lex "net\rops").tokens =
        [⟨.word, "net", 1⟩, ⟨.word, "ops", 1⟩,
          ⟨.eof, "", 1⟩] ∧
        ¬ SingleToken "net\rops" := by
  refine ⟨by decide, by decide, fun hSingle => ?_⟩
  have hTokens := congrArg Lexed.tokens hSingle.lexed
  exact absurd hTokens (by decide)

end Tacconfig

end Soteria
