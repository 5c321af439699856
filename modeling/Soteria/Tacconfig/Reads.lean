import Soteria.Tacconfig.Scripts
import Soteria.Tacconfig.Render
import Soteria.Tacconfig.Written

/-
  Rendered lines that parse again.

  A text reads as nodes with a property if it lexes to lines
  of tokens that, in front of other statements on later
  lines, parse to such nodes. What may follow the brace of
  an `if` must not start with `else`.

  Key definitions include:
    * `ParsesTo`, `Reads`, `ReadsNext`
    * `StatementText`, `OperandText`
    * `Reads.action`, `ReadsNext.braced`
    * `ReadsNext.block`
    * `Pasted`, `Reads.assignTo`, `Reads.skipAll`
    * `Reads.parse`
-/

------------------------------------------------------------
-- Lines That Parse
------------------------------------------------------------

namespace Soteria

namespace Tacconfig

/- The tokens start on a later line, and not with `else`. -/
def Follows (line : Nat) (after : List Token) : Prop :=
  ∀ t ∈ after.head?,
    line ≤ t.line ∧ ¬ (t.kind = .word ∧ t.text = "else")

/- The lines parse to nodes with a property. -/
def ParsesTo
    (lines : List (List Token))
    (P : List Node → Prop) : Prop :=
  ∀ line untilRBrace after more endLine after',
    Follows (line + lines.length) after →
      Parses (.stmts untilRBrace after more endLine after') →
        ∃ nodes, P nodes ∧
          Parses
            (.stmts untilRBrace (numbered line lines ++ after)
              (nodes ++ more) endLine after')

/- The lines do not start with `else`. -/
def Starts (lines : List (List Token)) : Prop :=
  ∀ t ∈ lines.flatten.head?,
    ¬ (t.kind = .word ∧ t.text = "else")

/- The text reads as nodes with a property. -/
def Reads (s : Text) (P : List Node → Prop) : Prop :=
  ∃ lines, LexesLines s lines ∧ ParsesTo lines P

/- The same, also right after the brace of an `if`. -/
def ReadsNext (s : Text) (P : List Node → Prop) : Prop :=
  ∃ lines,
    LexesLines s lines ∧ ParsesTo lines P ∧ Starts lines

theorem ReadsNext.reads
    {s : Text}
    {P : List Node → Prop}
    (hReads : ReadsNext s P) :
    Reads s P := by
  rcases hReads with ⟨lines, hLexes, hParses, _⟩
  exact ⟨lines, hLexes, hParses⟩

theorem ParsesTo.mono
    {lines : List (List Token)}
    {P Q : List Node → Prop}
    (hParses : ParsesTo lines P)
    (hImp : ∀ nodes, P nodes → Q nodes) :
    ParsesTo lines Q := by
  intro line untilRBrace after more endLine after' hFollows hMore
  rcases hParses line untilRBrace after more endLine after'
      hFollows hMore with ⟨nodes, hNodes, hAll⟩
  exact ⟨nodes, hImp nodes hNodes, hAll⟩

theorem Reads.mono
    {s : Text}
    {P Q : List Node → Prop}
    (hReads : Reads s P)
    (hImp : ∀ nodes, P nodes → Q nodes) :
    Reads s Q := by
  rcases hReads with ⟨lines, hLexes, hParses⟩
  exact ⟨lines, hLexes, hParses.mono hImp⟩

theorem ReadsNext.mono
    {s : Text}
    {P Q : List Node → Prop}
    (hReads : ReadsNext s P)
    (hImp : ∀ nodes, P nodes → Q nodes) :
    ReadsNext s Q := by
  rcases hReads with ⟨lines, hLexes, hParses, hStarts⟩
  exact ⟨lines, hLexes, hParses.mono hImp, hStarts⟩

theorem ReadsNext.nil : ReadsNext [] (· = []) := by
  refine ⟨[], lexesLines_nil, ?_, ?_⟩
  · intro line untilRBrace after more endLine after' _ hMore
    exact ⟨[], rfl, hMore⟩
  · intro t ht
    cases ht

/- The lines of a text start on or after the line it does. -/
theorem numbered_head
    (line : Nat)
    (lines : List (List Token)) :
    ∀ t ∈ (numbered line lines).head?,
      line ≤ t.line ∧
        ∃ u ∈ lines.flatten.head?,
          u.kind = t.kind ∧ u.text = t.text := by
  induction lines generalizing line with
  | nil =>
      intro t ht
      cases ht
  | cons toks lines ih =>
      intro t ht
      cases toks with
      | nil =>
          rcases ih (line + 1) t ht with ⟨hLine, hSame⟩
          exact ⟨by omega, hSame⟩
      | cons u toks =>
          have hEq : u.onLine line = t := Option.some.inj ht
          subst hEq
          exact ⟨le_rfl, u, rfl, rfl, rfl⟩

theorem Starts.follows
    {lines : List (List Token)}
    (hStarts : Starts lines)
    {line : Nat}
    {after : List Token}
    (hFollows : Follows (line + lines.length) after) :
    Follows line (numbered line lines ++ after) := by
  intro t ht
  have hHead := numbered_head line lines
  cases hToks : numbered line lines with
  | nil =>
      rw [hToks, List.nil_append] at ht
      have hAfter := hFollows t ht
      exact ⟨by omega, hAfter.2⟩
  | cons u toks =>
      rw [hToks] at ht hHead
      have hEq : u = t := Option.some.inj ht
      subst hEq
      rcases hHead u rfl with ⟨hLine, v, hv, hKind, hText⟩
      refine ⟨hLine, ?_⟩
      rw [← hKind, ← hText]
      exact hStarts v hv

theorem Parses.ne_nil
    {untilRBrace : Bool}
    {toks after : List Token}
    {nodes : List Node}
    {line : Nat}
    (hParses :
      Parses (.stmts untilRBrace toks nodes line after)) :
    ∃ t rest, toks = t :: rest ∧ t.kind ≠ .lbrace ∧
      t.kind ≠ .equals := by
  cases hParses with
  | eof hKind => exact ⟨_, _, rfl, by simp [hKind]⟩
  | rbrace hKind => exact ⟨_, _, rfl, by simp [hKind]⟩
  | @cons _ t _ _ _ _ _ _ _ _ hStmt =>
      have hText : t.isText = true := by
        cases hStmt <;> assumption
      refine ⟨t, _, rfl, ?_, ?_⟩
      · intro hKind
        simp [Token.isText, hKind] at hText
      · intro hKind
        simp [Token.isText, hKind] at hText

end Tacconfig

end Soteria

------------------------------------------------------------
-- Lines of Text
------------------------------------------------------------

namespace Soteria

namespace Tacconfig

/- Nothing but blanks. -/
def Indent (s : Text) : Prop :=
  ∀ c ∈ s, c = ' '

instance : DecidablePred Indent := fun s =>
  Text.decidableForallMem s _

theorem indent_nil : Indent [] := by
  decide

theorem indent_blank : Indent " " := by
  decide

theorem Indent.splits
    {s : Text}
    (hIndent : Indent s) :
    Splits s [] := by
  induction s with
  | nil => exact splits_nil
  | cons c s ih =>
      have hc := hIndent c (List.mem_cons_self ..)
      have hRest :=
        ih fun d hd => hIndent d (List.mem_cons_of_mem _ hd)
      subst hc
      exact splits_blank.append hRest

theorem Indent.append
    {s more : Text}
    (hIndent : Indent s)
    (hMore : Indent more) :
    Indent (s ++ more) := by
  intro c hc
  rcases List.mem_append.mp hc with hc | hc
  · exact hIndent c hc
  · exact hMore c hc

/- An indented line of tokens. -/
theorem lexesLines_line
    {indent s : Text}
    {toks : List Token}
    (hIndent : Indent indent)
    (hLexes : LexesTo s toks) :
    LexesLines (indent ++ s ++ "\n") [toks] :=
  (hIndent.splits.append_lexesTo hLexes).line

@[simp] theorem tokenText_onLine (line : Nat) (t : Token) :
    tokenText (t.onLine line) = tokenText t := rfl

@[simp] theorem onLine_onLine
    (line other : Nat)
    (t : Token) :
    (t.onLine other).onLine line = t.onLine line := rfl

@[simp] theorem lineOf_onLine
    (line : Nat)
    (toks : List Token) :
    lineOf (toks.map (Token.onLine line)) = lineOf toks := by
  simp [lineOf, Function.comp_def]

theorem map_text_onLine (line : Nat) (toks : List Token) :
    (toks.map (Token.onLine line)).map Token.text =
      toks.map Token.text := by
  simp [Token.onLine]

end Tacconfig

end Soteria

------------------------------------------------------------
-- Statements
------------------------------------------------------------

namespace Soteria

namespace Tacconfig

/- The tokens neither start on the line nor continue it. -/
def Elsewhere (line : Nat) (after : List Token) : Prop :=
  ∃ t rest, after = t :: rest ∧ t.line ≠ line ∧
    t.kind ≠ .lbrace ∧ t.kind ≠ .equals

/- On a line of its own, the text is read as a statement. -/
def StatementText (s : Text) : Prop :=
  ∃ toks,
    LexesTo s toks ∧
      ∀ line after, Elsewhere line after →
        ∃ n : Node, n.isStatement = true ∧ n.actionText = s ∧
          Parses
            (.stmt (toks.map (Token.onLine line) ++ after) n
              after)

/- A statement in front of others. -/
theorem Parses.cons_stmt
    {untilRBrace : Bool}
    {toks after after' : List Token}
    {n : Node}
    {nodes : List Node}
    {line : Nat}
    (hStmt : Parses (.stmt toks n after))
    (hRest :
      Parses (.stmts untilRBrace after nodes line after')) :
    Parses
      (.stmts untilRBrace toks (n :: nodes) line after') := by
  have hText :
      ∃ t rest, toks = t :: rest ∧ t.isText = true := by
    cases hStmt <;> exact ⟨_, _, rfl, by assumption⟩
  rcases hText with ⟨t, rest, rfl, hText⟩
  have hEof : t.kind ≠ .eof := by
    intro hKind
    simp [Token.isText, hKind] at hText
  have hBrace : t.kind ≠ .rbrace := by
    intro hKind
    simp [Token.isText, hKind] at hText
  exact .cons hEof hBrace hStmt hRest

/- What follows a line is not on it. -/
theorem Parses.elsewhere
    {untilRBrace : Bool}
    {toks after : List Token}
    {nodes : List Node}
    {line endLine : Nat}
    (hParses :
      Parses (.stmts untilRBrace toks nodes endLine after))
    (hLine : ∀ t ∈ toks.head?, line + 1 ≤ t.line) :
    Elsewhere line toks := by
  rcases hParses.ne_nil with ⟨t, rest, rfl, hBrace, hEquals⟩
  have hLater := hLine t rfl
  exact ⟨t, rest, rfl, by omega, hBrace, hEquals⟩

/- The first token of the lines of a text, or what follows. -/
theorem head_later
    {line : Nat}
    {lines : List (List Token)}
    {after : List Token}
    (hFollows : Follows (line + lines.length) after) :
    ∀ t ∈ (numbered line lines ++ after).head?,
      line ≤ t.line := by
  intro t ht
  cases hToks : numbered line lines with
  | nil =>
      rw [hToks, List.nil_append] at ht
      have hAfter := (hFollows t ht).1
      omega
  | cons u toks =>
      have hHead :=
        numbered_head line lines
      rw [hToks] at ht hHead
      have hEq : u = t := Option.some.inj ht
      subst hEq
      exact (hHead u rfl).1

/- A line that is a statement, and then lines that parse. -/
theorem ParsesTo.stmt
    {toks : List Token}
    {lines : List (List Token)}
    {R : Node → Prop}
    {P : List Node → Prop}
    (hStmt :
      ∀ line after, Elsewhere line after →
        ∃ n, R n ∧
          Parses
            (.stmt (toks.map (Token.onLine line) ++ after) n
              after))
    (hParses : ParsesTo lines P) :
    ParsesTo ([toks] ++ lines) fun nodes =>
      ∃ n more, nodes = n :: more ∧ R n ∧ P more := by
  intro line untilRBrace after more endLine after' hFollows hMore
  have hLength :
      line + ([toks] ++ lines).length =
        line + 1 + lines.length := by
    simp only [List.length_append, List.length_singleton]
    omega
  rw [hLength] at hFollows
  rcases hParses (line + 1) untilRBrace after more endLine
      after' hFollows hMore with ⟨nodes, hNodes, hAll⟩
  have hElsewhere := hAll.elsewhere (head_later hFollows)
  rcases hStmt line _ hElsewhere with ⟨n, hNode, hFirst⟩
  refine ⟨n :: nodes, ⟨n, nodes, rfl, hNode, hNodes⟩, ?_⟩
  rw [List.singleton_append, numbered, List.append_assoc]
  exact hFirst.cons_stmt hAll

/- The text of an action, in front of other statements. -/
theorem Reads.stmt
    {indent s rest : Text}
    {toks : List Token}
    {R : Node → Prop}
    {P : List Node → Prop}
    (hIndent : Indent indent)
    (hLexes : LexesTo s toks)
    (hStmt :
      ∀ line after, Elsewhere line after →
        ∃ n, R n ∧
          Parses
            (.stmt (toks.map (Token.onLine line) ++ after) n
              after))
    (hRest : Reads rest P) :
    Reads (indent ++ s ++ "\n" ++ rest) fun nodes =>
      ∃ n more, nodes = n :: more ∧ R n ∧ P more := by
  rcases hRest with ⟨lines, hLines, hParses⟩
  exact ⟨[toks] ++ lines,
    (lexesLines_line hIndent hLexes).append hLines,
    ParsesTo.stmt hStmt hParses⟩

/- A statement on its line, and then the rest. -/
theorem Reads.action
    {indent s rest : Text}
    {P : List Node → Prop}
    (hIndent : Indent indent)
    (hText : StatementText s)
    (hRest : Reads rest P) :
    Reads (indent ++ s ++ "\n" ++ rest) fun nodes =>
      ∃ n more, nodes = n :: more ∧ n.isStatement = true ∧
        n.actionText = s ∧ P more := by
  rcases hText with ⟨toks, hLexes, hStmt⟩
  have hAll :=
    Reads.stmt (R := fun n => n.isStatement = true ∧
        n.actionText = s) hIndent hLexes
      (fun line after hAfter => by
        rcases hStmt line after hAfter with
          ⟨n, hStatement, hAction, hFirst⟩
        exact ⟨n, ⟨hStatement, hAction⟩, hFirst⟩)
      hRest
  refine hAll.mono fun nodes hNodes => ?_
  rcases hNodes with ⟨n, more, rfl, ⟨hStatement, hAction⟩, hMore⟩
  exact ⟨n, more, rfl, hStatement, hAction, hMore⟩

/- A word on its own is an action. -/
theorem parses_word
    {s : Text}
    (hIf : s ≠ "if")
    (line : Nat)
    {after : List Token}
    (hAfter : Elsewhere line after) :
    ∃ n : Node, n.isStatement = true ∧ n.actionText = s ∧
      Parses
        (.stmt
          ([⟨.word, s, 0⟩].map (Token.onLine line) ++ after) n
          after) := by
  rcases hAfter with ⟨t, rest, rfl, hLine, hBrace, hEquals⟩
  have hWords :
      takeWords line (t :: rest) = .ok ([], t :: rest) := by
    refine takeToks_ok_iff.mpr ⟨rfl, by simp, t, rest, rfl, ?_⟩
    simp [hLine]
  refine ⟨.action (lineOf [⟨.word, s, line⟩]) line line, rfl,
    lineOf_single _, ?_⟩
  exact .action (t := ⟨.word, s, line⟩) rfl hIf hWords hEquals
    hBrace

theorem ReadsNext.word
    {indent s rest : Text}
    {P : List Node → Prop}
    (hIndent : Indent indent)
    (hWord : WordText s)
    (hIf : s ≠ "if")
    (hElse : s ≠ "else")
    (hRest : Reads rest P) :
    ReadsNext (indent ++ s ++ "\n" ++ rest) fun nodes =>
      ∃ n more, nodes = n :: more ∧ n.isStatement = true ∧
        n.actionText = s ∧ P more := by
  rcases hRest with ⟨lines, hLines, hParses⟩
  have hStmt :
      ∀ line after, Elsewhere line after →
        ∃ n : Node, (n.isStatement = true ∧ n.actionText = s) ∧
          Parses
            (.stmt
              ([⟨.word, s, 0⟩].map (Token.onLine line) ++ after)
              n after) := by
    intro line after hAfter
    rcases parses_word hIf line hAfter with
      ⟨n, hStatement, hAction, hFirst⟩
    exact ⟨n, ⟨hStatement, hAction⟩, hFirst⟩
  have hAll :=
    (ParsesTo.stmt hStmt hParses).mono (Q := fun nodes =>
      ∃ n more, nodes = n :: more ∧ n.isStatement = true ∧
        n.actionText = s ∧ P more)
      (fun nodes ⟨n, more, hNodes, ⟨hStatement, hAction⟩,
        hMore⟩ => ⟨n, more, hNodes, hStatement, hAction, hMore⟩)
  refine ⟨_, (lexesLines_line hIndent hWord).append hLines,
    hAll, ?_⟩
  intro t ht
  have hEq : ⟨.word, s, 0⟩ = t := Option.some.inj ht
  subst hEq
  exact fun hSame => hElse hSame.2

end Tacconfig

end Soteria

------------------------------------------------------------
-- Conditions
------------------------------------------------------------

namespace Soteria

namespace Tacconfig

/- The text, as an operand, is read as the value. -/
def OperandText (s v : Text) : Prop :=
  ∃ parts,
    LexesTo s parts ∧
      (∀ t ∈ parts, t.kind ≠ .rparen ∧ t.kind ≠ .eof) ∧
      Text.join (parts.map Token.text) " " = v

/- A condition that is read as it was from its operand. -/
structure Test.Written (test : Test) (operand : Text) :
    Prop where
  attr : WordText test.attr
  op : WordText test.op
  operand : OperandText operand test.value

/- An `if` up to its closing parenthesis. -/
def Test.text (test : Test) (operand : Text) : Text :=
  "if (" ++ test.attr ++ " " ++ test.op ++ " " ++ operand ++
    ")"

def ifToken : Token := ⟨.word, "if", 0⟩

/- The tokens of a condition parse to the condition. -/
theorem parseCond_tokens
    (attr op : Text)
    {parts : List Token}
    (hParts : ∀ t ∈ parts, t.kind ≠ .rparen ∧ t.kind ≠ .eof)
    (line : Nat)
    (rest : List Token) :
    parseCond
        (⟨.lparen, "(", line⟩ :: ⟨.word, attr, line⟩ ::
          ⟨.word, op, line⟩ ::
          (parts.map (Token.onLine line) ++
            ⟨.rparen, ")", line⟩ :: rest)) =
      .ok
        (⟨attr, op, Text.join (parts.map Token.text) " ",
          parts.any fun t => t.kind == .string⟩,
          line, rest) := by
  rw [parseCond_ok_iff]
  refine ⟨⟨.lparen, "(", line⟩, ⟨.word, attr, line⟩,
    ⟨.word, op, line⟩, parts.map (Token.onLine line),
    ⟨.rparen, ")", line⟩, rfl, rfl, rfl, rfl, rfl, rfl, ?_, ?_⟩
  · intro t ht
    rcases List.mem_map.mp ht with ⟨u, hu, rfl⟩
    exact hParts u hu
  · rw [map_text_onLine, List.any_map]
    rfl

/- An `if` up to its operand lexes to its first tokens. -/
theorem Test.head_splits
    {test : Test}
    (hAttr : WordText test.attr)
    (hOp : WordText test.op) :
    Splits
      ("if (" ++ test.attr ++ " " ++ test.op ++ " ")
      [ifToken, ⟨.lparen, "(", 0⟩, ⟨.word, test.attr, 0⟩,
        ⟨.word, test.op, 0⟩] := by
  have hIf : Splits ("if" ++ " " : Text) [ifToken] := by
    have hWord : PlainWord ("if" : Text) := by
      refine ⟨by decide, ?_⟩
      decide
    exact (hWord.lexesTo 0).blank
  have hAll :=
    hIf.append ((splits_lparen 0).append
      ((LexesTo.blank hAttr).append (LexesTo.blank hOp)))
  have hOpen : ("if (" : Text) = ("if" ++ " ") ++ "(" := rfl
  rw [hOpen]
  simpa only [List.append_assoc, List.nil_append,
    List.cons_append] using hAll

/- An `if` up to its closing parenthesis lexes to its parts. -/
theorem Test.text_splits
    {test : Test}
    {operand : Text}
    {parts : List Token}
    (hAttr : WordText test.attr)
    (hOp : WordText test.op)
    (hLexes : LexesTo operand parts) :
    Splits (test.text operand)
      (ifToken :: ⟨.lparen, "(", 0⟩ :: ⟨.word, test.attr, 0⟩ ::
        ⟨.word, test.op, 0⟩ ::
          (parts ++ [⟨.rparen, ")", 0⟩])) := by
  have hOperand :=
    hLexes.append_splits (splits_rparen 0) (by simp)
      (stops_cons (by decide) [])
  have hAll := (Test.head_splits hAttr hOp).append hOperand
  unfold Test.text
  simpa only [List.append_assoc, List.nil_append,
    List.cons_append] using hAll

/- The text of a condition that is read as such a one. -/
structure CondText
    (C : Cond → Prop)
    (test : Test)
    (operand : Text) : Prop where
  attr : WordText test.attr
  op : WordText test.op
  operand : ∃ parts,
    LexesTo operand parts ∧
      (∀ t ∈ parts, t.kind ≠ .rparen ∧ t.kind ≠ .eof) ∧
      C ⟨test.attr, test.op,
        Text.join (parts.map Token.text) " ",
        parts.any fun t => t.kind == .string⟩

/- The condition compares what the test does, as it is. -/
def Compares (test : Test) (c : Cond) : Prop :=
  c.test = test

theorem Test.Written.condText
    {test : Test}
    {operand : Text}
    (hTest : test.Written operand) :
    CondText (Compares test) test operand := by
  rcases hTest.operand with ⟨parts, hLexes, hParts, hJoin⟩
  refine ⟨hTest.attr, hTest.op, parts, hLexes, hParts, ?_⟩
  rw [hJoin]
  rfl

/- A condition as text, as tokens and as it is parsed. -/
theorem CondText.reads
    {C : Cond → Prop}
    {test : Test}
    {operand : Text}
    (hTest : CondText C test operand) :
    ∃ toks,
      Splits (test.text operand) (ifToken :: toks) ∧
        ∀ line rest, ∃ c : Cond, C c ∧
          parseCond (toks.map (Token.onLine line) ++ rest) =
            .ok (c, line, rest) := by
  rcases hTest.operand with ⟨parts, hLexes, hParts, hCond⟩
  refine ⟨_, Test.text_splits hTest.attr hTest.op hLexes, ?_⟩
  intro line rest
  have hParse :=
    parseCond_tokens test.attr test.op hParts line rest
  exact ⟨_, hCond, by simpa [Token.onLine] using hParse⟩

/- The line of an `if` with a brace. -/
theorem lexesTo_brace
    {s : Text}
    {toks : List Token}
    (hSplits : Splits s toks) :
    LexesTo (s ++ " \x7b") (toks ++ [⟨.lbrace, "\x7b", 0⟩]) := by
  have hAll :=
    hSplits.append (splits_blank.append (splits_lbrace 0))
  have hText : (" \x7b" : Text) = " " ++ "\x7b" := rfl
  rw [hText]
  simpa using hAll.lexesTo

theorem starts_if (toks : List Token)
    (lines : List (List Token)) :
    Starts ((ifToken :: toks) :: lines) := by
  intro t ht
  have hEq : ifToken = t := Option.some.inj ht
  subst hEq
  simp [ifToken]

end Tacconfig

end Soteria

------------------------------------------------------------
-- Statements with Bodies
------------------------------------------------------------

namespace Soteria

namespace Tacconfig

def lbraceToken : Token := ⟨.lbrace, "\x7b", 0⟩

def rbraceToken : Token := ⟨.rbrace, "\x7d", 0⟩

def elseToken : Token := ⟨.word, "else", 0⟩

theorem lexesTo_rbrace : LexesTo "\x7d" [rbraceToken] :=
  (splits_rbrace 0).lexesTo

theorem lexesTo_else :
    LexesTo "\x7d else \x7b"
      [rbraceToken, elseToken, lbraceToken] := by
  have hWord : PlainWord ("else" : Text) := by
    refine ⟨by decide, ?_⟩
    decide
  have hElse : Splits ("else" ++ " " : Text) [elseToken] :=
    (hWord.lexesTo 0).blank
  have hAll :=
    (splits_rbrace 0).append (splits_blank.append
      (hElse.append (splits_lbrace 0)))
  exact hAll.lexesTo

/- The body of a block ends at its brace. -/
theorem ParsesTo.body
    {lines : List (List Token)}
    {P : List Node → Prop}
    (hParses : ParsesTo lines P)
    (line : Nat)
    (toks : List Token) :
    ∃ nodes endLine, P nodes ∧
      Parses
        (.stmts true
          (numbered line lines ++
            rbraceToken.onLine (line + lines.length) :: toks)
          nodes endLine toks) := by
  have hEnd :
      Parses
        (.stmts true
          (rbraceToken.onLine (line + lines.length) :: toks) []
          (line + lines.length) toks) :=
    .rbrace rfl
  have hFollows :
      Follows (line + lines.length)
        (rbraceToken.onLine (line + lines.length) :: toks) := by
    intro t ht
    have hEq := Option.some.inj ht
    subst hEq
    exact ⟨le_rfl, by simp [rbraceToken, Token.onLine]⟩
  rcases hParses line true _ _ _ _ hFollows hEnd with
    ⟨nodes, hNodes, hAll⟩
  rw [List.append_nil] at hAll
  exact ⟨nodes, _, hNodes, hAll⟩

/- An `if` on its line, with its body and its else part. -/
theorem parses_if
    {line bodyEnd endLine : Nat}
    {toks rest after after' : List Token}
    {c : Cond}
    {children elseNodes : List Node}
    (hCond :
      parseCond
          (toks.map (Token.onLine line) ++
            lbraceToken.onLine line :: rest) =
        .ok (c, line, lbraceToken.onLine line :: rest))
    (hBody : Parses (.stmts true rest children bodyEnd after))
    (hElse :
      Parses (.elsePart bodyEnd after elseNodes endLine after')) :
    Parses
      (.stmt
        ((ifToken :: toks ++ [lbraceToken]).map
          (Token.onLine line) ++ rest)
        (.ifNode c children elseNodes false line endLine)
        after') := by
  have hToks :
      (ifToken :: toks ++ [lbraceToken]).map
          (Token.onLine line) ++ rest =
        ifToken.onLine line ::
          (toks.map (Token.onLine line) ++
            lbraceToken.onLine line :: rest) := by
    simp
  rw [hToks]
  exact .ifStmt rfl rfl (.braced hCond rfl hBody hElse)

/- An `if` with a body, and then the rest. -/
theorem ReadsNext.braced
    {indent operand body rest : Text}
    {C : Cond → Prop}
    {test : Test}
    {P Q : List Node → Prop}
    (hIndent : Indent indent)
    (hTest : CondText C test operand)
    (hBody : Reads body P)
    (hRest : ReadsNext rest Q) :
    ReadsNext
      (indent ++ (test.text operand ++ " \x7b") ++ "\n" ++
        (body ++ (indent ++ "\x7d" ++ "\n" ++ rest)))
      fun nodes => ∃ c children more startLine endLine,
        nodes =
          .ifNode c children [] false startLine endLine ::
            more ∧
        C c ∧ P children ∧ Q more := by
  rcases hTest.reads with ⟨toks, hSplits, hCond⟩
  rcases hBody with ⟨bodyLines, hBodyLines, hBodyParses⟩
  rcases hRest with ⟨lines, hLines, hParses, hStarts⟩
  have hLexes :=
    (lexesLines_line hIndent (lexesTo_brace hSplits)).append
      (hBodyLines.append
        ((lexesLines_line hIndent lexesTo_rbrace).append hLines))
  refine ⟨_, hLexes, ?_, starts_if _ _⟩
  intro line untilRBrace after more endLine after' hFollows hMore
  have hLength :
      line + ([ifToken :: toks ++ [lbraceToken]] ++
          (bodyLines ++ ([[rbraceToken]] ++ lines))).length =
        line + 1 + bodyLines.length + 1 + lines.length := by
    simp only [List.length_append, List.length_singleton]
    omega
  have hFollowing : Follows
      (line + 1 + bodyLines.length + 1 + lines.length) after :=
    hLength ▸ hFollows
  rcases hParses _ untilRBrace after more endLine after'
      hFollowing hMore with ⟨others, hOthers, hAll⟩
  have hNext := hStarts.follows hFollowing
  rcases hBodyParses.body (line + 1)
      (numbered (line + 1 + bodyLines.length + 1) lines ++
        after) with
    ⟨children, bodyEnd, hChildren, hInner⟩
  rcases hAll.ne_nil with ⟨t, tail, hToks, _⟩
  have hElse :
      Parses
        (.elsePart bodyEnd
          (numbered (line + 1 + bodyLines.length + 1) lines ++
            after) [] bodyEnd
          (numbered (line + 1 + bodyLines.length + 1) lines ++
            after)) := by
    rw [hToks] at hNext ⊢
    exact .noElse (hNext t rfl).2
  rcases hCond line
      (lbraceToken.onLine line ::
        (numbered (line + 1) bodyLines ++
          rbraceToken.onLine (line + 1 + bodyLines.length) ::
            (numbered (line + 1 + bodyLines.length + 1) lines ++
              after))) with
    ⟨c, hTest', hCond'⟩
  have hStmt := parses_if hCond' hInner hElse
  refine ⟨_, ⟨c, children, others, line, bodyEnd, rfl, hTest',
    hChildren, hOthers⟩, ?_⟩
  have hShape := hStmt.cons_stmt hAll
  simpa [numbered, numbered_append, List.append_assoc,
    lbraceToken] using hShape

/- An `if` with a body and an else part, and then the rest. -/
theorem ReadsNext.bracedElse
    {indent operand body elseBody rest : Text}
    {C : Cond → Prop}
    {test : Test}
    {P E Q : List Node → Prop}
    (hIndent : Indent indent)
    (hTest : CondText C test operand)
    (hBody : Reads body P)
    (hElse : Reads elseBody E)
    (hRest : Reads rest Q) :
    ReadsNext
      (indent ++ (test.text operand ++ " \x7b") ++ "\n" ++
        (body ++ (indent ++ "\x7d else \x7b" ++ "\n" ++
          (elseBody ++ (indent ++ "\x7d" ++ "\n" ++ rest)))))
      fun nodes =>
        ∃ c children elseNodes more startLine endLine,
          nodes =
            .ifNode c children elseNodes false startLine
                endLine ::
              more ∧
          C c ∧ P children ∧ E elseNodes ∧
            Q more := by
  rcases hTest.reads with ⟨toks, hSplits, hCond⟩
  rcases hBody with ⟨bodyLines, hBodyLines, hBodyParses⟩
  rcases hElse with ⟨elseLines, hElseLines, hElseParses⟩
  rcases hRest with ⟨lines, hLines, hParses⟩
  have hLexes :=
    (lexesLines_line hIndent (lexesTo_brace hSplits)).append
      (hBodyLines.append
        ((lexesLines_line hIndent lexesTo_else).append
          (hElseLines.append
            ((lexesLines_line hIndent lexesTo_rbrace).append
              hLines))))
  refine ⟨_, hLexes, ?_, starts_if _ _⟩
  intro line untilRBrace after more endLine after' hFollows hMore
  -- the lines of the two braces that close
  let elseLine := line + 1 + bodyLines.length
  let lastLine := elseLine + 1 + elseLines.length
  have hLength :
      line + ([ifToken :: toks ++ [lbraceToken]] ++
          (bodyLines ++
            ([[rbraceToken, elseToken, lbraceToken]] ++
              (elseLines ++ ([[rbraceToken]] ++ lines))))).length =
        lastLine + 1 + lines.length := by
    simp only [List.length_append, List.length_singleton,
      lastLine, elseLine]
    omega
  have hFollowing :
      Follows (lastLine + 1 + lines.length) after :=
    hLength ▸ hFollows
  rcases hParses _ untilRBrace after more endLine after'
      hFollowing hMore with ⟨others, hOthers, hAll⟩
  rcases hElseParses.body (elseLine + 1)
      (numbered (lastLine + 1) lines ++ after) with
    ⟨elseNodes, elseEnd, hElseNodes, hElseInner⟩
  rcases hBodyParses.body (line + 1)
      (elseToken.onLine elseLine :: lbraceToken.onLine elseLine ::
        (numbered (elseLine + 1) elseLines ++
          rbraceToken.onLine lastLine ::
            (numbered (lastLine + 1) lines ++ after))) with
    ⟨children, bodyEnd, hChildren, hInner⟩
  have hElsePart :
      Parses
        (.elsePart bodyEnd
          (elseToken.onLine elseLine ::
            lbraceToken.onLine elseLine ::
            (numbered (elseLine + 1) elseLines ++
              rbraceToken.onLine lastLine ::
                (numbered (lastLine + 1) lines ++ after)))
          elseNodes elseEnd
          (numbered (lastLine + 1) lines ++ after)) :=
    .elseBlock ⟨rfl, rfl⟩ rfl hElseInner
  rcases hCond line
      (lbraceToken.onLine line ::
        (numbered (line + 1) bodyLines ++
          rbraceToken.onLine elseLine ::
            elseToken.onLine elseLine ::
            lbraceToken.onLine elseLine ::
            (numbered (elseLine + 1) elseLines ++
              rbraceToken.onLine lastLine ::
                (numbered (lastLine + 1) lines ++ after)))) with
    ⟨c, hTest', hCond'⟩
  have hStmt := parses_if hCond' hInner hElsePart
  refine ⟨_, ⟨c, children, elseNodes, others, line, elseEnd,
    rfl, hTest', hChildren, hElseNodes, hOthers⟩, ?_⟩
  have hShape := hStmt.cons_stmt hAll
  simpa [numbered, numbered_append, List.append_assoc,
    lbraceToken, elseLine, lastLine] using hShape

/- An `if` with one action on its line, and then the rest. -/
theorem ReadsNext.inline
    {indent operand s rest : Text}
    {C : Cond → Prop}
    {test : Test}
    {Q : List Node → Prop}
    (hIndent : Indent indent)
    (hTest : CondText C test operand)
    (hText : ValueText s)
    (hRest : Reads rest Q) :
    ReadsNext
      (indent ++ (test.text operand ++ " " ++ s) ++ "\n" ++ rest)
      fun nodes => ∃ c more line,
        nodes =
          .ifNode c [.action s line 0] [] true line line ::
            more ∧
        C c ∧ Q more := by
  rcases hTest.reads with ⟨toks, hSplits, hCond⟩
  rcases hText with ⟨parts, hPartsLexes, hParts, hLine⟩
  rcases hRest with ⟨lines, hLines, hParses⟩
  have hFirst : LexesTo (test.text operand ++ " " ++ s)
      (ifToken :: toks ++ parts) :=
    hSplits.lexesTo.blank.append_lexesTo hPartsLexes
  have hLexes := (lexesLines_line hIndent hFirst).append hLines
  refine ⟨_, hLexes, ?_, starts_if _ _⟩
  intro line untilRBrace after more endLine after' hFollows hMore
  have hLength :
      line + ([ifToken :: toks ++ parts] ++ lines).length =
        line + 1 + lines.length := by
    simp only [List.length_append, List.length_singleton]
    omega
  have hFollowing : Follows (line + 1 + lines.length) after :=
    hLength ▸ hFollows
  rcases hParses _ untilRBrace after more endLine after'
      hFollowing hMore with ⟨others, hOthers, hAll⟩
  rcases hAll.elsewhere (head_later hFollowing) with
    ⟨t, tail, hToks, hOther, hBrace, _⟩
  -- what is left of the line, up to the next one
  have hValue :
      restOfLine line
          (parts.map (Token.onLine line) ++ t :: tail) =
        .ok (parts.map (Token.onLine line), t :: tail) := by
    refine takeToks_ok_iff.mpr ⟨rfl, ?_, t, tail, rfl, ?_⟩
    · intro u hu
      rcases List.mem_map.mp hu with ⟨v, hv, rfl⟩
      simpa [Token.onLine, Token.isValue, Token.isText] using
        hParts v hv
    · simp [hOther]
  have hHead :
      ∃ u rest,
        parts.map (Token.onLine line) ++ t :: tail =
            u :: rest ∧
          u.kind ≠ .lbrace := by
    cases hFirstPart : parts with
    | nil => exact ⟨t, tail, rfl, hBrace⟩
    | cons v parts' =>
        refine ⟨v.onLine line, _, rfl, ?_⟩
        intro hKind
        have hv := hParts v (by simp [hFirstPart])
        have hSame : v.kind = .lbrace := hKind
        simp [Token.isValue, Token.isText, hSame] at hv
  rcases hHead with ⟨u, rest', hUnit, hKind⟩
  rcases hCond line (u :: rest') with ⟨c, hTest', hCond'⟩
  rw [hUnit] at hValue
  have hStmt :
      Parses
        (.stmt
          (ifToken.onLine line ::
            (toks.map (Token.onLine line) ++ u :: rest'))
          (.ifNode c
            [.action (lineOf (parts.map (Token.onLine line)))
              line 0]
            [] true line line)
          (t :: tail)) :=
    .ifStmt rfl rfl (.inline hCond' hKind hValue)
  rw [lineOf_onLine, hLine] at hStmt
  refine ⟨_, ⟨c, others, line, rfl, hTest', hOthers⟩, ?_⟩
  rw [hToks] at hAll
  have hShape := hStmt.cons_stmt hAll
  rw [← hUnit, ← hToks] at hShape
  simpa [numbered, List.append_assoc] using hShape

end Tacconfig

end Soteria

------------------------------------------------------------
-- Blocks and Files
------------------------------------------------------------

namespace Soteria

namespace Tacconfig

/- The line that opens a block. -/
structure Heading
    (head name : Text)
    (words : List Token) : Prop where
  lexes : LexesTo head (⟨.word, name, 0⟩ :: words)
  isText : ∀ t ∈ words, t.isText = true
  notIf : name ≠ "if"
  notElse : name ≠ "else"

theorem parses_block
    {head name : Text}
    {words rest after : List Token}
    {children : List Node}
    {endLine : Nat}
    (line : Nat)
    (hHead : Heading head name words)
    (hBody :
      Parses (.stmts true rest children endLine after)) :
    Parses
      (.stmt
        ((⟨.word, name, 0⟩ :: words ++ [lbraceToken]).map
          (Token.onLine line) ++ rest)
        (.block name (lineOf words) children line endLine)
        after) := by
  have hToks :
      (⟨.word, name, 0⟩ :: words ++ [lbraceToken]).map
          (Token.onLine line) ++ rest =
        ⟨.word, name, line⟩ ::
          (words.map (Token.onLine line) ++
            lbraceToken.onLine line :: rest) := by
    simp [Token.onLine]
  have hWords :
      takeWords line
          (words.map (Token.onLine line) ++
            lbraceToken.onLine line :: rest) =
        .ok (words.map (Token.onLine line),
          lbraceToken.onLine line :: rest) := by
    refine takeToks_ok_iff.mpr ⟨rfl, ?_, _, _, rfl, rfl⟩
    intro t ht
    rcases List.mem_map.mp ht with ⟨u, hu, rfl⟩
    simpa [Token.onLine, Token.isText] using hHead.isText u hu
  rw [hToks, ← lineOf_onLine line words]
  exact .block (t := ⟨.word, name, line⟩) rfl hHead.notIf
    hWords rfl hBody

/- A block with its body, and then the rest. -/
theorem ReadsNext.block
    {indent head body rest name : Text}
    {words : List Token}
    {P Q : List Node → Prop}
    (hIndent : Indent indent)
    (hHead : Heading head name words)
    (hBody : Reads body P)
    (hRest : Reads rest Q) :
    ReadsNext
      (indent ++ (head ++ " \x7b") ++ "\n" ++
        (body ++ (indent ++ "\x7d" ++ "\n" ++ rest)))
      fun nodes => ∃ children more startLine endLine,
        nodes =
          .block name (lineOf words) children startLine
              endLine ::
            more ∧
        P children ∧ Q more := by
  rcases hBody with ⟨bodyLines, hBodyLines, hBodyParses⟩
  rcases hRest with ⟨lines, hLines, hParses⟩
  let first : Token := ⟨.word, name, 0⟩
  have hFirst :
      LexesTo (head ++ " \x7b")
        (first :: words ++ [lbraceToken]) := by
    have hAll :=
      (LexesTo.blank hHead.lexes).append (splits_lbrace 0)
    have hText : (" \x7b" : Text) = " " ++ "\x7b" := rfl
    rw [hText, ← List.append_assoc]
    exact hAll.lexesTo
  have hLexes :=
    (lexesLines_line hIndent hFirst).append
      (hBodyLines.append
        ((lexesLines_line hIndent lexesTo_rbrace).append hLines))
  refine ⟨_, hLexes, ?_, ?_⟩
  rotate_left
  · intro t ht
    have hEq : first = t := Option.some.inj ht
    subst hEq
    exact fun hElse => hHead.notElse hElse.2
  intro line untilRBrace after more endLine after' hFollows hMore
  have hLength :
      line + ([first :: words ++ [lbraceToken]] ++
          (bodyLines ++ ([[rbraceToken]] ++ lines))).length =
        line + 1 + bodyLines.length + 1 + lines.length := by
    simp only [List.length_append, List.length_singleton]
    omega
  have hFollowing : Follows
      (line + 1 + bodyLines.length + 1 + lines.length) after :=
    hLength ▸ hFollows
  rcases hParses _ untilRBrace after more endLine after'
      hFollowing hMore with ⟨others, hOthers, hAll⟩
  rcases hBodyParses.body (line + 1)
      (numbered (line + 1 + bodyLines.length + 1) lines ++
        after) with
    ⟨children, bodyEnd, hChildren, hInner⟩
  have hStmt := parses_block line hHead hInner
  refine ⟨_, ⟨children, others, line, bodyEnd, rfl, hChildren,
    hOthers⟩, ?_⟩
  have hShape := hStmt.cons_stmt hAll
  simpa [numbered, numbered_append, List.append_assoc,
    lbraceToken, first] using hShape

/- The text, up to a newline, is one line of tokens. -/
def Pasted (s : Text) (toks : List Token) : Prop :=
  ∃ n, LexesLines (s ++ "\n") (toks :: List.replicate n [])

theorem LexesTo.pasted
    {s : Text}
    {toks : List Token}
    (hLexes : LexesTo s toks) :
    Pasted s toks :=
  ⟨0, hLexes.line⟩

theorem numbered_blanks
    (line n : Nat)
    (lines : List (List Token)) :
    numbered line (List.replicate n [] ++ lines) =
      numbered (line + n) lines := by
  induction n generalizing line with
  | zero => rfl
  | succ n ih =>
      have hLine : line + 1 + n = line + (n + 1) := by omega
      rw [List.replicate_succ, List.cons_append, numbered, ih,
        hLine]
      rfl

/- Tokens before the first line of a text are on it. -/
theorem Splits.append_lines
    {a b : Text}
    {toks more : List Token}
    {lines : List (List Token)}
    (hFirst : Splits a toks)
    (hSecond : LexesLines b (more :: lines)) :
    LexesLines (a ++ b) ((toks ++ more) :: lines) := by
  intro line rest
  rw [List.append_assoc, hFirst, hSecond, numbered, numbered,
    List.map_append]
  simp only [List.append_assoc, List.length_cons]

/- An assignment on its line, in front of a later one. -/
theorem parses_assign
    {first : Token}
    {words toks after : List Token}
    (line : Nat)
    (hFirst : first.isText = true)
    (hIf : first.text ≠ "if")
    (hWords : ∀ t ∈ words, t.isText = true)
    (hToks : ∀ t ∈ toks, t.isValue = true)
    (hAfter : Elsewhere line after) :
    Parses
      (.stmt
        ((first :: words ++ ⟨.equals, "=", 0⟩ :: toks).map
          (Token.onLine line) ++ after)
        (.assign (lineOf (first :: words)) (lineOf toks) line
          line)
        after) := by
  rcases hAfter with ⟨t, tail, rfl, hOther, _⟩
  have hName :
      takeWords line
          (words.map (Token.onLine line) ++
            ⟨.equals, "=", line⟩ ::
              (toks.map (Token.onLine line) ++ t :: tail)) =
        .ok (words.map (Token.onLine line),
          ⟨.equals, "=", line⟩ ::
            (toks.map (Token.onLine line) ++ t :: tail)) := by
    refine takeToks_ok_iff.mpr ⟨rfl, ?_, _, _, rfl, rfl⟩
    intro u hu
    rcases List.mem_map.mp hu with ⟨v, hv, rfl⟩
    simpa [Token.onLine, Token.isText] using hWords v hv
  have hValue :
      restOfLine line
          (toks.map (Token.onLine line) ++ t :: tail) =
        .ok (toks.map (Token.onLine line), t :: tail) := by
    refine takeToks_ok_iff.mpr ⟨rfl, ?_, t, tail, rfl, ?_⟩
    · intro u hu
      rcases List.mem_map.mp hu with ⟨v, hv, rfl⟩
      simpa [Token.onLine, Token.isValue, Token.isText] using
        hToks v hv
    · simp [hOther]
  have hStmt :
      Parses
        (.stmt
          (first.onLine line ::
            (words.map (Token.onLine line) ++
              ⟨.equals, "=", line⟩ ::
                (toks.map (Token.onLine line) ++ t :: tail)))
          (.assign
            (lineOf
              (first.onLine line ::
                words.map (Token.onLine line)))
            (lineOf (toks.map (Token.onLine line))) line line)
          (t :: tail)) :=
    .assign (t := first.onLine line) hFirst hIf hName rfl hValue
  rw [← List.map_cons, lineOf_onLine, lineOf_onLine] at hStmt
  simpa [Token.onLine] using hStmt

/- An assignment of a value that keeps to its line. -/
theorem Reads.assignTo
    {lead value rest : Text}
    {first : Token}
    {words toks : List Token}
    {Q : List Node → Prop}
    (hLead :
      Splits lead (first :: words ++ [⟨.equals, "=", 0⟩]))
    (hFirst : first.isText = true)
    (hIf : first.text ≠ "if")
    (hWords : ∀ t ∈ words, t.isText = true)
    (hValue : Pasted value toks)
    (hToks : ∀ t ∈ toks, t.isValue = true)
    (hRest : Reads rest Q) :
    Reads (lead ++ value ++ "\n" ++ rest)
      fun nodes => ∃ more line,
        nodes =
          .assign (lineOf (first :: words)) (lineOf toks) line
              line ::
            more ∧
          Q more := by
  rcases hValue with ⟨n, hValue⟩
  rcases hRest with ⟨lines, hLines, hParses⟩
  have hLexes := (hLead.append_lines hValue).append hLines
  rw [← List.append_assoc] at hLexes
  refine ⟨_, hLexes, ?_⟩
  intro line untilRBrace after more endLine after' hFollows hMore
  have hLength :
      line +
          ((first :: words ++ [(⟨.equals, "=", 0⟩ : Token)] ++
                toks) ::
              List.replicate n [] ++ lines).length =
        line + 1 + n + lines.length := by
    simp only [List.length_append, List.length_cons,
      List.length_replicate]
    omega
  have hFollowing : Follows (line + 1 + n + lines.length) after :=
    hLength ▸ hFollows
  rcases hParses _ untilRBrace after more endLine after'
      hFollowing hMore with ⟨others, hOthers, hAll⟩
  have hElsewhere :
      Elsewhere line
        (numbered (line + 1 + n) lines ++ after) := by
    refine hAll.elsewhere fun t ht => ?_
    have hLater := head_later hFollowing t ht
    omega
  have hStmt :=
    parses_assign line hFirst hIf hWords hToks hElsewhere
  refine ⟨_, ⟨others, line, rfl, hOthers⟩, ?_⟩
  have hShape := hStmt.cons_stmt hAll
  rw [List.cons_append, numbered, numbered_blanks]
  simpa [List.append_assoc] using hShape

/- A word that is assigned a word, and then the rest. -/
theorem Reads.assign
    {indent name value rest : Text}
    {Q : List Node → Prop}
    (hIndent : Indent indent)
    (hName : WordText name)
    (hIf : name ≠ "if")
    (hValue : WordText value)
    (hRest : Reads rest Q) :
    Reads (indent ++ (name ++ " = " ++ value) ++ "\n" ++ rest)
      fun nodes => ∃ more line,
        nodes = .assign name value line line :: more ∧
          Q more := by
  have hLead :
      Splits (indent ++ (name ++ " = "))
        (⟨.word, name, 0⟩ :: [] ++ [⟨.equals, "=", 0⟩]) := by
    have hText : (" = " : Text) = " " ++ "= " := rfl
    rw [hText, ← List.append_assoc name]
    exact hIndent.splits.append
      ((LexesTo.blank hName).append splits_equals_sign)
  have hWord :
      ∀ s : Text, lineOf [⟨.word, s, 0⟩] = s := by
    intro s
    exact lineOf_single _
  have hAll :=
    Reads.assignTo hLead rfl hIf (by simp)
      (LexesTo.pasted hValue)
      (by simp [Token.isValue, Token.isText]) hRest
  simpa only [hWord, List.append_assoc] using hAll

/- Lines without tokens, and then the rest. -/
theorem Reads.skipAll
    {n : Nat}
    {s rest : Text}
    {P : List Node → Prop}
    (hLines : LexesLines s (List.replicate n []))
    (hRest : Reads rest P) :
    Reads (s ++ rest) P := by
  rcases hRest with ⟨lines, hMore, hParses⟩
  refine ⟨_, hLines.append hMore, ?_⟩
  intro line untilRBrace after more endLine after' hFollows hAfter
  have hLength :
      line + (List.replicate n [] ++ lines).length =
        line + n + lines.length := by
    simp only [List.length_append, List.length_replicate]
    omega
  rw [hLength] at hFollows
  rw [numbered_blanks]
  exact hParses _ untilRBrace after more endLine after' hFollows
    hAfter

/- A line without tokens, and then the rest. -/
theorem Reads.skip
    {s rest : Text}
    {P : List Node → Prop}
    (hLine : LexesLines s [[]])
    (hRest : Reads rest P) :
    Reads (s ++ rest) P :=
  Reads.skipAll (n := 1) hLine hRest

theorem lexesLines_blank : LexesLines "\n" [[]] := by
  have hLine := (splits_nil.lexesTo).line
  simpa using hLine

/- A comment up to the end of its line. -/
theorem lexesLines_comment
    {s : Text}
    (hNewline : ∀ c ∈ s, c ≠ '\n') :
    LexesLines ("#" ++ s ++ "\n") [[]] := by
  intro line rest
  have hText :
      ("#" ++ s ++ "\n" : Text) ++ rest =
        '#' :: (s ++ '\n' :: rest) := by
    simp
  have hDrop :
      (s ++ '\n' :: rest).dropWhile (· != '\n') =
        '\n' :: rest := by
    rw [List.dropWhile_append_of_pos]
    · simp
    · intro c hc
      simpa using hNewline c hc
  have hComment :
      (lexStep line '#' (s ++ '\n' :: rest)).2 =
        (line, '\n' :: rest) := by
    show (line, (s ++ '\n' :: rest).dropWhile (· != '\n')) = _
    rw [hDrop]
  have hPiece :
      ∃ c, (lexStep line '#' (s ++ '\n' :: rest)).1 =
        .comment c := ⟨_, rfl⟩
  have hNewline :
      lexStep line '\n' rest = (.blank, line + 1, rest) := rfl
  rcases hPiece with ⟨c, hPiece⟩
  rw [hText, lexAt_cons, hComment, hPiece,
    Lexed.add_comment_tokens, lexAt_cons, hNewline]
  simp [numbered]

/- A text that reads as nodes parses to them. -/
theorem Reads.parse
    {s : Text}
    {P : List Node → Prop}
    (hReads : Reads s P) :
    ∃ nodes comments,
      Tacconfig.parse s = .ok (nodes, comments) ∧ P nodes := by
  rcases hReads with ⟨lines, hLexes, hParses⟩
  have hEnd :
      Parses
        (.stmts false [⟨.eof, "", 1 + lines.length⟩] [] 0
          [⟨.eof, "", 1 + lines.length⟩]) :=
    .eof rfl
  have hFollows :
      Follows (1 + lines.length)
        [⟨.eof, "", 1 + lines.length⟩] := by
    intro t ht
    have hEq := Option.some.inj ht
    subst hEq
    exact ⟨le_rfl, by simp⟩
  rcases hParses 1 false _ _ _ _ hFollows hEnd with
    ⟨nodes, hNodes, hAll⟩
  rw [List.append_nil] at hAll
  have hToks :
      (lex s).tokens =
        numbered 1 lines ++
          [⟨.eof, "", 1 + lines.length⟩] := by
    have hLexed := hLexes 1 []
    rw [List.append_nil, lexAt_nil] at hLexed
    exact hLexed
  rw [← hToks] at hAll
  have hOk := parseTokens_ok_iff.mpr ⟨_, _, hAll⟩
  exact ⟨nodes, _, parse_ok_iff.mpr ⟨hOk, rfl⟩, hNodes⟩

end Tacconfig

end Soteria

------------------------------------------------------------
-- Fixed Lines
------------------------------------------------------------

namespace Soteria

namespace Tacconfig

theorem indent_four : Indent "    " := by
  decide

theorem indent_deeper
    {indent : Text}
    (hIndent : Indent indent) :
    Indent (indent ++ "    ") :=
  hIndent.append indent_four

theorem heading_word
    {s : Text}
    (hWord : PlainWord s)
    (hIf : s ≠ "if")
    (hElse : s ≠ "else") :
    Heading s s [] where
  lexes := hWord.lexesTo 0
  isText := by simp
  notIf := hIf
  notElse := hElse

theorem heading_script : Heading "script" "script" [] :=
  heading_word ⟨by decide, by decide⟩ (by decide) (by decide)

/- The lines of the banner hold no tokens. -/
theorem commentLine_skip
    {s rest : Text}
    {P : List Node → Prop}
    (hNewline : ∀ c ∈ s, c ≠ '\n')
    (hRest : Reads rest P) :
    Reads (commentLine s ++ rest) P := by
  have hLead : ("# " : Text) = "#" ++ " " := rfl
  have hBlank : ∀ c ∈ (" " ++ s : Text), c ≠ '\n' := by
    intro c hc
    rcases List.mem_append.mp hc with hc | hc
    · rw [List.mem_singleton.mp hc]
      decide
    · exact hNewline c hc
  have hAll := Reads.skip (lexesLines_comment hBlank) hRest
  unfold commentLine
  rw [hLead]
  simpa only [List.append_assoc] using hAll

theorem banner_skip
    (file title : Text)
    {rest : Text}
    {P : List Node → Prop}
    (hNames : ∀ c ∈ file ++ " - " ++ title, c ≠ '\n')
    (hRest : Reads rest P) :
    Reads (banner file title ++ rest) P := by
  have hRule : ∀ c ∈ Text.repeated "=" 77, c ≠ '\n' := by
    decide
  have hAll :=
    commentLine_skip hRule
      (commentLine_skip hNames
        (commentLine_skip hRule
          (commentLine_skip
            (s := "Company:    Pathfinder Insights")
            (Text.forall_mem_literal (by decide))
            (commentLine_skip
              (s := "Project:    Soteria AAA Infrastructure")
              (Text.forall_mem_literal (by decide))
              (commentLine_skip
                (s :=
                  "Managed by: soteria-agent - manual edits are overwritten on the next commit")
                (Text.forall_mem_literal (by decide))
                (commentLine_skip hRule
                  (Reads.skip lexesLines_blank hRest)))))))
  unfold banner
  simpa only [List.append_assoc] using hAll

end Tacconfig

end Soteria
