import Soteria.Tacconfig.Grammar
import Soteria.Tacconfig.Lines

/-
  The texts in the nodes of a source that parses.

  Inside a block every token is followed by another one, so
  every label, action and attribute that the parser puts
  together lexes to the tokens it was made of.

  Key definitions include:
    * `WordText`, `LabelText`, `ValueText`, `Lexical`
    * `Node.Written`, `WrittenAll`
    * `Parses.block_body`
-/

------------------------------------------------------------
-- Texts
------------------------------------------------------------

namespace Soteria

namespace Tacconfig

/- The text is read as one word. -/
def WordText (s : Text) : Prop :=
  LexesTo s [⟨.word, s, 0⟩]

/- The text is that of words and strings on one line. -/
def LabelText (s : Text) : Prop :=
  ∃ words,
    LexesTo s words ∧ (∀ t ∈ words, t.isText = true) ∧
      lineOf words = s

/- The text is read as what follows an `if` on its line. -/
def ValueText (s : Text) : Prop :=
  ∃ toks,
    LexesTo s toks ∧ (∀ t ∈ toks, t.isValue = true) ∧
      lineOf toks = s

/- The text lexes to tokens before the end of the file. -/
def Lexical (s : Text) : Prop :=
  ∃ toks, LexesTo s toks ∧ ∀ t ∈ toks, t.kind ≠ .eof

theorem WellWritten.kind_ne_eof
    {t : Token}
    (hToken : WellWritten t) :
    t.kind ≠ .eof := by
  cases hToken with
  | word hKind => simp [hKind]
  | string hKind => simp [hKind]
  | _ => simp

/- Tokens before one that is not the end are well written. -/
theorem Sound.consumed
    (taken : List Token)
    {after : List Token}
    {next : Token}
    (hSound : Sound (taken ++ next :: after))
    (hNext : next.kind ≠ .eof) :
    ∀ t ∈ taken, WellWritten t := by
  induction taken with
  | nil => simp
  | cons t taken ih =>
      have hTaken := ih hSound.2
      intro u hu
      rcases List.mem_cons.mp hu with rfl | hu
      · cases taken with
        | nil =>
            exact Sound.wellWritten [] hSound hNext
        | cons v taken =>
            have hv := hTaken v (List.mem_cons_self ..)
            exact Sound.wellWritten [] hSound hv.kind_ne_eof
      · exact hTaken u hu

theorem wordText_of_token
    {t : Token}
    (hToken : WellWritten t)
    (hKind : t.kind = .word) :
    WordText t.text := by
  have hSolid := hToken.solid
  rcases t with ⟨kind, text, line⟩
  cases hKind
  exact hSolid

theorem solid_of_wellWritten
    {toks : List Token}
    (hToks : ∀ t ∈ toks, WellWritten t) :
    ∀ t ∈ toks, Solid t :=
  fun t ht => (hToks t ht).solid

theorem lexical_lineOf
    {toks : List Token}
    (hToks : ∀ t ∈ toks, WellWritten t) :
    Lexical (lineOf toks) :=
  ⟨toks, lexesTo_lineOf (solid_of_wellWritten hToks),
    fun t ht => (hToks t ht).kind_ne_eof⟩

theorem splits_equals_sign :
    Splits "= " [⟨.equals, "=", 0⟩] :=
  (lexesTo_equals 0).blank

/- An assignment lexes to its name, its sign and its value. -/
theorem lexical_assign
    {words parts : List Token}
    (hWords : ∀ t ∈ words, WellWritten t)
    (hParts : ∀ t ∈ parts, WellWritten t) :
    Lexical (lineOf words ++ " = " ++ lineOf parts) := by
  have hName :=
    (lexesTo_lineOf (solid_of_wellWritten hWords)).blank
  have hValue := lexesTo_lineOf (solid_of_wellWritten hParts)
  have hAll :=
    (hName.append splits_equals_sign).append_lexesTo hValue
  refine ⟨words ++ [⟨.equals, "=", 0⟩] ++ parts, ?_, ?_⟩
  · simpa using hAll
  · intro t ht
    rcases List.mem_append.mp ht with ht | ht
    · rcases List.mem_append.mp ht with ht | ht
      · exact (hWords t ht).kind_ne_eof
      · simp_all
    · exact (hParts t ht).kind_ne_eof

end Tacconfig

end Soteria

------------------------------------------------------------
-- Nodes
------------------------------------------------------------

namespace Soteria

namespace Tacconfig

mutual

/- Every text of the node lexes to its tokens. -/
def Node.Written : Node → Prop
| .assign name value _ _ => Lexical (name ++ " = " ++ value)
| .action value _ _ => Lexical value
| .block _ label children _ _ =>
    LabelText label ∧ WrittenAll children
| .ifNode cond children elseNodes inline _ _ =>
    (WordText cond.attr ∧ WordText cond.op) ∧
      WrittenAll children ∧ WrittenAll elseNodes ∧
      (inline = true →
        ∃ value line, children = [.action value line 0] ∧
          ValueText value ∧ elseNodes = [])

def WrittenAll : List Node → Prop
| [] => True
| n :: rest => n.Written ∧ WrittenAll rest

end

theorem WrittenAll.of_mem
    {nodes : List Node}
    (hWritten : WrittenAll nodes)
    {n : Node}
    (hn : n ∈ nodes) :
    n.Written := by
  induction nodes with
  | nil => simp at hn
  | cons m rest ih =>
      rcases List.mem_cons.mp hn with rfl | hn
      · exact hWritten.1
      · exact ih hWritten.2 hn

/- The text of a statement lexes to its tokens. -/
theorem Node.Written.lexical
    {n : Node}
    (hWritten : n.Written) :
    Lexical n.actionText := by
  have hNil : Lexical [] :=
    ⟨[], splits_nil.lexesTo, by simp⟩
  cases n with
  | assign => simpa only [Node.Written, Node.actionText] using hWritten
  | action => simpa only [Node.Written, Node.actionText] using hWritten
  | block => exact hNil
  | ifNode => exact hNil

/- A condition is written in words. -/
theorem parseCond_written
    {toks after : List Token}
    {cond : Cond}
    {rpLine : Nat}
    (hCond : parseCond toks = .ok (cond, rpLine, after))
    (hSound : Sound toks) :
    WordText cond.attr ∧ WordText cond.op := by
  rcases parseCond_ok_iff.mp hCond with
    ⟨lp, attr, op, parts, rp, rfl, _, hAttr, hOp, hRp, _, _,
      rfl⟩
  have hRpEof : rp.kind ≠ .eof := by simp [hRp]
  have hToks :=
    Sound.consumed (lp :: attr :: op :: parts) hSound hRpEof
  exact ⟨wordText_of_token (hToks attr (by simp)) hAttr,
    wordText_of_token (hToks op (by simp)) hOp⟩

/- The head of what is left, where a statement ended. -/
def Continues (after : List Token) : Prop :=
  ∀ t ∈ after.head?, t.kind ≠ .eof

/- What a token list leaves behind continues if it starts so. -/
theorem takeToks_written
    {p : Token → Bool}
    {toks taken after : List Token}
    (hTake : takeToks p toks = .ok (taken, after))
    (hSound : Sound toks)
    (hAfter : Continues after) :
    ∀ t ∈ taken, WellWritten t := by
  rcases takeToks_ok_iff.mp hTake with
    ⟨rfl, _, next, rest, rfl, _⟩
  exact Sound.consumed taken hSound (hAfter next rfl)

/- The label of a block is made of the words before it. -/
theorem label_written
    {t next : Token}
    {rest words after : List Token}
    (hWords : takeWords t.line rest = .ok (words, next :: after))
    (hKind : next.kind = .lbrace)
    (hSound : Sound (t :: rest)) :
    LabelText (lineOf words) ∧ Sound after := by
  rcases takeToks_ok_iff.mp hWords with ⟨rfl, hAll, _⟩
  have hNext : next.kind ≠ .eof := by simp [hKind]
  have hLabel := Sound.consumed words hSound.2 hNext
  refine ⟨⟨words, ?_, ?_, rfl⟩, ?_⟩
  · exact lexesTo_lineOf (solid_of_wellWritten hLabel)
  · intro u hu
    have hPass := hAll u hu
    simp only [Bool.and_eq_true] at hPass
    exact hPass.1
  · exact hSound.suffix ⟨t :: words ++ [next], by simp⟩

/- The calls inside a block return nodes that are written. -/
def Form.Written : Form → Prop
| .stmts untilRBrace toks nodes _ _ =>
    Sound toks → untilRBrace = true → WrittenAll nodes
| .stmt toks node after =>
    Sound toks → Continues after → node.Written
| .ifPart _ toks node after =>
    Sound toks → Continues after → node.Written
| .elsePart _ toks nodes _ after =>
    Sound toks → Continues after → WrittenAll nodes

theorem Parses.continues
    {toks after : List Token}
    {nodes : List Node}
    {line : Nat}
    (hParses : Parses (.stmts true toks nodes line after)) :
    Continues toks := by
  cases hParses with
  | rbrace hKind =>
      rintro t ⟨⟩
      simp [hKind]
  | cons hEof =>
      rintro t ⟨⟩
      exact hEof

theorem Parses.written
    {form : Form}
    (hParses : Parses form) :
    form.Written := by
  induction hParses with
  | eof => exact fun _ _ => trivial
  | rbrace => exact fun _ _ => trivial
  | @cons untilRBrace _ _ _ _ _ _ _ _ _ hStmt hRest ihStmt
      ihRest =>
      rintro hSound rfl
      have hAfter := hSound.suffix hStmt.suffix.1
      exact ⟨ihStmt hSound hRest.continues,
        ihRest hAfter rfl⟩
  | ifStmt _ _ _ ih =>
      exact fun hSound hAfter => ih hSound.2 hAfter
  | @assign t next rest words parts after after' _ _ hWords
      hKind hValue =>
      intro hSound hAfter
      rcases takeToks_ok_iff.mp hWords with ⟨rfl, _⟩
      have hNext : next.kind ≠ .eof := by simp [hKind]
      have hName :=
        Sound.consumed (t :: words) hSound hNext
      have hRest : Sound after :=
        hSound.suffix ⟨t :: words ++ [next], by simp⟩
      exact lexical_assign hName
        (takeToks_written hValue hRest hAfter)
  | @block t next rest words after _ _ _ _ _ hWords hKind _
      ih =>
      intro hSound _
      rcases label_written hWords hKind hSound with
        ⟨hLabel, hRest⟩
      exact ⟨hLabel, ih hRest rfl⟩
  | @action t next rest words after _ _ hWords =>
      intro hSound hAfter
      rcases takeToks_ok_iff.mp hWords with ⟨rfl, _⟩
      exact lexical_lineOf
        (Sound.consumed (t :: words) hSound
          (hAfter next rfl))
  | @braced _ _ _ _ _ next toks rest after _ _ _ hCond _ hBody
      _ ihBody ihElse =>
      intro hSound hAfter
      have hRest : Sound (next :: rest) :=
        hSound.suffix (parseCond_suffix hCond).1
      have hMid : Sound after :=
        hRest.2.suffix hBody.suffix
      exact ⟨parseCond_written hCond hSound,
        ihBody hRest.2 rfl, ihElse hMid hAfter, by simp⟩
  | @inline _ _ _ _ _ _ parts _ hCond _ hLine =>
      intro hSound hAfter
      have hRest := hSound.suffix (parseCond_suffix hCond).1
      have hParts := takeToks_written hLine hRest hAfter
      refine ⟨parseCond_written hCond hSound,
        ⟨lexical_lineOf hParts, trivial⟩, trivial,
        fun _ => ⟨_, _, rfl, ⟨parts, ?_, ?_, rfl⟩, rfl⟩⟩
      · exact lexesTo_lineOf (solid_of_wellWritten hParts)
      · intro t ht
        have hPass := (takeToks_ok_iff.mp hLine).2.1 t ht
        simp only [Bool.and_eq_true] at hPass
        exact hPass.2
  | elseBlock _ _ _ ih =>
      exact fun hSound _ => ih hSound.2.2 rfl
  | elseInline _ _ hLine =>
      intro hSound hAfter
      exact ⟨lexical_lineOf
        (takeToks_written hLine hSound.2 hAfter), trivial⟩
  | noElse => exact fun _ _ => trivial

end Tacconfig

end Soteria

------------------------------------------------------------
-- Blocks of a File
------------------------------------------------------------

namespace Soteria

namespace Tacconfig

/- The blocks of a file are written, whatever ends it. -/
theorem Parses.block_written
    {toks after : List Token}
    {nodes : List Node}
    {line : Nat}
    (hParses : Parses (.stmts false toks nodes line after))
    (hSound : Sound toks)
    {name label : Text}
    {children : List Node}
    {startLine endLine : Nat}
    (hNode :
      Node.block name label children startLine endLine ∈
        nodes) :
    (Node.block name label children startLine
      endLine).Written := by
  induction nodes generalizing toks with
  | nil => simp at hNode
  | cons n rest ih =>
      cases hParses with
      | @cons _ t rest mid _ _ _ _ _ _ hStmt hRest =>
          rcases List.mem_cons.mp hNode with rfl | hNode
          · cases hStmt with
            | ifStmt _ _ hIf => cases hIf
            | block hText hWord hWords hKind hBody =>
                rcases label_written hWords hKind hSound with
                  ⟨hLabel, hInner⟩
                exact ⟨hLabel, hBody.written hInner rfl⟩
          · exact ih hRest (hSound.suffix hStmt.suffix.1) hNode

theorem parse_ok_iff
    {src : Text}
    {nodes : List Node}
    {comments : List Comment} :
    parse src = .ok (nodes, comments) ↔
      parseTokens (lex src).tokens = .ok nodes ∧
        comments = (lex src).comments := by
  unfold parse
  cases parseTokens (lex src).tokens with
  | error error => simp [Except.map]
  | ok found => simp [Except.map, eq_comm]

/- The blocks of a source that parses. -/
theorem parse_written
    {src : Text}
    {nodes : List Node}
    {comments : List Comment}
    (hParse : parse src = .ok (nodes, comments))
    {name label : Text}
    {children : List Node}
    {startLine endLine : Nat}
    (hNode :
      Node.block name label children startLine endLine ∈
        nodes) :
    (Node.block name label children startLine
      endLine).Written := by
  rcases parseTokens_ok_iff.mp (parse_ok_iff.mp hParse).1 with
    ⟨line, after, hParses⟩
  exact hParses.block_written (lex_sound src) hNode

end Tacconfig

end Soteria
