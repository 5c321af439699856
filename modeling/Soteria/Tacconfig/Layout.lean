import Soteria.Tacconfig.Devices
import Soteria.Tacconfig.Reads

/-
  Texts whose nodes and comments are known line by line.

  A text of whole lines adds nodes and comments to those of
  the text behind it, on lines that depend only on the line
  it starts on. A block is such a text.

  Key definitions include:
    * `Exact`, `Lays`
    * `Lays.append`, `Lays.assign`
    * `Lays.block`, `Lays.emptyBlock`
    * `Lays.parse`
-/

------------------------------------------------------------
-- Lines without Comments
------------------------------------------------------------

namespace Soteria

namespace Tacconfig

/- Put tokens before what was lexed. -/
def Lexed.before (toks : List Token) (lexed : Lexed) : Lexed :=
  { lexed with tokens := toks ++ lexed.tokens }

@[simp] theorem Lexed.before_nil (lexed : Lexed) :
    lexed.before [] = lexed := rfl

@[simp] theorem Lexed.before_before
    (toks more : List Token)
    (lexed : Lexed) :
    (lexed.before more).before toks =
      lexed.before (toks ++ more) := by
  simp [Lexed.before]

/-
  In front of what ends a token, the text lexes to the tokens
  and to no comment.
-/
def Exact (s : Text) (toks : List Token) : Prop :=
  ∀ line rest, Stops rest →
    lexAt line (s ++ rest) =
      (lexAt line rest).before (toks.map (Token.onLine line))

theorem Exact.lexesTo
    {s : Text}
    {toks : List Token}
    (hExact : Exact s toks) :
    LexesTo s toks := by
  intro line rest hStops
  rw [hExact line rest hStops]
  rfl

theorem PlainWord.exact
    {s : Text}
    (hWord : PlainWord s) :
    Exact s [⟨.word, s, 0⟩] :=
  fun line _ hStops => lexAt_word hWord hStops line

theorem exact_equals : Exact "=" [⟨.equals, "=", 0⟩] :=
  fun line _ hStops => lexAt_equals hStops line

theorem Closed.exact
    {s : Text}
    (hClosed : Closed s) :
    Exact ("\"" ++ s ++ "\"") [⟨.string, s, 0⟩] :=
  fun line rest _ => lexAt_string hClosed line rest

theorem exact_lbrace : Exact "\x7b" [lbraceToken] := by
  intro line rest _
  show lexAt line ('\x7b' :: rest) = _
  rw [lexAt_cons]
  rfl

theorem exact_rbrace : Exact "\x7d" [rbraceToken] := by
  intro line rest _
  show lexAt line ('\x7d' :: rest) = _
  rw [lexAt_cons]
  rfl

theorem lexAt_indent
    {gap : Text}
    (hGap : Indent gap)
    (line : Nat)
    (rest : Text) :
    lexAt line (gap ++ rest) = lexAt line rest := by
  induction gap with
  | nil => rfl
  | cons c gap ih =>
      have hc := hGap c (List.mem_cons_self ..)
      have hRest := ih fun d hd => hGap d (List.mem_cons_of_mem _ hd)
      subst hc
      rw [List.cons_append, lexAt_cons]
      exact hRest

/- Tokens with a gap of blanks between them. -/
theorem Exact.gap
    {a b gap : Text}
    {toks more : List Token}
    (hFirst : Exact a toks)
    (hSecond : Exact b more)
    (hGap : Indent gap)
    (hNonempty : gap ≠ []) :
    Exact (a ++ gap ++ b) (toks ++ more) := by
  intro line rest hStops
  have hStart : Stops (gap ++ (b ++ rest)) := by
    rcases List.exists_cons_of_ne_nil hNonempty with
      ⟨c, more, rfl⟩
    have hc := hGap c (List.mem_cons_self ..)
    subst hc
    exact stops_cons (by decide) _
  rw [List.append_assoc, List.append_assoc,
    hFirst line _ hStart, lexAt_indent hGap,
    hSecond line rest hStops, Lexed.before_before,
    List.map_append]

end Tacconfig

end Soteria

------------------------------------------------------------
-- Laid Out Texts
------------------------------------------------------------

namespace Soteria

namespace Tacconfig

/- The tokens start on this line or on a later one. -/
def Later (line : Nat) (after : List Token) : Prop :=
  ∀ t ∈ after.head?, line ≤ t.line

theorem later_numbered
    {line : Nat}
    {lines : List (List Token)}
    {after : List Token}
    (hAfter : Later (line + lines.length) after) :
    Later line (numbered line lines ++ after) := by
  intro t ht
  have hHead := numbered_head line lines
  cases hToks : numbered line lines with
  | nil =>
      rw [hToks, List.nil_append] at ht
      have hLater := hAfter t ht
      omega
  | cons u toks =>
      rw [hToks] at ht hHead
      have hEq : u = t := Option.some.inj ht
      subst hEq
      exact (hHead u rfl).1

/- The lines parse to nodes that depend on the first line. -/
def ParsesAt
    (lines : List (List Token))
    (nodes : Nat → List Node) : Prop :=
  ∀ line untilRBrace after more endLine after',
    Later (line + lines.length) after →
      Parses (.stmts untilRBrace after more endLine after') →
        Parses
          (.stmts untilRBrace (numbered line lines ++ after)
            (nodes line ++ more) endLine after')

/-
  The text is lines of this number, with nodes and comments
  that depend on the first of them.
-/
structure Lays
    (s : Text)
    (height : Nat)
    (nodes : Nat → List Node)
    (remarks : Nat → List Comment) : Prop where
  lines : ∃ lines, lines.length = height ∧
    LexesLines s lines ∧ ParsesAt lines nodes
  comments : ∀ line rest,
    (lexAt line (s ++ rest)).comments =
      remarks line ++ (lexAt (line + height) rest).comments

theorem Lays.nil : Lays [] 0 (fun _ => []) (fun _ => []) where
  lines :=
    ⟨[], rfl, lexesLines_nil,
      fun _ _ _ _ _ _ _ hMore => hMore⟩
  comments _ _ := rfl

theorem Lays.append
    {a b : Text}
    {height height' : Nat}
    {nodes nodes' : Nat → List Node}
    {remarks remarks' : Nat → List Comment}
    (hFirst : Lays a height nodes remarks)
    (hSecond : Lays b height' nodes' remarks') :
    Lays (a ++ b) (height + height')
      (fun line => nodes line ++ nodes' (line + height))
      (fun line => remarks line ++ remarks' (line + height)) := by
  rcases hFirst.lines with ⟨lines, rfl, hLexes, hParses⟩
  rcases hSecond.lines with ⟨lines', rfl, hLexes', hParses'⟩
  refine ⟨⟨lines ++ lines', by simp, hLexes.append hLexes', ?_⟩,
    ?_⟩
  · intro line untilRBrace after more endLine after' hLater
      hMore
    rw [List.length_append, ← Nat.add_assoc] at hLater
    have hRest :=
      hParses' (line + lines.length) untilRBrace after more
        endLine after' hLater hMore
    have hAll :=
      hParses line untilRBrace _ _ endLine after'
        (later_numbered hLater) hRest
    rw [numbered_append, List.append_assoc, List.append_assoc]
    exact hAll
  · intro line rest
    rw [List.append_assoc, hFirst.comments, hSecond.comments,
      List.append_assoc, Nat.add_assoc]

/- A line without tokens and comments. -/
theorem Lays.blank :
    Lays "\n" 1 (fun _ => []) (fun _ => []) where
  lines := by
    refine ⟨[[]], rfl, lexesLines_blank, ?_⟩
    intro line untilRBrace after more endLine after' _ hMore
    exact hMore
  comments line rest := by
    show (lexAt line ('\n' :: rest)).comments = _
    rw [lexAt_cons]
    rfl

theorem commentText_of_trimmed
    {s : Text}
    (hTrimmed : s.trimSpace = s) :
    commentText ("# " ++ s) = s := by
  have hBlank : commentText ("# " ++ s) = s.trimSpace := rfl
  rw [hBlank, hTrimmed]

/- A comment on its line. -/
theorem Lays.remark
    {indent s : Text}
    (hIndent : Indent indent)
    (hLine : '\n' ∉ s)
    (hTrimmed : s.trimSpace = s) :
    Lays (indent ++ ("# " ++ s) ++ "\n") 1 (fun _ => [])
      (fun line => [⟨s, line⟩]) where
  lines := by
    refine ⟨[[]], rfl, ?_, ?_⟩
    · have hRest : ∀ c ∈ (" " ++ s : Text), c ≠ '\n' := by
        rintro c hc rfl
        rcases List.mem_append.mp hc with hc | hc
        · exact absurd hc (by decide)
        · exact hLine hc
      have hComment := lexesLines_comment hRest
      have hAll := hIndent.splits.append_lines hComment
      have hLead : ("# " : Text) = "#" ++ " " := rfl
      rw [hLead]
      simpa only [List.append_assoc, List.nil_append] using hAll
    · intro line untilRBrace after more endLine after' _ hMore
      exact hMore
  comments line rest := by
    have hText :
        (indent ++ ("# " ++ s) ++ "\n" : Text) ++ rest =
          indent ++ ('#' :: ((' ' :: s) ++ '\n' :: rest)) := by
      simp
    have hAll : ∀ c ∈ ' ' :: s, (c != '\n') = true := by
      intro c hc
      rw [bne_iff_ne]
      rintro rfl
      rcases List.mem_cons.mp hc with hc | hc
      · exact absurd hc (by decide)
      · exact hLine hc
    have hTake :
        ((' ' :: s) ++ '\n' :: rest).takeWhile (· != '\n') =
          ' ' :: s := by
      rw [List.takeWhile_append_of_pos hAll]
      simp
    have hDrop :
        ((' ' :: s) ++ '\n' :: rest).dropWhile (· != '\n') =
          '\n' :: rest := by
      rw [List.dropWhile_append_of_pos hAll]
      simp
    have hStep :
        lexStep line '#' ((' ' :: s) ++ '\n' :: rest) =
          (.comment ⟨s, line⟩, line, '\n' :: rest) := by
      have hComment := commentText_of_trimmed hTrimmed
      show
        (Piece.comment ⟨commentText ('#' :: List.takeWhile _ _),
            line⟩,
          line, List.dropWhile _ _) = _
      rw [hTake, hDrop]
      exact congrArg
        (fun c => (Piece.comment ⟨c, line⟩, line,
          '\n' :: rest)) hComment
    rw [hText, lexAt_indent hIndent, lexAt_cons, hStep,
      lexAt_cons]
    rfl

/- A line of tokens without a comment. -/
theorem Exact.comments_line
    {indent s : Text}
    {toks : List Token}
    (hIndent : Indent indent)
    (hExact : Exact s toks)
    (line : Nat)
    (rest : Text) :
    (lexAt line (indent ++ s ++ "\n" ++ rest)).comments =
      (lexAt (line + 1) rest).comments := by
  have hText :
      (indent ++ s ++ "\n" ++ rest : Text) =
        indent ++ (s ++ '\n' :: rest) := by
    simp
  have hStops : Stops ('\n' :: rest) := stops_cons (by decide) _
  rw [hText, lexAt_indent hIndent, hExact line _ hStops,
    lexAt_cons]
  rfl

/- An assignment on its line. -/
theorem Lays.assign
    {indent lead gap value : Text}
    {first : Token}
    {words toks : List Token}
    (hIndent : Indent indent)
    (hLead : Exact lead (first :: words))
    (hGap : Indent gap)
    (hNonempty : gap ≠ [])
    (hValue : Exact value toks)
    (hFirst : first.isText = true)
    (hIf : first.text ≠ "if")
    (hWords : ∀ t ∈ words, t.isText = true)
    (hToks : ∀ t ∈ toks, t.isValue = true) :
    Lays (indent ++ (lead ++ gap ++ "= " ++ value) ++ "\n") 1
      (fun line =>
        [.assign (lineOf (first :: words)) (lineOf toks) line
          line])
      (fun _ => []) := by
  have hExact :
      Exact (lead ++ gap ++ "= " ++ value)
        (first :: words ++ ⟨.equals, "=", 0⟩ :: toks) := by
    have hSign : ("= " : Text) = "=" ++ " " := rfl
    have hAll :=
      (hLead.gap exact_equals hGap hNonempty).gap hValue indent_blank
        (by simp)
    rw [hSign]
    simpa only [List.append_assoc, List.singleton_append]
      using hAll
  refine ⟨⟨[_], rfl, lexesLines_line hIndent hExact.lexesTo, ?_⟩,
    hExact.comments_line hIndent⟩
  intro line untilRBrace after more endLine after' hLater hMore
  have hElsewhere := hMore.elsewhere hLater
  have hStmt :=
    parses_assign line hFirst hIf hWords hToks hElsewhere
  rw [numbered, numbered, List.append_nil]
  exact hStmt.cons_stmt hMore

/- A block on its lines, which start with an indent. -/
theorem Lays.indentedBlock
    {indent head kind body : Text}
    {words : List Token}
    {height : Nat}
    {nodes : Nat → List Node}
    {remarks : Nat → List Comment}
    (hIndent : Indent indent)
    (hHead : Heading head kind words)
    (hExact : Exact head (⟨.word, kind, 0⟩ :: words))
    (hBody : Lays body height nodes remarks) :
    Lays
      (indent ++ head ++ " \x7b\n" ++ body ++ indent ++ "\x7d\n")
      (height + 2)
      (fun line =>
        [.block kind (lineOf words) (nodes (line + 1)) line
          (line + height + 1)])
      (fun line => remarks (line + 1)) := by
  rcases hBody.lines with ⟨lines, rfl, hLexes, hParses⟩
  have hOpen : (" \x7b\n" : Text) = " " ++ "\x7b" ++ "\n" := rfl
  have hFirst :
      Exact (head ++ " " ++ "\x7b")
        (⟨.word, kind, 0⟩ :: words ++ [lbraceToken]) :=
    hExact.gap exact_lbrace indent_blank (by simp)
  constructor
  · have hText :
        (indent ++ head ++ " \x7b\n" ++ body ++ indent ++
            "\x7d\n" : Text) =
          (indent ++ (head ++ " " ++ "\x7b") ++ "\n") ++
            (body ++ (indent ++ "\x7d" ++ "\n")) := by
      rw [hOpen]
      simp
    refine
      ⟨[⟨.word, kind, 0⟩ :: words ++ [lbraceToken]] ++
        (lines ++ [[rbraceToken]]), by simp, ?_, ?_⟩
    · rw [hText]
      exact (lexesLines_line hIndent hFirst.lexesTo).append
        (hLexes.append
          (lexesLines_line hIndent lexesTo_rbrace))
    intro line untilRBrace after more endLine after' _ hMore
    let last := line + 1 + lines.length
    have hEnd :
        Parses
          (.stmts true (rbraceToken.onLine last :: after) [] last
            after) :=
      .rbrace rfl
    have hLater :
        Later (line + 1 + lines.length)
          (rbraceToken.onLine last :: after) := by
      intro t ht
      have hEq := Option.some.inj ht
      subst hEq
      exact le_rfl
    have hInner :=
      hParses (line + 1) true _ _ _ _ hLater hEnd
    rw [List.append_nil] at hInner
    have hStmt := parses_block line hHead hInner
    have hLast : last = line + lines.length + 1 := by omega
    have hShape := hStmt.cons_stmt hMore
    rw [hLast] at hShape
    simpa [numbered, numbered_append, last, hLast] using hShape
  · intro line rest
    have hText :
        (indent ++ head ++ " \x7b\n" ++ body ++ indent ++
            "\x7d\n" : Text) ++ rest =
          indent ++ (head ++ " " ++ "\x7b") ++ "\n" ++
            (body ++ (indent ++ "\x7d" ++ "\n" ++ rest)) := by
      rw [hOpen]
      simp
    have hHeight :
        line + 1 + lines.length + 1 = line + (lines.length + 2) := by
      omega
    rw [hText, hFirst.comments_line hIndent, hBody.comments,
      exact_rbrace.comments_line hIndent, hHeight]

/- A block on its lines. -/
theorem Lays.block
    {head kind body : Text}
    {words : List Token}
    {height : Nat}
    {nodes : Nat → List Node}
    {remarks : Nat → List Comment}
    (hHead : Heading head kind words)
    (hExact : Exact head (⟨.word, kind, 0⟩ :: words))
    (hBody : Lays body height nodes remarks) :
    Lays (head ++ " \x7b\n" ++ body ++ "\x7d\n") (height + 2)
      (fun line =>
        [.block kind (lineOf words) (nodes (line + 1)) line
          (line + height + 1)])
      (fun line => remarks (line + 1)) := by
  have hAll := Lays.indentedBlock indent_nil hHead hExact hBody
  simpa only [List.nil_append, List.append_nil] using hAll

/- A block on one line, without statements. -/
theorem Lays.emptyBlock
    {head kind pad : Text}
    {words : List Token}
    (hHead : Heading head kind words)
    (hExact : Exact head (⟨.word, kind, 0⟩ :: words))
    (hPad : Indent pad) :
    Lays (head ++ pad ++ " \x7b \x7d\n") 1
      (fun line => [.block kind (lineOf words) [] line line])
      (fun _ => []) := by
  have hGap : Indent (pad ++ " ") := hPad.append indent_blank
  have hLine :
      Exact (head ++ (pad ++ " ") ++ "\x7b" ++ " " ++ "\x7d")
        (⟨.word, kind, 0⟩ :: words ++ [lbraceToken] ++
          [rbraceToken]) :=
    (hExact.gap exact_lbrace hGap (by simp)).gap exact_rbrace
      indent_blank (by simp)
  have hText :
      (head ++ pad ++ " \x7b \x7d\n" : Text) =
        ([] : Text) ++
          (head ++ (pad ++ " ") ++ "\x7b" ++ " " ++ "\x7d") ++
            "\n" := by
    have hOpen :
        (" \x7b \x7d\n" : Text) =
          " " ++ ("\x7b" ++ (" " ++ ("\x7d" ++ "\n"))) := by
      repeat rw [String.toList_ofList]
      rfl
    rw [hOpen]
    simp only [List.append_assoc, List.nil_append]
  rw [hText]
  refine ⟨⟨[_], rfl, lexesLines_line indent_nil hLine.lexesTo, ?_⟩,
    hLine.comments_line indent_nil⟩
  intro line untilRBrace after more endLine after' _ hMore
  have hEnd :
      Parses
        (.stmts true (rbraceToken.onLine line :: after) [] line
          after) :=
    .rbrace rfl
  have hStmt := parses_block line hHead hEnd
  have hShape := hStmt.cons_stmt hMore
  simpa [numbered] using hShape

/- A text that is laid out is parsed to its nodes. -/
theorem Lays.parse
    {s : Text}
    {height : Nat}
    {nodes : Nat → List Node}
    {remarks : Nat → List Comment}
    (hLays : Lays s height nodes remarks) :
    Tacconfig.parse s = .ok (nodes 1, remarks 1) := by
  rcases hLays.lines with ⟨lines, _, hLexes, hParses⟩
  let eof : Token := ⟨.eof, "", 1 + lines.length⟩
  have hEnd : Parses (.stmts false [eof] [] 0 [eof]) := .eof rfl
  have hLater : Later (1 + lines.length) [eof] := by
    intro t ht
    have hEq := Option.some.inj ht
    subst hEq
    exact le_rfl
  have hAll := hParses 1 false _ _ _ _ hLater hEnd
  have hTokens :
      (lex s).tokens = numbered 1 lines ++ [eof] := by
    have hLexed := hLexes 1 []
    rw [List.append_nil, lexAt_nil] at hLexed
    exact hLexed
  have hComments : (lex s).comments = remarks 1 := by
    have hLexed := hLays.comments 1 []
    rw [List.append_nil, lexAt_nil, List.append_nil] at hLexed
    exact hLexed
  rw [List.append_nil, ← hTokens] at hAll
  exact parse_ok_iff.mpr
    ⟨parseTokens_ok_iff.mpr ⟨_, _, hAll⟩, hComments.symm⟩

end Tacconfig

end Soteria
