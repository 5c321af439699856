import Soteria.Tacconfig.Parser

/-
  Lexing texts that are put together from tokens.

  A text splits into tokens if lexing it in front of any
  other text yields these tokens first. A word needs a blank,
  a newline or a closing parenthesis behind it. A token is
  solid if the way it is written lexes to it again.

  Key definitions include:
    * `LexesTo`, `Splits`, `Solid`
    * `Sound`, `lex_sound`
    * `LexesTo.lineOf`
    * `numbered`, `LexesLines`
-/

------------------------------------------------------------
-- Texts That Lex to Given Tokens
------------------------------------------------------------

namespace Soteria

namespace Tacconfig

/- The token on another line. -/
def Token.onLine (line : Nat) (t : Token) : Token :=
  { t with line := line }

/- The text is empty or starts with what ends any token. -/
def Stops (s : Text) : Prop :=
  ∀ c ∈ s.head?, c ∈ [' ', '\t', '\r', '\n', ')']

/- The text lexes to the tokens, in front of any text. -/
def Splits (s : Text) (toks : List Token) : Prop :=
  ∀ line rest,
    (lexAt line (s ++ rest)).tokens =
      toks.map (Token.onLine line) ++ (lexAt line rest).tokens

/- The same in front of a text that ends any token. -/
def LexesTo (s : Text) (toks : List Token) : Prop :=
  ∀ line rest, Stops rest →
    (lexAt line (s ++ rest)).tokens =
      toks.map (Token.onLine line) ++ (lexAt line rest).tokens

/- The token lexes to itself. -/
def Solid (t : Token) : Prop :=
  LexesTo (tokenText t) [t]

theorem stops_nil : Stops [] := by
  intro c hc
  cases hc

theorem stops_cons
    {c : Char}
    (hc : c ∈ [' ', '\t', '\r', '\n', ')'])
    (s : Text) :
    Stops (c :: s) := by
  intro d hd
  cases hd
  exact hc

theorem Splits.lexesTo
    {s : Text}
    {toks : List Token}
    (hSplits : Splits s toks) :
    LexesTo s toks :=
  fun line rest _ => hSplits line rest

theorem Splits.append
    {a b : Text}
    {toks more : List Token}
    (hFirst : Splits a toks)
    (hSecond : Splits b more) :
    Splits (a ++ b) (toks ++ more) := by
  intro line rest
  rw [List.append_assoc, hFirst, hSecond, List.map_append,
    List.append_assoc]

theorem Splits.append_lexesTo
    {a b : Text}
    {toks more : List Token}
    (hFirst : Splits a toks)
    (hSecond : LexesTo b more) :
    LexesTo (a ++ b) (toks ++ more) := by
  intro line rest hStops
  rw [List.append_assoc, hFirst, hSecond _ _ hStops,
    List.map_append, List.append_assoc]

/- What ends a token makes the text before it split off. -/
theorem LexesTo.append_splits
    {a b : Text}
    {toks more : List Token}
    (hFirst : LexesTo a toks)
    (hSecond : Splits b more)
    (hNonempty : b ≠ [])
    (hStops : Stops b) :
    Splits (a ++ b) (toks ++ more) := by
  intro line rest
  have hStart : Stops (b ++ rest) := by
    cases b with
    | nil => exact (hNonempty rfl).elim
    | cons c b => exact hStops
  rw [List.append_assoc, hFirst _ _ hStart, hSecond,
    List.map_append, List.append_assoc]

theorem splits_nil : Splits [] [] :=
  fun _ _ => rfl

theorem splits_blank : Splits " " [] := by
  intro line rest
  show (lexAt line (' ' :: rest)).tokens = _
  rw [lexAt_cons]
  rfl

theorem splits_lparen (line : Nat) :
    Splits "(" [⟨.lparen, "(", line⟩] := by
  intro line rest
  show (lexAt line ('(' :: rest)).tokens = _
  rw [lexAt_cons]
  rfl

theorem splits_rparen (line : Nat) :
    Splits ")" [⟨.rparen, ")", line⟩] := by
  intro line rest
  show (lexAt line (')' :: rest)).tokens = _
  rw [lexAt_cons]
  rfl

theorem splits_lbrace (line : Nat) :
    Splits "\x7b" [⟨.lbrace, "\x7b", line⟩] := by
  intro line rest
  show (lexAt line ('\x7b' :: rest)).tokens = _
  rw [lexAt_cons]
  rfl

theorem splits_rbrace (line : Nat) :
    Splits "\x7d" [⟨.rbrace, "\x7d", line⟩] := by
  intro line rest
  show (lexAt line ('\x7d' :: rest)).tokens = _
  rw [lexAt_cons]
  rfl

/- A text with a blank behind it splits off. -/
theorem LexesTo.blank
    {s : Text}
    {toks : List Token}
    (hLexes : LexesTo s toks) :
    Splits (s ++ " ") toks := by
  have hSplits :=
    hLexes.append_splits splits_blank (by simp)
      (stops_cons (by decide) [])
  simpa using hSplits

end Tacconfig

end Soteria

------------------------------------------------------------
-- Solid Tokens
------------------------------------------------------------

namespace Soteria

namespace Tacconfig

/- A word as the lexer reads it up to a delimiter. -/
def PlainWord (s : Text) : Prop :=
  s ≠ [] ∧ ∀ c ∈ s, delimiter c = false

/- A literal is a word as its characters are one. -/
theorem plainWord_literal
    {l : Text}
    (h : PlainWord l) :
    PlainWord (String.ofList l).toList := by
  rw [String.toList_ofList]
  exact h

/- A string whose text the closing quote ends. -/
def Closed (s : Text) : Prop :=
  ∀ rest, stringBody (s ++ '"' :: rest) = (s, rest)

theorem ne_of_not_delimiter
    {c d : Char}
    (hc : delimiter c = false)
    (hd : delimiter d = true) :
    c ≠ d := by
  rintro rfl
  rw [hc] at hd
  cases hd

/- A word, in front of what ends it. -/
theorem lexAt_word
    {s rest : Text}
    (hWord : PlainWord s)
    (hStops : Stops rest)
    (line : Nat) :
    lexAt line (s ++ rest) =
      (lexAt line rest).add (.token ⟨.word, s, line⟩) := by
  rcases hWord with ⟨hNonempty, hPlain⟩
  cases s with
  | nil => exact (hNonempty rfl).elim
  | cons c s =>
      have hc := hPlain c (List.mem_cons_self ..)
      have hNe : ∀ d, delimiter d = true → c ≠ d :=
        fun d hd => ne_of_not_delimiter hc hd
      have hRest : ∀ d ∈ rest.head?, delimiter d = true := by
        intro d hd
        have hStop := hStops d hd
        simp only [List.mem_cons, List.not_mem_nil, or_false]
          at hStop
        rcases hStop with rfl | rfl | rfl | rfl | rfl <;> rfl
      have hTail : ∀ d ∈ s, (!delimiter d) = true := by
        intro d hd
        rw [hPlain d (List.mem_cons_of_mem _ hd)]
        rfl
      have hTake :
          (s ++ rest).takeWhile (fun d => !delimiter d) = s := by
        rw [List.takeWhile_append_of_pos hTail]
        cases rest with
        | nil => simp
        | cons d rest => simp [hRest d rfl]
      have hDrop :
          (s ++ rest).dropWhile (fun d => !delimiter d) =
            rest := by
        rw [List.dropWhile_append_of_pos hTail]
        cases rest with
        | nil => rfl
        | cons d rest => simp [hRest d rfl]
      have hBang :
          ¬ (c = '!' ∧ (s ++ rest).head? = some '=') := by
        rintro ⟨_, hHead⟩
        cases s with
        | nil =>
            have hEquals := hStops '=' hHead
            simp at hEquals
        | cons d s =>
            have hd := hTail d (List.mem_cons_self ..)
            cases hHead
            simp [delimiter] at hd
      have hStep :
          lexStep line c (s ++ rest) =
            (.token ⟨.word, c :: s, line⟩, line, rest) := by
        simp only [lexStep, hNe '\n' rfl, hNe ' ' rfl,
          hNe '\t' rfl, hNe '\r' rfl, hNe '#' rfl,
          hNe '"' rfl, hNe '\x7b' rfl, hNe '\x7d' rfl,
          hNe '(' rfl, hNe ')' rfl, hNe '=' rfl, hBang, hTake,
          hDrop, false_or, false_and, if_false]
      rw [List.cons_append, lexAt_cons, hStep]

theorem PlainWord.lexesTo
    {s : Text}
    (hWord : PlainWord s)
    (line : Nat) :
    LexesTo s [⟨.word, s, line⟩] := by
  intro line rest hStops
  rw [lexAt_word hWord hStops]
  rfl

theorem splits_operator
    (s : Text)
    (hOperator : s = "==" ∨ s = "=~" ∨ s = "!=")
    (line : Nat) :
    Splits s [⟨.word, s, line⟩] := by
  intro line rest
  rcases hOperator with rfl | rfl | rfl
  · show (lexAt line ('=' :: '=' :: rest)).tokens = _
    rw [lexAt_cons]
    rfl
  · show (lexAt line ('=' :: '~' :: rest)).tokens = _
    rw [lexAt_cons]
    rfl
  · show (lexAt line ('!' :: '=' :: rest)).tokens = _
    rw [lexAt_cons]
    rfl

theorem lexAt_equals
    {rest : Text}
    (hStops : Stops rest)
    (line : Nat) :
    lexAt line ("=" ++ rest) =
      (lexAt line rest).add (.token ⟨.equals, "=", line⟩) := by
  have hNext :
      ¬ (rest.head? = some '=' ∨ rest.head? = some '~') := by
    rintro (hHead | hHead)
    · have hEquals := hStops '=' hHead
      simp at hEquals
    · have hTilde := hStops '~' hHead
      simp at hTilde
  have hStep :
      lexStep line '=' rest =
        (.token ⟨.equals, "=", line⟩, line, rest) := by
    simp only [lexStep, hNext, and_false, if_false]
    rfl
  show lexAt line ('=' :: rest) = _
  rw [lexAt_cons, hStep]

theorem lexesTo_equals (line : Nat) :
    LexesTo "=" [⟨.equals, "=", line⟩] := by
  intro line rest hStops
  rw [lexAt_equals hStops]
  rfl

/- A string with its quotes, in front of any text. -/
theorem lexAt_string
    {s : Text}
    (hClosed : Closed s)
    (line : Nat)
    (rest : Text) :
    lexAt line ("\"" ++ s ++ "\"" ++ rest) =
      (lexAt line rest).add (.token ⟨.string, s, line⟩) := by
  have hText :
      (("\"" ++ s ++ "\"" : Text) ++ rest) =
        '"' :: (s ++ '"' :: rest) := by
    simp
  have hStep :
      lexStep line '"' (s ++ '"' :: rest) =
        (.token ⟨.string, s, line⟩, line, rest) := by
    show
      (Piece.token ⟨.string, (stringBody _).1, line⟩, line,
        (stringBody _).2) = _
    rw [hClosed rest]
  rw [hText, lexAt_cons, hStep]

theorem Closed.splits
    {s : Text}
    (hClosed : Closed s)
    (line : Nat) :
    Splits ("\"" ++ s ++ "\"") [⟨.string, s, line⟩] := by
  intro line rest
  rw [lexAt_string hClosed]
  rfl

/- The tokens whose text is as the lexer leaves it. -/
inductive WellWritten : Token → Prop
| word
    {t : Token}
    (hKind : t.kind = .word)
    (hText : PlainWord t.text ∨ t.text = "==" ∨
      t.text = "=~" ∨ t.text = "!=") :
    WellWritten t
| string
    {t : Token}
    (hKind : t.kind = .string)
    (hText : Closed t.text) :
    WellWritten t
| lbrace (line : Nat) : WellWritten ⟨.lbrace, "\x7b", line⟩
| rbrace (line : Nat) : WellWritten ⟨.rbrace, "\x7d", line⟩
| lparen (line : Nat) : WellWritten ⟨.lparen, "(", line⟩
| rparen (line : Nat) : WellWritten ⟨.rparen, ")", line⟩
| equals (line : Nat) : WellWritten ⟨.equals, "=", line⟩

theorem WellWritten.solid
    {t : Token}
    (hToken : WellWritten t) :
    Solid t := by
  cases hToken with
  | word hKind hText =>
      rcases t with ⟨kind, text, line⟩
      cases hKind
      show LexesTo text [⟨.word, text, line⟩]
      rcases hText with hPlain | hOperator
      · exact hPlain.lexesTo line
      · exact (splits_operator text hOperator line).lexesTo
  | string hKind hText =>
      rcases t with ⟨kind, text, line⟩
      cases hKind
      exact (hText.splits line).lexesTo
  | lbrace line => exact (splits_lbrace line).lexesTo
  | rbrace line => exact (splits_rbrace line).lexesTo
  | lparen line => exact (splits_lparen line).lexesTo
  | rparen line => exact (splits_rparen line).lexesTo
  | equals line => exact lexesTo_equals line

end Tacconfig

end Soteria

------------------------------------------------------------
-- The Tokens of the Lexer
------------------------------------------------------------

namespace Soteria

namespace Tacconfig

/-
  Every token is well written, but for the end of the file
  and a string right before it, which may lack its quote.
-/
def Sound : List Token → Prop
| [] => True
| t :: rest =>
    (WellWritten t ∨ t.kind = .eof ∧ rest = [] ∨
      t.kind = .string ∧ ∀ u ∈ rest.head?, u.kind = .eof) ∧
      Sound rest

theorem stringBody_cons
    {c : Char}
    (hQuote : c ≠ '"')
    (hEscape : c ≠ '\\')
    (s : Text) :
    stringBody (c :: s) =
      (c :: (stringBody s).1, (stringBody s).2) := by
  rw [stringBody]
  · exact hQuote
  · intro d rest hc
    exact (hEscape hc).elim

/- Without quotes and escapes the closing quote is alone. -/
theorem closed_of_plain
    {v : Text}
    (hQuote : '"' ∉ v)
    (hEscape : '\\' ∉ v) :
    Closed v := by
  intro rest
  induction v with
  | nil => simp [stringBody]
  | cons c v ih =>
      have hRest :=
        ih (fun h => hQuote (List.mem_cons_of_mem _ h))
          (fun h => hEscape (List.mem_cons_of_mem _ h))
      have hNotQuote : c ≠ '"' := by
        rintro rfl
        exact hQuote (List.mem_cons_self ..)
      have hNotEscape : c ≠ '\\' := by
        rintro rfl
        exact hEscape (List.mem_cons_self ..)
      rw [List.cons_append, stringBody_cons hNotQuote hNotEscape,
        hRest]

/- A string ends at its closing quote or takes everything. -/
theorem stringBody_cases (s : Text) :
    (Closed (stringBody s).1 ∧
        s = (stringBody s).1 ++ '"' :: (stringBody s).2) ∨
      (s = (stringBody s).1 ∧ (stringBody s).2 = []) := by
  induction s using stringBody.induct with
  | case1 => exact Or.inr ⟨rfl, rfl⟩
  | case2 rest =>
      left
      refine ⟨?_, rfl⟩
      intro after
      simp [stringBody]
  | case3 c rest ih =>
      simp only [stringBody]
      rcases ih with ⟨hClosed, hEq⟩ | ⟨hEq, hEnd⟩
      · left
        refine ⟨?_, ?_⟩
        · intro after
          simp only [stringBody, List.cons_append,
            hClosed after]
        · simpa using hEq
      · exact Or.inr ⟨by rw [← hEq], hEnd⟩
  | case4 c rest hQuote hEscape ih =>
      by_cases hc : c = '\\'
      · -- a backslash at the very end has nothing to escape
        cases rest with
        | nil =>
            subst hc
            exact Or.inr ⟨rfl, rfl⟩
        | cons d rest => exact (hEscape d rest hc rfl).elim
      · rw [stringBody_cons hQuote hc]
        rcases ih with ⟨hClosed, hEq⟩ | ⟨hEq, hEnd⟩
        · left
          refine ⟨?_, ?_⟩
          · intro after
            rw [List.cons_append, stringBody_cons hQuote hc,
              hClosed after]
          · simpa using hEq
        · exact Or.inr ⟨by rw [← hEq], hEnd⟩

theorem Sound.cons
    {t : Token}
    {toks : List Token}
    (hToken : WellWritten t)
    (hToks : Sound toks) :
    Sound (t :: toks) :=
  ⟨Or.inl hToken, hToks⟩

theorem plainWord_takeWhile
    {c : Char}
    (hc : delimiter c = false)
    (s : Text) :
    PlainWord (c :: s.takeWhile fun d => !delimiter d) := by
  refine ⟨by simp, ?_⟩
  intro d hd
  rcases List.mem_cons.mp hd with rfl | hd
  · exact hc
  · simpa using List.mem_takeWhile_imp hd

theorem lexFrom_nil (fuel line : Nat) :
    lexFrom fuel line [] = ⟨[⟨.eof, "", line⟩], []⟩ := by
  cases fuel <;> rfl

/- A round reads a well written token or an open string. -/
theorem lexStep_sound
    {line : Nat}
    {c : Char}
    {rest : Text}
    {t : Token}
    (hToken : (lexStep line c rest).1 = .token t) :
    WellWritten t ∨
      t.kind = .string ∧ (lexStep line c rest).2.2 = [] := by
  have hStep := lexStep_cases line c rest
  generalize lexStep line c rest = step at hStep hToken
  cases hStep with
  | newline => cases hToken
  | blank => cases hToken
  | comment => cases hToken
  | string =>
      cases hToken
      rcases stringBody_cases rest with
        ⟨hClosed, _⟩ | ⟨_, hEnd⟩
      · exact Or.inl (.string rfl hClosed)
      · exact Or.inr ⟨rfl, hEnd⟩
  | lbrace =>
      cases hToken
      exact Or.inl (.lbrace line)
  | rbrace =>
      cases hToken
      exact Or.inl (.rbrace line)
  | lparen =>
      cases hToken
      exact Or.inl (.lparen line)
  | rparen =>
      cases hToken
      exact Or.inl (.rparen line)
  | operator d more hRest hText =>
      cases hToken
      exact Or.inl (.word rfl (Or.inr hText))
  | equals =>
      cases hToken
      exact Or.inl (.equals line)
  | word hc =>
      cases hToken
      exact Or.inl (.word rfl (Or.inl (plainWord_takeWhile hc _)))

/- The lexer writes its tokens as they are read. -/
theorem lexFrom_sound
    (fuel line : Nat)
    (src : Text) :
    Sound (lexFrom fuel line src).tokens := by
  induction fuel generalizing line src with
  | zero => exact ⟨Or.inr (Or.inl ⟨rfl, rfl⟩), trivial⟩
  | succ fuel ih =>
      cases src with
      | nil => exact ⟨Or.inr (Or.inl ⟨rfl, rfl⟩), trivial⟩
      | cons c rest =>
          rw [lexFrom]
          have hRest := ih (lexStep line c rest).2.1
            (lexStep line c rest).2.2
          cases hPiece : (lexStep line c rest).1 with
          | blank => exact hRest
          | comment comment => exact hRest
          | token t =>
              refine ⟨?_, hRest⟩
              rcases lexStep_sound hPiece with
                hToken | ⟨hKind, hEnd⟩
              · exact Or.inl hToken
              · refine Or.inr (Or.inr ⟨hKind, ?_⟩)
                rw [hEnd, lexFrom_nil]
                rintro u ⟨⟩
                rfl

theorem lex_sound (src : Text) : Sound (lex src).tokens :=
  lexFrom_sound _ _ _

/- A token that another one follows is well written. -/
theorem Sound.wellWritten
    (before : List Token)
    {after : List Token}
    {t next : Token}
    (hSound : Sound (before ++ t :: next :: after))
    (hNext : next.kind ≠ .eof) :
    WellWritten t := by
  induction before with
  | nil =>
      rcases hSound.1 with hToken | ⟨_, hEnd⟩ | ⟨_, hEnd⟩
      · exact hToken
      · cases hEnd
      · exact (hNext (hEnd next rfl)).elim
  | cons u before ih => exact ih hSound.2

theorem Sound.suffix
    {toks after : List Token}
    (hSound : Sound toks)
    (hSuffix : after <:+ toks) :
    Sound after := by
  rcases hSuffix with ⟨before, rfl⟩
  induction before with
  | nil => exact hSound
  | cons t before ih => exact ih hSound.2

end Tacconfig

end Soteria

------------------------------------------------------------
-- Tokens on One Line
------------------------------------------------------------

namespace Soteria

namespace Tacconfig

@[simp] theorem lineOf_nil : lineOf [] = [] := rfl

@[simp] theorem lineOf_single (t : Token) :
    lineOf [t] = tokenText t := by
  simp [lineOf, Text.join, List.intercalate]

theorem lineOf_cons_cons
    (t u : Token)
    (toks : List Token) :
    lineOf (t :: u :: toks) =
      tokenText t ++ " " ++ lineOf (u :: toks) := by
  simp [lineOf, Text.join, List.intercalate]

theorem lineOf_append
    {toks more : List Token}
    (hToks : toks ≠ [])
    (hMore : more ≠ []) :
    lineOf (toks ++ more) =
      lineOf toks ++ " " ++ lineOf more := by
  induction toks with
  | nil => exact (hToks rfl).elim
  | cons t rest ih =>
      cases rest with
      | nil =>
          rcases List.exists_cons_of_ne_nil hMore with
            ⟨u, others, rfl⟩
          rw [List.singleton_append, lineOf_cons_cons,
            lineOf_single]
      | cons u others =>
          have hRest := ih (by simp)
          rw [List.cons_append, List.cons_append,
            lineOf_cons_cons, ← List.cons_append, hRest,
            lineOf_cons_cons]
          simp only [List.append_assoc]

/- Solid tokens lex to themselves from one line. -/
theorem lexesTo_lineOf
    {toks : List Token}
    (hSolid : ∀ t ∈ toks, Solid t) :
    LexesTo (lineOf toks) toks := by
  induction toks with
  | nil => exact splits_nil.lexesTo
  | cons t toks ih =>
      have hFirst := hSolid t (List.mem_cons_self ..)
      have hRest :=
        ih fun u hu => hSolid u (List.mem_cons_of_mem _ hu)
      cases toks with
      | nil =>
          rw [lineOf_single]
          exact hFirst
      | cons u toks =>
          rw [lineOf_cons_cons]
          exact (LexesTo.blank hFirst).append_lexesTo hRest

/- The last token of a line follows what splits off. -/
theorem lineOf_concat
    {toks : List Token}
    (hSolid : ∀ t ∈ toks, Solid t)
    (last : Token) :
    ∃ lead,
      lineOf (toks ++ [last]) = lead ++ tokenText last ∧
        Splits lead toks := by
  induction toks with
  | nil => exact ⟨[], by simp, splits_nil⟩
  | cons t toks ih =>
      have hFirst := hSolid t (List.mem_cons_self ..)
      rcases ih fun u hu =>
          hSolid u (List.mem_cons_of_mem _ hu) with
        ⟨lead, hText, hLead⟩
      refine ⟨tokenText t ++ " " ++ lead, ?_, ?_⟩
      · cases toks with
        | nil =>
            rw [List.cons_append, List.nil_append,
              lineOf_cons_cons]
            rw [List.nil_append] at hText
            rw [hText]
            simp
        | cons u toks =>
            rw [List.cons_append, List.cons_append,
              lineOf_cons_cons, ← List.cons_append, hText]
            simp
      · exact (LexesTo.blank hFirst).append hLead

end Tacconfig

end Soteria

------------------------------------------------------------
-- Numbered Lines
------------------------------------------------------------

namespace Soteria

namespace Tacconfig

/- The tokens of consecutive lines from a line number on. -/
def numbered : Nat → List (List Token) → List Token
| _, [] => []
| line, toks :: rest =>
    toks.map (Token.onLine line) ++ numbered (line + 1) rest

/- The text lexes to the tokens of these lines. -/
def LexesLines (s : Text) (lines : List (List Token)) : Prop :=
  ∀ line rest,
    (lexAt line (s ++ rest)).tokens =
      numbered line lines ++
        (lexAt (line + lines.length) rest).tokens

theorem numbered_append
    (line : Nat)
    (lines more : List (List Token)) :
    numbered line (lines ++ more) =
      numbered line lines ++
        numbered (line + lines.length) more := by
  induction lines generalizing line with
  | nil => rfl
  | cons toks lines ih =>
      have hLine :
          line + 1 + lines.length =
            line + (lines.length + 1) := by
        omega
      rw [List.cons_append, numbered, ih, numbered,
        List.append_assoc, List.length_cons, hLine]

theorem lexesLines_nil : LexesLines [] [] :=
  fun _ _ => rfl

theorem LexesLines.append
    {a b : Text}
    {lines more : List (List Token)}
    (hFirst : LexesLines a lines)
    (hSecond : LexesLines b more) :
    LexesLines (a ++ b) (lines ++ more) := by
  intro line rest
  rw [List.append_assoc, hFirst, hSecond, numbered_append,
    List.append_assoc, List.length_append, Nat.add_assoc]

/- One line of text is one line of tokens. -/
theorem LexesTo.line
    {s : Text}
    {toks : List Token}
    (hLexes : LexesTo s toks) :
    LexesLines (s ++ "\n") [toks] := by
  intro line rest
  have hStops : Stops ('\n' :: rest) :=
    stops_cons (by decide) rest
  have hText :
      (s ++ "\n" : Text) ++ rest = s ++ '\n' :: rest := by
    simp
  have hNewline :
      lexStep line '\n' rest = (.blank, line + 1, rest) := rfl
  rw [hText, hLexes line _ hStops, lexAt_cons, hNewline]
  simp [numbered]

end Tacconfig

end Soteria
