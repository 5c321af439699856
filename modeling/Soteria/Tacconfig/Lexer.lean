import Soteria.Foundation.Text

/-
  The tokens of a config source.

  Comments are collected beside the tokens. The lexer takes
  a bound on its rounds; each round reads a character at
  least, so the length of the source is enough, and the
  equations below do without the bound.

  Key definitions include:
    * `Token`, `Comment`, `Lexed`
    * `stringBody`
    * `lexStep`, `lexFrom`, `lexAt`, `lex`
    * `Step`, `lexStep_cases`
    * `lexAt_cons`
-/

------------------------------------------------------------
-- Tokens
------------------------------------------------------------

namespace Soteria

namespace Tacconfig

inductive TokKind where
  | eof
  | word
  | string
  | lbrace
  | rbrace
  | lparen
  | rparen
  | equals
deriving DecidableEq

structure Token where
  kind : TokKind
  text : Text
  line : Nat
deriving DecidableEq

structure Comment where
  text : Text
  line : Nat
deriving DecidableEq

structure Lexed where
  tokens : List Token
  comments : List Comment

/- The characters that end a word. -/
def delimiter (c : Char) : Bool :=
  (" \t\r\n#\"\x7b\x7d()=" : Text).contains c

/-
  The text of a string up to its closing quote, and what
  follows. A backslash takes the next character with it; a
  string that is not closed reaches to the end.
-/
def stringBody : Text → Text × Text
| [] => ([], [])
| '"' :: rest => ([], rest)
| '\\' :: c :: rest =>
    ('\\' :: c :: (stringBody rest).1, (stringBody rest).2)
| c :: rest => (c :: (stringBody rest).1, (stringBody rest).2)

/- The text of a comment from its first `#` on. -/
def commentText (s : Text) : Text :=
  (s.trimLeftChar '#').trimSpace

/- What one round of the loop of `lex` reads. -/
inductive Piece where
  | blank
  | comment (c : Comment)
  | token (t : Token)

/- Put what a round read before what the others read. -/
def Lexed.add (lexed : Lexed) : Piece → Lexed
| .blank => lexed
| .comment c => { lexed with comments := c :: lexed.comments }
| .token t => { lexed with tokens := t :: lexed.tokens }

/-
  One round of the loop of `lex`: what it reads, the line it
  is on then and the text that is left.
-/
def lexStep (line : Nat) (c : Char) (rest : Text) :
    Piece × Nat × Text :=
  if c = '\n' then (.blank, line + 1, rest)
  else if c = ' ' ∨ c = '\t' ∨ c = '\r' then
    (.blank, line, rest)
  else if c = '#' then
    (.comment
        ⟨commentText (c :: rest.takeWhile (· != '\n')), line⟩,
      line, rest.dropWhile (· != '\n'))
  else if c = '"' then
    -- a newline inside a string does not count as a line
    (.token ⟨.string, (stringBody rest).1, line⟩, line,
      (stringBody rest).2)
  else if c = '\x7b' then
    (.token ⟨.lbrace, [c], line⟩, line, rest)
  else if c = '\x7d' then
    (.token ⟨.rbrace, [c], line⟩, line, rest)
  else if c = '(' then
    (.token ⟨.lparen, [c], line⟩, line, rest)
  else if c = ')' then
    (.token ⟨.rparen, [c], line⟩, line, rest)
  else if c = '=' ∧
      (rest.head? = some '=' ∨ rest.head? = some '~') then
    (.token ⟨.word, c :: rest.take 1, line⟩, line, rest.tail)
  else if c = '=' then
    (.token ⟨.equals, [c], line⟩, line, rest)
  else if c = '!' ∧ rest.head? = some '=' then
    (.token ⟨.word, c :: rest.take 1, line⟩, line, rest.tail)
  else
    (.token
        ⟨.word, c :: rest.takeWhile fun d => !delimiter d,
          line⟩,
      line, rest.dropWhile fun d => !delimiter d)

/- The loop of `lex`, with a bound on its rounds. -/
def lexFrom : Nat → Nat → Text → Lexed
| 0, line, _ => ⟨[⟨.eof, "", line⟩], []⟩
| _ + 1, line, [] => ⟨[⟨.eof, "", line⟩], []⟩
| fuel + 1, line, c :: rest =>
    (lexFrom fuel (lexStep line c rest).2.1
      (lexStep line c rest).2.2).add (lexStep line c rest).1

/- The loop of `lex` from a line on, run to the end. -/
def lexAt (line : Nat) (src : Text) : Lexed :=
  lexFrom src.length line src

def lex (src : Text) : Lexed :=
  lexAt 1 src

end Tacconfig

end Soteria

------------------------------------------------------------
-- The Loop without Its Bound
------------------------------------------------------------

namespace Soteria

namespace Tacconfig

@[simp] theorem Lexed.add_blank (lexed : Lexed) :
    lexed.add .blank = lexed := rfl

@[simp] theorem Lexed.add_comment_tokens
    (lexed : Lexed)
    (c : Comment) :
    (lexed.add (.comment c)).tokens = lexed.tokens := rfl

@[simp] theorem Lexed.add_token_tokens
    (lexed : Lexed)
    (t : Token) :
    (lexed.add (.token t)).tokens = t :: lexed.tokens := rfl

theorem stringBody_suffix (s : Text) :
    (stringBody s).2 <:+ s := by
  induction s using stringBody.induct with
  | case1 => exact List.suffix_rfl
  | case2 rest => exact List.suffix_cons ..
  | case3 c rest ih =>
      simp only [stringBody]
      exact (ih.trans (List.suffix_cons ..)).trans
        (List.suffix_cons ..)
  | case4 c rest hQuote hEscape ih =>
      rw [stringBody]
      · exact ih.trans (List.suffix_cons ..)
      · exact hQuote
      · exact hEscape

/- The rounds of the loop, branch by branch. -/
inductive Step (line : Nat) (c : Char) (rest : Text) :
    Piece × Nat × Text → Prop
| newline (hc : c = '\n') :
    Step line c rest (.blank, line + 1, rest)
| blank (hc : c = ' ' ∨ c = '\t' ∨ c = '\r') :
    Step line c rest (.blank, line, rest)
| comment (text : Text) (hc : c = '#') :
    Step line c rest
      (.comment ⟨text, line⟩, line,
        rest.dropWhile (· != '\n'))
| string (hc : c = '"') :
    Step line c rest
      (.token ⟨.string, (stringBody rest).1, line⟩, line,
        (stringBody rest).2)
| lbrace (hc : c = '\x7b') :
    Step line c rest
      (.token ⟨.lbrace, "\x7b", line⟩, line, rest)
| rbrace (hc : c = '\x7d') :
    Step line c rest
      (.token ⟨.rbrace, "\x7d", line⟩, line, rest)
| lparen (hc : c = '(') :
    Step line c rest (.token ⟨.lparen, "(", line⟩, line, rest)
| rparen (hc : c = ')') :
    Step line c rest (.token ⟨.rparen, ")", line⟩, line, rest)
| operator
    (d : Char)
    (more : Text)
    (hRest : rest = d :: more)
    (hText :
      [c, d] = ("==" : Text) ∨ [c, d] = ("=~" : Text) ∨
        [c, d] = ("!=" : Text)) :
    Step line c rest (.token ⟨.word, [c, d], line⟩, line, more)
| equals (hc : c = '=') :
    Step line c rest (.token ⟨.equals, "=", line⟩, line, rest)
| word (hc : delimiter c = false) :
    Step line c rest
      (.token
          ⟨.word, c :: rest.takeWhile fun d => !delimiter d,
            line⟩,
        line, rest.dropWhile fun d => !delimiter d)

theorem lexStep_cases
    (line : Nat)
    (c : Char)
    (rest : Text) :
    Step line c rest (lexStep line c rest) := by
  unfold lexStep
  by_cases hNewline : c = '\n'
  · rw [if_pos hNewline]
    exact .newline hNewline
  rw [if_neg hNewline]
  by_cases hBlank : c = ' ' ∨ c = '\t' ∨ c = '\r'
  · rw [if_pos hBlank]
    exact .blank hBlank
  rw [if_neg hBlank]
  by_cases hComment : c = '#'
  · rw [if_pos hComment]
    exact .comment _ hComment
  rw [if_neg hComment]
  by_cases hQuote : c = '"'
  · rw [if_pos hQuote]
    exact .string hQuote
  rw [if_neg hQuote]
  by_cases hLbrace : c = '\x7b'
  · rw [if_pos hLbrace, hLbrace]
    exact .lbrace rfl
  rw [if_neg hLbrace]
  by_cases hRbrace : c = '\x7d'
  · rw [if_pos hRbrace, hRbrace]
    exact .rbrace rfl
  rw [if_neg hRbrace]
  by_cases hLparen : c = '('
  · rw [if_pos hLparen, hLparen]
    exact .lparen rfl
  rw [if_neg hLparen]
  by_cases hRparen : c = ')'
  · rw [if_pos hRparen, hRparen]
    exact .rparen rfl
  rw [if_neg hRparen]
  by_cases hOperator :
      c = '=' ∧
        (rest.head? = some '=' ∨ rest.head? = some '~')
  · rw [if_pos hOperator]
    rcases hOperator with ⟨rfl, hNext⟩
    cases rest with
    | nil => simp at hNext
    | cons d more =>
        have hd : d = '=' ∨ d = '~' := by simpa using hNext
        refine .operator d more rfl ?_
        rcases hd with rfl | rfl
        · exact Or.inl rfl
        · exact Or.inr (Or.inl rfl)
  rw [if_neg hOperator]
  by_cases hEquals : c = '='
  · rw [if_pos hEquals, hEquals]
    exact .equals rfl
  rw [if_neg hEquals]
  by_cases hBang : c = '!' ∧ rest.head? = some '='
  · rw [if_pos hBang]
    rcases hBang with ⟨rfl, hNext⟩
    cases rest with
    | nil => simp at hNext
    | cons d more =>
        have hd : d = '=' := by simpa using hNext
        refine .operator d more rfl ?_
        rw [hd]
        exact Or.inr (Or.inr rfl)
  rw [if_neg hBang]
  refine .word ?_
  simp only [not_or] at hBlank
  simp [delimiter, hNewline, hBlank, hComment, hQuote, hLbrace,
    hRbrace, hLparen, hRparen, hEquals]

/- A round reads a character at least. -/
theorem lexStep_suffix
    (line : Nat)
    (c : Char)
    (rest : Text) :
    (lexStep line c rest).2.2 <:+ rest := by
  have hStep := lexStep_cases line c rest
  generalize lexStep line c rest = step at hStep
  cases hStep with
  | comment => exact List.dropWhile_suffix _
  | string => exact stringBody_suffix rest
  | operator d more hRest =>
      rw [hRest]
      exact List.suffix_cons ..
  | word => exact List.dropWhile_suffix _
  | _ => exact List.suffix_rfl

/- Every bound from the length of the source on is enough. -/
theorem lexFrom_fuel
    {n m : Nat}
    (line : Nat)
    {src : Text}
    (hn : src.length ≤ n)
    (hm : src.length ≤ m) :
    lexFrom n line src = lexFrom m line src := by
  induction n generalizing m line src with
  | zero =>
      have hNil : src = [] := List.length_eq_zero_iff.mp (by omega)
      subst hNil
      cases m <;> rfl
  | succ n ih =>
      cases src with
      | nil => cases m <;> rfl
      | cons c rest =>
          cases m with
          | zero => simp at hm
          | succ m =>
              simp only [List.length_cons] at hn hm
              have hStep := (lexStep_suffix line c rest).length_le
              rw [lexFrom, lexFrom]
              rw [ih (m := m) _ (by omega) (by omega)]

/- One round of the loop, without the bound. -/
theorem lexAt_cons
    (line : Nat)
    (c : Char)
    (rest : Text) :
    lexAt line (c :: rest) =
      (lexAt (lexStep line c rest).2.1
        (lexStep line c rest).2.2).add
        (lexStep line c rest).1 := by
  have hStep := (lexStep_suffix line c rest).length_le
  show lexFrom (rest.length + 1) line (c :: rest) = _
  rw [lexFrom, lexAt, lexFrom_fuel _ hStep le_rfl]

@[simp] theorem lexAt_nil (line : Nat) :
    lexAt line [] = ⟨[⟨.eof, "", line⟩], []⟩ := rfl

end Tacconfig

end Soteria
