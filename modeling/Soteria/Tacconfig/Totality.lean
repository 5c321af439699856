import Soteria.Tacconfig.Grammar

/-
  Lexing and parsing come to an end on every source.

  Every round of the lexer reads a character, since the cases
  of its loop and its delimiters agree. The list of tokens
  ends in the one end-of-file token, and no function of the
  parser that goes on has read that token. A source is a list
  of characters; only characters of ASCII are told apart, so
  that the bytes of a source may stand for them.

  Key definitions include:
    * `lexRound`, `Rounds`
    * `Ended`, `Halts`
    * `parsing_total`
-/

------------------------------------------------------------
-- The Rounds of the Lexer
------------------------------------------------------------

namespace Soteria

namespace Tacconfig

/- The characters with a case of their own; `!` has one before `=`. -/
def hasCase (c : Char) (rest : Text) : Bool :=
  ("\n \t\r#\"\x7b\x7d()=" : Text).contains c ||
    (c == '!' && rest.head? == some '=')

/-
  The default case: the characters before the next delimiter,
  of which there are none if the text begins with one.
-/
def wordRound (line : Nat) (input : Text) : Piece × Nat × Text :=
  (.token ⟨.word, input.takeWhile fun d => !delimiter d, line⟩,
    line, input.dropWhile fun d => !delimiter d)

/- A round of the loop, with the default case as it is written. -/
def lexRound (line : Nat) (c : Char) (rest : Text) :
    Piece × Nat × Text :=
  if hasCase c rest then lexStep line c rest
  else wordRound line (c :: rest)

/-
  A run of the loop to the end of a text. Each round begins
  where the one before has stopped.
-/
inductive Rounds : Nat → Text → Lexed → Prop where
  | stop {line : Nat} : Rounds line [] ⟨[⟨.eof, "", line⟩], []⟩
  | next {line : Nat} {c : Char} {rest : Text} {lexed : Lexed} :
      Rounds (lexRound line c rest).2.1
        (lexRound line c rest).2.2 lexed →
        Rounds line (c :: rest)
          (lexed.add (lexRound line c rest).1)

variable {line : Nat}
variable {c : Char}
variable {rest src : Text}

/- A character without a case of its own is no delimiter. -/
theorem delimiter_of_hasCase
    (hNone : hasCase c rest = false) :
    delimiter c = false := by
  unfold hasCase at hNone
  rw [Bool.or_eq_false_iff] at hNone
  have hSame :
      ∀ d : Char, delimiter d =
        ("\n \t\r#\"\x7b\x7d()=" : Text).contains d := by
    intro d
    unfold delimiter
    simp [Bool.or_comm, Bool.or_left_comm]
  rw [hSame]
  exact hNone.1

/- So the default case reads a character at least. -/
theorem lexRound_eq :
    lexRound line c rest = lexStep line c rest := by
  unfold lexRound
  cases hCase : hasCase c rest with
  | true => rfl
  | false =>
      have hWord := delimiter_of_hasCase hCase
      unfold hasCase at hCase
      simp only [Bool.or_eq_false_iff, List.contains_eq_mem,
        decide_eq_false_iff_not, String.reduceToList,
        List.mem_cons, List.not_mem_nil, or_false, not_or,
        Bool.and_eq_false_iff, beq_eq_false_iff_ne] at hCase
      rcases hCase with
        ⟨⟨hNewline, hSpace, hTab, hReturn, hComment, hQuote,
          hLbrace, hRbrace, hLparen, hRparen, hEquals⟩, hBang⟩
      have hNext : ¬ (c = '!' ∧ rest.head? = some '=') :=
        not_and_or.mpr hBang
      simp [lexStep, wordRound, hWord, hNewline, hSpace, hTab,
        hReturn, hComment, hQuote, hLbrace, hRbrace, hLparen,
        hRparen, hEquals, hNext]

/- Every text has one run, which is that of the lexer. -/
theorem rounds_iff
    {lexed : Lexed} :
    Rounds line src lexed ↔ lexed = lexAt line src := by
  constructor
  · intro hRounds
    induction hRounds with
    | stop => rfl
    | next hRest ih => rw [lexAt_cons, ← lexRound_eq, ih]
  · rintro rfl
    induction hLength : src.length using Nat.strong_induction_on
      generalizing line src with
    | _ n ih =>
        cases src with
        | nil => exact .stop
        | cons c rest =>
            have hLess :=
              (lexStep_suffix line c rest).length_le
            rw [List.length_cons] at hLength
            rw [lexAt_cons, ← lexRound_eq]
            rw [← lexRound_eq] at hLess
            exact .next (ih _ (by omega) rfl)

/- One end-of-file token, and it is the last one. -/
theorem lexAt_tokens (line : Nat) (src : Text) :
    ∃ body last, (lexAt line src).tokens =
        body ++ [⟨.eof, "", last⟩] ∧
      ∀ t ∈ body, t.kind ≠ .eof := by
  have hRounds : Rounds line src (lexAt line src) :=
    rounds_iff.mpr rfl
  generalize lexAt line src = lexed at hRounds
  induction hRounds with
  | stop => exact ⟨[], _, rfl, by simp⟩
  | @next line c rest lexed hRest ih =>
      rcases ih with ⟨body, last, hTokens, hBody⟩
      rw [lexRound_eq]
      have hStep := lexStep_cases line c rest
      generalize lexStep line c rest = step at hStep
      have hMore :
          ∀ t : Token, t.kind ≠ .eof →
            ∃ body last, (lexed.add (.token t)).tokens =
                body ++ [⟨.eof, "", last⟩] ∧
              ∀ t ∈ body, t.kind ≠ .eof := by
        intro t hKind
        refine ⟨t :: body, last, ?_, ?_⟩
        · rw [Lexed.add_token_tokens, hTokens, List.cons_append]
        · intro u hu
          rcases List.mem_cons.mp hu with rfl | hu
          · exact hKind
          · exact hBody u hu
      cases hStep with
      | newline => exact ⟨body, last, hTokens, hBody⟩
      | blank => exact ⟨body, last, hTokens, hBody⟩
      | comment => exact ⟨body, last, hTokens, hBody⟩
      | _ => exact hMore _ (by simp)

end Tacconfig

end Soteria

------------------------------------------------------------
-- Reading Tokens to the Last One
------------------------------------------------------------

namespace Soteria

namespace Tacconfig

/- What is left of a token list, with its end-of-file token. -/
def Ended : List Token → Prop
| [] => False
| t :: rest => if t.kind = .eof then rest = [] else Ended rest

/-
  A call comes back, and not from a position behind the last
  token: with an error of the syntax, or with fewer than `n`
  tokens left, the last one among them.
-/
def Halts
    {α : Type}
    (left : α → List Token)
    (n : Nat) : Except ParseError α → Prop
| .ok a => Ended (left a) ∧ (left a).length < n
| .error error => error ≠ .outOfRange ∧ error ≠ .outOfFuel

variable {α β : Type}
variable {left : α → List Token}
variable {left' : β → List Token}
variable {n m : Nat}
variable {t : Token}
variable {toks rest : List Token}

theorem ended_append
    {body : List Token}
    (hBody : ∀ u ∈ body, u.kind ≠ .eof)
    (hLast : t.kind = .eof) :
    Ended (body ++ [t]) := by
  induction body with
  | nil =>
      rw [List.nil_append, Ended, if_pos hLast]
  | cons u body ih =>
      rw [List.cons_append, Ended,
        if_neg (hBody u (List.mem_cons_self ..))]
      exact ih fun v hv => hBody v (List.mem_cons_of_mem _ hv)

/- Behind another token the list goes on. -/
theorem Ended.tail
    (hEnded : Ended (t :: rest))
    (hKind : t.kind ≠ .eof) :
    Ended rest := by
  rwa [Ended, if_neg hKind] at hEnded

theorem Halts.mono
    {x : Except ParseError α}
    (hHalts : Halts left n x)
    (hLess : n ≤ m) :
    Halts left m x := by
  cases x with
  | error error => exact hHalts
  | ok a => exact ⟨hHalts.1, lt_of_lt_of_le hHalts.2 hLess⟩

/- Two calls, one behind the other. -/
theorem Halts.bind
    {x : Except ParseError α}
    {f : α → Except ParseError β}
    (hFirst : Halts left n x)
    (hThen :
      ∀ a, Ended (left a) → (left a).length < n →
        Halts left' m (f a)) :
    Halts left' m (x >>= f) := by
  cases x with
  | error error => exact hFirst
  | ok a => exact hThen a hFirst.1 hFirst.2

/- A loop that stops at the last token reads no further. -/
theorem takeToks_ended
    {p : Token → Bool}
    (hStop : ∀ u : Token, u.kind = .eof → p u = false)
    (hEnded : Ended toks) :
    ∃ taken after, takeToks p toks = .ok (taken, after) ∧
      Ended after ∧ after.length ≤ toks.length := by
  induction toks with
  | nil => exact hEnded.elim
  | cons u toks ih =>
      cases hPass : p u with
      | false =>
          refine ⟨[], u :: toks, ?_, hEnded, le_rfl⟩
          simp [takeToks, hPass]
      | true =>
          have hKind : u.kind ≠ .eof := by
            intro hEof
            rw [hStop u hEof] at hPass
            cases hPass
          rcases ih (hEnded.tail hKind) with
            ⟨taken, after, hTake, hAfter, hLess⟩
          refine ⟨u :: taken, after, ?_, hAfter, ?_⟩
          · simp [takeToks, hPass, hTake]
          · rw [List.length_cons]
            omega

theorem takeWords_ended
    (line : Nat)
    (hEnded : Ended toks) :
    ∃ words after, takeWords line toks = .ok (words, after) ∧
      Ended after ∧ after.length ≤ toks.length :=
  takeToks_ended
    (fun u hKind => by simp [Token.isText, hKind]) hEnded

theorem restOfLine_ended
    (line : Nat)
    (hEnded : Ended toks) :
    ∃ parts after, restOfLine line toks = .ok (parts, after) ∧
      Ended after ∧ after.length ≤ toks.length :=
  takeToks_ended
    (fun u hKind => by
      simp [Token.isValue, Token.isText, hKind]) hEnded

theorem operand_ended
    (hEnded : Ended toks) :
    ∃ parts after, operand toks = .ok (parts, after) ∧
      Ended after ∧ after.length ≤ toks.length :=
  takeToks_ended (fun u hKind => by simp [hKind]) hEnded

/- The last token may be read, but then the call fails. -/
theorem expect_halts
    {kind : TokKind}
    (what : Text)
    (hKind : kind ≠ .eof)
    (hEnded : Ended toks) :
    Halts Prod.snd toks.length (expect kind what toks) := by
  cases toks with
  | nil => exact hEnded.elim
  | cons u rest =>
      by_cases hSame : u.kind = kind
      · simp only [expect, if_pos hSame]
        have hOther : u.kind ≠ .eof := by rwa [hSame]
        exact ⟨hEnded.tail hOther, Nat.lt_succ_self _⟩
      · simp only [expect, if_neg hSame]
        exact ⟨by simp, by simp⟩

theorem parseCond_halts
    (hEnded : Ended toks) :
    Halts (fun r => r.2.2) toks.length (parseCond toks) := by
  unfold parseCond
  apply (expect_halts _ (by decide) hEnded).bind
  rintro ⟨_, toks₁⟩ hEnded₁ hLess₁
  apply (expect_halts _ (by decide) hEnded₁).bind
  rintro ⟨attr, toks₂⟩ hEnded₂ hLess₂
  apply (expect_halts _ (by decide) hEnded₂).bind
  rintro ⟨op, toks₃⟩ hEnded₃ hLess₃
  dsimp only at *
  rcases operand_ended hEnded₃ with
    ⟨parts, toks₄, hOperand, hEnded₄, hLess₄⟩
  rw [hOperand]
  apply (expect_halts _ (by decide) hEnded₄).bind
  rintro ⟨rp, toks₅⟩ hEnded₅ hLess₅
  refine ⟨hEnded₅, ?_⟩
  dsimp only at *
  omega

end Tacconfig

end Soteria

------------------------------------------------------------
-- The Functions of the Parser
------------------------------------------------------------

namespace Soteria

namespace Tacconfig

/-
  What the functions do with a bound on the depth of their
  calls: a list of tokens is its own bound.
-/
def StmtsHalt (fuel : Nat) : Prop :=
  ∀ untilRBrace toks, Ended toks → toks.length < fuel →
    Halts (fun r => r.2.2) (toks.length + 1)
      (parseStmts fuel untilRBrace toks)

def StmtHalt (fuel : Nat) : Prop :=
  ∀ toks, Ended toks → toks.length ≤ fuel →
    Halts Prod.snd toks.length (parseStmt fuel toks)

def IfHalt (fuel : Nat) : Prop :=
  ∀ line toks, Ended toks → toks.length ≤ fuel →
    Halts Prod.snd toks.length (parseIf fuel line toks)

def ElseHalt (fuel : Nat) : Prop :=
  ∀ endLine toks, Ended toks → toks.length ≤ fuel →
    Halts (fun r => r.2.2) (toks.length + 1)
      (parseElse fuel endLine toks)

variable {fuel : Nat}
variable {toks : List Token}

theorem Ended.length_pos
    (hEnded : Ended toks) :
    0 < toks.length := by
  cases toks with
  | nil => exact hEnded.elim
  | cons t rest => exact Nat.succ_pos _

theorem stmtsHalt_succ
    (hStmt : StmtHalt fuel)
    (hStmts : StmtsHalt fuel) :
    StmtsHalt (fuel + 1) := by
  intro untilRBrace toks hEnded hLess
  cases toks with
  | nil => exact hEnded.elim
  | cons t rest =>
      rw [List.length_cons] at hLess
      cases hKind : t.kind with
      | eof =>
          cases untilRBrace with
          | true =>
              simp only [parseStmts, hKind, if_true]
              exact ⟨by simp, by simp⟩
          | false =>
              simp only [parseStmts, hKind, Bool.false_eq_true,
                if_false]
              exact ⟨hEnded, Nat.lt_succ_self _⟩
      | rbrace =>
          have hOther : t.kind ≠ .eof := by
            rw [hKind]
            decide
          cases untilRBrace with
          | true =>
              simp only [parseStmts, hKind, if_true]
              refine ⟨hEnded.tail hOther, ?_⟩
              dsimp only [List.length_cons]
              omega
          | false =>
              simp only [parseStmts, hKind, Bool.false_eq_true,
                if_false]
              exact ⟨by simp, by simp⟩
      | _ =>
          simp only [parseStmts, hKind]
          have hFirst :=
            hStmt (t :: rest) hEnded (by
              rw [List.length_cons]
              omega)
          cases hNode : parseStmt fuel (t :: rest) with
          | error error =>
              rw [hNode] at hFirst
              exact hFirst
          | ok result =>
              rcases result with ⟨node, after⟩
              rw [hNode] at hFirst
              rcases hFirst with ⟨hAfter, hShorter⟩
              dsimp only [List.length_cons] at hAfter hShorter ⊢
              have hOthers :=
                hStmts untilRBrace after hAfter (by omega)
              cases hNodes : parseStmts fuel untilRBrace after with
              | error error =>
                  rw [hNodes] at hOthers
                  exact hOthers
              | ok result =>
                  rcases result with ⟨nodes, line, left⟩
                  rw [hNodes] at hOthers
                  rcases hOthers with ⟨hLast, hLeft⟩
                  refine ⟨hLast, ?_⟩
                  dsimp only at hLeft ⊢
                  omega

theorem stmtHalt_succ
    (hIf : IfHalt fuel)
    (hStmts : StmtsHalt fuel) :
    StmtHalt (fuel + 1) := by
  intro toks hEnded hLess
  cases toks with
  | nil => exact hEnded.elim
  | cons t rest =>
      rw [List.length_cons] at hLess
      cases hText : t.isText with
      | false =>
          simp only [parseStmt, hText, Bool.not_false, if_true]
          exact ⟨by simp, by simp⟩
      | true =>
          have hOther : t.kind ≠ .eof := by
            intro hEof
            simp [Token.isText, hEof] at hText
          have hRest := hEnded.tail hOther
          simp only [parseStmt, hText, Bool.not_true,
            Bool.false_eq_true, if_false]
          by_cases hWord : t.text = "if"
          · rw [if_pos hWord]
            exact (hIf t.line rest hRest (by omega)).mono
              (by simp)
          · rw [if_neg hWord]
            rcases takeWords_ended t.line hRest with
              ⟨words, after, hWords, hAfter, hShorter⟩
            rw [hWords]
            cases after with
            | nil => exact hAfter.elim
            | cons next after =>
                rw [List.length_cons] at hShorter
                cases hKind : next.kind with
                | equals =>
                    have hNext := hAfter.tail (by simp [hKind])
                    rcases restOfLine_ended next.line hNext with
                      ⟨parts, left, hValue, hLeft, hLeftLess⟩
                    simp only [hKind, hValue]
                    refine ⟨hLeft, ?_⟩
                    dsimp only [List.length_cons]
                    omega
                | lbrace =>
                    have hNext := hAfter.tail (by simp [hKind])
                    have hBody := hStmts true after hNext
                      (by omega)
                    simp only [hKind]
                    cases hNodes : parseStmts fuel true after with
                    | error error =>
                        rw [hNodes] at hBody
                        exact hBody
                    | ok result =>
                        rcases result with ⟨nodes, line, left⟩
                        rw [hNodes] at hBody
                        rcases hBody with ⟨hLeft, hLeftLess⟩
                        refine ⟨hLeft, ?_⟩
                        dsimp only [List.length_cons] at *
                        omega
                | _ =>
                    simp only [hKind]
                    refine ⟨hAfter, ?_⟩
                    dsimp only [List.length_cons]
                    omega

theorem ifHalt_succ
    (hStmts : StmtsHalt fuel)
    (hElse : ElseHalt fuel) :
    IfHalt (fuel + 1) := by
  intro line toks hEnded hLess
  have hCond := parseCond_halts hEnded
  cases hRead : parseCond toks with
  | error error =>
      rw [hRead] at hCond
      simp only [parseIf, hRead]
      exact hCond
  | ok result =>
      rcases result with ⟨cond, rpLine, after⟩
      rw [hRead] at hCond
      rcases hCond with ⟨hAfter, hShorter⟩
      dsimp only at hAfter hShorter
      cases after with
      | nil => exact hAfter.elim
      | cons next rest =>
          simp only [parseIf, hRead]
          rw [List.length_cons] at hShorter
          by_cases hKind : next.kind = .lbrace
          · rw [if_pos hKind]
            have hNext := hAfter.tail (by simp [hKind])
            have hBody := hStmts true rest hNext (by omega)
            cases hNodes : parseStmts fuel true rest with
            | error error =>
                rw [hNodes] at hBody
                exact hBody
            | ok result =>
                rcases result with ⟨nodes, endLine, left⟩
                rw [hNodes] at hBody
                rcases hBody with ⟨hLeft, hLeftLess⟩
                dsimp only at hLeft hLeftLess ⊢
                have hOthers :=
                  hElse endLine left hLeft (by omega)
                cases hElsePart : parseElse fuel endLine left with
                | error error =>
                    rw [hElsePart] at hOthers
                    exact hOthers
                | ok result =>
                    rcases result with ⟨nodes', line', left'⟩
                    rw [hElsePart] at hOthers
                    rcases hOthers with ⟨hLast, hLastLess⟩
                    refine ⟨hLast, ?_⟩
                    dsimp only at *
                    omega
          · rw [if_neg hKind]
            rcases restOfLine_ended rpLine hAfter with
              ⟨parts, left, hValue, hLeft, hLeftLess⟩
            rw [hValue]
            rw [List.length_cons] at hLeftLess
            refine ⟨hLeft, ?_⟩
            dsimp only
            omega

theorem elseHalt_succ
    (hStmts : StmtsHalt fuel) :
    ElseHalt (fuel + 1) := by
  intro endLine toks hEnded hLess
  cases toks with
  | nil => exact hEnded.elim
  | cons t rest =>
      rw [List.length_cons] at hLess
      by_cases hWord : t.kind = .word ∧ t.text = "else"
      · have hRest := hEnded.tail (by simp [hWord.1])
        cases rest with
        | nil => exact hRest.elim
        | cons next body =>
            rw [List.length_cons] at hLess
            simp only [parseElse, if_pos hWord]
            by_cases hKind : next.kind = .lbrace
            · rw [if_pos hKind]
              have hNext := hRest.tail (by simp [hKind])
              exact (hStmts true body hNext (by omega)).mono
                (by simp)
            · rw [if_neg hKind]
              rcases restOfLine_ended t.line hRest with
                ⟨parts, left, hValue, hLeft, hLeftLess⟩
              rw [hValue]
              refine ⟨hLeft, ?_⟩
              dsimp only [List.length_cons] at *
              omega
      · simp only [parseElse, if_neg hWord]
        exact ⟨hEnded, Nat.lt_succ_self _⟩

/- No function needs more depth than there are tokens. -/
theorem parser_halts (fuel : Nat) :
    StmtsHalt fuel ∧ StmtHalt fuel ∧ IfHalt fuel ∧
      ElseHalt fuel := by
  induction fuel with
  | zero =>
      refine ⟨?_, ?_, ?_, ?_⟩
      · intro _ _ _ hLess
        omega
      · intro _ hEnded hLess
        have hPositive := hEnded.length_pos
        omega
      · intro _ _ hEnded hLess
        have hPositive := hEnded.length_pos
        omega
      · intro _ _ hEnded hLess
        have hPositive := hEnded.length_pos
        omega
  | succ fuel ih =>
      rcases ih with ⟨hStmts, hStmt, hIf, hElse⟩
      exact ⟨stmtsHalt_succ hStmt hStmts,
        stmtHalt_succ hIf hStmts, ifHalt_succ hStmts hElse,
        elseHalt_succ hStmts⟩

theorem parseTokens_halts
    (hEnded : Ended toks) :
    (∃ nodes, parseTokens toks = .ok nodes) ∨
      ∃ error, parseTokens toks = .error error ∧
        error ≠ .outOfRange ∧ error ≠ .outOfFuel := by
  have hHalts :=
    (parser_halts (toks.length + 1)).1 false toks hEnded
      (Nat.lt_succ_self _)
  unfold parseTokens
  cases hStmts : parseStmts (toks.length + 1) false toks with
  | ok result => exact Or.inl ⟨result.1, rfl⟩
  | error error =>
      rw [hStmts] at hHalts
      exact Or.inr ⟨error, rfl, hHalts⟩

/-
  On every source the loop of the lexer runs to its end and
  leaves a list of tokens with one end-of-file token, the
  last one; and the parser, whose bound is no limit to its
  calls, comes back with nodes or an error of the syntax and
  has read no position behind the last token.
-/
theorem parsing_total (src : Text) :
    (∀ lexed, Rounds 1 src lexed ↔ lexed = lex src) ∧
      (∃ body line,
        (lex src).tokens = body ++ [⟨.eof, "", line⟩] ∧
          ∀ t ∈ body, t.kind ≠ .eof) ∧
        ((∃ nodes,
            parse src = .ok (nodes, (lex src).comments)) ∨
          ∃ error, parse src = .error error ∧
            error ≠ .outOfRange ∧ error ≠ .outOfFuel) := by
  have hTokens := lexAt_tokens 1 src
  refine ⟨fun lexed => rounds_iff, hTokens, ?_⟩
  rcases hTokens with ⟨body, line, hEnd, hBody⟩
  have hEnded : Ended (lex src).tokens := by
    unfold lex
    rw [hEnd]
    exact ended_append hBody rfl
  unfold parse
  rcases parseTokens_halts hEnded with
    ⟨nodes, hOk⟩ | ⟨error, hError, hKind⟩
  · rw [hOk]
    exact Or.inl ⟨nodes, rfl⟩
  · rw [hError]
    exact Or.inr ⟨error, rfl, hKind⟩

end Tacconfig

end Soteria
