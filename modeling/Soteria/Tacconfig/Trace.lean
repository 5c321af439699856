import Mathlib.Data.List.Forall2
import Soteria.Tacconfig.Written

/-
  The conditions of a source as they are written.

  The trace of a source keeps, with every token, the text
  behind it, so that the text between two tokens can be
  told. The conditions in the tree of a source that parses
  are those in its trace, one by one and in order.

  Key definitions include:
    * `lexTrace`, `lexTrace_behind`
    * `WrittenCond`, `scanConds`, `writtenConds`
    * `condsOf`, `Cond.From`
    * `Scans`, `Parses.scans`
    * `parse_conds`
-/

------------------------------------------------------------
-- Traces
------------------------------------------------------------

namespace Soteria

namespace Tacconfig

/- The tokens of a source, each with the text behind it. -/
def lexTrace : Nat → Nat → Text → List (Token × Text)
| 0, line, _ => [(⟨.eof, "", line⟩, [])]
| _ + 1, line, [] => [(⟨.eof, "", line⟩, [])]
| fuel + 1, line, c :: rest =>
    match (lexStep line c rest).1 with
    | .token t =>
        (t, (lexStep line c rest).2.2) ::
          lexTrace fuel (lexStep line c rest).2.1
            (lexStep line c rest).2.2
    | _ =>
        lexTrace fuel (lexStep line c rest).2.1
          (lexStep line c rest).2.2

theorem lexTrace_tokens
    (fuel line : Nat)
    (src : Text) :
    (lexTrace fuel line src).map Prod.fst =
      (lexFrom fuel line src).tokens := by
  induction fuel generalizing line src with
  | zero => rfl
  | succ fuel ih =>
      cases src with
      | nil => rfl
      | cons c rest =>
          rw [lexTrace, lexFrom]
          cases (lexStep line c rest).1 with
          | blank => exact ih _ _
          | comment comment => exact ih _ _
          | token t =>
              simp only [List.map_cons, Lexed.add_token_tokens,
                ih]

/- What comes after a token is the trace of the text behind. -/
theorem lexTrace_behind
    {fuel line : Nat}
    {src s : Text}
    {t : Token}
    {more : List (Token × Text)}
    (hFuel : src.length ≤ fuel)
    (hSuffix : (t, s) :: more <:+ lexTrace fuel line src)
    (hEof : t.kind ≠ .eof) :
    ∃ fuel' line',
      s.length ≤ fuel' ∧ more = lexTrace fuel' line' s := by
  induction fuel generalizing line src with
  | zero =>
      rcases List.suffix_cons_iff.mp hSuffix with hEq | hNil
      · cases hEq
        exact (hEof rfl).elim
      · simp at hNil
  | succ fuel ih =>
      cases src with
      | nil =>
          rcases List.suffix_cons_iff.mp hSuffix with hEq | hNil
          · cases hEq
            exact (hEof rfl).elim
          · simp at hNil
      | cons c rest =>
          have hShorter :=
            (lexStep_suffix line c rest).length_le
          simp only [List.length_cons] at hFuel
          have hLess :
              (lexStep line c rest).2.2.length ≤ fuel := by
            omega
          rw [lexTrace] at hSuffix
          cases hPiece : (lexStep line c rest).1 with
          | blank =>
              rw [hPiece] at hSuffix
              exact ih hLess hSuffix
          | comment comment =>
              rw [hPiece] at hSuffix
              exact ih hLess hSuffix
          | token u =>
              rw [hPiece] at hSuffix
              rcases List.suffix_cons_iff.mp hSuffix with
                hEq | hLater
              · rcases List.cons.inj hEq with ⟨hHead, hTail⟩
                cases hHead
                exact ⟨fuel, _, hLess, hTail⟩
              · exact ih hLess hLater

/- A closing parenthesis stands right before its text. -/
theorem lexTrace_rparen
    {fuel line : Nat}
    {src after : Text}
    {t : Token}
    {lead more : List (Token × Text)}
    (hTrace :
      lexTrace fuel line src = lead ++ (t, after) :: more)
    (hKind : t.kind = .rparen) :
    ∃ raw, src = raw ++ ')' :: after := by
  induction fuel generalizing line src lead with
  | zero =>
      rw [lexTrace] at hTrace
      rcases lead with _ | ⟨u, lead⟩
      · cases hTrace
        cases hKind
      · simp at hTrace
  | succ fuel ih =>
      cases src with
      | nil =>
          rw [lexTrace] at hTrace
          rcases lead with _ | ⟨u, lead⟩
          · cases hTrace
            cases hKind
          · simp at hTrace
      | cons c rest =>
          have hWider :
              ∀ raw,
                (lexStep line c rest).2.2 =
                    raw ++ ')' :: after →
                  ∃ raw, c :: rest = raw ++ ')' :: after := by
            intro raw hRaw
            rcases lexStep_suffix line c rest with
              ⟨skipped, hSkipped⟩
            refine ⟨c :: skipped ++ raw, ?_⟩
            rw [← hSkipped, hRaw]
            simp
          rw [lexTrace] at hTrace
          cases hPiece : (lexStep line c rest).1 with
          | blank =>
              rw [hPiece] at hTrace
              rcases ih hTrace with ⟨raw, hRaw⟩
              exact hWider raw hRaw
          | comment comment =>
              rw [hPiece] at hTrace
              rcases ih hTrace with ⟨raw, hRaw⟩
              exact hWider raw hRaw
          | token u =>
              rw [hPiece] at hTrace
              rcases lead with _ | ⟨v, lead⟩
              · rcases List.cons.inj hTrace with ⟨hHead, _⟩
                have hStep := lexStep_cases line c rest
                generalize lexStep line c rest = step
                  at hStep hPiece hHead
                cases hStep with
                | rparen hc =>
                    cases hHead
                    exact ⟨[], by rw [hc]; rfl⟩
                | _ =>
                    cases hPiece
                    try cases hHead
                    try cases hKind
              · rcases List.cons.inj hTrace with ⟨_, hTail⟩
                rcases ih hTail with ⟨raw, hRaw⟩
                exact hWider raw hRaw

end Tacconfig

end Soteria

------------------------------------------------------------
-- Written Conditions
------------------------------------------------------------

namespace Soteria

namespace Tacconfig

/- A condition as the source has it. -/
structure WrittenCond where
  attr : Text
  op : Text
  operand : Text
deriving DecidableEq

/- The characters the lexer skips between tokens. -/
def skipped (c : Char) : Bool :=
  c == ' ' || c == '\t' || c == '\r' || c == '\n'

def trimSkipped (s : Text) : Text :=
  (s.dropWhile skipped).rdropWhile skipped

/-
  The text between the operator and the parenthesis that
  closes the condition, from the texts behind both.
-/
def operandText (s after : Text) : Text :=
  trimSkipped (s.take (s.length - after.length - 1))

/-
  The conditions in a trace. After an opening parenthesis
  come the attribute and the operator, and the operand ends
  at the next closing parenthesis.
-/
def scanConds :
    Option (Text × Text × Text) → List (Token × Text) →
      List WrittenCond
| _, [] => []
| none, (lp, _) :: (attr, b) :: (op, s) :: rest =>
    if lp.kind = .lparen then
      scanConds (some (attr.text, op.text, s)) rest
    else scanConds none ((attr, b) :: (op, s) :: rest)
| none, _ :: rest => scanConds none rest
| some (attr, op, s), (t, after) :: rest =>
    if t.kind = .rparen then
      ⟨attr, op, operandText s after⟩ :: scanConds none rest
    else scanConds (some (attr, op, s)) rest

/- The conditions of a source, in order. -/
def writtenConds (src : Text) : List WrittenCond :=
  scanConds none (lexTrace src.length 1 src)

theorem scanConds_skip
    {t : Token}
    (hKind : t.kind ≠ .lparen)
    (s : Text)
    (rest : List (Token × Text)) :
    scanConds none ((t, s) :: rest) = scanConds none rest := by
  match rest with
  | [] => rfl
  | [_] => rfl
  | _ :: _ :: _ => simp only [scanConds, if_neg hKind]

theorem scanConds_skips
    {lead : List (Token × Text)}
    (hKind : ∀ p ∈ lead, p.1.kind ≠ .lparen)
    (rest : List (Token × Text)) :
    scanConds none (lead ++ rest) = scanConds none rest := by
  induction lead with
  | nil => rfl
  | cons p lead ih =>
      have hRest :=
        ih fun q hq => hKind q (List.mem_cons_of_mem _ hq)
      have hHead := hKind p (List.mem_cons_self ..)
      rw [List.cons_append, ← hRest]
      exact scanConds_skip hHead p.2 _

theorem scanConds_operand
    {attr op s : Text}
    {parts : List (Token × Text)}
    {rp : Token}
    (hParts : ∀ p ∈ parts, p.1.kind ≠ .rparen)
    (hRp : rp.kind = .rparen)
    (after : Text)
    (rest : List (Token × Text)) :
    scanConds (some (attr, op, s))
        (parts ++ (rp, after) :: rest) =
      ⟨attr, op, operandText s after⟩ ::
        scanConds none rest := by
  induction parts with
  | nil => simp only [List.nil_append, scanConds, if_pos hRp]
  | cons p parts ih =>
      have hRest :=
        ih fun q hq => hParts q (List.mem_cons_of_mem _ hq)
      have hHead := hParts p (List.mem_cons_self ..)
      rw [List.cons_append, scanConds, if_neg hHead, hRest]

end Tacconfig

end Soteria

------------------------------------------------------------
-- Conditions of the Tree
------------------------------------------------------------

namespace Soteria

namespace Tacconfig

mutual

/- The conditions in a node, in the order of the source. -/
def Node.conds : Node → List Cond
| .block _ _ children _ _ => condsOf children
| .ifNode cond children elseNodes _ _ _ =>
    cond :: (condsOf children ++ condsOf elseNodes)
| _ => []

def condsOf : List Node → List Cond
| [] => []
| n :: rest => n.conds ++ condsOf rest

end

/-
  What lexing the text behind an operator yields: the tokens
  of the operand, and those of what comes after the
  parenthesis.
-/
structure OperandTokens
    (raw after : Text)
    (parts : List Token) : Prop where
  plain : ∀ t ∈ parts, t.kind ≠ .rparen ∧ t.kind ≠ .eof
  tokens : ∃ line rp more,
    rp.kind = .rparen ∧
      (lexAt line (raw ++ ')' :: after)).tokens =
        parts ++ rp :: more

/- The condition was read from the written one. -/
structure Cond.From (c : Cond) (w : WrittenCond) : Prop where
  attr : c.attr = w.attr
  op : c.op = w.op
  words : WordText c.attr ∧ WordText c.op
  operand : ∃ raw after parts,
    w.operand = trimSkipped raw ∧
      OperandTokens raw after parts ∧
        c.value = Text.join (parts.map Token.text) " " ∧
          c.quoted = parts.any fun t => t.kind == .string

/- What is left of a trace of a source. -/
def Behind (tr : List (Token × Text)) : Prop :=
  ∃ fuel line src,
    src.length ≤ fuel ∧ tr <:+ lexTrace fuel line src

theorem Behind.suffix
    {tr rest : List (Token × Text)}
    (hBehind : Behind tr)
    (hSuffix : rest <:+ tr) :
    Behind rest := by
  rcases hBehind with ⟨fuel, line, src, hFuel, hTrace⟩
  exact ⟨fuel, line, src, hFuel, hSuffix.trans hTrace⟩

theorem Behind.sound
    {tr : List (Token × Text)}
    (hBehind : Behind tr) :
    Sound (tr.map Prod.fst) := by
  rcases hBehind with ⟨fuel, line, src, _, hTrace⟩
  have hAll := lexFrom_sound fuel line src
  rw [← lexTrace_tokens] at hAll
  exact hAll.suffix (hTrace.map Prod.fst)

/- The text behind a token lexes to the tokens after it. -/
theorem Behind.lexAt
    {t : Token}
    {s : Text}
    {more : List (Token × Text)}
    (hBehind : Behind ((t, s) :: more))
    (hEof : t.kind ≠ .eof) :
    ∃ fuel line,
      s.length ≤ fuel ∧ more = lexTrace fuel line s ∧
        (lexAt line s).tokens = more.map Prod.fst := by
  rcases hBehind with ⟨fuel, line, src, hFuel, hTrace⟩
  rcases lexTrace_behind hFuel hTrace hEof with
    ⟨fuel', line', hEnough, hMore⟩
  refine ⟨fuel', line', hEnough, hMore, ?_⟩
  rw [hMore, lexTrace_tokens, Tacconfig.lexAt,
    lexFrom_fuel line' le_rfl hEnough]

end Tacconfig

end Soteria

------------------------------------------------------------
-- Scanning What the Parser Reads
------------------------------------------------------------

namespace Soteria

namespace Tacconfig

/-
  Scanning the trace up to the given tokens finds where the
  conditions were read from.
-/
def Scans
    (tr : List (Token × Text))
    (conds : List Cond)
    (after : List Token) : Prop :=
  ∃ written rest,
    rest <:+ tr ∧ rest.map Prod.fst = after ∧
      scanConds none tr = written ++ scanConds none rest ∧
        List.Forall₂ Cond.From conds written

/- Tokens that open no parenthesis are passed over. -/
theorem Scans.skip
    {tr : List (Token × Text)}
    (taken : List Token)
    {after : List Token}
    (hTrace : tr.map Prod.fst = taken ++ after)
    (hTaken : ∀ t ∈ taken, t.kind ≠ .lparen) :
    Scans tr [] after := by
  rcases List.map_eq_append_iff.mp hTrace with
    ⟨lead, rest, rfl, hLead, hRest⟩
  have hSkip : ∀ p ∈ lead, p.1.kind ≠ .lparen := by
    intro p hp
    apply hTaken
    rw [← hLead]
    exact List.mem_map_of_mem hp
  exact ⟨[], rest, List.suffix_append .., hRest,
    scanConds_skips hSkip rest, .nil⟩

theorem Scans.append
    {tr : List (Token × Text)}
    {conds more : List Cond}
    {mid after : List Token}
    (hFirst : Scans tr conds mid)
    (hSecond : ∀ rest, rest <:+ tr →
      rest.map Prod.fst = mid → Scans rest more after) :
    Scans tr (conds ++ more) after := by
  rcases hFirst with ⟨ws, rest, hSuffix, hMid, hScan, hFrom⟩
  rcases hSecond rest hSuffix hMid with
    ⟨others, left, hLeft, hAfter, hOthers, hRest⟩
  refine ⟨ws ++ others, left, hLeft.trans hSuffix, hAfter, ?_,
    List.rel_append hFrom hRest⟩
  rw [hScan, hOthers, List.append_assoc]

/- The trace of the tokens of a condition. -/
theorem trace_of_cond
    {tr : List (Token × Text)}
    {lp attr op rp : Token}
    {parts after : List Token}
    (hTrace :
      tr.map Prod.fst =
        lp :: attr :: op :: (parts ++ rp :: after)) :
    ∃ a b s z lead rest,
      tr =
          (lp, a) :: (attr, b) :: (op, s) ::
            (lead ++ (rp, z) :: rest) ∧
        lead.map Prod.fst = parts ∧
          rest.map Prod.fst = after := by
  rcases List.map_eq_cons_iff.mp hTrace with
    ⟨⟨_, a⟩, tr₁, rfl, rfl, hAttr⟩
  rcases List.map_eq_cons_iff.mp hAttr with
    ⟨⟨_, b⟩, tr₂, rfl, rfl, hOp⟩
  rcases List.map_eq_cons_iff.mp hOp with
    ⟨⟨_, s⟩, tr₃, rfl, rfl, hParts⟩
  rcases List.map_eq_append_iff.mp hParts with
    ⟨lead, tr₄, rfl, hLead, hRp⟩
  rcases List.map_eq_cons_iff.mp hRp with
    ⟨⟨_, z⟩, rest, rfl, rfl, hRest⟩
  exact ⟨a, b, s, z, lead, rest, rfl, hLead, hRest⟩

/- The condition of an `if`. -/
theorem Scans.cond
    {tr : List (Token × Text)}
    {toks after : List Token}
    {cond : Cond}
    {rpLine : Nat}
    (hBehind : Behind tr)
    (hTrace : tr.map Prod.fst = toks)
    (hCond : parseCond toks = .ok (cond, rpLine, after)) :
    Scans tr [cond] after := by
  have hSound := hBehind.sound
  rw [hTrace] at hSound
  have hWords := parseCond_written hCond hSound
  rcases parseCond_ok_iff.mp hCond with
    ⟨lp, attr, op, parts, rp, hToks, hLp, _, hOp, hRp, _,
      hParts, rfl⟩
  rcases trace_of_cond (hTrace.trans hToks) with
    ⟨a, b, s, z, lead, rest, rfl, hLead, hRest⟩
  have hOpEof : op.kind ≠ .eof := by simp [hOp]
  have hBehindOp :
      Behind ((op, s) :: (lead ++ (rp, z) :: rest)) :=
    hBehind.suffix ⟨[(lp, a), (attr, b)], rfl⟩
  rcases hBehindOp.lexAt hOpEof with
    ⟨fuel, line, _, hMore, hTokens⟩
  rcases lexTrace_rparen hMore.symm hRp with ⟨raw, rfl⟩
  have hNoRparen : ∀ p ∈ lead, p.1.kind ≠ .rparen := by
    intro p hp
    have hMem : p.1 ∈ parts := by
      rw [← hLead]
      exact List.mem_map_of_mem hp
    exact (hParts _ hMem).1
  have hOperand :
      operandText (raw ++ ')' :: z) z = trimSkipped raw := by
    have hLength :
        (raw ++ ')' :: z).length - z.length - 1 =
          raw.length := by
      simp only [List.length_append, List.length_cons]
      omega
    rw [operandText, hLength, List.take_left]
  refine ⟨[⟨attr.text, op.text, trimSkipped raw⟩], rest, ?_,
    hRest, ?_, .cons ?_ .nil⟩
  · exact ⟨(lp, a) :: (attr, b) :: (op, raw ++ ')' :: z) ::
      (lead ++ [(rp, z)]), by simp⟩
  · rw [scanConds, if_pos hLp, scanConds_operand hNoRparen hRp,
      hOperand]
    rfl
  · refine ⟨rfl, rfl, hWords, raw, z, parts, rfl,
      ⟨hParts, line, rp, rest.map Prod.fst, hRp, ?_⟩, rfl, rfl⟩
    rw [hTokens, List.map_append, hLead]
    rfl

theorem not_lparen_of_text
    {t : Token}
    (hText : t.isText = true) :
    t.kind ≠ .lparen := by
  intro hKind
  rw [Token.isText, hKind] at hText
  cases hText

theorem not_lparen_of_value
    {t : Token}
    (hValue : t.isValue = true) :
    t.kind ≠ .lparen := by
  intro hKind
  rw [Token.isValue, Token.isText, hKind] at hValue
  cases hValue

theorem takeWords_cases
    {line : Nat}
    {toks words after : List Token}
    (hWords : takeWords line toks = .ok (words, after)) :
    toks = words ++ after ∧ ∀ t ∈ words, t.kind ≠ .lparen := by
  rcases takeToks_ok_iff.mp hWords with ⟨hToks, hAll, _⟩
  refine ⟨hToks, fun t ht => ?_⟩
  have hPass := hAll t ht
  simp only [Bool.and_eq_true] at hPass
  exact not_lparen_of_text hPass.1

theorem restOfLine_cases
    {line : Nat}
    {toks parts after : List Token}
    (hLine : restOfLine line toks = .ok (parts, after)) :
    toks = parts ++ after ∧ ∀ t ∈ parts, t.kind ≠ .lparen := by
  rcases takeToks_ok_iff.mp hLine with ⟨hToks, hAll, _⟩
  refine ⟨hToks, fun t ht => ?_⟩
  have hPass := hAll t ht
  simp only [Bool.and_eq_true] at hPass
  exact not_lparen_of_value hPass.2

def Form.toks : Form → List Token
| .stmts _ toks _ _ _ => toks
| .stmt toks _ _ => toks
| .ifPart _ toks _ _ => toks
| .elsePart _ toks _ _ _ => toks

def Form.after : Form → List Token
| .stmts _ _ _ _ after => after
| .stmt _ _ after => after
| .ifPart _ _ _ after => after
| .elsePart _ _ _ _ after => after

def Form.conds : Form → List Cond
| .stmts _ _ nodes _ _ => condsOf nodes
| .stmt _ node _ => node.conds
| .ifPart _ _ node _ => node.conds
| .elsePart _ _ nodes _ _ => condsOf nodes

/-
  Each call scans to the conditions of its nodes, in front of
  what it leaves.
-/
theorem Parses.scans
    {form : Form}
    (hParses : Parses form)
    {tr : List (Token × Text)}
    (hBehind : Behind tr)
    (hTrace : tr.map Prod.fst = form.toks) :
    Scans tr form.conds form.after := by
  induction hParses generalizing tr with
  | eof => exact Scans.skip [] hTrace (by simp)
  | @rbrace t rest hKind =>
      exact Scans.skip [t] hTrace (by simp [hKind])
  | cons _ _ _ _ ihStmt ihRest =>
      exact (ihStmt hBehind hTrace).append
        fun rest hSuffix => ihRest (hBehind.suffix hSuffix)
  | @ifStmt t rest after _ hText _ _ ih =>
      have hHead : ∀ u ∈ [t], u.kind ≠ .lparen := by
        simpa using not_lparen_of_text hText
      exact (Scans.skip _ hTrace hHead).append
        fun rest hSuffix => ih (hBehind.suffix hSuffix)
  | @assign t next rest words parts after after' hText _ hWords
      hKind hValue =>
      rcases takeWords_cases hWords with ⟨rfl, hName⟩
      rcases restOfLine_cases hValue with ⟨rfl, hParts⟩
      refine Scans.skip (t :: (words ++ next :: parts)) ?_ ?_
      · rw [hTrace]
        simp [Form.toks, Form.after]
      · intro u hu
        simp only [List.mem_cons, List.mem_append] at hu
        rcases hu with rfl | hu | rfl | hu
        · exact not_lparen_of_text hText
        · exact hName u hu
        · simp [hKind]
        · exact hParts u hu
  | @block t next rest words after _ _ _ hText _ hWords hKind _
      ih =>
      rcases takeWords_cases hWords with ⟨rfl, hName⟩
      have hHead :
          ∀ u ∈ t :: (words ++ [next]), u.kind ≠ .lparen := by
        intro u hu
        simp only [List.mem_cons, List.mem_append,
          List.not_mem_nil, or_false] at hu
        rcases hu with rfl | hu | rfl
        · exact not_lparen_of_text hText
        · exact hName u hu
        · simp [hKind]
      have hToks :
          tr.map Prod.fst = t :: (words ++ [next]) ++ after := by
        rw [hTrace]
        simp [Form.toks]
      exact (Scans.skip _ hToks hHead).append
        fun rest hSuffix => ih (hBehind.suffix hSuffix)
  | @action t next rest words after hText _ hWords =>
      rcases takeWords_cases hWords with ⟨rfl, hName⟩
      refine Scans.skip (t :: words) hTrace ?_
      intro u hu
      rcases List.mem_cons.mp hu with rfl | hu
      · exact not_lparen_of_text hText
      · exact hName u hu
  | @braced _ _ _ _ _ next _ rest after after' children elseNodes
      hCond hKind _ _ ihBody ihElse =>
      have hBrace : ∀ u ∈ [next], u.kind ≠ .lparen := by
        simp [hKind]
      refine (Scans.cond hBehind hTrace hCond).append ?_
      intro tr₁ hSuffix₁ hTrace₁
      have hBehind₁ := hBehind.suffix hSuffix₁
      refine (Scans.skip [next] hTrace₁ hBrace).append ?_
      intro tr₂ hSuffix₂ hTrace₂
      have hBehind₂ := hBehind₁.suffix hSuffix₂
      refine (ihBody hBehind₂ hTrace₂).append ?_
      intro tr₃ hSuffix₃
      exact ihElse (hBehind₂.suffix hSuffix₃)
  | inline hCond _ hLine =>
      rcases restOfLine_cases hLine with ⟨hToks, hParts⟩
      refine (Scans.cond hBehind hTrace hCond).append ?_
      intro rest _ hRest
      exact Scans.skip _ (hRest.trans hToks) hParts
  | @elseBlock _ _ t next body _ _ hElse hKind _ ih =>
      have hHead : ∀ u ∈ [t, next], u.kind ≠ .lparen := by
        simp [hElse.1, hKind]
      exact (Scans.skip _ hTrace hHead).append
        fun rest hSuffix => ih (hBehind.suffix hSuffix)
  | @elseInline _ t next body parts after hElse _ hLine =>
      rcases restOfLine_cases hLine with ⟨hToks, hParts⟩
      refine Scans.skip (t :: parts) ?_ ?_
      · rw [hTrace, Form.toks, hToks]
        rfl
      · intro u hu
        rcases List.mem_cons.mp hu with rfl | hu
        · simp [hElse.1]
        · exact hParts u hu
  | noElse =>
      exact Scans.skip [] hTrace (by simp)

/- The statements of a file leave the end of it. -/
theorem Parses.file_end
    {toks after : List Token}
    {nodes : List Node}
    {line : Nat}
    (hParses : Parses (.stmts false toks nodes line after))
    (hSound : Sound toks) :
    ∃ t, after = [t] := by
  induction nodes generalizing toks with
  | nil =>
      cases hParses with
      | @eof t rest hKind =>
          rcases hSound.1 with hToken | ⟨_, rfl, _⟩ | ⟨hString, _⟩
          · exact absurd hKind hToken.kind_ne_eof
          · exact ⟨t, rfl⟩
          · rw [hKind] at hString
            cases hString
  | cons n rest ih =>
      cases hParses with
      | cons _ _ hStmt hRest =>
          exact ih hRest (hSound.suffix hStmt.suffix.1)

/- The conditions in the tree are those in the source. -/
theorem parse_conds
    {src : Text}
    {nodes : List Node}
    {comments : List Comment}
    (hParse : parse src = .ok (nodes, comments)) :
    List.Forall₂ Cond.From (condsOf nodes)
      (writtenConds src) := by
  rcases parseTokens_ok_iff.mp (parse_ok_iff.mp hParse).1 with
    ⟨line, after, hParses⟩
  have hBehind : Behind (lexTrace src.length 1 src) :=
    ⟨_, _, src, le_rfl, List.suffix_rfl⟩
  have hTokens := lexTrace_tokens src.length 1 src
  rcases hParses.scans hBehind hTokens with
    ⟨written, rest, _, hRest, hScan, hFrom⟩
  rcases hParses.file_end (lex_sound src) with ⟨t, rfl⟩
  rcases List.map_eq_singleton_iff.mp hRest with
    ⟨last, rfl, _⟩
  have hEnd : scanConds none [last] = [] := rfl
  have hAll : writtenConds src = written := by
    rw [writtenConds, hScan, hEnd, List.append_nil]
  rw [hAll]
  exact hFrom

end Tacconfig

end Soteria
