import Soteria.Tacconfig.Parser

/-
  The parser as a relation between tokens and nodes.

  A derivation mirrors the calls of the parser, without the
  bound on their depth: the parser succeeds exactly where
  there is a derivation.

  Key definitions include:
    * `Form`, `Parses`
    * `takeToks_ok_iff`, `parseCond_ok_iff`
    * `parses_of_ok`, `Parses.ok`
    * `parseTokens_ok_iff`
-/

------------------------------------------------------------
-- Reading Tokens
------------------------------------------------------------

namespace Soteria

namespace Tacconfig

/- Peel one step off a computation that succeeds. -/
theorem bind_ok_iff
    {ε α β : Type}
    {x : Except ε α}
    {f : α → Except ε β}
    {b : β} :
    (x >>= f) = .ok b ↔ ∃ a, x = .ok a ∧ f a = .ok b := by
  cases x with
  | error error => simp [bind, Except.bind]
  | ok a => simp [bind, Except.bind]

theorem map_ok_iff
    {ε α β : Type}
    {x : Except ε α}
    {f : α → β}
    {b : β} :
    x.map f = .ok b ↔ ∃ a, x = .ok a ∧ f a = b := by
  cases x with
  | error error => simp [Except.map]
  | ok a => simp [Except.map]

theorem takeToks_ok_iff
    {p : Token → Bool}
    {toks taken after : List Token} :
    takeToks p toks = .ok (taken, after) ↔
      toks = taken ++ after ∧ (∀ t ∈ taken, p t = true) ∧
        ∃ next rest, after = next :: rest ∧
          p next = false := by
  induction toks generalizing taken with
  | nil =>
      constructor
      · intro hTake
        cases hTake
      · rintro ⟨hEq, _, next, rest, rfl, _⟩
        simp at hEq
  | cons t toks ih =>
      unfold takeToks
      by_cases hPass : p t = true
      · rw [if_pos hPass]
        constructor
        · intro hTake
          split at hTake
          · cases hTake
          · rename_i more after' hMore
            cases hTake
            rcases ih.mp hMore with ⟨rfl, hAll, hNext⟩
            refine ⟨rfl, ?_, hNext⟩
            intro u hu
            rcases List.mem_cons.mp hu with rfl | hu
            · exact hPass
            · exact hAll u hu
        · rintro ⟨hEq, hAll, next, rest, rfl, hStop⟩
          cases taken with
          | nil =>
              cases hEq
              rw [hPass] at hStop
              cases hStop
          | cons u more =>
              simp only [List.cons_append, List.cons.injEq] at hEq
              rcases hEq with ⟨rfl, rfl⟩
              have hMore :
                  takeToks p (more ++ next :: rest) =
                    .ok (more, next :: rest) := by
                rw [ih]
                exact ⟨rfl,
                  fun v hv => hAll v (List.mem_cons_of_mem _ hv),
                  next, rest, rfl, hStop⟩
              rw [hMore]
      · rw [if_neg hPass]
        rw [Bool.not_eq_true] at hPass
        constructor
        · intro hTake
          cases hTake
          exact ⟨rfl, by simp, t, toks, rfl, hPass⟩
        · rintro ⟨hEq, hAll, _⟩
          cases taken with
          | nil =>
              cases hEq
              rfl
          | cons u more =>
              cases hEq
              have hHead := hAll t (List.mem_cons_self ..)
              rw [hPass] at hHead
              cases hHead

theorem expect_ok_iff
    {kind : TokKind}
    {what : Text}
    {toks after : List Token}
    {t : Token} :
    expect kind what toks = .ok (t, after) ↔
      toks = t :: after ∧ t.kind = kind := by
  cases toks with
  | nil => simp [expect]
  | cons u rest =>
      simp only [expect]
      by_cases hKind : u.kind = kind
      · rw [if_pos hKind]
        constructor
        · intro hOk
          cases hOk
          exact ⟨rfl, hKind⟩
        · rintro ⟨hEq, _⟩
          cases hEq
          rfl
      · rw [if_neg hKind]
        constructor
        · intro hOk
          cases hOk
        · rintro ⟨hEq, hSame⟩
          cases hEq
          exact (hKind hSame).elim

/- The tokens of a condition that parses. -/
theorem parseCond_ok_iff
    {toks after : List Token}
    {cond : Cond}
    {rpLine : Nat} :
    parseCond toks = .ok (cond, rpLine, after) ↔
      ∃ lp attr op parts rp,
        toks = lp :: attr :: op :: (parts ++ rp :: after) ∧
        lp.kind = .lparen ∧ attr.kind = .word ∧
        op.kind = .word ∧ rp.kind = .rparen ∧
        rp.line = rpLine ∧
        (∀ t ∈ parts, t.kind ≠ .rparen ∧ t.kind ≠ .eof) ∧
        cond =
          ⟨attr.text, op.text,
            Text.join (parts.map Token.text) " ",
            parts.any fun t => t.kind == .string⟩ := by
  constructor
  · intro hCond
    unfold parseCond at hCond
    rcases bind_ok_iff.mp hCond with ⟨⟨lp, toks₁⟩, hLp, hCond⟩
    rcases bind_ok_iff.mp hCond with
      ⟨⟨attr, toks₂⟩, hAttr, hCond⟩
    rcases bind_ok_iff.mp hCond with ⟨⟨op, toks₃⟩, hOp, hCond⟩
    rcases bind_ok_iff.mp hCond with
      ⟨⟨parts, toks₄⟩, hParts, hCond⟩
    rcases bind_ok_iff.mp hCond with ⟨⟨rp, toks₅⟩, hRp, hEnd⟩
    rcases expect_ok_iff.mp hLp with ⟨rfl, hLpKind⟩
    rcases expect_ok_iff.mp hAttr with ⟨rfl, hAttrKind⟩
    rcases expect_ok_iff.mp hOp with ⟨rfl, hOpKind⟩
    rcases takeToks_ok_iff.mp hParts with ⟨rfl, hAll, _⟩
    rcases expect_ok_iff.mp hRp with ⟨rfl, hRpKind⟩
    cases hEnd
    refine ⟨lp, attr, op, parts, rp, rfl, hLpKind, hAttrKind,
      hOpKind, hRpKind, rfl, ?_, rfl⟩
    intro t ht
    simpa using hAll t ht
  · rintro ⟨lp, attr, op, parts, rp, rfl, hLp, hAttr, hOp, hRp,
      rfl, hParts, rfl⟩
    have hOperand :
        operand (parts ++ rp :: after) =
          .ok (parts, rp :: after) := by
      refine takeToks_ok_iff.mpr ⟨rfl, ?_, rp, after, rfl, ?_⟩
      · intro t ht
        simpa using hParts t ht
      · simp [hRp]
    simp [parseCond, expect, hLp, hAttr, hOp, hRp, hOperand,
      bind, Except.bind, pure, Except.pure]

end Tacconfig

end Soteria

------------------------------------------------------------
-- Derivations
------------------------------------------------------------

namespace Soteria

namespace Tacconfig

/- A call of the parser with what it returns. -/
inductive Form where
  | stmts (untilRBrace : Bool) (toks : List Token)
      (nodes : List Node) (line : Nat) (after : List Token)
  | stmt (toks : List Token) (node : Node) (after : List Token)
  | ifPart (line : Nat) (toks : List Token) (node : Node)
      (after : List Token)
  | elsePart (bodyEnd : Nat) (toks : List Token)
      (nodes : List Node) (line : Nat) (after : List Token)

/- The calls that succeed. -/
inductive Parses : Form → Prop
| eof
    {t : Token}
    {rest : List Token}
    (hKind : t.kind = .eof) :
    Parses (.stmts false (t :: rest) [] 0 (t :: rest))
| rbrace
    {t : Token}
    {rest : List Token}
    (hKind : t.kind = .rbrace) :
    Parses (.stmts true (t :: rest) [] t.line rest)
| cons
    {untilRBrace : Bool}
    {t : Token}
    {rest after after' : List Token}
    {node : Node}
    {nodes : List Node}
    {line : Nat}
    (hEof : t.kind ≠ .eof)
    (hBrace : t.kind ≠ .rbrace)
    (hStmt : Parses (.stmt (t :: rest) node after))
    (hRest : Parses (.stmts untilRBrace after nodes line after')) :
    Parses
      (.stmts untilRBrace (t :: rest) (node :: nodes) line after')
| ifStmt
    {t : Token}
    {rest after : List Token}
    {node : Node}
    (hText : t.isText = true)
    (hWord : t.text = "if")
    (hIf : Parses (.ifPart t.line rest node after)) :
    Parses (.stmt (t :: rest) node after)
| assign
    {t next : Token}
    {rest words parts after after' : List Token}
    (hText : t.isText = true)
    (hWord : t.text ≠ "if")
    (hWords :
      takeWords t.line rest = .ok (words, next :: after))
    (hKind : next.kind = .equals)
    (hValue : restOfLine next.line after = .ok (parts, after')) :
    Parses
      (.stmt (t :: rest)
        (.assign (lineOf (t :: words)) (lineOf parts) t.line
          next.line)
        after')
| block
    {t next : Token}
    {rest words after after' : List Token}
    {children : List Node}
    {endLine : Nat}
    (hText : t.isText = true)
    (hWord : t.text ≠ "if")
    (hWords :
      takeWords t.line rest = .ok (words, next :: after))
    (hKind : next.kind = .lbrace)
    (hBody : Parses (.stmts true after children endLine after')) :
    Parses
      (.stmt (t :: rest)
        (.block (tokenText t) (lineOf words) children t.line
          endLine)
        after')
| action
    {t next : Token}
    {rest words after : List Token}
    (hText : t.isText = true)
    (hWord : t.text ≠ "if")
    (hWords :
      takeWords t.line rest = .ok (words, next :: after))
    (hEquals : next.kind ≠ .equals)
    (hBrace : next.kind ≠ .lbrace) :
    Parses
      (.stmt (t :: rest)
        (.action (lineOf (t :: words)) t.line t.line)
        (next :: after))
| braced
    {line rpLine bodyEnd endLine : Nat}
    {cond : Cond}
    {next : Token}
    {toks rest after after' : List Token}
    {children elseNodes : List Node}
    (hCond : parseCond toks = .ok (cond, rpLine, next :: rest))
    (hKind : next.kind = .lbrace)
    (hBody : Parses (.stmts true rest children bodyEnd after))
    (hElse :
      Parses (.elsePart bodyEnd after elseNodes endLine after')) :
    Parses
      (.ifPart line toks
        (.ifNode cond children elseNodes false line endLine)
        after')
| inline
    {line rpLine : Nat}
    {cond : Cond}
    {next : Token}
    {toks rest parts after : List Token}
    (hCond : parseCond toks = .ok (cond, rpLine, next :: rest))
    (hKind : next.kind ≠ .lbrace)
    (hLine :
      restOfLine rpLine (next :: rest) = .ok (parts, after)) :
    Parses
      (.ifPart line toks
        (.ifNode cond [.action (lineOf parts) rpLine 0] [] true
          line rpLine)
        after)
| elseBlock
    {bodyEnd line : Nat}
    {t next : Token}
    {body after : List Token}
    {nodes : List Node}
    (hElse : t.kind = .word ∧ t.text = "else")
    (hKind : next.kind = .lbrace)
    (hBody : Parses (.stmts true body nodes line after)) :
    Parses
      (.elsePart bodyEnd (t :: next :: body) nodes line after)
| elseInline
    {bodyEnd : Nat}
    {t next : Token}
    {body parts after : List Token}
    (hElse : t.kind = .word ∧ t.text = "else")
    (hKind : next.kind ≠ .lbrace)
    (hLine :
      restOfLine t.line (next :: body) = .ok (parts, after)) :
    Parses
      (.elsePart bodyEnd (t :: next :: body)
        [.action (lineOf parts) t.line 0] bodyEnd after)
| noElse
    {bodyEnd : Nat}
    {t : Token}
    {rest : List Token}
    (hElse : ¬ (t.kind = .word ∧ t.text = "else")) :
    Parses
      (.elsePart bodyEnd (t :: rest) [] bodyEnd (t :: rest))

/- Every call that succeeds has a derivation. -/
theorem parses_of_ok (fuel : Nat) :
    (∀ untilRBrace toks nodes line after,
      parseStmts fuel untilRBrace toks =
          .ok (nodes, line, after) →
        Parses (.stmts untilRBrace toks nodes line after)) ∧
    (∀ toks node after,
      parseStmt fuel toks = .ok (node, after) →
        Parses (.stmt toks node after)) ∧
    (∀ line toks node after,
      parseIf fuel line toks = .ok (node, after) →
        Parses (.ifPart line toks node after)) ∧
    ∀ bodyEnd toks nodes line after,
      parseElse fuel bodyEnd toks = .ok (nodes, line, after) →
        Parses (.elsePart bodyEnd toks nodes line after) := by
  induction fuel with
  | zero =>
      refine ⟨?_, ?_, ?_, ?_⟩ <;> intros <;>
        simp_all [parseStmts, parseStmt, parseIf, parseElse]
  | succ fuel ih =>
      rcases ih with ⟨ihStmts, ihStmt, ihIf, ihElse⟩
      refine ⟨?_, ?_, ?_, ?_⟩
      · intro untilRBrace toks nodes line after hOk
        cases toks with
        | nil => cases hOk
        | cons t rest =>
            simp only [parseStmts] at hOk
            split at hOk
            · rename_i hKind
              cases untilRBrace with
              | true => cases hOk
              | false =>
                  cases hOk
                  exact .eof hKind
            · rename_i hKind
              cases untilRBrace with
              | true =>
                  cases hOk
                  exact .rbrace hKind
              | false => cases hOk
            · rename_i hEof hBrace
              split at hOk
              · cases hOk
              · rename_i node mid hStmt
                split at hOk
                · cases hOk
                · rename_i more l after' hRest
                  cases hOk
                  exact .cons hEof hBrace (ihStmt _ _ _ hStmt)
                    (ihStmts _ _ _ _ _ hRest)
      · intro toks node after hOk
        cases toks with
        | nil => cases hOk
        | cons t rest =>
            simp only [parseStmt] at hOk
            split at hOk
            · cases hOk
            · rename_i hText
              have hText : t.isText = true := by simpa using hText
              split at hOk
              · rename_i hWord
                exact .ifStmt hText hWord (ihIf _ _ _ _ hOk)
              · rename_i hWord
                split at hOk
                · cases hOk
                · cases hOk
                · rename_i words next more hWords
                  split at hOk
                  · rename_i hKind
                    split at hOk
                    · cases hOk
                    · rename_i parts after' hValue
                      cases hOk
                      exact .assign hText hWord hWords hKind
                        hValue
                  · rename_i hKind
                    split at hOk
                    · cases hOk
                    · rename_i children endLine after' hBody
                      cases hOk
                      exact .block hText hWord hWords hKind
                        (ihStmts _ _ _ _ _ hBody)
                  · rename_i hEquals hBrace
                    cases hOk
                    exact .action hText hWord hWords hEquals
                      hBrace
      · intro line toks node after hOk
        simp only [parseIf] at hOk
        split at hOk
        · cases hOk
        · cases hOk
        · rename_i cond rpLine next rest hCond
          split at hOk
          · rename_i hKind
            split at hOk
            · cases hOk
            · rename_i children endLine more hBody
              split at hOk
              · cases hOk
              · rename_i elseNodes endLine' after' hElse
                cases hOk
                exact .braced hCond hKind
                  (ihStmts _ _ _ _ _ hBody)
                  (ihElse _ _ _ _ _ hElse)
          · rename_i hKind
            split at hOk
            · cases hOk
            · rename_i parts after' hLine
              cases hOk
              exact .inline hCond hKind hLine
      · intro bodyEnd toks nodes line after hOk
        cases toks with
        | nil => cases hOk
        | cons t rest =>
            simp only [parseElse] at hOk
            split at hOk
            · rename_i hElse
              cases rest with
              | nil => cases hOk
              | cons next body =>
                  simp only [] at hOk
                  split at hOk
                  · rename_i hKind
                    exact .elseBlock hElse hKind
                      (ihStmts _ _ _ _ _ hOk)
                  · rename_i hKind
                    split at hOk
                    · cases hOk
                    · rename_i parts after' hLine
                      cases hOk
                      exact .elseInline hElse hKind hLine
            · rename_i hElse
              cases hOk
              exact .noElse hElse

theorem takeToks_suffix
    {p : Token → Bool}
    {toks taken after : List Token}
    (hTake : takeToks p toks = .ok (taken, after)) :
    after <:+ toks := by
  rcases takeToks_ok_iff.mp hTake with ⟨rfl, _⟩
  exact List.suffix_append taken after

theorem parseCond_suffix
    {toks after : List Token}
    {cond : Cond}
    {rpLine : Nat}
    (hCond : parseCond toks = .ok (cond, rpLine, after)) :
    after <:+ toks ∧ after.length + 4 ≤ toks.length := by
  rcases parseCond_ok_iff.mp hCond with
    ⟨lp, attr, op, parts, rp, rfl, _⟩
  constructor
  · exact ⟨lp :: attr :: op :: (parts ++ [rp]), by simp⟩
  · simp

/- What a call leaves is a suffix of what it was given. -/
def Form.Suffix : Form → Prop
| .stmts _ toks _ _ after => after <:+ toks
| .stmt toks _ after =>
    after <:+ toks ∧ after.length < toks.length
| .ifPart _ toks _ after =>
    after <:+ toks ∧ after.length < toks.length
| .elsePart _ toks _ _ after => after <:+ toks

theorem Parses.suffix
    {form : Form}
    (hParses : Parses form) :
    form.Suffix := by
  induction hParses with
  | eof => exact List.suffix_rfl
  | rbrace => exact List.suffix_cons ..
  | cons _ _ _ _ ihStmt ihRest => exact ihRest.trans ihStmt.1
  | @ifStmt t rest after _ _ _ _ ih =>
      refine ⟨ih.1.trans (List.suffix_cons ..), ?_⟩
      have hLength := ih.2
      simp only [List.length_cons]
      omega
  | @assign t next rest words parts after after' _ _ hWords _
      hValue =>
      have hAfter : after' <:+ rest :=
        ((takeToks_suffix hValue).trans
          (List.suffix_cons ..)).trans (takeToks_suffix hWords)
      refine ⟨hAfter.trans (List.suffix_cons ..), ?_⟩
      have hLength := hAfter.length_le
      simp only [List.length_cons]
      omega
  | @block t next rest words after after' _ _ _ _ hWords _ _
      ih =>
      have hAfter : after' <:+ rest :=
        (ih.trans (List.suffix_cons ..)).trans
          (takeToks_suffix hWords)
      refine ⟨hAfter.trans (List.suffix_cons ..), ?_⟩
      have hLength := hAfter.length_le
      simp only [List.length_cons]
      omega
  | @action t next rest words after _ _ hWords =>
      have hAfter := takeToks_suffix hWords
      refine ⟨hAfter.trans (List.suffix_cons ..), ?_⟩
      have hLength := hAfter.length_le
      simp only [List.length_cons] at hLength ⊢
      omega
  | @braced _ _ _ _ _ next toks rest after after' _ _ hCond _ _
      _ ihBody ihElse =>
      rcases parseCond_suffix hCond with ⟨hCondSuffix, hLong⟩
      have hAfter : after' <:+ rest := ihElse.trans ihBody
      refine ⟨(hAfter.trans (List.suffix_cons ..)).trans
        hCondSuffix, ?_⟩
      have hLength := hAfter.length_le
      simp only [List.length_cons] at hLong
      omega
  | inline hCond _ hLine =>
      rcases parseCond_suffix hCond with ⟨hCondSuffix, hLong⟩
      have hAfter := takeToks_suffix hLine
      refine ⟨hAfter.trans hCondSuffix, ?_⟩
      have hLength := hAfter.length_le
      omega
  | elseBlock _ _ _ ih =>
      exact (ih.trans (List.suffix_cons ..)).trans
        (List.suffix_cons ..)
  | elseInline _ _ hLine =>
      exact (takeToks_suffix hLine).trans (List.suffix_cons ..)
  | noElse => exact List.suffix_rfl

/- A derivable call succeeds, with enough of a bound. -/
def Form.Ok (fuel : Nat) : Form → Prop
| .stmts untilRBrace toks nodes line after =>
    toks.length + 1 ≤ fuel →
      parseStmts fuel untilRBrace toks =
        .ok (nodes, line, after)
| .stmt toks node after =>
    toks.length ≤ fuel → parseStmt fuel toks = .ok (node, after)
| .ifPart line toks node after =>
    toks.length ≤ fuel →
      parseIf fuel line toks = .ok (node, after)
| .elsePart bodyEnd toks nodes line after =>
    toks.length ≤ fuel →
      parseElse fuel bodyEnd toks = .ok (nodes, line, after)

theorem Parses.ok
    {form : Form}
    (hParses : Parses form)
    (fuel : Nat) :
    form.Ok fuel := by
  induction hParses generalizing fuel with
  | eof hKind =>
      intro hFuel
      cases fuel with
      | zero => omega
      | succ fuel => simp [parseStmts, hKind]
  | rbrace hKind =>
      intro hFuel
      cases fuel with
      | zero => omega
      | succ fuel => simp [parseStmts, hKind]
  | @cons _ t rest after _ _ _ _ hEof hBrace hStmt hRest ihStmt
      ihRest =>
      intro hFuel
      have hShorter := hStmt.suffix.2
      simp only [List.length_cons] at hFuel hShorter
      cases fuel with
      | zero => omega
      | succ fuel =>
          have hFirst := ihStmt fuel (by
            simp only [List.length_cons]
            omega)
          have hOthers := ihRest fuel (by omega)
          simp only [parseStmts, hFirst, hOthers]
  | ifStmt hText hWord _ ih =>
      intro hFuel
      cases fuel with
      | zero => simp at hFuel
      | succ fuel =>
          have hIf := ih fuel (by simpa using hFuel)
          simp [parseStmt, hText, hWord, hIf]
  | assign hText hWord hWords hKind hValue =>
      intro hFuel
      cases fuel with
      | zero => simp at hFuel
      | succ fuel =>
          simp only [parseStmt, hText, Bool.not_true,
            Bool.false_eq_true, if_false, if_neg hWord, hWords,
            hKind, hValue]
  | block hText hWord hWords hKind _ ih =>
      intro hFuel
      have hShorter := (takeToks_suffix hWords).length_le
      simp only [List.length_cons] at hFuel hShorter
      cases fuel with
      | zero => omega
      | succ fuel =>
          have hBody := ih fuel (by omega)
          simp only [parseStmt, hText, Bool.not_true,
            Bool.false_eq_true, if_false, if_neg hWord, hWords,
            hKind, hBody]
  | action hText hWord hWords hEquals hBrace =>
      intro hFuel
      cases fuel with
      | zero => simp at hFuel
      | succ fuel =>
          simp only [parseStmt, hText, Bool.not_true,
            Bool.false_eq_true, if_false, if_neg hWord, hWords]
  | braced hCond hKind hBody _ ihBody ihElse =>
      intro hFuel
      have hShort := (parseCond_suffix hCond).2
      have hShorter := hBody.suffix.length_le
      simp only [List.length_cons] at hShort
      cases fuel with
      | zero => omega
      | succ fuel =>
          have hBodyOk := ihBody fuel (by omega)
          have hElseOk := ihElse fuel (by omega)
          simp [parseIf, hCond, hKind, hBodyOk, hElseOk]
  | inline hCond hKind hLine =>
      intro hFuel
      have hShort := (parseCond_suffix hCond).2
      cases fuel with
      | zero => omega
      | succ fuel => simp [parseIf, hCond, hKind, hLine]
  | elseBlock hElse hKind _ ih =>
      intro hFuel
      simp only [List.length_cons] at hFuel
      cases fuel with
      | zero => omega
      | succ fuel =>
          have hBody := ih fuel (by omega)
          simp [parseElse, hElse, hKind, hBody]
  | elseInline hElse hKind hLine =>
      intro hFuel
      cases fuel with
      | zero => simp at hFuel
      | succ fuel => simp [parseElse, hElse, hKind, hLine]
  | noElse hElse =>
      intro hFuel
      cases fuel with
      | zero => simp at hFuel
      | succ fuel => simp only [parseElse, if_neg hElse]

/- The tokens that parse, as derivations. -/
theorem parseTokens_ok_iff
    {toks : List Token}
    {nodes : List Node} :
    parseTokens toks = .ok nodes ↔
      ∃ line after,
        Parses (.stmts false toks nodes line after) := by
  unfold parseTokens
  constructor
  · intro hOk
    split at hOk
    · cases hOk
    · rename_i found line after hStmts
      cases hOk
      exact ⟨line, after,
        (parses_of_ok _).1 _ _ _ _ _ hStmts⟩
  · rintro ⟨line, after, hParses⟩
    have hStmts := hParses.ok (toks.length + 1) le_rfl
    rw [hStmts]

end Tacconfig

end Soteria
