import Soteria.Tacconfig.Fields
import Soteria.Tacconfig.Survival
import Soteria.Tacconfig.Trace

/-
  What becomes of the regular expressions of a source.

  The lexer has no mode for regular expressions: it reads
  the operand of a condition as tokens, and the parser puts
  them together with single blanks. A literal is kept if
  this is how it was written.

  Key definitions include:
    * `RegexLiteral`
    * `lexesTo_bare`, `bare_join_iff`
    * `profileTests`, `ruleTests`
    * `Test.rendered`, `Test.Rereads`
    * `ReadFrom`, `regex_operands_kept_iff`
-/

------------------------------------------------------------
-- Bare Texts
------------------------------------------------------------

namespace Soteria

namespace Tacconfig

/- On one line, without a string, a comment or a `)`. -/
def Bare (s : Text) : Prop :=
  ∀ c ∈ s, c ∉ ['\n', ')', '"', '#']

/- A token of a bare text. -/
structure BareToken (t : Token) : Prop where
  plain : plainToken t.text = true
  solid : ' ' ∉ t.text
  kind : t.kind ∉ [TokKind.string, .rparen, .eof]

theorem not_delimiter_blank
    {s : Text}
    (hPlain : ∀ c ∈ s, delimiter c = false) :
    ' ' ∉ s := by
  intro hMem
  have hBlank := hPlain ' ' hMem
  exact absurd hBlank (by decide)

/- The word of a round, or an operator. -/
theorem bareToken_of_word
    {s : Text}
    (hWord :
      PlainWord s ∨ s = "==" ∨ s = "=~" ∨ s = "!=")
    (line : Nat) :
    BareToken ⟨.word, s, line⟩ := by
  refine ⟨?_, ?_, by simp⟩
  · show (tokenKind s).isSome = true
    rcases hWord with ⟨hNonempty, hPlain⟩ | hOperator
    · have hAll :
          s.all (fun c => !delimiter c) = true := by
        rw [List.all_eq_true]
        intro c hc
        rw [hPlain c hc]
        rfl
      unfold tokenKind
      split_ifs <;> first | rfl | simp_all
    · rcases hOperator with rfl | rfl | rfl <;> rfl
  · show ' ' ∉ s
    rcases hWord with hPlain | rfl | rfl | rfl
    · exact not_delimiter_blank hPlain.2
    · decide
    · decide
    · decide

/- A round on a bare text stays on its line. -/
theorem lexStep_bare
    {c : Char}
    (hc : c ∉ ['\n', ')', '"', '#'])
    (rest : Text) :
    (lexStep 0 c rest).2.1 = 0 ∧
      ∀ t ∈ (lexStep 0 c rest).1.tokens, BareToken t := by
  simp only [List.mem_cons, List.not_mem_nil, or_false,
    not_or] at hc
  have hStep := lexStep_cases 0 c rest
  generalize lexStep 0 c rest = step at hStep
  cases hStep with
  | newline hNewline => exact (hc.1 hNewline).elim
  | blank => exact ⟨rfl, by simp [Piece.tokens]⟩
  | comment _ hHash => exact (hc.2.2.2 hHash).elim
  | string hQuote => exact (hc.2.2.1 hQuote).elim
  | rparen hRparen => exact (hc.2.1 hRparen).elim
  | lparen =>
      refine ⟨rfl, fun t ht => ?_⟩
      rw [List.mem_singleton.mp ht]
      exact ⟨by decide, by decide, by decide⟩
  | lbrace =>
      refine ⟨rfl, fun t ht => ?_⟩
      rw [List.mem_singleton.mp ht]
      exact ⟨by decide, by decide, by decide⟩
  | rbrace =>
      refine ⟨rfl, fun t ht => ?_⟩
      rw [List.mem_singleton.mp ht]
      exact ⟨by decide, by decide, by decide⟩
  | equals =>
      refine ⟨rfl, fun t ht => ?_⟩
      rw [List.mem_singleton.mp ht]
      exact ⟨by decide, by decide, by decide⟩
  | operator d more _ hText =>
      refine ⟨rfl, fun t ht => ?_⟩
      rw [List.mem_singleton.mp ht]
      exact bareToken_of_word (Or.inr hText) 0
  | word hWord =>
      refine ⟨rfl, fun t ht => ?_⟩
      rw [List.mem_singleton.mp ht]
      exact bareToken_of_word
        (Or.inl (plainWord_takeWhile hWord _)) 0

/- The text is empty or starts with what ends a word. -/
def Ends (s : Text) : Prop :=
  ∀ c ∈ s.head?, delimiter c = true ∧ c ≠ '='

theorem Stops.ends
    {s : Text}
    (hStops : Stops s) :
    Ends s := by
  intro c hc
  have hMem := hStops c hc
  simp only [List.mem_cons, List.not_mem_nil, or_false]
    at hMem
  rcases hMem with rfl | rfl | rfl | rfl | rfl <;> decide

/- A round on a bare text, in front of what ends a word. -/
theorem lexStep_bare_append
    {c : Char}
    (hc : c ∉ ['\n', ')', '"', '#'])
    (line : Nat)
    (s : Text)
    {rest : Text}
    (hEnds : Ends rest) :
    lexStep line c (s ++ rest) =
      ((lexStep 0 c s).1.onLine line, line,
        (lexStep 0 c s).2.2 ++ rest) := by
  have hSame := (lexStep_bare hc s).1
  have hLine := lexStep_line line c s
  rw [hSame, Nat.add_zero] at hLine
  cases rest with
  | nil => rw [List.append_nil, List.append_nil, hLine]
  | cons e rest =>
      have he := hEnds e rfl
      simp only [List.mem_cons, List.not_mem_nil, or_false,
        not_or] at hc
      rw [lexStep_before he.1 he.2
        (fun hHash => (hc.2.2.2 hHash).elim)
        (fun hQuote => (hc.2.2.1 hQuote).elim), hLine]

/- A bare text lexes to bare tokens. -/
theorem lexAt_bare
    {s : Text}
    (hBare : Bare s) :
    ∃ toks : List Token,
      (∀ t ∈ toks, BareToken t) ∧
        ∀ line rest, Ends rest →
          (lexAt line (s ++ rest)).tokens =
            toks.map (Token.onLine line) ++
              (lexAt line rest).tokens := by
  generalize hLength : s.length = n
  induction n using Nat.strong_induction_on generalizing s with
  | _ n ih =>
      cases s with
      | nil => exact ⟨[], by simp, fun _ _ _ => rfl⟩
      | cons c s =>
          have hc := hBare c (List.mem_cons_self ..)
          have hSuffix := lexStep_suffix 0 c s
          have hShorter : (lexStep 0 c s).2.2.length < n := by
            have hLe := hSuffix.length_le
            rw [List.length_cons] at hLength
            omega
          have hRest : Bare (lexStep 0 c s).2.2 :=
            fun d hd => hBare d
              (List.mem_cons_of_mem _ (hSuffix.subset hd))
          rcases ih _ hShorter hRest rfl with
            ⟨toks, hToks, hLexes⟩
          refine ⟨(lexStep 0 c s).1.tokens ++ toks, ?_, ?_⟩
          · intro t ht
            rcases List.mem_append.mp ht with ht | ht
            · exact (lexStep_bare hc s).2 t ht
            · exact hToks t ht
          · intro line rest hEnds
            rw [List.cons_append, lexAt_cons,
              lexStep_bare_append hc line s hEnds,
              add_onLine_tokens, hLexes line rest hEnds,
              List.map_append, List.append_assoc]
            congr 1
            cases (lexStep 0 c s).1 <;> rfl

theorem lexesTo_bare
    {s : Text}
    (hBare : Bare s) :
    ∃ toks, LexesTo s toks ∧ ∀ t ∈ toks, BareToken t := by
  rcases lexAt_bare hBare with ⟨toks, hToks, hLexes⟩
  exact ⟨toks, fun line rest hStops =>
    hLexes line rest hStops.ends, hToks⟩

/- A text lexes to one list of tokens, whatever the lines. -/
theorem LexesTo.unique
    {s : Text}
    {toks more : List Token}
    (hToks : LexesTo s toks)
    (hMore : LexesTo s more) :
    toks.map Token.text = more.map Token.text := by
  have hSame :=
    (hToks 0 [] stops_nil).symm.trans (hMore 0 [] stops_nil)
  have hTexts :=
    congrArg (List.map Token.text)
      (List.append_cancel_right hSame)
  rw [List.map_map, List.map_map] at hTexts
  exact hTexts

/- Bare tokens with single blanks are a text that survives. -/
theorem bareSurvives_of_join
    {s : Text}
    {toks : List Token}
    (hToks : ∀ t ∈ toks, BareToken t)
    (hJoin : Text.join (toks.map Token.text) " " = s) :
    bareSurvives s = true := by
  unfold bareSurvives
  rw [Bool.or_eq_true, beq_iff_eq]
  by_cases hNil : toks = []
  · left
    rw [← hJoin, hNil]
    rfl
  right
  have hSolid : ∀ piece ∈ toks.map Token.text, ' ' ∉ piece := by
    intro piece hPiece
    rcases List.mem_map.mp hPiece with ⟨t, ht, rfl⟩
    exact (hToks t ht).solid
  have hNonempty : toks.map Token.text ≠ [] := by
    simpa using hNil
  have hPieces : s.splitOn ' ' = toks.map Token.text := by
    rw [← hJoin]
    exact List.splitOn_intercalate ' ' hSolid hNonempty
  rw [hPieces, List.all_eq_true]
  intro piece hPiece
  rcases List.mem_map.mp hPiece with ⟨t, ht, rfl⟩
  exact (hToks t ht).plain

/-
  Put together with single blanks, the tokens are the text
  if and only if it was written so.
-/
theorem bare_join_iff
    {s : Text}
    {toks : List Token}
    (hLexes : LexesTo s toks)
    (hToks : ∀ t ∈ toks, BareToken t) :
    Text.join (toks.map Token.text) " " = s ↔
      bareSurvives s = true := by
  constructor
  · exact bareSurvives_of_join hToks
  · intro hSurvives
    rcases operandText_of_bare hSurvives with
      ⟨parts, hParts, _, hJoin⟩
    rw [hLexes.unique hParts, hJoin]

end Tacconfig

end Soteria

------------------------------------------------------------
-- Literals
------------------------------------------------------------

namespace Soteria

namespace Tacconfig

/-
  A regular expression between slashes: on one line, without
  a parenthesis, a double quote or a `#`.
-/
structure RegexLiteral (s : Text) : Prop where
  slashes : ∃ body : Text, s = '/' :: (body ++ ['/'])
  plain : ∀ c ∈ s, c ∉ ['\n', '(', ')', '"', '#']

theorem RegexLiteral.bare
    {s : Text}
    (hLiteral : RegexLiteral s) :
    Bare s := by
  intro c hc hMem
  apply hLiteral.plain c hc
  simp only [List.mem_cons, List.not_mem_nil, or_false]
    at hMem ⊢
  rcases hMem with hMem | hMem | hMem | hMem
  · exact Or.inl hMem
  · exact Or.inr (Or.inr (Or.inl hMem))
  · exact Or.inr (Or.inr (Or.inr (Or.inl hMem)))
  · exact Or.inr (Or.inr (Or.inr (Or.inr hMem)))

/- Characters between tokens leave the tokens as they are. -/
theorem lexAt_skipped
    {lead : Text}
    (hLead : ∀ c ∈ lead, skipped c = true)
    (line : Nat)
    (rest : Text) :
    ∃ line',
      (lexAt line (lead ++ rest)).tokens =
        (lexAt line' rest).tokens := by
  induction lead generalizing line with
  | nil => exact ⟨line, rfl⟩
  | cons c lead ih =>
      have hRest := fun d hd => hLead d (List.mem_cons_of_mem _ hd)
      have hc := hLead c (List.mem_cons_self ..)
      simp only [skipped, Bool.or_eq_true, beq_iff_eq] at hc
      rw [List.cons_append, lexAt_cons]
      rcases hc with ((rfl | rfl) | rfl) | rfl
      · exact ih hRest line
      · exact ih hRest line
      · exact ih hRest line
      · exact ih hRest (line + 1)

/- The text around what trimming leaves. -/
theorem trimSkipped_parts (s : Text) :
    ∃ lead trail,
      s = lead ++ trimSkipped s ++ trail ∧
        (∀ c ∈ lead, skipped c = true) ∧
          ∀ c ∈ trail, skipped c = true := by
  refine ⟨s.takeWhile skipped,
    (s.dropWhile skipped).rtakeWhile skipped, ?_, ?_, ?_⟩
  · rw [trimSkipped, List.append_assoc,
      List.rdropWhile_append_rtakeWhile,
      List.takeWhile_append_dropWhile]
  · exact fun c hc => List.mem_takeWhile_imp hc
  · exact fun c hc => List.mem_rtakeWhile_imp hc

/- The tokens in front of the first closing parenthesis. -/
theorem operand_unique
    {parts parts' more more' : List Token}
    {rp rp' : Token}
    (hParts : ∀ t ∈ parts, t.kind ≠ .rparen ∧ t.kind ≠ .eof)
    (hParts' :
      ∀ t ∈ parts', t.kind ≠ .rparen ∧ t.kind ≠ .eof)
    (hRp : rp.kind = .rparen)
    (hRp' : rp'.kind = .rparen)
    (hSame : parts ++ rp :: more = parts' ++ rp' :: more') :
    parts = parts' := by
  have hTake :
      ∀ {parts : List Token} {rp : Token} (more : List Token),
        (∀ t ∈ parts, t.kind ≠ .rparen ∧ t.kind ≠ .eof) →
          rp.kind = .rparen →
            operand (parts ++ rp :: more) =
              .ok (parts, rp :: more) := by
    intro parts rp more hParts hRp
    refine takeToks_ok_iff.mpr ⟨rfl, ?_, rp, more, rfl, ?_⟩
    · intro t ht
      simpa using hParts t ht
    · simp [hRp]
  have hFirst := hTake more hParts hRp
  rw [hSame, hTake more' hParts' hRp'] at hFirst
  cases hFirst
  rfl

/- The tokens the operand was read as are those of a literal. -/
theorem OperandTokens.bare
    {raw after : Text}
    {parts toks : List Token}
    (hOperand : OperandTokens raw after parts)
    (hLexes : LexesTo (trimSkipped raw) toks)
    (hToks : ∀ t ∈ toks, BareToken t) :
    ∃ line, parts = toks.map (Token.onLine line) := by
  rcases hOperand.tokens with ⟨line, rp, more, hRp, hTokens⟩
  rcases trimSkipped_parts raw with
    ⟨lead, trail, hRaw, hLead, hTrail⟩
  have hText :
      raw ++ ')' :: after =
        lead ++ (trimSkipped raw ++
          (trail ++ ')' :: after)) := by
    conv_lhs => rw [hRaw]
    simp
  have hStops : Stops (trail ++ ')' :: after) := by
    cases trail with
    | nil => exact stops_cons (by decide) after
    | cons c trail =>
        refine stops_cons ?_ _
        have hc := hTrail c (List.mem_cons_self ..)
        simp only [skipped, Bool.or_eq_true, beq_iff_eq] at hc
        rcases hc with ((rfl | rfl) | rfl) | rfl <;> decide
  rcases lexAt_skipped hLead line
      (trimSkipped raw ++ (trail ++ ')' :: after)) with
    ⟨line', hLine'⟩
  rcases lexAt_skipped hTrail line' (')' :: after) with
    ⟨line'', hLine''⟩
  have hRparen := splits_rparen 0 line'' after
  have hAll :
      parts ++ rp :: more =
        toks.map (Token.onLine line') ++
          ⟨.rparen, ")", line''⟩ ::
            (lexAt line'' after).tokens := by
    rw [← hTokens, hText, hLine', hLexes line' _ hStops, hLine'']
    exact congrArg _ hRparen
  refine ⟨line', operand_unique hOperand.plain ?_ hRp rfl hAll⟩
  intro t ht
  rcases List.mem_map.mp ht with ⟨u, hu, rfl⟩
  have hKind := (hToks u hu).kind
  simp only [List.mem_cons, List.not_mem_nil, or_false,
    not_or] at hKind
  exact hKind.2

/- A literal is read as its tokens, with single blanks. -/
theorem Cond.From.literal_iff
    {c : Cond}
    {w : WrittenCond}
    (hFrom : c.From w)
    (hBare : Bare w.operand) :
    condValue c = w.operand ↔
      bareSurvives w.operand = true := by
  rcases hFrom.operand with
    ⟨raw, after, parts, hText, hOperand, hValue, hQuoted⟩
  rcases lexesTo_bare hBare with ⟨toks, hLexes, hToks⟩
  have hRaw := hLexes
  rw [hText] at hRaw
  rcases hOperand.bare hRaw hToks with ⟨line, rfl⟩
  have hTexts :
      (toks.map (Token.onLine line)).map Token.text =
        toks.map Token.text := by
    rw [List.map_map]
    rfl
  have hUnquoted : c.quoted = false := by
    rw [hQuoted, List.any_eq_false]
    intro t ht
    rcases List.mem_map.mp ht with ⟨u, hu, rfl⟩
    have hKind := (hToks u hu).kind
    simp only [List.mem_cons, not_or] at hKind
    show ¬ ((u.kind == .string) = true)
    simpa using hKind.1
  rw [condValue, hUnquoted, hValue, hTexts]
  exact bare_join_iff hLexes hToks

end Tacconfig

end Soteria

------------------------------------------------------------
-- Conditions of Profiles and Rules
------------------------------------------------------------

namespace Soteria

namespace Tacconfig

open scoped List

def ConditionRule.test (c : ConditionRule) : Test :=
  ⟨c.attr, c.operator, c.value⟩

/- What the conditions of the profiles compare, in order. -/
def profileTests (profiles : List Profile) : List Test :=
  profiles.flatMap fun p =>
    p.services.flatMap fun svc =>
      svc.conditions.map ConditionRule.test

mutual

def RuleCondition.tests : RuleCondition → List Test
| ⟨attr, operator, value, _, children, _, _, _⟩ =>
    ⟨attr, operator, value⟩ :: conditionTests children

def conditionTests : List RuleCondition → List Test
| [] => []
| rc :: rest => rc.tests ++ conditionTests rest

end

/- What the conditions of the rules compare, in order. -/
def ruleTests (rules : List Rule) : List Test :=
  rules.flatMap fun r => conditionTests r.matchConds

/- What a condition compares, with its operand as returned. -/
def Cond.returned (c : Cond) : Test :=
  ⟨c.attr, c.op, condValue c⟩

/- What nodes are turned into is found in them, in order. -/
theorem sublist_filterMap
    {α : Type}
    {f : Node → Option α}
    (tests : α → List Test)
    (hNode : ∀ n a, f n = some a →
      tests a <+ n.conds.map Cond.returned)
    (nodes : List Node) :
    (nodes.filterMap f).flatMap tests <+
      (condsOf nodes).map Cond.returned := by
  induction nodes with
  | nil => exact List.Sublist.slnil
  | cons n rest ih =>
      rw [condsOf, List.map_append, List.filterMap_cons]
      cases hn : f n with
      | none => exact ih.trans (List.sublist_append_right ..)
      | some a =>
          rw [List.flatMap_cons]
          exact (hNode n a hn).append ih

theorem findBlock_conds
    {name : Text}
    {nodes children : List Node}
    (hBlock : findBlock name nodes = some children) :
    condsOf children <+ condsOf nodes := by
  induction nodes with
  | nil => cases hBlock
  | cons n rest ih =>
      rw [condsOf]
      cases n with
      | block blockName _ inner =>
          rw [findBlock] at hBlock
          split at hBlock
          · cases hBlock
            exact List.sublist_append_left ..
          · exact (ih hBlock).trans
              (List.sublist_append_right ..)
      | _ =>
          exact (ih hBlock).trans (List.sublist_append_right ..)

theorem conditionFromNode_returned
    {n : Node}
    {c : ConditionRule}
    (hCondition : conditionFromNode n = some c) :
    [c.test] <+ n.conds.map Cond.returned := by
  cases n with
  | ifNode cond children elseNodes inline =>
      have hTest : c.test = cond.returned := by
        simp only [conditionFromNode] at hCondition
        split at hCondition
        · split at hCondition <;> cases hCondition <;> rfl
        · cases hCondition
          rfl
      rw [Node.conds, List.map_cons, hTest]
      exact (List.nil_sublist _).cons_cons _
  | _ => cases hCondition

theorem serviceFromNode_returned
    {n : Node}
    {svc : ServiceRule}
    (hService : serviceFromNode n = some svc) :
    svc.conditions.map ConditionRule.test <+
      n.conds.map Cond.returned := by
  cases n with
  | ifNode cond children elseNodes =>
      cases hService
      have hChildren :=
        sublist_filterMap
          (fun c : ConditionRule => [c.test])
          (fun _ _ => conditionFromNode_returned) children
      rw [← List.map_eq_flatMap] at hChildren
      rw [Node.conds, List.map_cons, List.map_append]
      exact (hChildren.trans
        (List.sublist_append_left ..)).cons _
  | _ => cases hService

theorem profileFromNode_returned
    {n : Node}
    {p : Profile}
    (hProfile : profileFromNode n = some p) :
    (p.services.flatMap fun svc =>
        svc.conditions.map ConditionRule.test) <+
      n.conds.map Cond.returned := by
  cases n with
  | block name label children =>
      simp only [profileFromNode] at hProfile
      split at hProfile
      · split at hProfile
        · cases hProfile
          exact List.nil_sublist _
        · rename_i script hScript
          cases hProfile
          have hServices :=
            sublist_filterMap
              (fun svc : ServiceRule =>
                svc.conditions.map ConditionRule.test)
              (f := fun n =>
                if n.isService then serviceFromNode n else none)
              (by
                intro n svc hService
                split at hService
                · exact serviceFromNode_returned hService
                · cases hService)
              script
          rw [List.filterMap_filter]
          exact hServices.trans
            ((findBlock_conds hScript).map _)
      · cases hProfile
  | _ => cases hProfile

mutual

theorem ruleConditionFromNode_returned :
    (n : Node) → {rc : RuleCondition} →
      ruleConditionFromNode n = some rc →
        rc.tests <+ n.conds.map Cond.returned
| .ifNode cond children elseNodes _ _ _, rc, hCondition => by
    rw [ruleConditionFromNode] at hCondition
    cases hCondition
    rw [RuleCondition.tests, Node.conds, List.map_cons,
      List.map_append]
    exact ((ruleConditions_returned children).trans
      (List.sublist_append_left ..)).cons_cons _
| .block .., _, hCondition => by
    rw [ruleConditionFromNode] at hCondition
    · cases hCondition
    · simp
| .assign .., _, hCondition => by
    rw [ruleConditionFromNode] at hCondition
    · cases hCondition
    · simp
| .action .., _, hCondition => by
    rw [ruleConditionFromNode] at hCondition
    · cases hCondition
    · simp

theorem ruleConditions_returned :
    (nodes : List Node) →
      conditionTests (ruleConditions nodes) <+
        (condsOf nodes).map Cond.returned
| [] => by
    rw [ruleConditions, conditionTests]
    exact List.nil_sublist _
| n :: rest => by
    have hRest := ruleConditions_returned rest
    rw [ruleConditions, condsOf, List.map_append]
    split
    · rename_i rc hCondition
      rw [conditionTests]
      exact (ruleConditionFromNode_returned n hCondition).append
        hRest
    · exact hRest.trans (List.sublist_append_right ..)

end

theorem ruleFromNode_returned
    {n : Node}
    {r : Rule}
    (hRule : ruleFromNode n = some r) :
    conditionTests r.matchConds <+
      n.conds.map Cond.returned := by
  cases n with
  | block name label children =>
      simp only [ruleFromNode] at hRule
      split at hRule
      · cases hRule
        have hConditions :=
          ruleConditions_returned
            ((findBlock "script" children).getD [])
        refine hConditions.trans (List.Sublist.map _ ?_)
        cases hScript : findBlock "script" children with
        | none => exact List.nil_sublist _
        | some script => exact findBlock_conds hScript
      · cases hRule
  | _ => cases hRule

theorem parseProfiles_returned
    {src : Text}
    {profiles : List Profile}
    (hProfiles : parseProfiles src = .ok profiles) :
    ∃ nodes comments,
      parse src = .ok (nodes, comments) ∧
        profileTests profiles <+
          (condsOf nodes).map Cond.returned := by
  rcases map_ok_iff.mp hProfiles with
    ⟨⟨nodes, comments⟩, hParse, rfl⟩
  exact ⟨nodes, comments, hParse,
    sublist_filterMap _ (fun _ _ => profileFromNode_returned)
      nodes⟩

theorem parseRuleset_returned
    {src : Text}
    {rules : List Rule}
    (hRules : parseRuleset src = .ok rules) :
    ∃ nodes comments,
      parse src = .ok (nodes, comments) ∧
        ruleTests rules <+
          (condsOf nodes).map Cond.returned := by
  rcases map_ok_iff.mp hRules with
    ⟨⟨nodes, comments⟩, hParse, rfl⟩
  refine ⟨nodes, comments, hParse, ?_⟩
  cases hBlock : findBlock "ruleset" nodes with
  | none => exact List.nil_sublist _
  | some block =>
      exact (sublist_filterMap _
        (fun _ _ => ruleFromNode_returned) block).trans
          ((findBlock_conds hBlock).map _)

end Tacconfig

end Soteria

------------------------------------------------------------
-- Conditions Read Again
------------------------------------------------------------

namespace Soteria

namespace Tacconfig

/- An `if` up to its parenthesis, as it is rendered. -/
def Test.rendered (t : Test) : Text :=
  t.text (renderCondValue t.op t.value)

/-
  The `if` as it is rendered, in front of any text, is read
  as the same condition and leaves the tokens of the text.
-/
def Test.Rereads (t : Test) : Prop :=
  ∀ line rest, ∃ toks cond,
    (lexAt line (t.rendered ++ rest)).tokens =
        ⟨.word, "if", line⟩ :: toks ∧
      parseCond toks =
          .ok (cond, line, (lexAt line rest).tokens) ∧
        cond.returned = t

/- Both renderers write the conditions so. -/
theorem renderCondition_rendered
    (indent : Text)
    (c : ConditionRule) :
    ∃ tail,
      renderCondition indent c =
        indent ++ c.test.rendered ++ tail := by
  have hInline : (") " : Text) = ")" ++ " " := rfl
  have hBlock : (") \x7b\n" : Text) = ")" ++ " \x7b\n" := rfl
  unfold renderCondition Test.rendered Test.text
  rw [hInline, hBlock]
  split
  · simp only [List.append_assoc]
    exact ⟨_, rfl⟩
  · simp only [List.append_assoc]
    exact ⟨_, rfl⟩

theorem renderRuleCondition_rendered
    (indent : Text)
    (rc : RuleCondition) :
    ∃ tail,
      renderRuleCondition indent rc =
        indent ++
          Test.rendered ⟨rc.attr, rc.operator, rc.value⟩ ++
            tail := by
  rcases rc with ⟨attr, operator, value, actions, children,
    elseActions, elseAction, defaultAction⟩
  have hBlock : (") \x7b\n" : Text) = ")" ++ " \x7b\n" := rfl
  rw [renderRuleCondition, hBlock]
  unfold Test.rendered Test.text
  simp only [List.append_assoc]
  exact ⟨_, rfl⟩

/- It is enough that the text of the condition is read so. -/
theorem CondText.rereads
    {t : Test}
    (hText :
      CondText (·.returned = t) t
        (renderCondValue t.op t.value)) :
    t.Rereads := by
  intro line rest
  rcases hText.reads with ⟨toks, hSplits, hParses⟩
  rcases hParses line (lexAt line rest).tokens with
    ⟨cond, hCond, hParse⟩
  refine ⟨toks.map (Token.onLine line) ++
    (lexAt line rest).tokens, cond, ?_, hParse, hCond⟩
  rw [Test.rendered, hSplits line rest]
  rfl

end Tacconfig

end Soteria

------------------------------------------------------------
-- Regular Expressions of a Source
------------------------------------------------------------

namespace Soteria

namespace Tacconfig

open scoped List

/-
  A condition as it is returned, beside the one it was read
  from: a literal is returned as it was written, and kept by
  writing and reading it once more, if and only if it is
  written as its tokens with single blanks.
-/
structure ReadFrom (w : WrittenCond) (t : Test) : Prop where
  attr : t.attr = w.attr
  op : t.op = w.op
  literal :
    w.op = "=~" → RegexLiteral w.operand →
      (t.value = w.operand ∧ t.Rereads ↔
        bareSurvives w.operand = true)

theorem Cond.From.readFrom
    {c : Cond}
    {w : WrittenCond}
    (hFrom : c.From w) :
    ReadFrom w c.returned := by
  refine ⟨hFrom.attr, hFrom.op, ?_⟩
  intro hOp hLiteral
  have hValue := hFrom.literal_iff hLiteral.bare
  constructor
  · exact fun hKept => hValue.mp hKept.1
  · intro hSurvives
    have hSame : condValue c = w.operand := hValue.mpr hSurvives
    refine ⟨hSame, ?_⟩
    rcases lexesTo_bare hLiteral.bare with
      ⟨toks, hLexes, hToks⟩
    have hRender :
        renderCondValue c.returned.op c.returned.value =
          w.operand := by
      have hBare : c.op = "=~" := hFrom.op.trans hOp
      show renderCondValue c.op (condValue c) = _
      rw [renderCondValue, if_pos hBare, hSame]
    have hKinds :
        ∀ u ∈ toks,
          u.kind ≠ .string ∧ u.kind ≠ .rparen ∧
            u.kind ≠ .eof := by
      intro u hu
      have hKind := (hToks u hu).kind
      simpa only [List.mem_cons, List.not_mem_nil, or_false,
        not_or] using hKind
    have hUnquoted :
        (toks.any fun u => u.kind == .string) = false := by
      rw [List.any_eq_false]
      intro u hu
      simpa using (hKinds u hu).1
    have hReturned :
        Cond.returned
            ⟨c.attr, c.op, Text.join (toks.map Token.text) " ",
              toks.any fun u => u.kind == .string⟩ =
          c.returned := by
      rw [Cond.returned, condValue, hUnquoted, Cond.returned,
        hSame]
      congr 1
      exact (bare_join_iff hLexes hToks).mpr hSurvives
    apply CondText.rereads
    rw [hRender]
    exact ⟨hFrom.words.1, hFrom.words.2, toks, hLexes,
      fun u hu => (hKinds u hu).2, hReturned⟩

/- Part of a list is related to a part of the other one. -/
theorem sublist_forall₂
    {α β : Type}
    {R : α → β → Prop}
    {xs : List α}
    {ys some : List β}
    (hSome : some <+ ys)
    (hAll : List.Forall₂ R xs ys) :
    ∃ part, part <+ xs ∧ List.Forall₂ R part some := by
  induction hSome generalizing xs with
  | slnil => exact ⟨[], List.nil_sublist _, .nil⟩
  | cons y _ ih =>
      cases hAll with
      | cons hHead hTail =>
          rcases ih hTail with ⟨part, hPart, hRel⟩
          exact ⟨part, hPart.cons _, hRel⟩
  | cons_cons y _ ih =>
      cases hAll with
      | cons hHead hTail =>
          rcases ih hTail with ⟨part, hPart, hRel⟩
          exact ⟨_ :: part, hPart.cons_cons _, .cons hHead hRel⟩

/- The returned conditions of a source, in its order. -/
theorem readFrom_of_returned
    {src : Text}
    {nodes : List Node}
    {comments : List Comment}
    {tests : List Test}
    (hParse : parse src = .ok (nodes, comments))
    (hTests :
      tests <+ (condsOf nodes).map Cond.returned) :
    ∃ written,
      written <+ writtenConds src ∧
        List.Forall₂ ReadFrom written tests := by
  refine sublist_forall₂ hTests ?_
  rw [List.forall₂_map_right_iff]
  exact (parse_conds hParse).flip.imp
    fun _ _ hFrom => hFrom.readFrom

/-
  The conditions of the profiles and of the rules of a source
  are conditions of the source, in its order. A regular
  expression without parentheses, quotes and `#` is returned
  as it was written, and kept by rendering and parsing it
  again, if and only if it is written as plain tokens with
  single blanks between them.
-/
theorem regex_operands_kept_iff (src : Text) :
    (∀ profiles, parseProfiles src = .ok profiles →
      ∃ written, written <+ writtenConds src ∧
        List.Forall₂ ReadFrom written
          (profileTests profiles)) ∧
    ∀ rules, parseRuleset src = .ok rules →
      ∃ written, written <+ writtenConds src ∧
        List.Forall₂ ReadFrom written (ruleTests rules) := by
  constructor
  · intro profiles hProfiles
    rcases parseProfiles_returned hProfiles with
      ⟨nodes, comments, hParse, hTests⟩
    exact readFrom_of_returned hParse hTests
  · intro rules hRules
    rcases parseRuleset_returned hRules with
      ⟨nodes, comments, hParse, hTests⟩
    exact readFrom_of_returned hParse hTests

/- A profile with one regular expression. -/
def matchingProfile (literal : String) : Text :=
  sourceOf
    ["profile ops \x7b",
      "  script \x7b",
      "    if (service == shell) \x7b",
      "      if (cmd =~ " ++ literal ++ ") permit",
      "    \x7d",
      "  \x7d",
      "\x7d"]

theorem regex_operands_kept_plain :
    ∃ profiles,
      parseProfiles (matchingProfile "/^show .*/") =
          .ok profiles ∧
        profileTests profiles =
            [⟨"cmd", "=~", "/^show .*/"⟩] ∧
          ∃ written,
            written <+
                writtenConds (matchingProfile "/^show .*/") ∧
              List.Forall₂ ReadFrom written
                (profileTests profiles) := by
  have hTests :
      (parseProfiles
          (matchingProfile "/^show .*/")).toOption.map
            profileTests =
        some [⟨"cmd", "=~", "/^show .*/"⟩] := by
    decide +kernel
  cases hProfiles :
      parseProfiles (matchingProfile "/^show .*/") with
  | error error =>
      rw [hProfiles] at hTests
      cases hTests
  | ok profiles =>
      rw [hProfiles] at hTests
      exact ⟨profiles, rfl, Option.some.inj hTests,
        (regex_operands_kept_iff _).1 profiles hProfiles⟩

/- The braces of a repetition come back between blanks. -/
theorem repetition_not_kept :
    RegexLiteral "/^show x\x7b2\x7d/" ∧
      writtenConds (matchingProfile "/^show x\x7b2\x7d/") =
          [⟨"service", "==", "shell"⟩,
            ⟨"cmd", "=~", "/^show x\x7b2\x7d/"⟩] ∧
        (parseProfiles
            (matchingProfile "/^show x\x7b2\x7d/")).toOption.map
              profileTests =
          some [⟨"cmd", "=~", "/^show x \x7b 2 \x7d /"⟩] := by
  refine ⟨⟨⟨"^show x\x7b2\x7d", rfl⟩, by decide⟩, ?_, ?_⟩
  · decide +kernel
  · decide +kernel

end Tacconfig

end Soteria
