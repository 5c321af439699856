import Mathlib.Data.List.Forall2
import Soteria.Tacconfig.Bodies

/-
  Rulesets that are read, written and read again.

  Every condition keeps its actions, its nested conditions
  and its default action apart, and writes them in this
  order. A ruleset whose texts survive is read again; a rule
  whose script is already in this order keeps what it does.

  Key definitions include:
    * `RuleCondition.stmt`, `Rule.stmts`
    * `survives`, `inOrder`
    * `Rule.Written`
    * `RulesetPreserved`, `RulesetKept`
    * `rulesetPreserved_of_kept`
-/

------------------------------------------------------------
-- Rules as Scripts
------------------------------------------------------------

namespace Soteria

namespace Tacconfig

mutual

/- A condition as the statement that is rendered for it. -/
def RuleCondition.stmt : RuleCondition → Stmt
| ⟨attr, operator, value, actions, children, elseActions,
    elseAction, defaultAction⟩ =>
    .cond ⟨attr, operator, value⟩
      (actionStmts actions ++ conditionStmts children ++
        textStmt defaultAction)
      (actionStmts elseActions ++ textStmt elseAction)

def conditionStmts : List RuleCondition → List Stmt
| [] => []
| rc :: rest => rc.stmt :: conditionStmts rest

end

def Rule.stmts (r : Rule) : List Stmt :=
  conditionStmts r.matchConds ++ textStmt r.defaultAction

mutual

/-
  Every text of the condition is read as it was, and what it
  compares as a condition related to it.
-/
def RuleCondition.Written
    (R : Test → Cond → Prop) : RuleCondition → Prop
| ⟨attr, operator, value, actions, children, elseActions,
    elseAction, defaultAction⟩ =>
    CondText (R ⟨attr, operator, value⟩)
        ⟨attr, operator, value⟩
        (renderCondValue operator value) ∧
      (∀ a ∈ actions, ActionWritten a) ∧
      ConditionsWritten R children ∧
      (∀ a ∈ elseActions, ActionWritten a) ∧
      (elseAction = [] ∨ isTerminalAction elseAction = true) ∧
      (defaultAction = [] ∨
        isTerminalAction defaultAction = true)

def ConditionsWritten
    (R : Test → Cond → Prop) : List RuleCondition → Prop
| [] => True
| rc :: rest => rc.Written R ∧ ConditionsWritten R rest

end

def Rule.Written
    (R : Test → Cond → Prop)
    (r : Rule) : Prop :=
  ConditionsWritten R r.matchConds ∧
    (r.defaultAction = [] ∨
      isTerminalAction r.defaultAction = true)

mutual

/- The node is the condition with all it holds. -/
def RuleCondition.Is
    (R : Test → Cond → Prop) : RuleCondition → Node → Prop
| ⟨attr, operator, value, actions, children, elseActions,
    elseAction, defaultAction⟩, n =>
    ∃ c lead conds last elseNodes startLine endLine,
      n =
          .ifNode c (lead ++ (conds ++ last)) elseNodes false
            startLine endLine ∧
        R ⟨attr, operator, value⟩ c ∧
        Statements (writtenActions actions) lead ∧
        ConditionsAre R children conds ∧
        Statements (defaultText defaultAction) last ∧
        Statements
          (writtenActions elseActions ++ defaultText elseAction)
          elseNodes

def ConditionsAre
    (R : Test → Cond → Prop) :
    List RuleCondition → List Node → Prop
| [], nodes => nodes = []
| rc :: rest, nodes =>
    ∃ n more, nodes = n :: more ∧ rc.Is R n ∧
      ConditionsAre R rest more

end

end Tacconfig

end Soteria

------------------------------------------------------------
-- Rendered Conditions
------------------------------------------------------------

namespace Soteria

namespace Tacconfig

variable {R : Test → Cond → Prop}

mutual

/- A rendered condition is read as such a node. -/
theorem renderRuleCondition_reads
    (rc : RuleCondition)
    (hWritten : rc.Written R)
    {indent rest : Text}
    {P : List Node → Prop}
    (hIndent : Indent indent)
    (hRest : ReadsNext rest P) :
    ReadsNext (renderRuleCondition indent rc ++ rest)
      fun nodes => ∃ n more, nodes = n :: more ∧ rc.Is R n ∧
        P more := by
  rcases rc with ⟨attr, operator, value, actions, children,
    elseActions, elseAction, defaultAction⟩
  rcases hWritten with
    ⟨hTest, hActions, hChildren, hElseActions, hElse, hDefault⟩
  have hDeeper := indent_deeper hIndent
  have hBody :=
    Reads.actions hDeeper hActions
      (renderRuleConditions_reads children hChildren hDeeper
        (ReadsNext.defaultOnly hDeeper hDefault)).reads
  have hElseBody :=
    Reads.actions hDeeper hElseActions
      (ReadsNext.defaultOnly hDeeper hElse).reads
  rw [renderRuleCondition]
  split
  · have hAll :=
      ReadsNext.bracedElse hIndent hTest hBody hElseBody
        hRest.reads
    have hElseLine :
        ("\x7d else \x7b\n" : Text) =
          "\x7d else \x7b" ++ "\n" := by
      repeat rw [String.toList_ofList]
      rfl
    have hEndLine : ("\x7d\n" : Text) = "\x7d" ++ "\n" := rfl
    rw [hElseLine, hEndLine]
    simp only [List.append_assoc] at hAll ⊢
    have hHead :=
      Test.text_append attr operator
        (renderCondValue operator value) indent
    simp only [List.append_assoc] at hHead
    rw [hHead]
    refine hAll.mono fun nodes hNodes => ?_
    rcases hNodes with
      ⟨c, _, _, more, first, last, rfl, hCond,
        ⟨lead, _, rfl, hLead, conds, tail, rfl, hConds, hTail⟩,
        ⟨elseLead, elseTail, rfl, hElseLead, hElseTail⟩, hMore⟩
    exact ⟨_, more, rfl,
      ⟨c, lead, conds, tail, _, first, last, rfl, hCond, hLead,
        hConds, hTail, hElseLead.append hElseTail⟩, hMore⟩
  · rename_i hNone
    have hEmpty : elseActions = [] ∧ elseAction = [] := by
      by_cases hActs : elseActions = []
      · by_cases hAct : elseAction = []
        · exact ⟨hActs, hAct⟩
        · exact (hNone (Or.inr hAct)).elim
      · exact (hNone (Or.inl hActs)).elim
    have hAll := ReadsNext.braced hIndent hTest hBody hRest
    have hEndLine : ("\x7d\n" : Text) = "\x7d" ++ "\n" := rfl
    rw [hEndLine, hEmpty.1, hEmpty.2]
    simp only [List.append_assoc, List.nil_append] at hAll ⊢
    have hHead :=
      Test.text_append attr operator
        (renderCondValue operator value) indent
    simp only [List.append_assoc] at hHead
    rw [hHead]
    refine hAll.mono fun nodes hNodes => ?_
    rcases hNodes with
      ⟨c, _, more, first, last, rfl, hCond,
        ⟨lead, _, rfl, hLead, conds, tail, rfl, hConds, hTail⟩,
        hMore⟩
    exact ⟨_, more, rfl,
      ⟨c, lead, conds, tail, [], first, last, rfl, hCond, hLead,
        hConds, hTail, .nil⟩, hMore⟩

theorem renderRuleConditions_reads
    (conds : List RuleCondition)
    (hWritten : ConditionsWritten R conds)
    {indent rest : Text}
    {P : List Node → Prop}
    (hIndent : Indent indent)
    (hRest : ReadsNext rest P) :
    ReadsNext (renderRuleConditions indent conds ++ rest)
      fun nodes => ∃ first more, nodes = first ++ more ∧
        ConditionsAre R conds first ∧ P more := by
  match conds, hWritten with
  | [], _ =>
      refine hRest.mono fun nodes hNodes => ?_
      exact ⟨[], nodes, rfl, rfl, hNodes⟩
  | rc :: others, hAll =>
      have hOthers :=
        renderRuleConditions_reads others hAll.2 hIndent hRest
      have hFirst :=
        renderRuleCondition_reads rc hAll.1 hIndent hOthers
      rw [renderRuleConditions, List.append_assoc]
      refine hFirst.mono fun nodes hNodes => ?_
      rcases hNodes with
        ⟨n, _, rfl, hNode, first, more, rfl, hFirst, hMore⟩
      exact ⟨n :: first, more, rfl,
        ⟨n, first, rfl, hNode, hFirst⟩, hMore⟩

end

mutual

/- Such a node has the script of the condition. -/
theorem RuleCondition.Is.script :
    (rc : RuleCondition) → {n : Node} →
      rc.Is Compares n →
        nodeScript n = [rc.stmt]
| ⟨attr, operator, value, actions, children, elseActions,
    elseAction, defaultAction⟩, n, hNode => by
    rcases hNode with
      ⟨c, lead, conds, last, elseNodes, _, _, rfl, hCond, hLead,
        hConds, hLast, hElse⟩
    have hInner := conditionsAre_script children hConds
    rw [nodeScript, script_append, script_append, hInner,
      hLead.script, hLast.script, hElse.script, hCond,
      defaultText_stmts, List.flatMap_append,
      defaultText_stmts, RuleCondition.stmt, List.append_assoc]
    rfl

theorem conditionsAre_script :
    (conds : List RuleCondition) → {nodes : List Node} →
      ConditionsAre Compares conds nodes →
        script nodes = conditionStmts conds
| [], _, hNodes => by
    cases hNodes
    rfl
| rc :: rest, _, hNodes => by
    rcases hNodes with ⟨n, more, rfl, hNode, hMore⟩
    have hRest := conditionsAre_script rest hMore
    rw [script, conditionStmts,
      RuleCondition.Is.script rc hNode, hRest]
    rfl

end

end Tacconfig

end Soteria

------------------------------------------------------------
-- Rendered Rulesets
------------------------------------------------------------

namespace Soteria

namespace Tacconfig

theorem heading_rule : Heading "rule" "rule" [] :=
  heading_word ⟨by decide, by decide⟩ (by decide) (by decide)

theorem heading_ruleset : Heading "ruleset" "ruleset" [] :=
  heading_word ⟨by decide, by decide⟩ (by decide) (by decide)

/- The value that is written for a rule that is enabled. -/
def enabledText (r : Rule) : Text :=
  if r.enabled then "yes" else "no"

theorem wordText_enabled (r : Rule) :
    WordText (enabledText r) := by
  have hPlain : PlainWord (enabledText r) := by
    unfold enabledText
    split
    · exact ⟨by decide, by decide⟩
    · exact ⟨by decide, by decide⟩
  exact hPlain.lexesTo 0

/- The node is the rule with its script. -/
def Rule.Is
    (R : Test → Cond → Prop)
    (r : Rule)
    (n : Node) : Prop :=
  ∃ conds last line first end_ startLine endLine,
    n =
        .block "rule" []
          [.assign "enabled" (enabledText r) line line,
            .block "script" [] (conds ++ last) first end_]
          startLine endLine ∧
      ConditionsAre R r.matchConds conds ∧
      Statements (defaultText r.defaultAction) last

/- The node is a rule with its script. -/
def RuleNode (r : Rule) (n : Node) : Prop :=
  ∃ body line first last startLine endLine,
    n =
      .block "rule" []
        [.assign "enabled" (enabledText r) line line,
          .block "script" [] body first last]
        startLine endLine ∧
      script body = r.stmts

theorem Rule.Is.ruleNode
    {r : Rule}
    {n : Node}
    (hNode : r.Is Compares n) :
    RuleNode r n := by
  rcases hNode with
    ⟨conds, last, line, first, end_, startLine, endLine, rfl,
      hConds, hLast⟩
  refine ⟨_, line, first, end_, startLine, endLine, rfl, ?_⟩
  rw [script_append, conditionsAre_script _ hConds,
    hLast.script, defaultText_stmts]
  rfl

variable {R : Test → Cond → Prop}

/- A rendered rule is read as the rule. -/
theorem renderRule_reads
    {r : Rule}
    (hWritten : r.Written R)
    {rest : Text}
    {P : List Node → Prop}
    (hRest : Reads rest P) :
    ReadsNext (renderRule r ++ rest) fun nodes =>
      ∃ n more, nodes = n :: more ∧ r.Is R n ∧ P more := by
  have hEight : Indent "        " :=
    indent_four.append indent_four
  have hScriptBody :=
    renderRuleConditions_reads r.matchConds hWritten.1
      (hEight.append indent_four)
      (ReadsNext.defaultOnly (hEight.append indent_four)
        hWritten.2)
  have hScript :=
    ReadsNext.block hEight heading_script hScriptBody.reads
      ReadsNext.nil.reads
  have hEnabledWord : PlainWord ("enabled" : Text) :=
    ⟨by decide, by decide⟩
  have hBody :=
    Reads.assign hEight (hEnabledWord.lexesTo 0) (by decide)
      (wordText_enabled r) hScript.reads
  have hRule := ReadsNext.block indent_four heading_rule hBody hRest
  have hOpen :
      ("    rule \x7b\n        enabled = " : Text) =
        "    " ++ ("rule" ++ " \x7b") ++ "\n" ++ "        " ++
          "enabled" ++ " = " := by
    repeat rw [String.toList_ofList]
    rfl
  have hScriptOpen :
      ("        script \x7b\n" : Text) =
        "        " ++ ("script" ++ " \x7b") ++ "\n" := by
    repeat rw [String.toList_ofList]
    rfl
  have hClose :
      ("        \x7d\n    \x7d\n" : Text) =
        "        " ++ "\x7d" ++ "\n" ++ "    " ++ "\x7d" ++
          "\n" := by
    repeat rw [String.toList_ofList]
    rfl
  have hDeep :
      ("            " : Text) = "        " ++ "    " := by
    repeat rw [String.toList_ofList]
    rfl
  unfold renderRule
  rw [hOpen, hScriptOpen, hClose, hDeep]
  simp only [List.append_assoc, List.append_nil] at hRule ⊢
  refine hRule.mono fun nodes hNodes => ?_
  rcases hNodes with
    ⟨_, more, first, last, rfl,
      ⟨_, line, rfl, _, _, _, _, rfl,
        ⟨conds, tail, rfl, hConds, hTail⟩, rfl⟩, hMore⟩
  exact ⟨_, more, rfl,
    ⟨conds, tail, line, _, _, first, last, rfl, hConds, hTail⟩,
    hMore⟩

theorem renderRules_read
    {rules : List Rule}
    (hWritten : ∀ r ∈ rules, r.Written R) :
    Reads (rules.flatMap renderRule)
      (List.Forall₂ (Rule.Is R) rules) := by
  induction rules with
  | nil =>
      refine ReadsNext.nil.reads.mono fun nodes hNodes => ?_
      subst hNodes
      exact .nil
  | cons r rest ih =>
      have hRest :=
        ih fun s hs => hWritten s (List.mem_cons_of_mem _ hs)
      have hFirst :=
        renderRule_reads (hWritten r (List.mem_cons_self ..))
          hRest
      refine hFirst.reads.mono fun nodes hNodes => ?_
      rcases hNodes with ⟨n, more, rfl, hNode, hMore⟩
      exact .cons hNode hMore

/- A rendered ruleset parses to its rules. -/
theorem renderRuleset_parse
    {rules : List Rule}
    (hWritten : ∀ r ∈ rules, r.Written R) :
    ∃ children startLine endLine comments,
      parse (renderRuleset rules) =
        .ok ([.block "ruleset" [] children startLine endLine],
          comments) ∧
      List.Forall₂ (Rule.Is R) rules children := by
  have hBlock :=
    ReadsNext.block indent_nil heading_ruleset
      (renderRules_read hWritten) ReadsNext.nil.reads
  have hBanner :=
    banner_skip "08-ruleset.cfg"
      "Authorization ruleset (top-down, first match wins)"
      (by decide) hBlock.reads
  have hOpen :
      ("ruleset \x7b\n" : Text) =
        "ruleset" ++ " \x7b" ++ "\n" := by
    repeat rw [String.toList_ofList]
    rfl
  have hClose : ("\x7d\n" : Text) = "\x7d" ++ "\n" := rfl
  rcases hBanner.parse with ⟨nodes, comments, hParse, hNodes⟩
  rcases hNodes with ⟨children, _, first, last, rfl, hRules, rfl⟩
  refine ⟨children, first, last, comments, ?_, hRules⟩
  unfold renderRuleset
  rw [hOpen, hClose]
  simp only [List.append_assoc, List.nil_append,
    List.append_nil] at hParse ⊢
  exact hParse

end Tacconfig

end Soteria

------------------------------------------------------------
-- What Is Kept of a Script
------------------------------------------------------------

namespace Soteria

namespace Tacconfig

mutual

/- The texts of the node that are written survive. -/
def Node.survives : Node → Bool
| .ifNode cond children elseNodes _ _ _ =>
    operandSurvives cond && allSurvive children &&
      elseNodes.all fun n => actionSurvives n.actionText
| .assign name value _ _ =>
    actionSurvives (name ++ " = " ++ value)
| .action value _ _ => actionSurvives value
| .block .. => true

def allSurvive : List Node → Bool
| [] => true
| n :: rest => n.survives && allSurvive rest

end

mutual

/- The statements of the node come in the rendered order. -/
def Node.inOrder : Node → Bool
| .ifNode _ children elseNodes _ _ _ =>
    bodyArranged children && allInOrder children &&
      elseNodes.all fun n => n.isStatement && kept n.actionText
| _ => true

def allInOrder : List Node → Bool
| [] => true
| n :: rest => n.inOrder && allInOrder rest

end

/- The conditions of a script are read as they were. -/
def scriptSurvives (nodes : List Node) : Bool :=
  allSurvive (nodes.filter Node.isIf)

/- The script comes in the order it is rendered in. -/
def scriptInOrder (nodes : List Node) : Bool :=
  scriptArranged nodes && allInOrder nodes

theorem allSurvive_iff {nodes : List Node} :
    allSurvive nodes = true ↔
      ∀ n ∈ nodes, n.survives = true := by
  induction nodes with
  | nil => simp [allSurvive]
  | cons n rest ih => simp [allSurvive, ih]

theorem allInOrder_iff {nodes : List Node} :
    allInOrder nodes = true ↔
      ∀ n ∈ nodes, n.inOrder = true := by
  induction nodes with
  | nil => simp [allInOrder]
  | cons n rest ih => simp [allInOrder, ih]

/- Only the conditions of a list of nodes matter. -/
theorem ruleConditions_filter (nodes : List Node) :
    ruleConditions (nodes.filter Node.isIf) =
      ruleConditions nodes := by
  induction nodes with
  | nil => rfl
  | cons n rest ih =>
      cases n with
      | ifNode =>
          simp only [List.filter_cons, Node.isIf, if_true,
            ruleConditions, ruleConditionFromNode, ih]
      | _ =>
          simp only [List.filter_cons, Node.isIf,
            Bool.false_eq_true, if_false, ruleConditions,
            ruleConditionFromNode, ih]

theorem actionText_survives
    {n : Node}
    (hSurvives : n.survives = true)
    (hIf : n.isIf = false) :
    actionSurvives n.actionText = true := by
  cases n with
  | ifNode => cases hIf
  | assign => simpa only [Node.survives, Node.actionText] using
      hSurvives
  | action => simpa only [Node.survives, Node.actionText] using
      hSurvives
  | block => rfl

mutual

/- A condition of a source that survives is written so. -/
theorem ruleCondition_written
    (n : Node)
    (hWritten : n.Written)
    (hSurvives : n.survives = true) :
    ∀ rc ∈ ruleConditionFromNode n, rc.Written Compares := by
  intro rc hrc
  match n, hWritten, hSurvives with
  | .assign .., _, _ => cases hrc
  | .action .., _, _ => cases hrc
  | .block .., _, _ => cases hrc
  | .ifNode cond children elseNodes _ _ _, hWritten,
    hSurvives =>
      simp only [Node.survives, Bool.and_eq_true,
        List.all_eq_true] at hSurvives
      rcases hSurvives with ⟨⟨hOperand, hChildren⟩, hElse⟩
      rcases hWritten with
        ⟨⟨hAttr, hOp⟩, hChildrenWritten, hElseWritten, _⟩
      cases hrc
      refine ⟨?_, ?_, ?_, ?_, ?_, ?_⟩
      · simp only [operandSurvives, Bool.and_eq_true,
          beq_iff_eq] at hOperand
        apply Test.Written.condText
        refine ⟨hAttr, hOp, ?_⟩
        show OperandText
          (renderCondValue cond.op (condValue cond))
          (condValue cond)
        rw [hOperand.1]
        exact operandText_of_survives hOperand.2
      · intro a ha
        have haAll := splitDefault_fst_subset ha
        rcases List.mem_map.mp haAll with ⟨m, hm, rfl⟩
        rcases List.mem_filter.mp hm with ⟨hmem, hIf⟩
        have hmSurvives := allSurvive_iff.mp hChildren m hmem
        exact actionWritten_of_node
          (hChildrenWritten.of_mem hmem)
          (actionText_survives hmSurvives (by simpa using hIf))
      · exact ruleConditions_written children
          hChildrenWritten hChildren
      · intro a ha
        have haAll := splitDefault_fst_subset ha
        rcases List.mem_map.mp haAll with ⟨m, hm, rfl⟩
        exact actionWritten_of_node (hElseWritten.of_mem hm)
          (hElse m hm)
      · exact splitDefault_snd _
      · exact splitDefault_snd _

theorem ruleConditions_written
    (nodes : List Node)
    (hWritten : WrittenAll nodes)
    (hSurvive : allSurvive nodes = true) :
    ConditionsWritten Compares (ruleConditions nodes) := by
  match nodes, hWritten, hSurvive with
  | [], _, _ => trivial
  | n :: rest, hWritten, hSurvive =>
      simp only [allSurvive, Bool.and_eq_true] at hSurvive
      have hRest :=
        ruleConditions_written rest hWritten.2 hSurvive.2
      have hHead :=
        ruleCondition_written n hWritten.1 hSurvive.1
      rw [ruleConditions]
      cases hNode : ruleConditionFromNode n with
      | none => exact hRest
      | some rc => exact ⟨hHead rc hNode, hRest⟩

end

end Tacconfig

end Soteria

------------------------------------------------------------
-- Scripts in Order
------------------------------------------------------------

namespace Soteria

namespace Tacconfig

mutual

/- In order, a condition is rendered as what it was. -/
theorem ruleCondition_stmt
    (n : Node)
    (hSurvives : n.survives = true)
    (hOrder : n.inOrder = true) :
    ∀ rc ∈ ruleConditionFromNode n, nodeScript n = [rc.stmt] := by
  intro rc hrc
  match n, hSurvives, hOrder with
  | .assign .., _, _ => cases hrc
  | .action .., _, _ => cases hrc
  | .block .., _, _ => cases hrc
  | .ifNode cond children elseNodes _ _ _, hSurvives, hOrder =>
      simp only [Node.survives, Bool.and_eq_true,
        List.all_eq_true] at hSurvives
      rcases hSurvives with ⟨⟨hOperand, hChildren⟩, _⟩
      simp only [Node.inOrder, Bool.and_eq_true,
        List.all_eq_true] at hOrder
      rcases hOrder with ⟨⟨hBody, hInner⟩, hElse⟩
      cases hrc
      rcases bodyArranged_script hBody with
        ⟨conds, hConds, hFilter, hScript⟩
      have hNested :
          script conds = conditionStmts (ruleConditions children) := by
        rw [← hFilter, ← ruleConditions_filter children]
        exact ruleConditions_stmts children hChildren hInner
      have hElseScript :
          script elseNodes =
            actionStmts
                (splitDefault
                  (elseNodes.map Node.actionText)).1 ++
              textStmt
                (splitDefault
                  (elseNodes.map Node.actionText)).2 := by
        rw [splitDefault_stmts, script_of_statements]
        · exact fun m hm => (hElse m hm).1
        · intro a ha
          rcases List.mem_map.mp ha with ⟨m, hm, rfl⟩
          exact (hElse m hm).2
      rw [nodeScript, hScript, hNested, hElseScript,
        operandSurvives_test hOperand, RuleCondition.stmt]

theorem ruleConditions_stmts
    (nodes : List Node)
    (hSurvive : allSurvive nodes = true)
    (hOrder : allInOrder nodes = true) :
    script (nodes.filter Node.isIf) =
      conditionStmts
        (ruleConditions (nodes.filter Node.isIf)) := by
  match nodes, hSurvive, hOrder with
  | [], _, _ => rfl
  | n :: rest, hSurvive, hOrder =>
      simp only [allSurvive, Bool.and_eq_true] at hSurvive
      simp only [allInOrder, Bool.and_eq_true] at hOrder
      have hRest :=
        ruleConditions_stmts rest hSurvive.2 hOrder.2
      have hHead :=
        ruleCondition_stmt n hSurvive.1 hOrder.1
      rw [List.filter_cons]
      by_cases hIf : n.isIf = true
      · rw [if_pos hIf, script, ruleConditions]
        cases hNode : ruleConditionFromNode n with
        | none =>
            cases n <;>
              simp_all [Node.isIf, ruleConditionFromNode]
        | some rc =>
            simp only []
            rw [conditionStmts, hHead rc hNode, hRest]
            rfl
      · rw [if_neg hIf]
        exact hRest

end

/- The rule that is read from a script. -/
def ruleOfScript (enabled : Bool) (nodes : List Node) : Rule :=
  ⟨enabled, ruleConditions nodes, scriptDefault nodes⟩

/- In order, a script is rendered as what it was. -/
theorem ruleOfScript_stmts
    (enabled : Bool)
    {nodes : List Node}
    (hSurvives : scriptSurvives nodes = true)
    (hOrder : scriptInOrder nodes = true) :
    script nodes = (ruleOfScript enabled nodes).stmts := by
  simp only [scriptInOrder, Bool.and_eq_true] at hOrder
  have hInner : allInOrder (nodes.filter Node.isIf) = true := by
    rw [allInOrder_iff]
    intro n hn
    exact allInOrder_iff.mp hOrder.2 n (List.mem_filter.mp hn).1
  have hConds := ruleConditions_stmts _ hSurvives hInner
  simp only [List.filter_filter, Bool.and_self] at hConds
  rw [ruleConditions_filter] at hConds
  rw [scriptArranged_script hOrder.1, hConds]
  rfl

end Tacconfig

end Soteria

------------------------------------------------------------
-- The Round Trip of a Ruleset
------------------------------------------------------------

namespace Soteria

namespace Tacconfig

theorem ruleFromNode_eq (n : Node) :
    ruleFromNode n =
      (ruleScript n).map fun s => ruleOfScript s.1 s.2 := by
  cases n with
  | block =>
      simp only [ruleFromNode, ruleScript]
      split
      · rfl
      · rfl
  | _ => rfl

/- The rules of a source, from their scripts. -/
theorem parseRuleset_of_parse
    {src : Text}
    {nodes : List Node}
    {comments : List Comment}
    (hParse : parse src = .ok (nodes, comments)) :
    parseRuleset src =
      .ok ((ruleScripts nodes).map fun s =>
        ruleOfScript s.1 s.2) := by
  unfold parseRuleset ruleScripts
  rw [hParse, List.map_filterMap]
  have hNodes :
      ruleFromNode = fun n =>
        (ruleScript n).map fun s => ruleOfScript s.1 s.2 :=
    funext ruleFromNode_eq
  rw [hNodes]
  rfl

/-
  Written and read again, the ruleset of the source keeps
  its rules, and every enabled one does what it did.
-/
def RulesetPreserved (src : Text) : Prop :=
  ∀ nodes comments rules,
    parse src = .ok (nodes, comments) →
      parseRuleset src = .ok rules →
        ∃ nodes' comments',
          parse (renderRuleset rules) = .ok (nodes', comments') ∧
            List.Forall₂
              (fun s s' => s.1 = s'.1 ∧
                (s.1 = true → ∀ holds : Test → Bool,
                  outcome holds s'.2 = outcome holds s.2))
              (ruleScripts nodes) (ruleScripts nodes')

/- Every text of the rules of the source survives. -/
def rulesetSurvives (src : Text) : Bool :=
  match parse src with
  | .ok (nodes, _) =>
      (ruleScripts nodes).all fun s => scriptSurvives s.2
  | .error _ => true

/-
  The texts of the rules survive, and the scripts of the
  enabled ones come in the rendered order.
-/
def rulesetKept (src : Text) : Bool :=
  match parse src with
  | .ok (nodes, _) =>
      (ruleScripts nodes).all fun s =>
        scriptSurvives s.2 && (!s.1 || scriptInOrder s.2)
  | .error _ => true

/- The script of a rule is written, inside its blocks. -/
theorem ruleScripts_written
    {src : Text}
    {nodes : List Node}
    {comments : List Comment}
    (hParse : parse src = .ok (nodes, comments)) :
    ∀ s ∈ ruleScripts nodes, WrittenAll s.2 := by
  intro s hs
  have hChildren :
      WrittenAll ((findBlock "ruleset" nodes).getD []) := by
    cases hFind : findBlock "ruleset" nodes with
    | none => trivial
    | some children =>
        rcases findBlock_mem hFind with ⟨_, _, _, hMem⟩
        exact (parse_written hParse hMem).2
  rcases List.mem_filterMap.mp hs with ⟨n, hn, hRule⟩
  have hNode := hChildren.of_mem hn
  cases n with
  | block name label body startLine endLine =>
      rw [ruleScript] at hRule
      split at hRule
      · cases hRule
        exact findBlock_written hNode.2
      · cases hRule
  | _ => cases hRule

/- The rule of a script that survives is written so. -/
theorem ruleOfScript_written
    {enabled : Bool}
    {nodes : List Node}
    (hWritten : WrittenAll nodes)
    (hSurvives : scriptSurvives nodes = true) :
    (ruleOfScript enabled nodes).Written Compares := by
  refine ⟨?_, scriptDefault_terminal nodes⟩
  show ConditionsWritten Compares (ruleConditions nodes)
  rw [← ruleConditions_filter]
  exact ruleConditions_written _ (hWritten.filter _) hSurvives

/- The scripts of the rules that a rendered ruleset parses to. -/
theorem ruleScripts_of_rendered
    {rules : List Rule}
    {children : List Node}
    (startLine endLine : Nat)
    (hRules : List.Forall₂ RuleNode rules children) :
    List.Forall₂
      (fun r s => s.1 = r.enabled ∧ script s.2 = r.stmts)
      rules
      (ruleScripts
        [.block "ruleset" [] children startLine endLine]) := by
  show List.Forall₂ _ rules (children.filterMap ruleScript)
  induction hRules with
  | nil => exact .nil
  | @cons r n rules children hNode _ ih =>
      rcases hNode with
        ⟨body, line, first, last, _, _, rfl, hScript⟩
      have hEnabled : (enabledText r != "no") = r.enabled := by
        unfold enabledText
        cases r.enabled <;> decide
      exact .cons ⟨hEnabled, hScript⟩ ih

/- The scripts of a ruleset whose texts survive, read again. -/
theorem renderRuleset_scripts
    {src : Text}
    {nodes : List Node}
    {comments : List Comment}
    (hParse : parse src = .ok (nodes, comments))
    (hSurvive :
      ∀ s ∈ ruleScripts nodes, scriptSurvives s.2 = true) :
    ∃ nodes' comments',
      parse
          (renderRuleset
            ((ruleScripts nodes).map fun s =>
              ruleOfScript s.1 s.2)) =
        .ok (nodes', comments') ∧
      List.Forall₂
        (fun s s' => s'.1 = s.1 ∧
          script s'.2 = (ruleOfScript s.1 s.2).stmts)
        (ruleScripts nodes) (ruleScripts nodes') := by
  have hWrittenAll := ruleScripts_written hParse
  have hWritten :
      ∀ r ∈ (ruleScripts nodes).map fun s =>
          ruleOfScript s.1 s.2,
        r.Written Compares := by
    intro r hr
    rcases List.mem_map.mp hr with ⟨s, hs, rfl⟩
    exact ruleOfScript_written (hWrittenAll s hs) (hSurvive s hs)
  rcases renderRuleset_parse hWritten with
    ⟨children, first, last, comments', hParse', hNodes⟩
  have hSame :=
    ruleScripts_of_rendered first last
      (hNodes.imp fun _ _ => Rule.Is.ruleNode)
  rw [List.forall₂_map_left_iff] at hSame
  exact ⟨_, comments', hParse', hSame⟩

/-
  Saving a ruleset keeps its decisions if its texts survive
  and its enabled scripts come in the rendered order.
-/
theorem rulesetPreserved_of_kept
    (src : Text)
    (hKept : rulesetKept src = true) :
    RulesetPreserved src := by
  intro nodes comments rules hParse hRules
  simp only [rulesetKept, hParse, List.all_eq_true,
    Bool.and_eq_true, Bool.or_eq_true, Bool.not_eq_true']
    at hKept
  rw [parseRuleset_of_parse hParse] at hRules
  cases hRules
  rcases renderRuleset_scripts hParse
      fun s hs => (hKept s hs).1 with
    ⟨nodes', comments', hParse', hSame⟩
  refine ⟨nodes', comments', hParse', ?_⟩
  have hBoth := (List.forall₂_and_left _ _).mpr ⟨hKept, hSame⟩
  refine hBoth.imp ?_
  rintro s s' ⟨⟨hSurvives, hOrder⟩, hEnabled, hScript⟩
  refine ⟨hEnabled.symm, ?_⟩
  intro hOn holds
  have hInOrder : scriptInOrder s.2 = true := by
    rw [hOn] at hOrder
    simpa using hOrder
  have hStmts :=
    ruleOfScript_stmts s.1 hSurvives hInOrder
  rw [outcome, outcome, hScript, hStmts]

/-
  Where the texts survive, saving does to a script exactly
  what reordering it does.
-/
theorem rulesetPreserved_iff_of_survives
    {src : Text}
    {nodes : List Node}
    {comments : List Comment}
    (hParse : parse src = .ok (nodes, comments))
    (hSurvives : rulesetSurvives src = true) :
    RulesetPreserved src ↔
      ∀ s ∈ ruleScripts nodes, s.1 = true →
        ∀ holds : Test → Bool,
          Script.run isTerminalAction holds
              (ruleOfScript s.1 s.2).stmts =
            outcome holds s.2 := by
  simp only [rulesetSurvives, hParse, List.all_eq_true]
    at hSurvives
  rcases renderRuleset_scripts hParse hSurvives with
    ⟨nodes', comments', hParse', hSame⟩
  have hRules := parseRuleset_of_parse hParse
  constructor
  · intro hPreserved s hs hOn holds
    rcases hPreserved nodes comments _ hParse hRules with
      ⟨others, _, hOthers, hKeep⟩
    rw [hParse'] at hOthers
    cases hOthers
    rcases List.mem_iff_get.mp hs with ⟨i, rfl⟩
    have hLength := hSame.length_eq
    have hScript :=
      (List.forall₂_iff_get.mp hSame).2 i i.isLt
        (by rw [← hLength]; exact i.isLt)
    have hOutcome :=
      (List.forall₂_iff_get.mp hKeep).2 i i.isLt
        (by rw [← hLength]; exact i.isLt)
    have hEnd := hOutcome.2 hOn holds
    rw [outcome, hScript.2] at hEnd
    exact hEnd
  · intro hRuns nodes₁ comments₁ rules hParse₁ hRules₁
    rw [hParse] at hParse₁
    cases hParse₁
    rw [hRules] at hRules₁
    cases hRules₁
    refine ⟨nodes', comments', hParse', ?_⟩
    have hBoth := (List.forall₂_and_left _ _).mpr ⟨hRuns, hSame⟩
    refine hBoth.imp ?_
    rintro s s' ⟨hRun, hEnabled, hScript⟩
    refine ⟨hEnabled.symm, fun hOn holds => ?_⟩
    rw [outcome, hScript]
    exact hRun hOn holds

/- A ruleset in order, with an else part and a nested `if`. -/
def orderedRuleset : Text :=
  sourceOf
    ["ruleset \x7b",
      "rule \x7b",
      "enabled = yes",
      "script \x7b",
      "if (nac == \"10.0.0.0/8 lab\") \x7b",
      "set priv-lvl = 15",
      "if (member == ops) \x7b",
      "profile = ops",
      "permit",
      "\x7d",
      "deny",
      "\x7d else \x7b",
      "profile = guest",
      "permit",
      "\x7d",
      "deny",
      "\x7d",
      "\x7d",
      "\x7d"]

theorem orderedRuleset_preserved :
    RulesetPreserved orderedRuleset :=
  rulesetPreserved_of_kept orderedRuleset (by decide +kernel)

/- The outcomes of the enabled rules of a source. -/
def enabledOutcomes
    (holds : Test → Bool)
    (src : Text) : List (Script.Outcome Text) :=
  match parse src with
  | .ok (nodes, _) =>
      (ruleScripts nodes).filterMap fun s =>
        if s.1 then some (outcome holds s.2) else none
  | .error _ => []

/- The source as it is written after it was read. -/
def resavedRuleset (src : Text) : Text :=
  match parseRuleset src with
  | .ok rules => renderRuleset rules
  | .error _ => []

/- A ruleset that is preserved has the same outcomes. -/
theorem RulesetPreserved.outcomes
    {src : Text}
    (hPreserved : RulesetPreserved src)
    (holds : Test → Bool) :
    (parse src).isOk = true →
      enabledOutcomes holds (resavedRuleset src) =
        enabledOutcomes holds src := by
  intro hOk
  cases hParse : parse src with
  | error error =>
      rw [hParse] at hOk
      cases hOk
  | ok parsed =>
      rcases parsed with ⟨nodes, comments⟩
      have hRules := parseRuleset_of_parse hParse
      rcases hPreserved nodes comments _ hParse hRules with
        ⟨nodes', comments', hParse', hSame⟩
      simp only [enabledOutcomes, resavedRuleset, hRules,
        hParse, hParse']
      clear hParse' hRules
      generalize ruleScripts nodes = scripts at hSame
      generalize ruleScripts nodes' = scripts' at hSame
      induction hSame with
      | nil => rfl
      | @cons s s' scripts scripts' hHead _ ih =>
          rw [List.filterMap_cons, List.filterMap_cons, ih,
            ← hHead.1]
          by_cases hOn : s.1 = true
          · simp only [hOn, if_true, hHead.2 hOn holds]
          · simp only [hOn, Bool.false_eq_true, if_false]

/- A chain of conditions in an else part. -/
def elseIfRuleset : Text :=
  sourceOf
    ["ruleset \x7b",
      "rule \x7b",
      "enabled = yes",
      "script \x7b",
      "if (member == admin) \x7b",
      "permit",
      "\x7d else \x7b",
      "if (member == ops) \x7b",
      "permit",
      "\x7d",
      "\x7d",
      "deny",
      "\x7d",
      "\x7d",
      "\x7d"]

/- Saved again, the ruleset denies what it permitted. -/
theorem elseIfRuleset_not_preserved :
    ¬ RulesetPreserved elseIfRuleset := by
  intro hPreserved
  have hSame :=
    hPreserved.outcomes (fun test => test.value == "ops")
      (by decide +kernel)
  revert hSame
  decide +kernel

end Tacconfig

end Soteria
