import Mathlib.Data.List.Forall2
import Soteria.Tacconfig.Bodies

/-
  Profiles that are read, written and read again.

  A profile keeps the conditions on `service` of its script
  and writes each of them with `==`; a condition inside a
  service keeps its actions only.

  Key definitions include:
    * `Env`, `Env.holds`
    * `ConditionRule.stmt`, `ServiceRule.stmt`,
      `Profile.stmts`
    * `profileKept`, `profilesKept`
    * `ProfilesPreserved`
    * `profilesPreserved_of_kept`
-/

------------------------------------------------------------
-- Evaluation
------------------------------------------------------------

namespace Soteria

namespace Tacconfig

/-
  What a request brings: its service, the regular
  expressions it matches and all other conditions.
-/
structure Env where
  service : Text
  accepts : Text → Text → Bool
  other : Test → Bool

/- A condition on the service goes by its operator. -/
def Env.holds (env : Env) (test : Test) : Bool :=
  if test.attr = "service" then
    if test.op = "==" then env.service == test.value
    else if test.op = "!=" then env.service != test.value
    else if test.op = "=~" then
      env.accepts test.value env.service
    else env.other test
  else env.other test

end Tacconfig

end Soteria

------------------------------------------------------------
-- Profiles as Scripts
------------------------------------------------------------

namespace Soteria

namespace Tacconfig

def ConditionRule.stmt (c : ConditionRule) : Stmt :=
  .cond ⟨c.attr, c.operator, c.value⟩
    (if c.inline then textStmt c.inlineAction
    else actionStmts c.actions ++ textStmt c.defaultAction)
    []

def ServiceRule.stmt (svc : ServiceRule) : Stmt :=
  .cond ⟨"service", "==", svc.service⟩
    (actionStmts svc.actions ++
      (svc.conditions.map ConditionRule.stmt ++
        textStmt svc.defaultAction))
    []

def Profile.stmts (p : Profile) : List Stmt :=
  p.services.map ServiceRule.stmt ++ textStmt p.defaultAction

/-
  Every text of the condition is read as it was, and what it
  compares as a condition related to it.
-/
structure ConditionRule.Written
    (R : Test → Cond → Prop)
    (c : ConditionRule) : Prop where
  test :
    CondText (R ⟨c.attr, c.operator, c.value⟩)
      ⟨c.attr, c.operator, c.value⟩
      (renderCondValue c.operator c.value)
  inlineText : c.inline = true → ValueText c.inlineAction
  actions : ∀ a ∈ c.actions, ActionWritten a
  default :
    c.defaultAction = [] ∨
      isTerminalAction c.defaultAction = true

structure ServiceRule.Written
    (R : Test → Cond → Prop)
    (svc : ServiceRule) : Prop where
  service : OperandText svc.service svc.service
  actions : ∀ a ∈ svc.actions, ActionWritten a
  conditions : ∀ c ∈ svc.conditions, c.Written R
  default :
    svc.defaultAction = [] ∨
      isTerminalAction svc.defaultAction = true

structure Profile.Written
    (R : Test → Cond → Prop)
    (p : Profile) : Prop where
  name : LabelText p.name
  services : ∀ svc ∈ p.services, svc.Written R
  default :
    p.defaultAction = [] ∨
      isTerminalAction p.defaultAction = true

/- The node is the condition with all it holds. -/
def ConditionRule.Is
    (R : Test → Cond → Prop)
    (c : ConditionRule)
    (n : Node) : Prop :=
  if c.inline = true then
    ∃ cond line,
      n =
          .ifNode cond [.action c.inlineAction line 0] [] true
            line line ∧
        R ⟨c.attr, c.operator, c.value⟩ cond
  else
    ∃ cond nodes startLine endLine,
      n = .ifNode cond nodes [] false startLine endLine ∧
        R ⟨c.attr, c.operator, c.value⟩ cond ∧
        Statements
          (writtenActions c.actions ++
            defaultText c.defaultAction)
          nodes

def ServiceRule.Is
    (R : Test → Cond → Prop)
    (svc : ServiceRule)
    (n : Node) : Prop :=
  ∃ cond lead conds last startLine endLine,
    n =
        .ifNode cond (lead ++ (conds ++ last)) [] false
          startLine endLine ∧
      Compares ⟨"service", "==", svc.service⟩ cond ∧
      Statements (writtenActions svc.actions) lead ∧
      List.Forall₂ (ConditionRule.Is R) svc.conditions conds ∧
      Statements (defaultText svc.defaultAction) last

def Profile.Is
    (R : Test → Cond → Prop)
    (p : Profile)
    (n : Node) : Prop :=
  ∃ services last first end_ startLine endLine,
    n =
        .block "profile" p.name
          [.block "script" [] (services ++ last) first end_]
          startLine endLine ∧
      List.Forall₂ (ServiceRule.Is R) p.services services ∧
      Statements (defaultText p.defaultAction) last

end Tacconfig

end Soteria

------------------------------------------------------------
-- Rendered Profiles
------------------------------------------------------------

namespace Soteria

namespace Tacconfig

variable {R : Test → Cond → Prop}

/- A rendered condition is read as such a node. -/
theorem renderCondition_reads
    {c : ConditionRule}
    (hWritten : c.Written R)
    {indent rest : Text}
    {P : List Node → Prop}
    (hIndent : Indent indent)
    (hRest : ReadsNext rest P) :
    ReadsNext (renderCondition indent c ++ rest)
      fun nodes => ∃ n more, nodes = n :: more ∧ c.Is R n ∧
        P more := by
  unfold renderCondition ConditionRule.Is
  by_cases hInline : c.inline = true
  · have hAll :=
      ReadsNext.inline hIndent hWritten.test
        (hWritten.inlineText hInline) hRest.reads
    have hClose : (") " : Text) = ")" ++ " " := rfl
    simp only [hInline, if_true]
    unfold Test.text at hAll
    rw [hClose]
    simp only [List.append_assoc] at hAll ⊢
    refine hAll.mono fun nodes hNodes => ?_
    rcases hNodes with ⟨cond, more, line, rfl, hCond, hMore⟩
    exact ⟨_, more, rfl, ⟨cond, line, rfl, hCond⟩, hMore⟩
  · have hDeeper := indent_deeper hIndent
    have hBody :=
      Reads.actions hDeeper hWritten.actions
        (ReadsNext.defaultOnly hDeeper hWritten.default).reads
    have hAll :=
      ReadsNext.braced hIndent hWritten.test hBody hRest
    have hClose : (") \x7b\n" : Text) = ")" ++ " \x7b" ++ "\n" :=
      rfl
    have hEnd : ("\x7d\n" : Text) = "\x7d" ++ "\n" := rfl
    simp only [hInline, Bool.false_eq_true, if_false]
    unfold Test.text at hAll
    rw [hClose, hEnd]
    simp only [List.append_assoc] at hAll ⊢
    refine hAll.mono fun nodes hNodes => ?_
    rcases hNodes with
      ⟨cond, _, more, first, last, rfl, hCond,
        ⟨lead, tail, rfl, hLead, hTail⟩, hMore⟩
    exact ⟨_, more, rfl,
      ⟨cond, _, first, last, rfl, hCond, hLead.append hTail⟩,
      hMore⟩

theorem renderConditions_read
    {conds : List ConditionRule}
    (hWritten : ∀ c ∈ conds, c.Written R)
    {indent rest : Text}
    {P : List Node → Prop}
    (hIndent : Indent indent)
    (hRest : ReadsNext rest P) :
    ReadsNext (conds.flatMap (renderCondition indent) ++ rest)
      fun nodes => ∃ first more, nodes = first ++ more ∧
        List.Forall₂ (ConditionRule.Is R) conds first ∧
        P more := by
  induction conds with
  | nil =>
      refine hRest.mono fun nodes hNodes => ?_
      exact ⟨[], nodes, rfl, .nil, hNodes⟩
  | cons c others ih =>
      have hOthers :=
        ih fun d hd => hWritten d (List.mem_cons_of_mem _ hd)
      have hFirst :=
        renderCondition_reads
          (hWritten c (List.mem_cons_self ..)) hIndent hOthers
      rw [List.flatMap_cons, List.append_assoc]
      refine hFirst.mono fun nodes hNodes => ?_
      rcases hNodes with
        ⟨n, _, rfl, hNode, first, more, rfl, hFirst, hMore⟩
      exact ⟨n :: first, more, rfl, .cons hNode hFirst, hMore⟩

theorem wordText_service : WordText "service" := by
  have hPlain : PlainWord ("service" : Text) :=
    ⟨by decide, by decide⟩
  exact hPlain.lexesTo 0

theorem wordText_equality : WordText "==" :=
  (splits_operator "==" (Or.inl rfl) 0).lexesTo

/- A rendered service is read as such a node. -/
theorem renderService_reads
    {svc : ServiceRule}
    (hWritten : svc.Written R)
    {rest : Text}
    {P : List Node → Prop}
    (hRest : ReadsNext rest P) :
    ReadsNext (renderService svc ++ rest)
      fun nodes => ∃ n more, nodes = n :: more ∧ svc.Is R n ∧
        P more := by
  have hEight : Indent "        " :=
    indent_four.append indent_four
  have hTwelve : Indent "            " :=
    hEight.append indent_four
  have hTest :
      Test.Written ⟨"service", "==", svc.service⟩ svc.service :=
    ⟨wordText_service, wordText_equality, hWritten.service⟩
  have hBody :=
    Reads.actions hTwelve hWritten.actions
      (renderConditions_read hWritten.conditions hTwelve
        (ReadsNext.defaultOnly hTwelve hWritten.default)).reads
  have hAll := ReadsNext.braced hEight hTest.condText hBody hRest
  have hOpen :
      ("        if (service == " : Text) =
        "        " ++ ("if (" ++ "service" ++ " " ++ "==" ++
          " ") := by
    repeat rw [String.toList_ofList]
    rfl
  have hClose : (") \x7b\n" : Text) = ")" ++ " \x7b" ++ "\n" :=
    rfl
  have hEnd :
      ("        \x7d\n" : Text) =
        "        " ++ "\x7d" ++ "\n" := by
    repeat rw [String.toList_ofList]
    rfl
  unfold renderService
  unfold Test.text at hAll
  rw [hOpen, hClose, hEnd]
  simp only [List.append_assoc] at hAll ⊢
  refine hAll.mono fun nodes hNodes => ?_
  rcases hNodes with
    ⟨c, _, more, first, last, rfl, hCond,
      ⟨lead, _, rfl, hLead, conds, tail, rfl, hConds, hTail⟩,
      hMore⟩
  exact ⟨_, more, rfl,
    ⟨c, lead, conds, tail, first, last, rfl, hCond, hLead,
      hConds, hTail⟩, hMore⟩

theorem renderServices_read
    {services : List ServiceRule}
    (hWritten : ∀ svc ∈ services, svc.Written R)
    {rest : Text}
    {P : List Node → Prop}
    (hRest : ReadsNext rest P) :
    ReadsNext (services.flatMap renderService ++ rest)
      fun nodes => ∃ first more, nodes = first ++ more ∧
        List.Forall₂ (ServiceRule.Is R) services first ∧
        P more := by
  induction services with
  | nil =>
      refine hRest.mono fun nodes hNodes => ?_
      exact ⟨[], nodes, rfl, .nil, hNodes⟩
  | cons svc others ih =>
      have hOthers :=
        ih fun s hs => hWritten s (List.mem_cons_of_mem _ hs)
      have hFirst :=
        renderService_reads
          (hWritten svc (List.mem_cons_self ..)) hOthers
      rw [List.flatMap_cons, List.append_assoc]
      refine hFirst.mono fun nodes hNodes => ?_
      rcases hNodes with
        ⟨n, _, rfl, hNode, first, more, rfl, hFirst, hMore⟩
      exact ⟨n :: first, more, rfl, .cons hNode hFirst, hMore⟩

/- The line that opens a profile, with its label. -/
theorem heading_profile
    {name : Text}
    {words : List Token}
    (hLexes : LexesTo name words)
    (hWords : ∀ t ∈ words, t.isText = true) :
    Heading ("profile " ++ name) "profile" words where
  lexes := by
    have hPlain : PlainWord ("profile" : Text) :=
      ⟨by decide, by decide⟩
    exact (hPlain.lexesTo 0).blank.append_lexesTo hLexes
  isText := hWords
  notIf := by decide
  notElse := by decide

/- The node is a profile with its script. -/
def ProfileNode (p : Profile) (n : Node) : Prop :=
  ∃ body first last startLine endLine,
    n =
      .block "profile" p.name
        [.block "script" [] body first last] startLine
        endLine ∧
      script body = p.stmts

/- Such a node has the script of the condition. -/
theorem ConditionRule.Is.script
    {c : ConditionRule}
    {n : Node}
    (hNode : c.Is Compares n) :
    nodeScript n = [c.stmt] := by
  unfold ConditionRule.Is at hNode
  unfold ConditionRule.stmt
  by_cases hInline : c.inline = true
  · rw [if_pos hInline] at hNode ⊢
    rcases hNode with ⟨cond, line, rfl, hCond⟩
    rw [nodeScript, hCond]
    simp [Tacconfig.script, nodeScript]
  · rw [if_neg hInline] at hNode ⊢
    rcases hNode with ⟨cond, nodes, _, _, rfl, hCond, hNodes⟩
    rw [nodeScript, hNodes.script, hCond,
      List.flatMap_append, defaultText_stmts]
    rfl

/- Nodes with these statements have this script. -/
theorem script_of_forall₂
    {α : Type}
    {S : α → Node → Prop}
    {stmt : α → Stmt}
    (hNode : ∀ a n, S a n → nodeScript n = [stmt a])
    {xs : List α}
    {nodes : List Node}
    (hNodes : List.Forall₂ S xs nodes) :
    script nodes = xs.map stmt := by
  induction hNodes with
  | nil => rfl
  | cons hHead _ ih =>
      rw [script, hNode _ _ hHead, ih, List.map_cons]
      rfl

theorem ServiceRule.Is.script
    {svc : ServiceRule}
    {n : Node}
    (hNode : svc.Is Compares n) :
    nodeScript n = [svc.stmt] := by
  rcases hNode with
    ⟨cond, lead, conds, last, _, _, rfl, hCond, hLead, hConds,
      hLast⟩
  have hInner :=
    script_of_forall₂ (fun c _ => @ConditionRule.Is.script c _)
      hConds
  rw [nodeScript, script_append, script_append, hLead.script,
    hInner, hLast.script, hCond, defaultText_stmts]
  rfl

theorem Profile.Is.profileNode
    {p : Profile}
    {n : Node}
    (hNode : p.Is Compares n) :
    ProfileNode p n := by
  rcases hNode with
    ⟨services, last, first, end_, startLine, endLine, rfl,
      hServices, hLast⟩
  refine ⟨_, first, end_, startLine, endLine, rfl, ?_⟩
  have hInner :=
    script_of_forall₂ (fun svc _ => @ServiceRule.Is.script svc _)
      hServices
  rw [script_append, hInner, hLast.script, defaultText_stmts]
  rfl

/- A rendered profile is read as a profile. -/
theorem renderProfile_reads
    {p : Profile}
    (hWritten : p.Written R)
    {rest : Text}
    {P : List Node → Prop}
    (hRest : Reads rest P) :
    ReadsNext (renderProfile p ++ rest) fun nodes =>
      ∃ n more, nodes = n :: more ∧ p.Is R n ∧ P more := by
  rcases hWritten.name with ⟨words, hLexes, hWords, hName⟩
  have hEight : Indent "        " :=
    indent_four.append indent_four
  have hScriptBody :=
    renderServices_read hWritten.services
      (ReadsNext.defaultOnly hEight hWritten.default)
  have hScript :=
    ReadsNext.block indent_four heading_script
      hScriptBody.reads ReadsNext.nil.reads
  have hAll :=
    ReadsNext.block indent_nil (heading_profile hLexes hWords)
      hScript.reads (Reads.skip lexesLines_blank hRest)
  have hOpen :
      (" \x7b\n    script \x7b\n" : Text) =
        " \x7b" ++ "\n" ++ "    " ++ "script" ++ " \x7b" ++
          "\n" := by
    repeat rw [String.toList_ofList]
    rfl
  have hClose :
      ("    \x7d\n\x7d\n\n" : Text) =
        "    " ++ "\x7d" ++ "\n" ++ "\x7d" ++ "\n" ++ "\n" := by
    repeat rw [String.toList_ofList]
    rfl
  unfold renderProfile
  rw [hOpen, hClose]
  simp only [List.append_assoc, List.append_nil,
    List.nil_append] at hAll ⊢
  refine hAll.mono fun nodes hNodes => ?_
  rcases hNodes with
    ⟨_, more, first, last, rfl,
      ⟨_, _, _, _, rfl,
        ⟨services, tail, rfl, hServices, hTail⟩, rfl⟩,
      hMore⟩
  refine ⟨_, more, rfl, ?_, hMore⟩
  rw [hName]
  exact ⟨services, tail, _, _, first, last, rfl, hServices,
    hTail⟩

theorem renderProfileList_reads
    {profiles : List Profile}
    (hWritten : ∀ p ∈ profiles, p.Written R) :
    Reads (profiles.flatMap renderProfile)
      (List.Forall₂ (Profile.Is R) profiles) := by
  induction profiles with
  | nil =>
      refine ReadsNext.nil.reads.mono fun nodes hNodes => ?_
      subst hNodes
      exact .nil
  | cons p rest ih =>
      have hRest :=
        ih fun q hq => hWritten q (List.mem_cons_of_mem _ hq)
      have hFirst :=
        renderProfile_reads
          (hWritten p (List.mem_cons_self ..)) hRest
      refine hFirst.reads.mono fun nodes hNodes => ?_
      rcases hNodes with ⟨n, more, rfl, hNode, hMore⟩
      exact .cons hNode hMore

/- Rendered profiles parse to their nodes. -/
theorem renderProfiles_parse
    {profiles : List Profile}
    (hWritten : ∀ p ∈ profiles, p.Written R) :
    ∃ nodes comments,
      parse (renderProfiles profiles) = .ok (nodes, comments) ∧
        List.Forall₂ (Profile.Is R) profiles nodes := by
  have hBanner :=
    banner_skip "07-profiles.cfg" "Authorization profiles"
      (by decide)
      (renderProfileList_reads hWritten)
  exact hBanner.parse

end Tacconfig

end Soteria

------------------------------------------------------------
-- What Is Kept of a Profile
------------------------------------------------------------

namespace Soteria

namespace Tacconfig

/- The nodes do nothing. -/
def silent (nodes : List Node) : Bool :=
  nodes.all fun n => n.isStatement && n.actionText == []

/- A condition inside a service, read as it was. -/
def conditionKept : Node → Bool
| .ifNode cond children elseNodes inline _ _ =>
    operandSurvives cond && silent elseNodes &&
      (inline ||
        children.all fun n =>
          n.isStatement && kept n.actionText &&
            actionSurvives n.actionText)
| _ => true

/- A condition of a profile, read as it was. -/
def serviceKept : Node → Bool
| .ifNode cond children elseNodes _ _ _ =>
    cond.attr == "service" && cond.op == "==" &&
      bareSurvives cond.value && silent elseNodes &&
      bodyArranged children &&
      children.all fun n =>
        conditionKept n && (n.isIf || actionSurvives n.actionText)
| _ => true

/- A script of a profile, read as it was. -/
def profileKept (nodes : List Node) : Bool :=
  scriptArranged nodes && nodes.all serviceKept

theorem silent_script
    {nodes : List Node}
    (hSilent : silent nodes = true) :
    script nodes = [] := by
  simp only [silent, List.all_eq_true, Bool.and_eq_true,
    beq_iff_eq] at hSilent
  rw [script_of_statements fun n hn => (hSilent n hn).1,
    List.flatMap_eq_nil_iff]
  intro a ha
  rcases List.mem_map.mp ha with ⟨n, hn, rfl⟩
  rw [(hSilent n hn).2]
  rfl

/- The actions of statements, taken apart and together. -/
theorem statements_stmts
    {nodes : List Node}
    (hStatements : ∀ n ∈ nodes, n.isStatement = true)
    (hKept : ∀ n ∈ nodes, kept n.actionText = true) :
    script nodes =
      actionStmts (splitDefault (nodes.map Node.actionText)).1 ++
        textStmt (splitDefault (nodes.map Node.actionText)).2 := by
  rw [splitDefault_stmts, script_of_statements hStatements]
  intro a ha
  rcases List.mem_map.mp ha with ⟨n, hn, rfl⟩
  exact hKept n hn

/- The written actions of nodes, split from their default. -/
theorem splitDefault_written
    {nodes : List Node}
    (hWritten : WrittenAll nodes)
    (hSurvive : ∀ n ∈ nodes, actionSurvives n.actionText = true) :
    ∀ a ∈ (splitDefault (nodes.map Node.actionText)).1,
      ActionWritten a := by
  intro a ha
  rcases List.mem_map.mp (splitDefault_fst_subset ha) with
    ⟨n, hn, rfl⟩
  exact actionWritten_of_node (hWritten.of_mem hn)
    (hSurvive n hn)

/- A condition that is kept, as it is rendered. -/
theorem conditionFromNode_kept
    {n : Node}
    (hWritten : n.Written)
    (hKept : conditionKept n = true) :
    ∀ c ∈ conditionFromNode n,
      c.Written Compares ∧ nodeScript n = [c.stmt] := by
  intro c hc
  cases n with
  | ifNode cond children elseNodes inline first last =>
      simp only [conditionKept, Bool.and_eq_true,
        Bool.or_eq_true, List.all_eq_true] at hKept
      rcases hKept with ⟨⟨hOperand, hSilent⟩, hBody⟩
      rcases hWritten with
        ⟨⟨hAttr, hOp⟩, hChildren, _, hInline⟩
      have hTest :
          Test.Written ⟨cond.attr, cond.op, condValue cond⟩
            (renderCondValue cond.op (condValue cond)) := by
        refine ⟨hAttr, hOp, ?_⟩
        have hBoth := hOperand
        simp only [operandSurvives, Bool.and_eq_true,
          beq_iff_eq] at hBoth
        show OperandText _ (condValue cond)
        rw [hBoth.1]
        exact operandText_of_survives hBoth.2
      have hScript :
          nodeScript
              (.ifNode cond children elseNodes inline first
                last) =
            [.cond ⟨cond.attr, cond.op, condValue cond⟩
              (script children) []] := by
        rw [nodeScript, silent_script hSilent,
          operandSurvives_test hOperand]
      by_cases hOn : inline = true
      · rcases hInline hOn with
          ⟨value, line, rfl, hValue, _⟩
        simp only [conditionFromNode, hOn, if_true,
          Option.mem_some] at hc
        subst hc
        refine ⟨⟨hTest.condText, fun _ => hValue, by simp,
          Or.inl rfl⟩, ?_⟩
        rw [hScript]
        simp [script, nodeScript, ConditionRule.stmt,
          Node.actionText]
      · have hAll := hBody.resolve_left hOn
        simp only [conditionFromNode, hOn, Bool.false_eq_true,
          if_false, Option.mem_some] at hc
        subst hc
        refine ⟨⟨hTest.condText, by simp, ?_,
          splitDefault_snd _⟩, ?_⟩
        · exact splitDefault_written hChildren
            fun m hm => (hAll m hm).2
        · rw [hScript, statements_stmts
            (fun m hm => (hAll m hm).1.1)
            (fun m hm => (hAll m hm).1.2)]
          rfl
  | _ => cases hc

/- The conditions of a service, as they are rendered. -/
theorem conditions_kept
    {nodes : List Node}
    (hWritten : WrittenAll nodes)
    (hKept : ∀ n ∈ nodes, conditionKept n = true) :
    (∀ c ∈ nodes.filterMap conditionFromNode,
        c.Written Compares) ∧
      script (nodes.filter Node.isIf) =
        (nodes.filterMap conditionFromNode).map
          ConditionRule.stmt := by
  induction nodes with
  | nil => exact ⟨by simp, rfl⟩
  | cons n rest ih =>
      have hRest :=
        ih hWritten.2 fun m hm =>
          hKept m (List.mem_cons_of_mem _ hm)
      have hHead :=
        conditionFromNode_kept hWritten.1
          (hKept n (List.mem_cons_self ..))
      rw [List.filterMap_cons, List.filter_cons]
      cases hNode : conditionFromNode n with
      | none =>
          have hIf : n.isIf = false := by
            cases n with
            | ifNode =>
                simp only [conditionFromNode] at hNode
                split at hNode
                · split at hNode <;> cases hNode
                · cases hNode
            | _ => rfl
          simp only [hIf, Bool.false_eq_true, if_false]
          exact hRest
      | some c =>
          have hIf : n.isIf = true := by
            cases n with
            | ifNode => rfl
            | _ => cases hNode
          have hc := hHead c hNode
          simp only [hIf, if_true, List.map_cons]
          refine ⟨?_, ?_⟩
          · intro d hd
            rcases List.mem_cons.mp hd with rfl | hd
            · exact hc.1
            · exact hRest.1 d hd
          · rw [script, hc.2, hRest.2]
            rfl

/- A service that is kept, as it is rendered. -/
theorem serviceFromNode_kept
    {n : Node}
    (hWritten : n.Written)
    (hKept : serviceKept n = true) :
    ∀ svc ∈ serviceFromNode n,
      svc.Written Compares ∧ nodeScript n = [svc.stmt] := by
  intro svc hsvc
  cases n with
  | ifNode cond children elseNodes inline =>
      simp only [serviceKept, Bool.and_eq_true, beq_iff_eq,
        List.all_eq_true, Bool.or_eq_true] at hKept
      rcases hKept with
        ⟨⟨⟨⟨⟨hAttr, hOp⟩, hValue⟩, hSilent⟩, hBody⟩, hAll⟩
      rcases hWritten with ⟨_, hChildren, _, _⟩
      simp only [serviceFromNode, Option.mem_some] at hsvc
      subst hsvc
      have hConds :=
        conditions_kept hChildren fun m hm => (hAll m hm).1
      refine ⟨⟨operandText_of_bare hValue, ?_, hConds.1,
        splitDefault_snd _⟩, ?_⟩
      · refine splitDefault_written (hChildren.filter _) ?_
        intro m hm
        rcases List.mem_filter.mp hm with ⟨hmem, hIf⟩
        rcases (hAll m hmem).2 with hIsIf | hText
        · simp [hIsIf] at hIf
        · exact hText
      · rcases bodyArranged_script hBody with
          ⟨conds, _, hFilter, hScript⟩
        have hTest :
            cond.test = ⟨"service", "==", cond.value⟩ := by
          rw [Cond.test, hAttr, hOp]
        rw [nodeScript, silent_script hSilent, hScript, ← hFilter,
          hConds.2, hTest]
        simp [ServiceRule.stmt]
  | _ => cases hsvc

end Tacconfig

end Soteria

------------------------------------------------------------
-- The Round Trip of Profiles
------------------------------------------------------------

namespace Soteria

namespace Tacconfig

/-
  Written and read again, the profiles of the source keep
  their names, and every one does what it did.
-/
def ProfilesPreserved (src : Text) : Prop :=
  ∀ nodes comments profiles,
    parse src = .ok (nodes, comments) →
      parseProfiles src = .ok profiles →
        ∃ nodes' comments',
          parse (renderProfiles profiles) =
              .ok (nodes', comments') ∧
            List.Forall₂
              (fun s s' => s.1 = s'.1 ∧
                ∀ env : Env,
                  outcome env.holds s'.2 =
                    outcome env.holds s.2)
              (profileScripts nodes) (profileScripts nodes')

/- Every script of the source is read as it was. -/
def profilesKept (src : Text) : Bool :=
  match parse src with
  | .ok (nodes, _) =>
      (profileScripts nodes).all fun s => profileKept s.2
  | .error _ => true

/- The profile that is read from a script. -/
def profileOfScript (name : Text) (nodes : List Node) :
    Profile :=
  { name := name
    services :=
      (nodes.filter Node.isService).filterMap serviceFromNode
    defaultAction := scriptDefault nodes }

theorem profileFromNode_eq (n : Node) :
    profileFromNode n =
      (profileScript n).map fun s =>
        profileOfScript s.1 s.2 := by
  cases n with
  | block name label children =>
      simp only [profileFromNode, profileScript]
      split
      · cases findBlock "script" children <;> rfl
      · rfl
  | _ => rfl

theorem parseProfiles_of_parse
    {src : Text}
    {nodes : List Node}
    {comments : List Comment}
    (hParse : parse src = .ok (nodes, comments)) :
    parseProfiles src =
      .ok ((profileScripts nodes).map fun s =>
        profileOfScript s.1 s.2) := by
  unfold parseProfiles profileScripts
  rw [hParse, List.map_filterMap]
  have hNodes :
      profileFromNode = fun n =>
        (profileScript n).map fun s =>
          profileOfScript s.1 s.2 :=
    funext profileFromNode_eq
  rw [hNodes]
  rfl

/- The services of a script that is kept are its conditions. -/
theorem filter_isService
    {nodes : List Node}
    (hKept : ∀ n ∈ nodes, serviceKept n = true) :
    nodes.filter Node.isService = nodes.filter Node.isIf := by
  refine List.filter_congr ?_
  intro n hn
  cases n with
  | ifNode cond =>
      have hAll := hKept _ hn
      simp only [serviceKept, Bool.and_eq_true, beq_iff_eq]
        at hAll
      simp [Node.isService, Node.isIf, hAll.1.1.1.1.1]
  | _ => rfl

theorem services_kept
    {nodes : List Node}
    (hWritten : WrittenAll nodes)
    (hKept : ∀ n ∈ nodes, serviceKept n = true) :
    (∀ svc ∈ nodes.filterMap serviceFromNode,
        svc.Written Compares) ∧
      script (nodes.filter Node.isIf) =
        (nodes.filterMap serviceFromNode).map
          ServiceRule.stmt := by
  induction nodes with
  | nil => exact ⟨by simp, rfl⟩
  | cons n rest ih =>
      have hRest :=
        ih hWritten.2 fun m hm =>
          hKept m (List.mem_cons_of_mem _ hm)
      have hHead :=
        serviceFromNode_kept hWritten.1
          (hKept n (List.mem_cons_self ..))
      rw [List.filterMap_cons, List.filter_cons]
      cases hNode : serviceFromNode n with
      | none =>
          have hIf : n.isIf = false := by
            cases n with
            | ifNode => cases hNode
            | _ => rfl
          simp only [hIf, Bool.false_eq_true, if_false]
          exact hRest
      | some svc =>
          have hIf : n.isIf = true := by
            cases n with
            | ifNode => rfl
            | _ => cases hNode
          have hsvc := hHead svc hNode
          simp only [hIf, if_true, List.map_cons]
          refine ⟨?_, ?_⟩
          · intro other hOther
            rcases List.mem_cons.mp hOther with rfl | hOther
            · exact hsvc.1
            · exact hRest.1 other hOther
          · rw [script, hsvc.2, hRest.2]
            rfl

/- Only conditions are services. -/
theorem filterMap_serviceFromNode (nodes : List Node) :
    (nodes.filter Node.isIf).filterMap serviceFromNode =
      nodes.filterMap serviceFromNode := by
  rw [List.filterMap_filter]
  congr 1
  funext n
  cases n <;> rfl

/- A profile whose script is kept, as it is rendered. -/
theorem profileOfScript_kept
    {name : Text}
    {nodes : List Node}
    (hName : LabelText name)
    (hWritten : WrittenAll nodes)
    (hKept : profileKept nodes = true) :
    (profileOfScript name nodes).Written Compares ∧
      script nodes = (profileOfScript name nodes).stmts := by
  simp only [profileKept, Bool.and_eq_true, List.all_eq_true]
    at hKept
  have hServices := services_kept hWritten hKept.2
  have hSame :
      (profileOfScript name nodes).services =
        nodes.filterMap serviceFromNode := by
    rw [profileOfScript]
    simp only []
    rw [filter_isService hKept.2, filterMap_serviceFromNode]
  refine ⟨⟨hName, ?_, scriptDefault_terminal nodes⟩, ?_⟩
  · rw [hSame]
    exact hServices.1
  · rw [Profile.stmts, hSame, scriptArranged_script hKept.1,
      hServices.2]
    rfl

/- The profiles of a source are written, inside their blocks. -/
theorem profileScripts_written
    {src : Text}
    {nodes : List Node}
    {comments : List Comment}
    (hParse : parse src = .ok (nodes, comments)) :
    ∀ s ∈ profileScripts nodes,
      LabelText s.1 ∧ WrittenAll s.2 := by
  intro s hs
  rcases List.mem_filterMap.mp hs with ⟨n, hn, hProfile⟩
  cases n with
  | block name label children =>
      have hNode := parse_written hParse hn
      rw [profileScript] at hProfile
      split at hProfile
      · cases hProfile
        exact ⟨hNode.1, findBlock_written hNode.2⟩
      · cases hProfile
  | _ => cases hProfile

/- The scripts of the profiles that were rendered. -/
theorem profileScripts_of_rendered
    {profiles : List Profile}
    {nodes : List Node}
    (hProfiles : List.Forall₂ ProfileNode profiles nodes) :
    List.Forall₂
      (fun p s => s.1 = p.name ∧ script s.2 = p.stmts)
      profiles (profileScripts nodes) := by
  induction hProfiles with
  | nil => exact .nil
  | @cons p n profiles nodes hNode _ ih =>
      rcases hNode with ⟨body, _, _, _, _, rfl, hScript⟩
      exact .cons ⟨rfl, hScript⟩ ih

/-
  Saving profiles keeps their decisions if every script is
  one that is read as it was.
-/
theorem profilesPreserved_of_kept
    (src : Text)
    (hKept : profilesKept src = true) :
    ProfilesPreserved src := by
  intro nodes comments profiles hParse hProfiles
  simp only [profilesKept, hParse, List.all_eq_true] at hKept
  rw [parseProfiles_of_parse hParse] at hProfiles
  cases hProfiles
  have hScripts :
      ∀ s ∈ profileScripts nodes,
        (profileOfScript s.1 s.2).Written Compares ∧
          script s.2 = (profileOfScript s.1 s.2).stmts := by
    intro s hs
    have hWritten := profileScripts_written hParse s hs
    exact profileOfScript_kept hWritten.1 hWritten.2 (hKept s hs)
  have hWritten :
      ∀ p ∈ (profileScripts nodes).map fun s =>
          profileOfScript s.1 s.2,
        p.Written Compares := by
    intro p hp
    rcases List.mem_map.mp hp with ⟨s, hs, rfl⟩
    exact (hScripts s hs).1
  rcases renderProfiles_parse hWritten with
    ⟨nodes', comments', hParse', hNodes⟩
  refine ⟨nodes', comments', hParse', ?_⟩
  have hSame :=
    profileScripts_of_rendered
      (hNodes.imp fun _ _ => Profile.Is.profileNode)
  rw [List.forall₂_map_left_iff] at hSame
  have hBoth :=
    (List.forall₂_and_left _ _).mpr ⟨hScripts, hSame⟩
  refine hBoth.imp ?_
  rintro s s' ⟨⟨_, hStmts⟩, hName, hScript⟩
  refine ⟨hName.symm, fun env => ?_⟩
  rw [outcome, outcome, hScript, hStmts]

/- A profile with a service, a command and a default. -/
def orderedProfiles : Text :=
  sourceOf
    ["profile ops \x7b",
      "script \x7b",
      "if (service == shell) \x7b",
      "set priv-lvl = 15",
      "if (cmd =~ /show.*/) permit",
      "if (cmd == \"\") \x7b",
      "set idletime = 10",
      "permit",
      "\x7d",
      "deny",
      "\x7d",
      "deny",
      "\x7d",
      "\x7d"]

theorem orderedProfiles_preserved :
    ProfilesPreserved orderedProfiles :=
  profilesPreserved_of_kept orderedProfiles (by decide +kernel)

/- The outcomes of the profiles of a source. -/
def profileOutcomes
    (env : Env)
    (src : Text) : List (Script.Outcome Text) :=
  match parse src with
  | .ok (nodes, _) =>
      (profileScripts nodes).map fun s => outcome env.holds s.2
  | .error _ => []

/- The source as it is written after it was read. -/
def resavedProfiles (src : Text) : Text :=
  match parseProfiles src with
  | .ok profiles => renderProfiles profiles
  | .error _ => []

/- Profiles that are preserved have the same outcomes. -/
theorem ProfilesPreserved.outcomes
    {src : Text}
    (hPreserved : ProfilesPreserved src)
    (env : Env)
    (hOk : (parse src).isOk = true) :
    profileOutcomes env (resavedProfiles src) =
      profileOutcomes env src := by
  cases hParse : parse src with
  | error error =>
      rw [hParse] at hOk
      cases hOk
  | ok parsed =>
      rcases parsed with ⟨nodes, comments⟩
      have hProfiles := parseProfiles_of_parse hParse
      rcases hPreserved nodes comments _ hParse hProfiles with
        ⟨nodes', comments', hParse', hSame⟩
      simp only [profileOutcomes, resavedProfiles, hProfiles,
        hParse, hParse']
      clear hParse' hProfiles
      generalize profileScripts nodes = scripts at hSame
      generalize profileScripts nodes' = scripts' at hSame
      induction hSame with
      | nil => rfl
      | @cons s s' scripts scripts' hHead _ ih =>
          rw [List.map_cons, List.map_cons, ih, hHead.2 env]

/- A profile for every service but one. -/
def invertedProfiles : Text :=
  sourceOf
    ["profile ops \x7b",
      "script \x7b",
      "if (service != shell) \x7b",
      "permit",
      "\x7d",
      "deny",
      "\x7d",
      "\x7d"]

/- Saved again, the profile permits what it denied. -/
theorem invertedProfiles_not_preserved :
    ¬ ProfilesPreserved invertedProfiles := by
  intro hPreserved
  have hSame :=
    hPreserved.outcomes
      ⟨"shell", fun _ _ => false, fun _ => false⟩
      (by decide +kernel)
  revert hSame
  decide +kernel

end Tacconfig

end Soteria
