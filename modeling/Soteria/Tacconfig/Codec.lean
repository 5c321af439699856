import Soteria.Tacconfig.Profiles
import Soteria.Tacconfig.Rulesets
import Soteria.Tacconfig.Stable

/-
  Rulesets and profiles, rendered and parsed.

  What is rendered for a rule or a profile is read as nodes
  that hold what it holds, and these are turned back into
  the same rule or profile.

  Key definitions include:
    * `RuleCondition.Encodable`, `Rule.Encodable`
    * `parseRuleset_renderRuleset`
    * `InlineAction`, `Profile.Encodable`
    * `parseProfiles_renderProfiles`
-/

------------------------------------------------------------
-- Nodes of a Body
------------------------------------------------------------

namespace Soteria

namespace Tacconfig

/- Statements are no conditions. -/
theorem Statements.filter_not_isIf
    {texts : List Text}
    {nodes : List Node}
    (hNodes : Statements texts nodes) :
    nodes.filter (fun n => !n.isIf) = nodes :=
  Tacconfig.filter_not_isIf hNodes.statements

/- The statements around conditions are what is left. -/
theorem body_texts
    {texts more : List Text}
    {lead conds last : List Node}
    (hLead : Statements texts lead)
    (hConds : ∀ n ∈ conds, n.isIf = true)
    (hLast : Statements more last) :
    ((lead ++ (conds ++ last)).filter fun n => !n.isIf).map
        Node.actionText =
      texts ++ more := by
  rw [List.filter_append, List.filter_append,
    hLead.filter_not_isIf, filter_isIf hConds,
    hLast.filter_not_isIf, List.nil_append, List.map_append,
    hLead.texts, hLast.texts]

/- The default of a script is behind its conditions. -/
theorem scriptDefault_behind
    {conds last : List Node}
    {action : Text}
    (hConds : ∀ n ∈ conds, n.isIf = true)
    (hLast : Statements (defaultText action) last)
    (hAction :
      action = [] ∨ isTerminalAction action = true) :
    scriptDefault (conds ++ last) = action := by
  have hStatements : last.filter Node.isStatement = last :=
    List.filter_eq_self.mpr hLast.statements
  rw [scriptDefault, List.filter_append,
    scriptDefault_conds hConds, hStatements, List.nil_append,
    hLast.texts]
  unfold defaultText
  by_cases hEmpty : action = []
  · rw [if_pos hEmpty, hEmpty]
    rfl
  · have hTerminal := hAction.resolve_left hEmpty
    rw [if_neg hEmpty]
    simp [hTerminal]

end Tacconfig

end Soteria

------------------------------------------------------------
-- Rulesets
------------------------------------------------------------

namespace Soteria

namespace Tacconfig

mutual

/- The condition, and what it holds, is kept as it is. -/
def RuleCondition.Encodable : RuleCondition → Prop
| ⟨attr, operator, value, actions, children, elseActions,
    elseAction, defaultAction⟩ =>
    PlainWord attr ∧
      Operand operator value ∧
      ActionList actions defaultAction ∧
      ConditionsEncodable children ∧
      ActionList elseActions elseAction

def ConditionsEncodable : List RuleCondition → Prop
| [] => True
| rc :: rest => rc.Encodable ∧ ConditionsEncodable rest

end

structure Rule.Encodable (r : Rule) : Prop where
  matchConds : ConditionsEncodable r.matchConds
  default :
    r.defaultAction = [] ∨
      isTerminalAction r.defaultAction = true

mutual

theorem RuleCondition.Encodable.written :
    (rc : RuleCondition) → rc.Encodable → rc.Written Returns
| ⟨attr, operator, value, actions, children, elseActions,
    elseAction, defaultAction⟩, hEncodable => by
    rcases hEncodable with
      ⟨hAttr, hOperand, hActions, hChildren, hElse⟩
    exact ⟨hOperand.condText hAttr, hActions.written,
      conditionsEncodable_written children hChildren,
      hElse.written, hElse.default, hActions.default⟩

theorem conditionsEncodable_written :
    (conds : List RuleCondition) →
      ConditionsEncodable conds →
        ConditionsWritten Returns conds
| [], _ => trivial
| rc :: rest, hEncodable =>
    ⟨RuleCondition.Encodable.written rc hEncodable.1,
      conditionsEncodable_written rest hEncodable.2⟩

end

theorem conditionsAre_isIf
    {R : Test → Cond → Prop}
    {conds : List RuleCondition}
    {nodes : List Node}
    (hNodes : ConditionsAre R conds nodes) :
    ∀ n ∈ nodes, n.isIf = true := by
  induction conds generalizing nodes with
  | nil =>
      cases hNodes
      simp
  | cons rc rest ih =>
      rcases hNodes with ⟨n, more, rfl, hNode, hMore⟩
      have hFirst : n.isIf = true := by
        rcases rc
        rcases hNode with ⟨_, _, _, _, _, _, _, rfl, _⟩
        rfl
      intro m hm
      rcases List.mem_cons.mp hm with rfl | hm
      · exact hFirst
      · exact ih hMore m hm

theorem ruleConditions_append (nodes more : List Node) :
    ruleConditions (nodes ++ more) =
      ruleConditions nodes ++ ruleConditions more := by
  induction nodes with
  | nil => rfl
  | cons n rest ih =>
      rw [List.cons_append, ruleConditions, ruleConditions, ih]
      cases ruleConditionFromNode n <;> rfl

theorem ruleConditions_statements
    {texts : List Text}
    {nodes : List Node}
    (hNodes : Statements texts nodes) :
    ruleConditions nodes = [] := by
  have hFilter : nodes.filter Node.isIf = [] := by
    rw [List.filter_eq_nil_iff]
    intro n hn
    simp [not_isIf_of_statement (hNodes.statements n hn)]
  rw [← ruleConditions_filter, hFilter]
  rfl

mutual

/- The node of a condition is turned into the condition. -/
theorem RuleCondition.Is.condition :
    (rc : RuleCondition) → {n : Node} → rc.Encodable →
      rc.Is Returns n → ruleConditionFromNode n = some rc
| ⟨attr, operator, value, actions, children, elseActions,
    elseAction, defaultAction⟩, n, hEncodable, hNode => by
    rcases hEncodable with
      ⟨_, _, hActions, hChildren, hElseActions⟩
    rcases hNode with
      ⟨c, lead, conds, last, elseNodes, _, _, rfl, hCond, hLead,
        hConds, hLast, hElse⟩
    have hTexts :=
      body_texts hLead (conditionsAre_isIf hConds) hLast
    have hInner :=
      conditionsAre_conditions children hChildren hConds
    have hAll :
        ruleConditions (lead ++ (conds ++ last)) = children := by
      rw [ruleConditions_append, ruleConditions_append,
        ruleConditions_statements hLead, hInner,
        ruleConditions_statements hLast]
      simp
    have hTest :
        (⟨c.attr, c.op, condValue c⟩ : Test) =
          ⟨attr, operator, value⟩ := hCond
    cases hTest
    rw [ruleConditionFromNode, hTexts, hAll, hElse.texts,
      hActions.splitDefault, hElseActions.splitDefault]

theorem conditionsAre_conditions :
    (conds : List RuleCondition) → {nodes : List Node} →
      ConditionsEncodable conds →
        ConditionsAre Returns conds nodes →
          ruleConditions nodes = conds
| [], _, _, hNodes => by
    cases hNodes
    rfl
| rc :: rest, _, hEncodable, hNodes => by
    rcases hNodes with ⟨n, more, rfl, hNode, hMore⟩
    have hRest :=
      conditionsAre_conditions rest hEncodable.2 hMore
    have hFirst :=
      RuleCondition.Is.condition rc hEncodable.1 hNode
    rw [ruleConditions, hFirst, hRest]

end

theorem Rule.Encodable.written
    {r : Rule}
    (hEncodable : r.Encodable) :
    r.Written Returns :=
  ⟨conditionsEncodable_written _ hEncodable.matchConds,
    hEncodable.default⟩

/- The node of a rule is turned into the rule. -/
theorem Rule.Is.rule
    {r : Rule}
    {n : Node}
    (hEncodable : r.Encodable)
    (hNode : r.Is Returns n) :
    ruleFromNode n = some r := by
  rcases hNode with
    ⟨conds, last, line, first, end_, startLine, endLine, rfl,
      hConds, hLast⟩
  have hEnabled : (enabledText r != "no") = r.enabled := by
    unfold enabledText
    cases r.enabled <;> decide
  have hInner :=
    conditionsAre_conditions _ hEncodable.matchConds hConds
  have hMatches : ruleConditions (conds ++ last) = r.matchConds := by
    rw [ruleConditions_append, hInner,
      ruleConditions_statements hLast, List.append_nil]
  have hDefault :=
    scriptDefault_behind (conditionsAre_isIf hConds) hLast
      hEncodable.default
  show
    some
        (⟨enabledText r != "no", ruleConditions (conds ++ last),
          scriptDefault (conds ++ last)⟩ : Rule) =
      some r
  rw [hEnabled, hMatches, hDefault]

/- Nodes are turned back into what they were rendered for. -/
theorem filterMap_of_forall₂
    {α : Type}
    {S : α → Node → Prop}
    {f : Node → Option α}
    {xs : List α}
    {nodes : List Node}
    (hNode : ∀ a n, a ∈ xs → S a n → f n = some a)
    (hNodes : List.Forall₂ S xs nodes) :
    nodes.filterMap f = xs := by
  induction hNodes with
  | nil => rfl
  | cons hHead _ ih =>
      have hFirst := hNode _ _ (List.mem_cons_self ..) hHead
      have hRest :=
        ih fun a n ha => hNode a n (List.mem_cons_of_mem _ ha)
      rw [List.filterMap_cons, hFirst, hRest]

/- A rendered ruleset is parsed to the same rules. -/
theorem parseRuleset_renderRuleset
    {rules : List Rule}
    (hRules : ∀ r ∈ rules, r.Encodable) :
    parseRuleset (renderRuleset rules) = .ok rules := by
  rcases renderRuleset_parse fun r hr => (hRules r hr).written
    with ⟨children, first, last, comments, hParse, hNodes⟩
  have hAll : children.filterMap ruleFromNode = rules :=
    filterMap_of_forall₂
      (fun r n hr hNode => Rule.Is.rule (hRules r hr) hNode)
      hNodes
  unfold parseRuleset
  rw [hParse, ← hAll]
  rfl

/- A rule with a nested condition and an else part. -/
def nestedRule : Rule :=
  { enabled := true
    matchConds :=
      [{ attr := "member"
         operator := "=="
         value := "netops"
         actions := ["profile = netops"]
         children :=
           [{ attr := "nas"
              operator := "=="
              value := "10.0.1.1"
              actions := []
              children := []
              elseActions := []
              elseAction := ""
              defaultAction := "permit" }]
         elseActions := ["message = \"access denied\""]
         elseAction := "deny"
         defaultAction := "permit" }]
    defaultAction := "deny" }

theorem nestedRule_parsed :
    parseRuleset (renderRuleset [nestedRule]) =
      .ok [nestedRule] := by
  apply parseRuleset_renderRuleset
  intro r hr
  rw [List.mem_singleton.mp hr]
  have hAttr : PlainWord ("member" : Text) ∧
      PlainWord ("nas" : Text) :=
    ⟨⟨by decide, by decide⟩, ⟨by decide, by decide⟩⟩
  have hMember : Operand "==" "netops" :=
    .word (Or.inl rfl) ⟨by decide, by decide⟩
  have hNas : Operand "==" "10.0.1.1" :=
    .word (Or.inl rfl) ⟨by decide, by decide⟩
  have hPermit : ActionList [] "permit" :=
    ⟨by simp, Or.inr rfl, by simp⟩
  have hNone : ActionList [] "" :=
    ⟨by simp, Or.inl rfl, by simp⟩
  have hProfile : ActionList ["profile = netops"] "permit" :=
    ⟨by simpa using ⟨by decide, by decide, by decide +kernel⟩,
      Or.inr rfl, by simp⟩
  have hMessage :
      ActionList ["message = \"access denied\""] "deny" :=
    ⟨by simpa using ⟨by decide, by decide, by decide +kernel⟩,
      Or.inr rfl, by simp⟩
  have hInner :
      ConditionsEncodable
        [{ attr := "nas"
           operator := "=="
           value := "10.0.1.1"
           actions := []
           children := []
           elseActions := []
           elseAction := ""
           defaultAction := "permit" }] :=
    ⟨⟨hAttr.2, hNas, hPermit, trivial, hNone⟩, trivial⟩
  exact
    ⟨⟨⟨hAttr.1, hMember, hProfile, hInner, hMessage⟩, trivial⟩,
      Or.inr rfl⟩

end Tacconfig

end Soteria

------------------------------------------------------------
-- Profiles
------------------------------------------------------------

namespace Soteria

namespace Tacconfig

/-
  The action on the line of an `if`: its tokens are put
  together with single blanks, so it does not end in one.
-/
def InlineAction (a : Text) : Prop :=
  a = [] ∨ Stable a ∧ a.getLast? ≠ some ' '

/- The condition, and what it holds, is kept as it is. -/
structure ConditionRule.Encodable (c : ConditionRule) :
    Prop where
  attr : PlainWord c.attr
  operand : Operand c.operator c.value
  inlineForm :
    c.inline = true →
      InlineAction c.inlineAction ∧ c.actions = [] ∧
        c.defaultAction = []
  blockForm :
    c.inline = false →
      ActionList c.actions c.defaultAction ∧
        c.inlineAction = []

structure ServiceRule.Encodable (svc : ServiceRule) :
    Prop where
  service : PlainWord svc.service
  actions : ActionList svc.actions svc.defaultAction
  conditions : ∀ c ∈ svc.conditions, c.Encodable

structure Profile.Encodable (p : Profile) : Prop where
  name : PlainWord p.name
  services : ∀ svc ∈ p.services, svc.Encodable
  default :
    p.defaultAction = [] ∨
      isTerminalAction p.defaultAction = true

theorem valueText_nil : ValueText [] :=
  ⟨[], splits_nil.lexesTo, by simp, rfl⟩

theorem InlineAction.valueText
    {a : Text}
    (hAction : InlineAction a) :
    ValueText a := by
  rcases hAction with rfl | ⟨hStable, hLast⟩
  · exact valueText_nil
  · exact hStable.valueText hLast

theorem ConditionRule.Encodable.written
    {c : ConditionRule}
    (hEncodable : c.Encodable) :
    c.Written Returns := by
  refine ⟨hEncodable.operand.condText hEncodable.attr, ?_, ?_,
    ?_⟩
  · exact fun hInline =>
      (hEncodable.inlineForm hInline).1.valueText
  · cases hInline : c.inline with
    | true =>
        rw [(hEncodable.inlineForm hInline).2.1]
        simp
    | false => exact (hEncodable.blockForm hInline).1.written
  · cases hInline : c.inline with
    | true => exact Or.inl (hEncodable.inlineForm hInline).2.2
    | false => exact (hEncodable.blockForm hInline).1.default

theorem ServiceRule.Encodable.written
    {svc : ServiceRule}
    (hEncodable : svc.Encodable) :
    svc.Written Returns where
  service :=
    operandText_of_bare
      (bareSurvives_of_plainWord hEncodable.service)
  actions := hEncodable.actions.written
  conditions c hc := (hEncodable.conditions c hc).written
  default := hEncodable.actions.default

theorem Profile.Encodable.written
    {p : Profile}
    (hEncodable : p.Encodable) :
    p.Written Returns where
  name :=
    ⟨[⟨.word, p.name, 0⟩], hEncodable.name.lexesTo 0,
      by simp [Token.isText], lineOf_single _⟩
  services svc hsvc := (hEncodable.services svc hsvc).written
  default := hEncodable.default

/- The node of a condition is turned into the condition. -/
theorem ConditionRule.Is.condition
    {c : ConditionRule}
    {n : Node}
    (hEncodable : c.Encodable)
    (hNode : c.Is Returns n) :
    conditionFromNode n = some c := by
  rcases c with ⟨attr, operator, value, actions, inline,
    inlineAction, defaultAction⟩
  unfold ConditionRule.Is at hNode
  cases inline with
  | true =>
      rw [if_pos rfl] at hNode
      rcases hNode with ⟨cond, line, rfl, hCond⟩
      have hTest :
          (⟨cond.attr, cond.op, condValue cond⟩ : Test) =
            ⟨attr, operator, value⟩ := hCond
      cases hTest
      rcases hEncodable.inlineForm rfl with ⟨_, hActs, hDefault⟩
      cases hActs
      cases hDefault
      rfl
  | false =>
      rw [if_neg (by simp)] at hNode
      rcases hNode with ⟨cond, nodes, _, _, rfl, hCond, hNodes⟩
      have hTest :
          (⟨cond.attr, cond.op, condValue cond⟩ : Test) =
            ⟨attr, operator, value⟩ := hCond
      cases hTest
      rcases hEncodable.blockForm rfl with ⟨hActions, hInline⟩
      cases hInline
      have hSplit := hActions.splitDefault
      simp only [conditionFromNode, hNodes.texts, hSplit,
        Bool.false_eq_true, if_false]

theorem conditionRule_isIf
    {R : Test → Cond → Prop}
    {c : ConditionRule}
    {n : Node}
    (hNode : c.Is R n) :
    n.isIf = true := by
  unfold ConditionRule.Is at hNode
  split at hNode
  · rcases hNode with ⟨_, _, rfl, _⟩
    rfl
  · rcases hNode with ⟨_, _, _, _, rfl, _⟩
    rfl

/- What holds of each related node holds of all of them. -/
theorem forall₂_nodes
    {α : Type}
    {S : α → Node → Prop}
    {p : Node → Bool}
    {xs : List α}
    {nodes : List Node}
    (hNode : ∀ a n, S a n → p n = true)
    (hNodes : List.Forall₂ S xs nodes) :
    ∀ n ∈ nodes, p n = true := by
  induction hNodes with
  | nil => simp
  | cons hHead _ ih =>
      intro n hn
      rcases List.mem_cons.mp hn with rfl | hn
      · exact hNode _ _ hHead
      · exact ih n hn

theorem filterMap_statements
    {texts : List Text}
    {nodes : List Node}
    (hNodes : Statements texts nodes) :
    nodes.filterMap conditionFromNode = [] := by
  rw [List.filterMap_eq_nil_iff]
  intro n hn
  have hStatement := hNodes.statements n hn
  cases n with
  | ifNode => cases hStatement
  | _ => rfl

theorem ServiceRule.Is.service
    {svc : ServiceRule}
    {n : Node}
    (hEncodable : svc.Encodable)
    (hNode : svc.Is Returns n) :
    serviceFromNode n = some svc := by
  rcases hNode with
    ⟨cond, lead, conds, last, _, _, rfl, hCond, hLead, hConds,
      hLast⟩
  have hIf : ∀ n ∈ conds, n.isIf = true :=
    forall₂_nodes (fun _ _ => conditionRule_isIf) hConds
  have hTexts := body_texts hLead hIf hLast
  have hInner : conds.filterMap conditionFromNode = svc.conditions :=
    filterMap_of_forall₂
      (fun c n hc hNode =>
        ConditionRule.Is.condition
          (hEncodable.conditions c hc) hNode)
      hConds
  have hAll :
      (lead ++ (conds ++ last)).filterMap conditionFromNode =
        svc.conditions := by
    rw [List.filterMap_append, List.filterMap_append,
      filterMap_statements hLead, hInner,
      filterMap_statements hLast]
    simp
  have hService : cond.value = svc.service :=
    congrArg Test.value hCond
  simp only [serviceFromNode, hTexts, hAll, hService,
    hEncodable.actions.splitDefault]

/- The node of a profile is turned into the profile. -/
theorem Profile.Is.profile
    {p : Profile}
    {n : Node}
    (hEncodable : p.Encodable)
    (hNode : p.Is Returns n) :
    profileFromNode n = some p := by
  rcases hNode with
    ⟨services, last, first, end_, startLine, endLine, rfl,
      hServices, hLast⟩
  have hIf : ∀ n ∈ services, n.isIf = true :=
    forall₂_nodes
      (fun svc n hNode => by
        rcases hNode with ⟨_, _, _, _, _, _, rfl, _⟩
        rfl)
      hServices
  have hService : ∀ n ∈ services, n.isService = true :=
    forall₂_nodes
      (fun svc n hNode => by
        rcases hNode with ⟨c, _, _, _, _, _, rfl, hCond, _⟩
        have hAttr : c.attr = "service" :=
          congrArg Test.attr hCond
        simp [Node.isService, hAttr])
      hServices
  have hDefault :=
    scriptDefault_behind hIf hLast hEncodable.default
  have hOther : last.filter Node.isService = [] := by
    rw [List.filter_eq_nil_iff]
    intro n hn
    have hStatement := hLast.statements n hn
    cases n with
    | ifNode => cases hStatement
    | _ => simp [Node.isService]
  have hIsService :
      (services ++ last).filter Node.isService = services := by
    rw [List.filter_append, hOther, List.append_nil,
      List.filter_eq_self.mpr hService]
  have hInner : services.filterMap serviceFromNode = p.services :=
    filterMap_of_forall₂
      (fun svc n hsvc hNode =>
        ServiceRule.Is.service
          (hEncodable.services svc hsvc) hNode)
      hServices
  show
    some
        (⟨p.name,
          ((services ++ last).filter Node.isService).filterMap
            serviceFromNode,
          scriptDefault (services ++ last)⟩ : Profile) =
      some p
  rw [hIsService, hInner, hDefault]

/- Rendered profiles are parsed to the same profiles. -/
theorem parseProfiles_renderProfiles
    {profiles : List Profile}
    (hProfiles : ∀ p ∈ profiles, p.Encodable) :
    parseProfiles (renderProfiles profiles) = .ok profiles := by
  rcases renderProfiles_parse
      fun p hp => (hProfiles p hp).written with
    ⟨nodes, comments, hParse, hNodes⟩
  have hAll : nodes.filterMap profileFromNode = profiles :=
    filterMap_of_forall₂
      (fun p n hp hNode => Profile.Is.profile (hProfiles p hp)
        hNode)
      hNodes
  unfold parseProfiles
  rw [hParse, ← hAll]
  rfl

/- A profile with one action on the line of its `if`. -/
def inlineProfile (action : Text) : Profile :=
  { name := "ops"
    services :=
      [{ service := "shell"
         actions := []
         conditions :=
           [{ attr := "cmd"
              operator := "=~"
              value := "/show.*/"
              actions := []
              inline := true
              inlineAction := action
              defaultAction := "" }]
         defaultAction := "deny" }]
    defaultAction := "deny" }

theorem inlineProfile_parsed :
    parseProfiles (renderProfiles [inlineProfile "permit"]) =
      .ok [inlineProfile "permit"] := by
  apply parseProfiles_renderProfiles
  intro p hp
  rw [List.mem_singleton.mp hp]
  have hAction : InlineAction "permit" :=
    Or.inr
      ⟨⟨by decide, by decide, by decide +kernel⟩, by decide⟩
  have hRegex : Operand "=~" "/show.*/" :=
    .regex rfl ⟨["/show.*/"],
      by simpa using ⟨by decide, by decide⟩, rfl⟩
  have hDeny : ActionList [] "deny" :=
    ⟨by simp, Or.inr rfl, by simp⟩
  refine ⟨⟨by decide, by decide⟩, ?_, Or.inr rfl⟩
  intro svc hsvc
  rw [List.mem_singleton.mp hsvc]
  refine ⟨⟨by decide, by decide⟩, hDeny, ?_⟩
  intro c hc
  rw [List.mem_singleton.mp hc]
  exact ⟨⟨by decide, by decide⟩, hRegex,
    fun _ => ⟨hAction, rfl, rfl⟩, by simp⟩

/- The actions on the lines of the conditions of profiles. -/
def inlineActions (profiles : List Profile) : List Text :=
  profiles.flatMap fun p =>
    p.services.flatMap fun svc =>
      svc.conditions.map ConditionRule.inlineAction

/- An assignment without a value loses its last blank. -/
theorem emptyAssignment_not_kept :
    Stable "level = " ∧
      parseProfiles
          (renderProfiles [inlineProfile "level = "]) ≠
        .ok [inlineProfile "level = "] := by
  refine ⟨⟨by decide, by decide, by decide +kernel⟩, ?_⟩
  intro hSame
  have hActions :
      (parseProfiles
          (renderProfiles [inlineProfile "level = "])).toOption.map
            inlineActions =
        some [("level =" : Text)] := by
    unfold renderProfiles banner commentLine
    repeat rw [String.toList_ofList]
    decide +kernel
  rw [hSame] at hActions
  revert hActions
  decide

end Tacconfig

end Soteria
