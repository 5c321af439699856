import Soteria.Foundation.Alignment
import Soteria.Frontend.Users
import Soteria.Tacconfig.Render

/-
  The live previews of the profile and ruleset pages, against
  what the agent writes to the config files.

  Key definitions include:
    * `buildProfileConfig`, `buildRulesetConfig`
    * `Style`, `agentStyle`, `scriptStyle`
    * `ProfilePreviewed`, `RulesetPreviewed`
    * `previews_iff`
-/

------------------------------------------------------------
-- The Pages
------------------------------------------------------------

namespace Soteria

namespace Frontend

open Tacconfig

/- The indentation of a line. -/
def tabs (depth : Nat) : Text :=
  Text.repeated "    " depth

/- The value in quotes. -/
def inQuotes (value : Text) : Text :=
  "\"" ++ value ++ "\""

/- The lines of the actions that are not blank. -/
def previewActions (indent : Text) (actions : List Text) :
    Text :=
  actions.flatMap fun (a : Text) =>
    if a.trim = [] then [] else indent ++ a ++ "\n"

def previewCondition (c : ConditionRule) : Text :=
  if c.inline then
    "            if (" ++ c.attr ++ " " ++ c.operator ++ " " ++
      c.value ++ ") " ++ c.inlineAction ++ "\n"
  else
    let val :=
      if c.operator = "=~" then c.value
      else inQuotes c.value
    "            if (" ++ c.attr ++ " " ++ c.operator ++ " " ++
      val ++ ") \x7b\n" ++
      previewActions "                " c.actions ++
      "                " ++ c.defaultAction ++ "\n" ++
      "            \x7d\n"

def previewService (svc : ServiceRule) : Text :=
  "        if (service == " ++
    (if svc.service = [] then ("<service>" : Text)
      else svc.service) ++ ") \x7b\n" ++
    previewActions "            " svc.actions ++
    svc.conditions.flatMap previewCondition ++
    "            " ++ svc.defaultAction ++ "\n" ++
    "        \x7d\n"

/- The preview of the profile page. -/
def buildProfileConfig (p : Profile) : Text :=
  if p.name = [] ∧ p.services = [] then
    "# Fill in the fields to preview the config"
  else
    "profile " ++
      (if p.name = [] then ("<name>" : Text) else p.name) ++
      " \x7b\n    script \x7b\n" ++
      p.services.flatMap previewService ++
      "        " ++ p.defaultAction ++ "\n    \x7d\n\x7d"

mutual

/- One condition of `buildConditionsPreview`. -/
def previewRuleCondition
    (depth : Nat) : RuleCondition → Text
| ⟨attr, operator, value, actions, children, elseActions,
    elseAction, defaultAction⟩ =>
    let indent := tabs depth
    let inner := tabs (depth + 1)
    indent ++ "if (" ++ attr ++ " " ++ operator ++ " " ++
      value ++ ") \x7b\n" ++
      previewActions inner actions ++
      (if children.length > 0 then
        buildConditionsPreview (depth + 1) children
      else []) ++
      inner ++ defaultAction ++ "\n" ++
      (if elseAction ≠ [] ∨ elseActions.length > 0 then
        indent ++ "\x7d else \x7b\n" ++
          previewActions inner elseActions ++
          (if elseAction ≠ [] then inner ++ elseAction ++ "\n"
            else []) ++
          indent ++ "\x7d\n"
      else indent ++ "\x7d\n")

def buildConditionsPreview
    (depth : Nat) : List RuleCondition → Text
| [] => []
| c :: rest =>
    previewRuleCondition depth c ++
      buildConditionsPreview depth rest

end

def previewRule (r : Rule) : Text :=
  "    rule \x7b\n        enabled = " ++
    (if r.enabled then ("yes" : Text) else "no") ++
    "\n        script \x7b\n" ++
    buildConditionsPreview 3 r.matchConds ++
    "            " ++ r.defaultAction ++
    "\n        \x7d\n    \x7d\n"

/- The preview of the ruleset page. -/
def buildRulesetConfig (rules : List Rule) : Text :=
  "ruleset \x7b\n" ++ rules.flatMap previewRule ++ "\x7d"

/-
  What is written is what was shown, up to newlines at the
  end.
-/
def Shown (preview written : Text) : Prop :=
  ∃ n, written = preview ++ List.replicate n '\n'

/- The preview of a profile is the block written for it. -/
def ProfilePreviewed (p : Profile) : Prop :=
  Shown (buildProfileConfig p) (renderProfile p)

/-
  The preview of a ruleset is the file written for it, after
  the banner.
-/
def RulesetPreviewed (rules : List Rule) : Prop :=
  ∃ body,
    renderRuleset rules =
      banner "08-ruleset.cfg"
        "Authorization ruleset (top-down, first match wins)" ++
        body ∧
      Shown (buildRulesetConfig rules) body

end Frontend

end Soteria

------------------------------------------------------------
-- Rules, Condition by Condition
------------------------------------------------------------

namespace Soteria

namespace Tacconfig

mutual

/- `P` of the condition and of every condition inside it. -/
def RuleCondition.Every
    (P : RuleCondition → Prop) : RuleCondition → Prop
| ⟨attr, operator, value, actions, children, elseActions,
    elseAction, defaultAction⟩ =>
    P ⟨attr, operator, value, actions, children, elseActions,
      elseAction, defaultAction⟩ ∧
      EveryCondition P children

def EveryCondition
    (P : RuleCondition → Prop) : List RuleCondition → Prop
| [] => True
| rc :: rest => rc.Every P ∧ EveryCondition P rest

end

mutual

theorem RuleCondition.every_both
    {P Q T : RuleCondition → Prop}
    (hBoth : ∀ rc, P rc → Q rc → T rc) :
    (rc : RuleCondition) → rc.Every P → rc.Every Q →
      rc.Every T
| ⟨_, _, _, _, children, _, _, _⟩, hP, hQ =>
    ⟨hBoth _ hP.1 hQ.1,
      everyCondition_both hBoth children hP.2 hQ.2⟩

theorem everyCondition_both
    {P Q T : RuleCondition → Prop}
    (hBoth : ∀ rc, P rc → Q rc → T rc) :
    (conds : List RuleCondition) → EveryCondition P conds →
      EveryCondition Q conds → EveryCondition T conds
| [], _, _ => trivial
| rc :: rest, hP, hQ =>
    ⟨rc.every_both hBoth hP.1 hQ.1,
      everyCondition_both hBoth rest hP.2 hQ.2⟩

end

/- The action ends a script. -/
def Decided (action : Text) : Prop :=
  action = "permit" ∨ action = "deny"

theorem Decided.ne_nil {action : Text} (h : Decided action) :
    action ≠ [] := by
  rcases h with rfl | rfl
  · decide
  · decide

theorem Decided.renderDefault
    {action : Text}
    (h : Decided action)
    (indent : Text) :
    renderDefault indent action = indent ++ action ++ "\n" := by
  rw [Tacconfig.renderDefault, if_neg h.ne_nil]

/- Every default action that is written ends a script. -/
def Profile.Decided (p : Profile) : Prop :=
  Tacconfig.Decided p.defaultAction ∧
    ∀ svc ∈ p.services,
      Tacconfig.Decided svc.defaultAction ∧
        ∀ c ∈ svc.conditions,
          c.inline = false → Tacconfig.Decided c.defaultAction

def Rule.Decided (r : Rule) : Prop :=
  Tacconfig.Decided r.defaultAction ∧
    EveryCondition
      (fun rc => Tacconfig.Decided rc.defaultAction)
      r.matchConds

end Tacconfig

end Soteria

------------------------------------------------------------
-- Styles
------------------------------------------------------------

namespace Soteria

namespace Frontend

open Tacconfig

theorem tabs_succ (depth : Nat) :
    tabs (depth + 1) = tabs depth ++ "    " := by
  simp only [tabs, Text.repeated, List.replicate_succ',
    List.flatten_append, List.flatten_singleton]

theorem tabs_three :
    ("            " : Text) = tabs 3 := by
  decide +kernel

theorem count_tabs
    (depth : Nat)
    {c : Char}
    (hSpace : c ≠ ' ') :
    (tabs depth).count c = 0 := by
  induction depth with
  | zero => rfl
  | succ depth ih =>
      have hFour : List.count c ("    " : Text) = 0 := by
        refine List.count_eq_zero.mpr ?_
        intro hMem
        have hOnly : ∀ d ∈ ("    " : Text), d = ' ' := by
          decide
        exact hSpace (hOnly c hMem)
      rw [tabs_succ, List.count_append, ih, hFour]

/-
  What the two writers decide for themselves: which actions
  are left out, and how an operand is written.
-/
structure Style where
  blank : Text → Bool
  inlineValue : Text → Text → Text
  blockValue : Text → Text → Text
  ruleValue : Text → Text → Text

/- The style of the agent. -/
def agentStyle : Style where
  blank a := a.trimSpace = []
  inlineValue := renderCondValue
  blockValue := renderCondValue
  ruleValue := renderCondValue

/- The style of the pages. -/
def scriptStyle : Style where
  blank a := a.trim = []
  inlineValue _ value := value
  blockValue operator value :=
    if operator = "=~" then value else inQuotes value
  ruleValue _ value := value

namespace Style

variable (s : Style)

def action (depth : Nat) (a : Text) : Text :=
  if s.blank a then [] else tabs depth ++ a ++ "\n"

def condition (c : ConditionRule) : Text :=
  tabs 3 ++ "if (" ++ c.attr ++ " " ++ c.operator ++ " " ++
    (if c.inline then
      s.inlineValue c.operator c.value ++ ")" ++
        (" " ++ c.inlineAction ++ "\n")
    else
      s.blockValue c.operator c.value ++ ")" ++ " \x7b\n" ++
        c.actions.flatMap (s.action 4) ++
        (tabs 4 ++ c.defaultAction ++ "\n" ++ tabs 3 ++
          "\x7d\n"))

def service (svc : ServiceRule) : Text :=
  "        if (service == " ++ svc.service ++ ") \x7b\n" ++
    svc.actions.flatMap (s.action 3) ++
    svc.conditions.flatMap s.condition ++
    (tabs 3 ++ svc.defaultAction ++ "\n" ++ "        \x7d\n")

def profile (p : Profile) : Text :=
  "profile " ++ p.name ++ " \x7b\n    script \x7b\n" ++
    p.services.flatMap s.service ++
    ("        " ++ p.defaultAction ++ "\n" ++ "    \x7d\n\x7d")

mutual

def ruleCondition (depth : Nat) : RuleCondition → Text
| ⟨attr, operator, value, actions, children, elseActions,
    elseAction, defaultAction⟩ =>
    tabs depth ++ "if (" ++ attr ++ " " ++ operator ++ " " ++
      (s.ruleValue operator value ++ ")") ++ " \x7b\n" ++
      actions.flatMap (s.action (depth + 1)) ++
      ruleConditions (depth + 1) children ++
      (tabs (depth + 1) ++ defaultAction ++ "\n") ++
      (if elseActions ≠ [] ∨ elseAction ≠ [] then
        tabs depth ++ "\x7d else \x7b\n" ++
          elseActions.flatMap (s.action (depth + 1)) ++
          renderDefault (tabs (depth + 1)) elseAction
      else []) ++
      (tabs depth ++ "\x7d\n")

def ruleConditions (depth : Nat) : List RuleCondition → Text
| [] => []
| rc :: rest =>
    ruleCondition depth rc ++ ruleConditions depth rest

end

def rule (r : Rule) : Text :=
  "    rule \x7b\n        enabled = " ++
    (if r.enabled then ("yes" : Text) else "no") ++
    "\n        script \x7b\n" ++
    s.ruleConditions 3 r.matchConds ++
    (tabs 3 ++ r.defaultAction ++ "\n" ++
      "        \x7d\n    \x7d\n")

def ruleset (rules : List Rule) : Text :=
  "ruleset \x7b\n" ++ rules.flatMap s.rule ++ "\x7d"

end Style

end Frontend

end Soteria

------------------------------------------------------------
-- The Agent Writes in Its Style
------------------------------------------------------------

namespace Soteria

namespace Frontend

open Tacconfig

theorem renderActions_agent (depth : Nat) (actions : List Text) :
    renderActions (tabs depth) actions =
      actions.flatMap (agentStyle.action depth) := by
  induction actions with
  | nil => rfl
  | cons a rest ih =>
      rw [renderActions, List.flatMap_cons, ih, Style.action]
      simp only [agentStyle, decide_eq_true_eq]
      split
      · rfl
      · rfl

theorem renderCondition_agent
    (c : ConditionRule)
    (hDecided :
      c.inline = false → Tacconfig.Decided c.defaultAction) :
    renderCondition "            " c =
      agentStyle.condition c := by
  have hOpen : (") \x7b\n" : Text) = ")" ++ " \x7b\n" := rfl
  have hInline : (") " : Text) = ")" ++ " " := rfl
  rw [renderCondition, Style.condition, tabs_three, ← tabs_succ,
    renderActions_agent]
  cases h : c.inline with
  | true =>
      simp only [if_true, agentStyle, hInline,
        List.append_assoc]
  | false =>
      rw [(hDecided h).renderDefault, hOpen]
      simp only [Bool.false_eq_true, if_false,
        List.append_assoc]
      rfl

theorem renderService_agent
    (svc : ServiceRule)
    (hDefault : Tacconfig.Decided svc.defaultAction)
    (hConditions : ∀ c ∈ svc.conditions,
      c.inline = false → Tacconfig.Decided c.defaultAction) :
    renderService svc = agentStyle.service svc := by
  have hEach :
      svc.conditions.flatMap (renderCondition "            ") =
        svc.conditions.flatMap agentStyle.condition :=
    List.flatMap_congr fun c hMem =>
      renderCondition_agent c (hConditions c hMem)
  unfold renderService Style.service
  rw [hEach, tabs_three,
    renderActions_agent, hDefault.renderDefault]
  simp only [List.append_assoc]

theorem renderProfile_agent
    (p : Profile)
    (hDecided : p.Decided) :
    renderProfile p = agentStyle.profile p ++ "\n\n" := by
  have hEnd :
      ("    \x7d\n\x7d\n\n" : Text) =
        "    \x7d\n\x7d" ++ "\n\n" := by
    repeat rw [String.toList_ofList]
    rfl
  have hEach :
      p.services.flatMap renderService =
        p.services.flatMap agentStyle.service :=
    List.flatMap_congr fun svc hMem =>
      renderService_agent svc (hDecided.2 svc hMem).1
        (hDecided.2 svc hMem).2
  unfold renderProfile Style.profile
  rw [hEach, hDecided.1.renderDefault, hEnd]
  simp only [List.append_assoc]

mutual

theorem renderRuleCondition_agent (depth : Nat) :
    (rc : RuleCondition) →
      (rc.Every fun rc =>
        Tacconfig.Decided rc.defaultAction) →
      renderRuleCondition (tabs depth) rc =
        agentStyle.ruleCondition depth rc
| ⟨attr, operator, value, actions, children, elseActions,
    elseAction, defaultAction⟩, hDecided => by
    have hDefault : Tacconfig.Decided defaultAction :=
      hDecided.1
    have hOpen : (") \x7b\n" : Text) = ")" ++ " \x7b\n" := rfl
    rw [renderRuleCondition, Style.ruleCondition, ← tabs_succ,
      renderActions_agent, renderActions_agent,
      renderRuleConditions_agent (depth + 1) children
        hDecided.2,
      hDefault.renderDefault, hOpen]
    simp only [List.append_assoc]
    rfl

theorem renderRuleConditions_agent (depth : Nat) :
    (conds : List RuleCondition) →
      EveryCondition
        (fun rc => Tacconfig.Decided rc.defaultAction) conds →
      renderRuleConditions (tabs depth) conds =
        agentStyle.ruleConditions depth conds
| [], _ => rfl
| rc :: rest, hDecided => by
    rw [renderRuleConditions, Style.ruleConditions,
      renderRuleCondition_agent depth rc hDecided.1,
      renderRuleConditions_agent depth rest hDecided.2]

end

theorem renderRule_agent (r : Rule) (hDecided : r.Decided) :
    renderRule r = agentStyle.rule r := by
  have hScript :
      ("\n        script \x7b\n" : Text) =
        "\n" ++ "        script \x7b\n" := by
    repeat rw [String.toList_ofList]
    rfl
  unfold renderRule Style.rule
  rw [tabs_three,
    renderRuleConditions_agent 3 r.matchConds hDecided.2,
    hDecided.1.renderDefault, hScript]
  simp only [List.append_assoc]

theorem renderRuleset_agent
    (rules : List Rule)
    (hDecided : ∀ r ∈ rules, r.Decided) :
    renderRuleset rules =
      banner "08-ruleset.cfg"
        "Authorization ruleset (top-down, first match wins)" ++
        (agentStyle.ruleset rules ++ "\n") := by
  have hEnd : ("\x7d\n" : Text) = "\x7d" ++ "\n" := rfl
  have hEach :
      rules.flatMap renderRule =
        rules.flatMap agentStyle.rule :=
    List.flatMap_congr fun r hMem =>
      renderRule_agent r (hDecided r hMem)
  unfold renderRuleset Style.ruleset
  rw [hEach, hEnd]
  simp only [List.append_assoc]

end Frontend

end Soteria

------------------------------------------------------------
-- The Pages Write in Theirs
------------------------------------------------------------

namespace Soteria

namespace Frontend

open Tacconfig

theorem previewActions_script
    (depth : Nat)
    (actions : List Text) :
    previewActions (tabs depth) actions =
      actions.flatMap (scriptStyle.action depth) := by
  refine List.flatMap_congr fun a _ => ?_
  simp only [Style.action, scriptStyle, decide_eq_true_eq]

theorem previewCondition_script (c : ConditionRule) :
    previewCondition c = scriptStyle.condition c := by
  have hOpen : (") \x7b\n" : Text) = ")" ++ " \x7b\n" := rfl
  have hInline : (") " : Text) = ")" ++ " " := rfl
  have hFour :
      ("                " : Text) = tabs 4 := by
    decide +kernel
  have hHead :
      ("            if (" : Text) =
        "            " ++ "if (" := by
    decide +kernel
  have hClose :
      ("            \x7d\n" : Text) =
        "            " ++ "\x7d\n" := by
    decide +kernel
  unfold previewCondition Style.condition
  rw [hHead, hClose, hFour, tabs_three, previewActions_script,
    hOpen, hInline]
  cases h : c.inline with
  | true =>
      simp only [if_true, List.append_assoc]
      rfl
  | false =>
      simp only [Bool.false_eq_true, if_false,
        List.append_assoc]
      rfl

theorem previewService_script
    (svc : ServiceRule)
    (hService : svc.service ≠ []) :
    previewService svc = scriptStyle.service svc := by
  have hEach :
      svc.conditions.flatMap previewCondition =
        svc.conditions.flatMap scriptStyle.condition :=
    List.flatMap_congr fun c _ => previewCondition_script c
  unfold previewService Style.service
  rw [hEach, tabs_three, previewActions_script,
    if_neg hService]
  simp only [List.append_assoc]

theorem buildProfileConfig_script
    (p : Profile)
    (hName : p.name ≠ [])
    (hServices : ∀ svc ∈ p.services, svc.service ≠ []) :
    buildProfileConfig p = scriptStyle.profile p := by
  have hEnd :
      ("\n    \x7d\n\x7d" : Text) =
        "\n" ++ "    \x7d\n\x7d" := by
    repeat rw [String.toList_ofList]
    rfl
  have hEach :
      p.services.flatMap previewService =
        p.services.flatMap scriptStyle.service :=
    List.flatMap_congr fun svc hMem =>
      previewService_script svc (hServices svc hMem)
  unfold buildProfileConfig Style.profile
  rw [if_neg fun hNone => hName hNone.1, if_neg hName, hEach,
    hEnd]
  simp only [List.append_assoc]

mutual

theorem previewRuleCondition_script (depth : Nat) :
    (rc : RuleCondition) →
      previewRuleCondition depth rc =
        scriptStyle.ruleCondition depth rc
| ⟨attr, operator, value, actions, children, elseActions,
    elseAction, defaultAction⟩ => by
    have hOpen : (") \x7b\n" : Text) = ")" ++ " \x7b\n" := rfl
    have hChildren :
        (if children.length > 0 then
          buildConditionsPreview (depth + 1) children
        else []) =
          scriptStyle.ruleConditions (depth + 1) children := by
      rw [← buildConditionsPreview_script (depth + 1) children]
      cases children with
      | nil => rfl
      | cons rc rest => rfl
    have hElse :
        (elseAction ≠ [] ∨ elseActions.length > 0) ↔
          (elseActions ≠ [] ∨ elseAction ≠ []) := by
      rw [gt_iff_lt, List.length_pos_iff, or_comm]
    have hElseLine :
        (if elseAction ≠ [] then
          tabs (depth + 1) ++ elseAction ++ "\n"
        else []) =
          renderDefault (tabs (depth + 1)) elseAction := by
      rw [renderDefault, ite_not]
    unfold previewRuleCondition Style.ruleCondition
    dsimp only
    rw [hChildren]
    simp only [hElse]
    rw [hElseLine, previewActions_script,
      previewActions_script, hOpen]
    split
    · simp only [List.append_assoc]
      rfl
    · simp only [List.append_assoc, List.nil_append]
      rfl

theorem buildConditionsPreview_script (depth : Nat) :
    (conds : List RuleCondition) →
      buildConditionsPreview depth conds =
        scriptStyle.ruleConditions depth conds
| [] => rfl
| rc :: rest => by
    rw [buildConditionsPreview, Style.ruleConditions,
      previewRuleCondition_script depth rc,
      buildConditionsPreview_script depth rest]

end

theorem buildRulesetConfig_script (rules : List Rule) :
    buildRulesetConfig rules = scriptStyle.ruleset rules := by
  have hEnd :
      ("\n        \x7d\n    \x7d\n" : Text) =
        "\n" ++ "        \x7d\n    \x7d\n" := by
    repeat rw [String.toList_ofList]
    rfl
  unfold buildRulesetConfig Style.ruleset
  congr 2
  refine List.flatMap_congr fun r _ => ?_
  unfold previewRule Style.rule
  rw [buildConditionsPreview_script, tabs_three, hEnd]
  simp only [List.append_assoc]

end Frontend

end Soteria

------------------------------------------------------------
-- Comparing Two Styles
------------------------------------------------------------

namespace Soteria

namespace Frontend

open Tacconfig

/- What is asked of each action and of each operand. -/
structure Parts where
  action : Text → Prop
  inlineValue : Text → Text → Prop
  blockValue : Text → Text → Prop
  ruleValue : Text → Text → Prop

namespace Parts

variable (Q : Parts)

def OfCondition (c : ConditionRule) : Prop :=
  if c.inline then Q.inlineValue c.operator c.value
  else
    Q.blockValue c.operator c.value ∧
      ∀ a ∈ c.actions, Q.action a

def OfService (svc : ServiceRule) : Prop :=
  (∀ a ∈ svc.actions, Q.action a) ∧
    ∀ c ∈ svc.conditions, Q.OfCondition c

def OfProfile (p : Profile) : Prop :=
  ∀ svc ∈ p.services, Q.OfService svc

/- Of the condition alone, without those inside it. -/
def OfRuleCondition (rc : RuleCondition) : Prop :=
  Q.ruleValue rc.operator rc.value ∧
    (∀ a ∈ rc.actions, Q.action a) ∧
    ∀ a ∈ rc.elseActions, Q.action a

def OfRules (rules : List Rule) : Prop :=
  ∀ r ∈ rules, EveryCondition Q.OfRuleCondition r.matchConds

end Parts

/-
  The parts of two styles are aligned, and `Q` is what that
  says about each of them.
-/
structure Compares
    (R : Text → Text → Prop → Prop)
    (s t : Style)
    (Q : Parts) : Prop where
  action : ∀ depth a,
    R (s.action depth a) (t.action depth a) (Q.action a)
  inlineValue : ∀ operator value,
    R (s.inlineValue operator value ++ ")")
      (t.inlineValue operator value ++ ")")
      (Q.inlineValue operator value)
  blockValue : ∀ operator value,
    R (s.blockValue operator value ++ ")")
      (t.blockValue operator value ++ ")")
      (Q.blockValue operator value)
  ruleValue : ∀ operator value,
    R (s.ruleValue operator value ++ ")")
      (t.ruleValue operator value ++ ")")
      (Q.ruleValue operator value)

namespace Compares

variable {R : Text → Text → Prop → Prop}
variable {s t : Style}
variable {Q : Parts}

theorem condition
    (h : Compares R s t Q)
    (hR : PartAlignment R)
    (c : ConditionRule) :
    R (s.condition c) (t.condition c) (Q.OfCondition c) := by
  unfold Style.condition Parts.OfCondition
  refine hR.lead _ ?_
  split
  · exact hR.trail _ (h.inlineValue _ _)
  · exact hR.trail _
      (hR.append (hR.trail _ (h.blockValue _ _))
        (hR.flatMap (h.action 4) c.actions))

theorem service
    (h : Compares R s t Q)
    (hR : PartAlignment R)
    (svc : ServiceRule) :
    R (s.service svc) (t.service svc) (Q.OfService svc) :=
  hR.trail _
    (hR.append
      (hR.lead _ (hR.flatMap (h.action 3) svc.actions))
      (hR.flatMap (h.condition hR) svc.conditions))

theorem profile
    (h : Compares R s t Q)
    (hR : PartAlignment R)
    (p : Profile) :
    R (s.profile p) (t.profile p) (Q.OfProfile p) :=
  hR.trail _
    (hR.lead _ (hR.flatMap (h.service hR) p.services))

mutual

theorem ruleCondition
    (h : Compares R s t Q)
    (hR : PartAlignment R)
    (depth : Nat) :
    (rc : RuleCondition) →
      R (s.ruleCondition depth rc) (t.ruleCondition depth rc)
        (rc.Every Q.OfRuleCondition)
| ⟨attr, operator, value, actions, children, elseActions,
    elseAction, defaultAction⟩ => by
    have hHead :=
      hR.append
        (hR.trail " \x7b\n"
          (hR.lead
            (tabs depth ++ "if (" ++ attr ++ " " ++ operator ++
              " ")
            (h.ruleValue operator value)))
        (hR.flatMap (h.action (depth + 1)) actions)
    have hBody :=
      hR.append hHead (h.ruleConditions hR (depth + 1) children)
    unfold Style.ruleCondition
    refine hR.trail _ ?_
    split
    · have hElse :=
        hR.trail (renderDefault (tabs (depth + 1)) elseAction)
          (hR.lead (tabs depth ++ "\x7d else \x7b\n")
            (hR.flatMap (h.action (depth + 1)) elseActions))
      refine hR.restate ?_ (hR.append (hR.trail _ hBody) hElse)
      simp only [RuleCondition.Every, Parts.OfRuleCondition]
      tauto
    · rename_i hNone
      have hEmpty : elseActions = [] :=
        not_not.mp fun hSome => hNone (Or.inl hSome)
      refine hR.restate ?_ (hR.trail _ (hR.trail _ hBody))
      simp only [RuleCondition.Every, Parts.OfRuleCondition,
        hEmpty, List.not_mem_nil, false_imp_iff, implies_true,
        and_true]

theorem ruleConditions
    (h : Compares R s t Q)
    (hR : PartAlignment R)
    (depth : Nat) :
    (conds : List RuleCondition) →
      R (s.ruleConditions depth conds)
        (t.ruleConditions depth conds)
        (EveryCondition Q.OfRuleCondition conds)
| [] => hR.same []
| rc :: rest =>
    hR.append (h.ruleCondition hR depth rc)
      (h.ruleConditions hR depth rest)

end

theorem ruleset
    (h : Compares R s t Q)
    (hR : PartAlignment R)
    (rules : List Rule) :
    R (s.ruleset rules) (t.ruleset rules)
      (Q.OfRules rules) := by
  refine hR.trail _ (hR.lead _ (hR.flatMap (fun r => ?_) rules))
  exact hR.trail _
    (hR.lead _ (h.ruleConditions hR 3 r.matchConds))

end Compares

end Frontend

end Soteria

------------------------------------------------------------
-- White Space
------------------------------------------------------------

namespace Text

theorem trimmed_eq_nil_iff
    (p : Char → Bool)
    (s : Text) :
    (s.dropWhile p).rdropWhile p = [] ↔ ∀ c ∈ s, p c := by
  rw [List.rdropWhile_eq_nil_iff]
  induction s with
  | nil => exact Iff.rfl
  | cons c rest ih =>
      cases hFirst : p c with
      | true =>
          rw [List.dropWhile_cons_of_pos hFirst, ih,
            List.forall_mem_cons]
          exact (and_iff_right hFirst).symm
      | false =>
          rw [List.dropWhile_cons_of_neg
            (by rw [hFirst]; exact Bool.false_ne_true)]

/- The next-line character is white space for Go alone. -/
theorem scriptSpace_of_isSpace
    {c : Char}
    (hSpace : isSpace c = true)
    (hOther : c ≠ '\x85') :
    scriptSpace c = true := by
  simp only [isSpace, scriptSpace, Bool.or_eq_true,
    decide_eq_true_eq, List.mem_cons] at hSpace ⊢
  tauto

/- The byte order mark is white space for scripts alone. -/
theorem isSpace_of_scriptSpace
    {c : Char}
    (hSpace : scriptSpace c = true)
    (hOther : c ≠ '\ufeff') :
    isSpace c = true := by
  simp only [isSpace, scriptSpace, Bool.or_eq_true,
    decide_eq_true_eq, List.mem_cons] at hSpace ⊢
  tauto

end Text

------------------------------------------------------------
-- Counting What Is Left Out
------------------------------------------------------------

namespace Soteria

namespace Frontend

open Tacconfig

theorem agent_blank_iff (a : Text) :
    agentStyle.blank a = true ↔ ∀ c ∈ a, Text.isSpace c := by
  rw [← Text.trimmed_eq_nil_iff, agentStyle,
    decide_eq_true_eq]
  rfl

theorem script_blank_iff (a : Text) :
    scriptStyle.blank a = true ↔
      ∀ c ∈ a, Text.scriptSpace c := by
  rw [← Text.trimmed_eq_nil_iff, scriptStyle,
    decide_eq_true_eq]
  rfl

/- The value as it is, or in quotes. -/
def Plain (f : Text → Text → Text) : Prop :=
  ∀ operator value,
    f operator value = value ∨
      f operator value = inQuotes value

theorem plain_bare : Plain fun _ value => value :=
  fun _ _ => Or.inl rfl

theorem plain_renderCondValue : Plain renderCondValue := by
  intro operator value
  unfold renderCondValue
  split
  · exact Or.inl rfl
  · split
    · exact Or.inr rfl
    · exact Or.inl rfl

theorem plain_block : Plain scriptStyle.blockValue := by
  intro operator value
  unfold scriptStyle
  dsimp only
  split
  · exact Or.inl rfl
  · exact Or.inr rfl

/- Every operand is written plainly. -/
structure Style.IsPlain (s : Style) : Prop where
  inlineValue : Plain s.inlineValue
  blockValue : Plain s.blockValue
  ruleValue : Plain s.ruleValue

theorem agentStyle_plain : agentStyle.IsPlain :=
  ⟨plain_renderCondValue, plain_renderCondValue,
    plain_renderCondValue⟩

theorem scriptStyle_plain : scriptStyle.IsPlain :=
  ⟨plain_bare, plain_block, plain_bare⟩

/- The styles leave out the same actions. -/
def blanks (s t : Style) : Parts where
  action a := s.blank a = t.blank a
  inlineValue _ _ := True
  blockValue _ _ := True
  ruleValue _ _ := True

theorem count_value
    {f : Text → Text → Text}
    (hPlain : Plain f)
    {x : Char}
    (hQuote : x ≠ '"')
    (operator value : Text) :
    (f operator value).count x = value.count x := by
  have hMark : List.count x ("\"" : Text) = 0 :=
    List.count_cons_of_ne (Ne.symm hQuote)
  rcases hPlain operator value with hBare | hQuoted
  · rw [hBare]
  · rw [hQuoted, inQuotes, List.count_append,
      List.count_append, hMark]
    omega

theorem weighed_value
    {f g : Text → Text → Text}
    (hLeft : Plain f)
    (hRight : Plain g)
    {x y : Char}
    (hX : x ≠ '"')
    (hY : y ≠ '"')
    (operator value : Text) :
    PartAlignment.Weighed x y (f operator value ++ ")")
      (g operator value ++ ")") True := by
  unfold PartAlignment.Weighed
  simp only [List.count_append, count_value hLeft hX,
    count_value hLeft hY, count_value hRight hX,
    count_value hRight hY]
  exact ⟨Nat.le_refl _, Nat.le_refl _, fun _ _ => trivial⟩

theorem count_line
    {x : Char}
    (hSpace : x ≠ ' ')
    (hEnd : x ≠ '\n')
    (depth : Nat)
    (a : Text) :
    (tabs depth ++ a ++ "\n").count x = a.count x := by
  have hNewline : List.count x ("\n" : Text) = 0 :=
    List.count_cons_of_ne (Ne.symm hEnd)
  rw [List.count_append, List.count_append,
    count_tabs depth hSpace, hNewline]
  omega

theorem count_foreign
    {p : Char → Bool}
    {x : Char}
    (hForeign : p x = false)
    {a : Text}
    (hSpaces : ∀ c ∈ a, p c) :
    a.count x = 0 := by
  refine List.count_eq_zero.mpr fun hMem => ?_
  rw [hSpaces x hMem] at hForeign
  exact absurd hForeign (by decide)

/- Only `x` keeps the action from being blank for `q` too. -/
theorem spaces_of_count
    {p q : Char → Bool}
    {x : Char}
    (hNear : ∀ {c}, p c = true → c ≠ x → q c = true)
    {a : Text}
    (hSpaces : ∀ c ∈ a, p c)
    (hNone : a.count x = 0) :
    ∀ c ∈ a, q c := by
  intro c hMem
  refine hNear (hSpaces c hMem) ?_
  rintro rfl
  exact List.count_eq_zero.mp hNone hMem

/-
  The agent leaves out next-line characters, the pages byte
  order marks.
-/
theorem weighed_action (depth : Nat) (a : Text) :
    PartAlignment.Weighed '\x85' '\ufeff'
      (agentStyle.action depth a) (scriptStyle.action depth a)
      (agentStyle.blank a = scriptStyle.blank a) := by
  unfold Style.action PartAlignment.Weighed
  cases hAgent : agentStyle.blank a with
  | true =>
      have hSpaces := (agent_blank_iff a).mp hAgent
      cases hScript : scriptStyle.blank a with
      | true =>
          exact ⟨Nat.le_refl _, Nat.le_refl _, fun _ _ => rfl⟩
      | false =>
          have hMark : List.count '\ufeff' a = 0 :=
            count_foreign (by decide) hSpaces
          simp only [if_true, Bool.false_eq_true, if_false]
          rw [count_line (by decide) (by decide),
            count_line (by decide) (by decide), hMark]
          refine ⟨Nat.zero_le _, Nat.le_refl _, ?_⟩
          intro hNone _
          have hAll := (script_blank_iff a).mpr
            (spaces_of_count Text.scriptSpace_of_isSpace
              hSpaces hNone.symm)
          exact absurd (hScript.symm.trans hAll)
            Bool.false_ne_true
  | false =>
      cases hScript : scriptStyle.blank a with
      | false =>
          exact ⟨Nat.le_refl _, Nat.le_refl _, fun _ _ => rfl⟩
      | true =>
          have hSpaces := (script_blank_iff a).mp hScript
          have hNext : List.count '\x85' a = 0 :=
            count_foreign (by decide) hSpaces
          simp only [if_true, Bool.false_eq_true, if_false]
          rw [count_line (by decide) (by decide),
            count_line (by decide) (by decide), hNext]
          refine ⟨Nat.le_refl _, Nat.zero_le _, ?_⟩
          intro _ hNone
          have hAll := (agent_blank_iff a).mpr
            (spaces_of_count Text.isSpace_of_scriptSpace
              hSpaces hNone)
          exact absurd (hAgent.symm.trans hAll)
            Bool.false_ne_true

theorem compares_weighed :
    Compares (PartAlignment.Weighed '\x85' '\ufeff') agentStyle
      scriptStyle (blanks agentStyle scriptStyle) where
  action := weighed_action
  inlineValue := weighed_value agentStyle_plain.inlineValue
    scriptStyle_plain.inlineValue (by decide) (by decide)
  blockValue := weighed_value agentStyle_plain.blockValue
    scriptStyle_plain.blockValue (by decide) (by decide)
  ruleValue := weighed_value agentStyle_plain.ruleValue
    scriptStyle_plain.ruleValue (by decide) (by decide)

end Frontend

end Soteria

------------------------------------------------------------
-- Reading the Operands Back
------------------------------------------------------------

namespace Soteria

namespace Frontend

open Tacconfig

/- The styles write the operands alike. -/
def operands (s t : Style) : Parts where
  action _ := True
  inlineValue operator value :=
    s.inlineValue operator value = t.inlineValue operator value
  blockValue operator value :=
    s.blockValue operator value = t.blockValue operator value
  ruleValue operator value :=
    s.ruleValue operator value = t.ruleValue operator value

/-
  A value in quotes is never taken for the value without
  them, whatever stands behind: its quote would go on to the
  end of the value, where the parenthesis is.
-/
theorem quoted_ne_bare (value rest rest' : Text) :
    '"' :: (value ++ '"' :: rest) ≠ value ++ ')' :: rest' := by
  intro hEqual
  induction value with
  | nil => exact absurd (List.cons.inj hEqual).1 (by decide)
  | cons c others ih =>
      rcases List.cons.inj hEqual with ⟨hFirst, hOthers⟩
      rw [← hFirst] at hOthers
      exact ih hOthers

theorem quoted_apart (value rest rest' : Text) :
    inQuotes value ++ (")" : Text) ++ rest ≠
      value ++ (")" : Text) ++ rest' := by
  have hApart := quoted_ne_bare value (')' :: rest) rest'
  intro hEqual
  simp only [inQuotes, List.append_assoc] at hEqual
  exact hApart hEqual

theorem cancels_value
    {f g : Text → Text → Text}
    (hLeft : Plain f)
    (hRight : Plain g)
    (operator value : Text) :
    PartAlignment.Cancels (f operator value ++ (")" : Text))
      (g operator value ++ (")" : Text))
      (f operator value = g operator value) := by
  intro rest rest' hEqual
  have hSame : f operator value = g operator value := by
    rcases hLeft operator value with hf | hf
    · rcases hRight operator value with hg | hg
      · rw [hf, hg]
      · rw [hf, hg] at hEqual
        exact absurd hEqual.symm (quoted_apart value _ _)
    · rcases hRight operator value with hg | hg
      · rw [hf, hg] at hEqual
        exact absurd hEqual (quoted_apart value _ _)
      · rw [hf, hg]
  rw [hSame] at hEqual
  exact ⟨hSame, List.append_cancel_left hEqual⟩

theorem compares_cancels
    {s t : Style}
    (hLeft : s.IsPlain)
    (hRight : t.IsPlain)
    (hBlank : s.blank = t.blank) :
    Compares PartAlignment.Cancels s t (operands s t) where
  action depth a := by
    unfold Style.action
    rw [hBlank]
    exact PartAlignment.cancels.same _
  inlineValue := cancels_value hLeft.inlineValue
    hRight.inlineValue
  blockValue := cancels_value hLeft.blockValue
    hRight.blockValue
  ruleValue := cancels_value hLeft.ruleValue hRight.ruleValue

/- The styles agree on a part. -/
def agreeing (s t : Style) : Parts where
  action a := s.blank a = t.blank a
  inlineValue := (operands s t).inlineValue
  blockValue := (operands s t).blockValue
  ruleValue := (operands s t).ruleValue

theorem compares_whenever (s t : Style) :
    Compares PartAlignment.Whenever s t (agreeing s t) where
  action depth a hSame := by
    unfold Style.action
    rw [show s.blank a = t.blank a from hSame]
  inlineValue _ _ hSame := congrArg (· ++ _) hSame
  blockValue _ _ hSame := congrArg (· ++ _) hSame
  ruleValue _ _ hSame := congrArg (· ++ _) hSame

end Frontend

end Soteria

------------------------------------------------------------
-- What Is Shown Is What Is Written
------------------------------------------------------------

namespace Soteria

namespace Frontend

open Tacconfig

/- A text that is written part by part, in any style. -/
structure Document where
  text : Style → Text
  asks : Parts → Prop
  aligned : ∀ {R s t Q}, PartAlignment R → Compares R s t Q →
    R (text s) (text t) (asks Q)
  joined : ∀ {s t}, asks (blanks s t) → asks (operands s t) →
    asks (agreeing s t)
  ends : ∀ s, ∃ start, text s = start ++ ("\x7d" : Text)

def profileDocument (p : Profile) : Document where
  text s := s.profile p
  asks Q := Q.OfProfile p
  aligned hR h := h.profile hR p
  joined := by
    intro s t hBlanks hOperands svc hMem
    rcases hBlanks svc hMem with ⟨hActions, hConditions⟩
    refine ⟨hActions, fun c hCondition => ?_⟩
    have hBlank := hConditions c hCondition
    have hOperand := (hOperands svc hMem).2 c hCondition
    unfold Parts.OfCondition at hBlank hOperand ⊢
    split
    · rename_i hInline
      rwa [if_pos hInline] at hOperand
    · rename_i hBlock
      rw [if_neg hBlock] at hBlank hOperand
      exact ⟨hOperand.1, hBlank.2⟩
  ends s := by
    have hEnd :
        ("    \x7d\n\x7d" : Text) = "    \x7d\n" ++ "\x7d" := by
      repeat rw [String.toList_ofList]
      rfl
    unfold Style.profile
    rw [hEnd, ← List.append_assoc, ← List.append_assoc]
    exact ⟨_, rfl⟩

def rulesetDocument (rules : List Rule) : Document where
  text s := s.ruleset rules
  asks Q := Q.OfRules rules
  aligned hR h := h.ruleset hR rules
  joined hBlanks hOperands r hMem :=
    everyCondition_both
      (fun _ hBlank hOperand => ⟨hOperand.1, hBlank.2⟩)
      r.matchConds (hBlanks r hMem) (hOperands r hMem)
  ends _ := ⟨_, rfl⟩

/- The style of the pages, with the agent's blank actions. -/
def mixedStyle : Style :=
  { scriptStyle with blank := agentStyle.blank }

theorem mixedStyle_plain : mixedStyle.IsPlain :=
  ⟨scriptStyle_plain.inlineValue, scriptStyle_plain.blockValue,
    scriptStyle_plain.ruleValue⟩

theorem agreeing_mixed :
    agreeing scriptStyle mixedStyle =
      blanks agentStyle scriptStyle := by
  simp only [agreeing, operands, blanks, mixedStyle,
    Parts.mk.injEq, and_true]
  funext a
  exact propext eq_comm

/-
  The two texts are equal only if every part is: counting
  settles the actions, and then the operands can be read back
  one by one.
-/
theorem Document.same_iff (d : Document) :
    d.text agentStyle = d.text scriptStyle ↔
      d.asks (agreeing agentStyle scriptStyle) := by
  constructor
  · intro hSame
    have hCounts :=
      d.aligned (PartAlignment.weighed _ _) compares_weighed
    have hBlanks : d.asks (blanks agentStyle scriptStyle) :=
      hCounts.2.2 (by rw [hSame]) (by rw [hSame])
    have hMixed : d.text scriptStyle = d.text mixedStyle := by
      refine d.aligned PartAlignment.whenever
        (compares_whenever _ _) ?_
      rw [agreeing_mixed]
      exact hBlanks
    have hRead :=
      d.aligned PartAlignment.cancels
        (compares_cancels agentStyle_plain mixedStyle_plain rfl)
        [] [] (by rw [hSame, hMixed])
    exact d.joined hBlanks hRead.1
  · exact d.aligned PartAlignment.whenever (compares_whenever _ _)

theorem rdropWhile_newlines (start : Text) (n : Nat) :
    (start ++ ("\x7d" : Text) ++
      List.replicate n '\n').rdropWhile (· == '\n') =
        start ++ ("\x7d" : Text) := by
  induction n with
  | zero =>
      rw [List.replicate_zero, List.append_nil]
      exact List.rdropWhile_concat_neg _ _ _ (by decide)
  | succ n ih =>
      rw [List.replicate_succ', ← List.append_assoc,
        List.rdropWhile_concat_pos _ _ _ (by decide), ih]

theorem Document.shown_iff (d : Document) (k : Nat) :
    Shown (d.text scriptStyle)
      (d.text agentStyle ++ List.replicate k '\n') ↔
        d.asks (agreeing agentStyle scriptStyle) := by
  rw [← d.same_iff]
  constructor
  · rintro ⟨n, hWritten⟩
    rcases d.ends agentStyle with ⟨left, hLeft⟩
    rcases d.ends scriptStyle with ⟨right, hRight⟩
    rw [hLeft, hRight] at hWritten ⊢
    rw [← rdropWhile_newlines left k, hWritten,
      rdropWhile_newlines right n]
  · intro hSame
    exact ⟨k, by rw [hSame]⟩

/- The agent writes the operand without quotes. -/
def Bare (operator value : Text) : Prop :=
  operator = "=~" ∨
    (value ≠ [] ∧ value.containsAny " \t" = false)

/- The agent writes it in quotes, or it is an expression. -/
def Quoted (operator value : Text) : Prop :=
  operator = "=~" ∨ value = [] ∨
    value.containsAny " \t" = true

theorem inQuotes_ne (value : Text) : inQuotes value ≠ value := by
  intro hSame
  have hLength := congrArg List.length hSame
  simp only [inQuotes, List.length_append] at hLength
  have hMark : ("\"" : Text).length = 1 := rfl
  omega

theorem renderCondValue_bare_iff (operator value : Text) :
    renderCondValue operator value = value ↔
      Bare operator value := by
  unfold renderCondValue Bare
  split
  · rename_i hExpr
    exact ⟨fun _ => Or.inl hExpr, fun _ => rfl⟩
  · rename_i hPlain
    rw [or_iff_right hPlain]
    split
    · rename_i hBlank
      refine ⟨fun hSame => absurd hSame (inQuotes_ne value), ?_⟩
      rintro ⟨hSome, hNone⟩
      rw [hNone] at hBlank
      exact absurd hBlank (by simp [hSome])
    · rename_i hBlank
      rw [Bool.or_eq_true, decide_eq_true_eq, not_or,
        Bool.not_eq_true] at hBlank
      exact ⟨fun _ => hBlank, fun _ => rfl⟩

theorem renderCondValue_quoted_iff (operator value : Text) :
    renderCondValue operator value =
        scriptStyle.blockValue operator value ↔
      Quoted operator value := by
  unfold renderCondValue Quoted scriptStyle
  dsimp only
  split
  · rename_i hExpr
    exact ⟨fun _ => Or.inl hExpr, fun _ => rfl⟩
  · rename_i hPlain
    rw [or_iff_right hPlain]
    split
    · rename_i hBlank
      rw [Bool.or_eq_true, decide_eq_true_eq] at hBlank
      exact ⟨fun _ => hBlank, fun _ => rfl⟩
    · rename_i hBlank
      rw [Bool.or_eq_true, decide_eq_true_eq] at hBlank
      refine ⟨fun hSame => ?_, fun hSome => absurd hSome hBlank⟩
      exact absurd hSame.symm (inQuotes_ne value)

/-
  What a profile or a ruleset has to be like for the preview
  to be right.
-/
def asShown : Parts where
  action a := a.trimSpace = [] ↔ a.trim = []
  inlineValue := Bare
  blockValue := Quoted
  ruleValue := Bare

theorem agreeing_styles :
    agreeing agentStyle scriptStyle = asShown := by
  have hBare :
      (fun operator value =>
        renderCondValue operator value = value) = Bare := by
    funext operator value
    exact propext (renderCondValue_bare_iff operator value)
  have hQuoted :
      (fun operator value =>
        renderCondValue operator value =
          scriptStyle.blockValue operator value) = Quoted := by
    funext operator value
    exact propext (renderCondValue_quoted_iff operator value)
  have hAction :
      (fun a => agentStyle.blank a = scriptStyle.blank a) =
        asShown.action := by
    funext a
    exact propext decide_eq_decide
  unfold asShown
  rw [← hBare, ← hQuoted]
  exact congrArg
    (fun action => Parts.mk action _ _ _) hAction

theorem profilePreviewed_iff
    {p : Profile}
    (hName : p.name ≠ [])
    (hServices : ∀ svc ∈ p.services, svc.service ≠ [])
    (hDecided : p.Decided) :
    ProfilePreviewed p ↔ asShown.OfProfile p := by
  unfold ProfilePreviewed
  rw [buildProfileConfig_script p hName hServices,
    renderProfile_agent p hDecided, ← agreeing_styles]
  exact (profileDocument p).shown_iff 2

theorem rulesetPreviewed_iff
    {rules : List Rule}
    (hDecided : ∀ r ∈ rules, r.Decided) :
    RulesetPreviewed rules ↔ asShown.OfRules rules := by
  have hShown :
      Shown (buildRulesetConfig rules)
          (agentStyle.ruleset rules ++ "\n") ↔
        asShown.OfRules rules := by
    rw [buildRulesetConfig_script, ← agreeing_styles]
    exact (rulesetDocument rules).shown_iff 1
  unfold RulesetPreviewed
  rw [renderRuleset_agent rules hDecided, ← hShown]
  constructor
  · rintro ⟨body, hBody, hSame⟩
    rwa [List.append_cancel_left hBody]
  · intro hSame
    exact ⟨_, rfl, hSame⟩

/-
  The preview is what is written if every operand that it
  leaves bare is written bare, every operand of a block that
  it puts in quotes is written in quotes, and no action is
  blank for one side only; and not otherwise.
-/
theorem previews_iff
    (p : Profile)
    (rules : List Rule)
    (hName : p.name ≠ [])
    (hServices : ∀ svc ∈ p.services, svc.service ≠ [])
    (hProfile : p.Decided)
    (hRules : ∀ r ∈ rules, r.Decided) :
    (ProfilePreviewed p ↔ asShown.OfProfile p) ∧
      (RulesetPreviewed rules ↔ asShown.OfRules rules) :=
  ⟨profilePreviewed_iff hName hServices hProfile,
    rulesetPreviewed_iff hRules⟩

/- A profile with one condition that opens a block. -/
def blockProfile (value : Text) : Profile where
  name := "ops"
  services := [{
    service := "shell"
    actions := [("set priv-lvl = 1" : Text)]
    conditions := [{
      attr := "cmd"
      operator := "=="
      value := value
      actions := [("set priv-lvl = 15" : Text)]
      inline := false
      inlineAction := []
      defaultAction := "permit" }]
    defaultAction := "deny" }]
  defaultAction := "deny"

/- A rule with one condition. -/
def groupRule (value : Text) : Rule where
  enabled := true
  matchConds := [{
    attr := "group"
    operator := "=="
    value := value
    actions := [("profile = ops" : Text)]
    children := []
    elseActions := []
    elseAction := []
    defaultAction := "permit" }]
  defaultAction := "deny"

theorem blockProfile_decided (value : Text) :
    (blockProfile value).Decided := by
  refine ⟨Or.inr rfl, List.forall_mem_singleton.mpr ?_⟩
  exact ⟨Or.inr rfl,
    List.forall_mem_singleton.mpr fun _ => Or.inl rfl⟩

theorem groupRule_decided (value : Text) :
    ∀ r ∈ [groupRule value], r.Decided :=
  List.forall_mem_singleton.mpr
    ⟨Or.inr rfl, ⟨Or.inl rfl, trivial⟩, trivial⟩

instance (a : Text) : Decidable (asShown.action a) :=
  inferInstanceAs (Decidable (a.trimSpace = [] ↔ a.trim = []))

theorem previews_ops :
    ProfilePreviewed (blockProfile "show version") ∧
      RulesetPreviewed [groupRule "admins"] := by
  have hBoth :=
    previews_iff (blockProfile "show version")
      [groupRule "admins"] (by decide)
      (List.forall_mem_singleton.mpr (by decide))
      (blockProfile_decided _) (groupRule_decided _)
  refine ⟨hBoth.1.mpr ?_, hBoth.2.mpr ?_⟩
  · refine List.forall_mem_singleton.mpr ⟨?_, ?_⟩
    · exact List.forall_mem_singleton.mpr (by decide +kernel)
    · refine List.forall_mem_singleton.mpr ⟨?_, ?_⟩
      · exact Or.inr (Or.inr (by decide +kernel))
      · exact List.forall_mem_singleton.mpr (by decide +kernel)
  · refine List.forall_mem_singleton.mpr
      ⟨⟨⟨?_, ?_, ?_⟩, trivial⟩, trivial⟩
    · exact Or.inr ⟨by decide, by decide +kernel⟩
    · exact List.forall_mem_singleton.mpr (by decide +kernel)
    · exact fun a hMem => absurd hMem List.not_mem_nil

/-
  The page shows `if (cmd == "show")` and `if (group == net
  admins)`; the agent writes `if (cmd == show)` and
  `if (group == "net admins")`.
-/
theorem previews_differ :
    (blockProfile "show").name ≠ [] ∧
      (∀ svc ∈ (blockProfile "show").services,
        svc.service ≠ []) ∧
      (blockProfile "show").Decided ∧
      ¬ ProfilePreviewed (blockProfile "show") ∧
      (∀ r ∈ [groupRule "net admins"], r.Decided) ∧
      ¬ RulesetPreviewed [groupRule "net admins"] := by
  have hName : (blockProfile "show").name ≠ [] := by decide
  have hServices :
      ∀ svc ∈ (blockProfile "show").services,
        svc.service ≠ [] :=
    List.forall_mem_singleton.mpr (by decide)
  have hProfile := blockProfile_decided "show"
  have hRules := groupRule_decided "net admins"
  refine ⟨hName, hServices, hProfile, ?_, hRules, ?_⟩
  · rw [profilePreviewed_iff hName hServices hProfile]
    intro hShown
    have hService := List.forall_mem_singleton.mp hShown
    have hCondition := List.forall_mem_singleton.mp hService.2
    have hQuoted : Quoted "==" "show" := hCondition.1
    rcases hQuoted with hExpr | hEmpty | hBlank
    · exact absurd hExpr (by decide)
    · exact absurd hEmpty (by decide)
    · exact absurd hBlank (by decide +kernel)
  · rw [rulesetPreviewed_iff hRules]
    intro hShown
    have hRule := List.forall_mem_singleton.mp hShown
    have hBare : Bare "==" "net admins" := hRule.1.1.1
    rcases hBare with hExpr | ⟨_, hNone⟩
    · exact absurd hExpr (by decide)
    · exact absurd hNone (by decide +kernel)

end Frontend

end Soteria
