import Soteria.Tacconfig.Entities

/-
  Profiles and rules as written to the config files.

  Key definitions include:
    * `banner`
    * `renderCondValue`
    * `renderProfiles`
    * `renderRuleset`
-/

------------------------------------------------------------
-- Lines
------------------------------------------------------------

namespace Soteria

namespace Tacconfig

def commentLine (s : Text) : Text :=
  "# " ++ s ++ "\n"

/- The comment at the top of every file. -/
def banner (file title : Text) : Text :=
  let line := Text.repeated "=" 77
  commentLine line ++ commentLine (file ++ " - " ++ title) ++
    commentLine line ++
    commentLine "Company:    Pathfinder Insights" ++
    commentLine "Project:    Soteria AAA Infrastructure" ++
    commentLine
      "Managed by: soteria-agent - manual edits are overwritten on the next commit" ++
    commentLine line ++ "\n"

/-
  The operand as it is written: bare for a regular
  expression, quoted if it is empty or has a blank.
-/
def renderCondValue (op v : Text) : Text :=
  if op = "=~" then v
  else if v = [] || v.containsAny " \t" then "\"" ++ v ++ "\""
  else v

/- The actions that are not blank, one a line. -/
def renderActions (indent : Text) : List Text → Text
| [] => []
| a :: rest =>
    if a.trimSpace = [] then renderActions indent rest
    else indent ++ a ++ "\n" ++ renderActions indent rest

/- A default action, if there is one. -/
def renderDefault (indent action : Text) : Text :=
  if action = [] then [] else indent ++ action ++ "\n"

def renderCondition
    (indent : Text)
    (c : ConditionRule) : Text :=
  let cond :=
    c.attr ++ " " ++ c.operator ++ " " ++
      renderCondValue c.operator c.value
  if c.inline then
    indent ++ "if (" ++ cond ++ ") " ++ c.inlineAction ++ "\n"
  else
    indent ++ "if (" ++ cond ++ ") \x7b\n" ++
      renderActions (indent ++ "    ") c.actions ++
      renderDefault (indent ++ "    ") c.defaultAction ++
      indent ++ "\x7d\n"

end Tacconfig

end Soteria

------------------------------------------------------------
-- Files
------------------------------------------------------------

namespace Soteria

namespace Tacconfig

def renderService (svc : ServiceRule) : Text :=
  "        if (service == " ++ svc.service ++ ") \x7b\n" ++
    renderActions "            " svc.actions ++
    svc.conditions.flatMap (renderCondition "            ") ++
    renderDefault "            " svc.defaultAction ++
    "        \x7d\n"

def renderProfile (p : Profile) : Text :=
  "profile " ++ p.name ++ " \x7b\n    script \x7b\n" ++
    p.services.flatMap renderService ++
    renderDefault "        " p.defaultAction ++
    "    \x7d\n\x7d\n\n"

/- `RenderProfiles`. -/
def renderProfiles (profiles : List Profile) : Text :=
  banner "07-profiles.cfg" "Authorization profiles" ++
    profiles.flatMap renderProfile

mutual

def renderRuleCondition
    (indent : Text) : RuleCondition → Text
| ⟨attr, operator, value, actions, children, elseActions,
    elseAction, defaultAction⟩ =>
    indent ++ "if (" ++ attr ++ " " ++ operator ++ " " ++
      renderCondValue operator value ++ ") \x7b\n" ++
      renderActions (indent ++ "    ") actions ++
      renderRuleConditions (indent ++ "    ") children ++
      renderDefault (indent ++ "    ") defaultAction ++
      (if elseActions ≠ [] ∨ elseAction ≠ [] then
        indent ++ "\x7d else \x7b\n" ++
          renderActions (indent ++ "    ") elseActions ++
          renderDefault (indent ++ "    ") elseAction
      else []) ++
      indent ++ "\x7d\n"

def renderRuleConditions
    (indent : Text) : List RuleCondition → Text
| [] => []
| rc :: rest =>
    renderRuleCondition indent rc ++
      renderRuleConditions indent rest

end

def renderRule (r : Rule) : Text :=
  "    rule \x7b\n        enabled = " ++
    (if r.enabled then ("yes" : Text) else "no") ++ "\n" ++
    "        script \x7b\n" ++
    renderRuleConditions "            " r.matchConds ++
    renderDefault "            " r.defaultAction ++
    "        \x7d\n    \x7d\n"

/- `RenderRuleset`. -/
def renderRuleset (rules : List Rule) : Text :=
  banner "08-ruleset.cfg"
      "Authorization ruleset (top-down, first match wins)" ++
    "ruleset \x7b\n" ++ rules.flatMap renderRule ++ "\x7d\n"

end Tacconfig

end Soteria
