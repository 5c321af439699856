import Soteria.Tacconfig.Parser

/-
  Profiles and rules as read from a config source.

  Key definitions include:
    * `Profile`, `ServiceRule`, `ConditionRule`
    * `Rule`, `RuleCondition`
    * `condValue`, `splitDefault`
    * `parseProfiles`, `parseRuleset`
-/

------------------------------------------------------------
-- Profiles and Rules
------------------------------------------------------------

namespace Soteria

namespace Tacconfig

structure ConditionRule where
  attr : Text
  operator : Text
  value : Text
  actions : List Text
  inline : Bool
  inlineAction : Text
  defaultAction : Text

structure ServiceRule where
  service : Text
  actions : List Text
  conditions : List ConditionRule
  defaultAction : Text

structure Profile where
  name : Text
  services : List ServiceRule
  defaultAction : Text

structure RuleCondition where
  attr : Text
  operator : Text
  value : Text
  actions : List Text
  children : List RuleCondition
  elseActions : List Text
  elseAction : Text
  defaultAction : Text

/- One `rule` block of the ruleset. -/
structure Rule where
  enabled : Bool
  matchConds : List RuleCondition
  defaultAction : Text

end Tacconfig

end Soteria

------------------------------------------------------------
-- Reading Nodes
------------------------------------------------------------

namespace Soteria

namespace Tacconfig

def stripQuotes (s : Text) : Text :=
  let s := s.trimSpace
  if 2 ≤ s.length && s.hasPrefix "\"" && s.hasSuffix "\"" then
    (s.drop 1).dropLast
  else s

def isTerminalAction (s : Text) : Bool :=
  s == "permit" || s == "deny"

/- The operand of a condition, without its quotes. -/
def condValue (c : Cond) : Text :=
  if c.quoted then stripQuotes c.value else c.value

/- Assignments and bare actions. -/
def Node.isStatement : Node → Bool
| .assign .. => true
| .action .. => true
| _ => false

def Node.isIf : Node → Bool
| .ifNode .. => true
| _ => false

/- The value of the first assignment to a key. -/
def assignValue (key : Text) : List Node → Text
| [] => []
| .assign name value _ _ :: rest =>
    if name = key then value else assignValue key rest
| _ :: rest => assignValue key rest

/- The children of the first block of a name. -/
def findBlock (name : Text) : List Node → Option (List Node)
| [] => none
| .block blockName _ children _ _ :: rest =>
    if blockName = name then some children
    else findBlock name rest
| _ :: rest => findBlock name rest

/-
  A trailing bare `permit` or `deny` of an action list is its
  default action.
-/
def splitDefault (actions : List Text) : List Text × Text :=
  match actions.getLast? with
  | some last =>
      if isTerminalAction last then (actions.dropLast, last)
      else (actions, [])
  | none => (actions, [])

/- The last `permit` or `deny` of a whole script. -/
def scriptDefault (script : List Node) : Text :=
  (((script.filter Node.isStatement).map
    Node.actionText).filter isTerminalAction).getLastD []

end Tacconfig

end Soteria

------------------------------------------------------------
-- Profiles
------------------------------------------------------------

namespace Soteria

namespace Tacconfig

/- The condition of an `if`; other nodes have none. -/
def conditionFromNode : Node → Option ConditionRule
| .ifNode cond children _ inline _ _ =>
    let base : ConditionRule :=
      { attr := cond.attr
        operator := cond.op
        value := condValue cond
        actions := []
        inline := false
        inlineAction := []
        defaultAction := [] }
    if inline then
      match children with
      | [child] =>
          some
            { base with
              inline := true
              inlineAction := child.actionText }
      | _ => some { base with inline := true }
    else
      -- an `if` among the children counts as an empty action
      let split := splitDefault (children.map Node.actionText)
      some
        { base with actions := split.1, defaultAction := split.2 }
| _ => none

def serviceFromNode : Node → Option ServiceRule
| .ifNode cond children _ _ _ _ =>
    let split :=
      splitDefault
        ((children.filter fun n => !n.isIf).map Node.actionText)
    some
      { service := cond.value
        actions := split.1
        conditions := children.filterMap conditionFromNode
        defaultAction := split.2 }
| _ => none

/- An `if` on the service, whatever its operator. -/
def Node.isService : Node → Bool
| .ifNode cond .. => cond.attr == "service"
| _ => false

/- A `profile` block with its first script. -/
def profileFromNode : Node → Option Profile
| .block name label children _ _ =>
    if name = "profile" then
      match findBlock "script" children with
      | none => some ⟨label, [], []⟩
      | some script =>
          some
            { name := label
              services :=
                (script.filter Node.isService).filterMap
                  serviceFromNode
              defaultAction := scriptDefault script }
    else none
| _ => none

/- `ParseProfiles`. -/
def parseProfiles (src : Text) :
    Except ParseError (List Profile) :=
  (parse src).map fun parsed =>
    parsed.1.filterMap profileFromNode

end Tacconfig

end Soteria

------------------------------------------------------------
-- Rulesets
------------------------------------------------------------

namespace Soteria

namespace Tacconfig

mutual

/- The condition of an `if`; other nodes have none. -/
def ruleConditionFromNode : Node → Option RuleCondition
| .ifNode cond children elseNodes _ _ _ =>
    let split :=
      splitDefault
        ((children.filter fun n => !n.isIf).map Node.actionText)
    let elseSplit := splitDefault (elseNodes.map Node.actionText)
    some
      { attr := cond.attr
        operator := cond.op
        value := condValue cond
        actions := split.1
        children := ruleConditions children
        elseActions := elseSplit.1
        elseAction := elseSplit.2
        defaultAction := split.2 }
| _ => none

def ruleConditions : List Node → List RuleCondition
| [] => []
| n :: rest =>
    match ruleConditionFromNode n with
    | some rc => rc :: ruleConditions rest
    | none => ruleConditions rest

end

/- A `rule` block with its first script. -/
def ruleFromNode : Node → Option Rule
| .block name _ children _ _ =>
    if name = "rule" then
      let script := (findBlock "script" children).getD []
      some
        { enabled := assignValue "enabled" children != "no"
          matchConds := ruleConditions script
          defaultAction := scriptDefault script }
    else none
| _ => none

/- `ParseRuleset`. -/
def parseRuleset (src : Text) :
    Except ParseError (List Rule) :=
  (parse src).map fun parsed =>
    ((findBlock "ruleset" parsed.1).getD []).filterMap
      ruleFromNode

end Tacconfig

end Soteria
