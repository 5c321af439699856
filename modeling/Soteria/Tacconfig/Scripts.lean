import Soteria.Foundation.Script
import Soteria.Tacconfig.Entities

/-
  What the nodes of a script do.

  Key definitions include:
    * `Test`, `Stmt`
    * `nodeScript`, `script`
    * `outcome`
    * `ruleScripts`
-/

------------------------------------------------------------
-- Scripts of Nodes
------------------------------------------------------------

namespace Soteria

namespace Tacconfig

/- What a condition compares, with its operand. -/
structure Test where
  attr : Text
  op : Text
  value : Text
deriving DecidableEq

abbrev Stmt := Script.Stmt Test Text

def Cond.test (c : Cond) : Test :=
  ⟨c.attr, c.op, c.value⟩

/- A bare action; an empty one does nothing. -/
def textStmt (action : Text) : List Stmt :=
  if action = [] then [] else [.act action]

mutual

/- A block is no statement of a script. -/
def nodeScript : Node → List Stmt
| .assign name value _ _ => textStmt (name ++ " = " ++ value)
| .action value _ _ => textStmt value
| .block .. => []
| .ifNode cond children elseNodes _ _ _ =>
    [.cond cond.test (script children) (script elseNodes)]

def script : List Node → List Stmt
| [] => []
| n :: rest => nodeScript n ++ script rest

end

/- The outcome of a script, for a valuation of its tests. -/
def outcome
    (holds : Test → Bool)
    (nodes : List Node) : Script.Outcome Text :=
  Script.run isTerminalAction holds (script nodes)

theorem script_append (nodes more : List Node) :
    script (nodes ++ more) = script nodes ++ script more := by
  induction nodes with
  | nil => rfl
  | cons n rest ih =>
      rw [List.cons_append, script, script, ih,
        List.append_assoc]

theorem nodeScript_of_statement
    {n : Node}
    (hStatement : n.isStatement = true) :
    nodeScript n = textStmt n.actionText := by
  cases n with
  | assign => simp only [nodeScript, Node.actionText]
  | action => simp only [nodeScript, Node.actionText]
  | block => cases hStatement
  | ifNode => cases hStatement

theorem script_of_statements
    {nodes : List Node}
    (hStatements : ∀ n ∈ nodes, n.isStatement = true) :
    script nodes =
      (nodes.map Node.actionText).flatMap textStmt := by
  induction nodes with
  | nil => rfl
  | cons n rest ih =>
      have hRest :=
        ih fun m hm => hStatements m (List.mem_cons_of_mem _ hm)
      have hHead :=
        nodeScript_of_statement
          (hStatements n (List.mem_cons_self ..))
      rw [script, hHead, hRest, List.map_cons,
        List.flatMap_cons]

end Tacconfig

end Soteria

------------------------------------------------------------
-- Scripts of a File
------------------------------------------------------------

namespace Soteria

namespace Tacconfig

/- The script of a rule, with whether the rule is enabled. -/
def ruleScript : Node → Option (Bool × List Node)
| .block name _ children _ _ =>
    if name = "rule" then
      some
        (assignValue "enabled" children != "no",
          (findBlock "script" children).getD [])
    else none
| _ => none

def ruleScripts (nodes : List Node) :
    List (Bool × List Node) :=
  ((findBlock "ruleset" nodes).getD []).filterMap ruleScript

/- The script of a profile, with the name of the profile. -/
def profileScript : Node → Option (Text × List Node)
| .block name label children _ _ =>
    if name = "profile" then
      some (label, (findBlock "script" children).getD [])
    else none
| _ => none

def profileScripts (nodes : List Node) :
    List (Text × List Node) :=
  nodes.filterMap profileScript

/- A source of the given lines. -/
def sourceOf (lines : List String) : Text :=
  lines.flatMap fun line => line.toList ++ "\n"

end Tacconfig

end Soteria
