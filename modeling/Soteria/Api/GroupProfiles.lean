import Soteria.Tacconfig.Bodies
import Soteria.Tacconfig.Rulesets

/-
  The profile shown for a group, and the profile the rules
  leave in force for its members.

  Key definitions include:
    * `sscanProfile`, `groupProfileMap`
    * `actionProfile`, `inForce`
    * `mentions`, `assigned`
    * `rulesetLines`, `mentions_eq`, `assigned_eq`
    * `StaysSet`, `FirstStays`
    * `groupProfile_agrees_iff`
-/

------------------------------------------------------------
-- The Map
------------------------------------------------------------

namespace Soteria

namespace Api

open Tacconfig

/-
  A space of a format of `fmt.Sscanf`: one space at least, or
  the end of the input, and no newline.
-/
def scanSpaces : Text → Option Text
| [] => some []
| c :: rest =>
    if Text.isSpace c ∧ c ≠ '\n' then
      some (rest.dropWhile fun d =>
        Text.isSpace d && d != '\n')
    else none

/- A literal of such a format. -/
def scanLiteral (literal s : Text) : Option Text :=
  if s.hasPrefix literal then some (s.drop literal.length)
  else none

/- The verb `%s`: characters up to the next space. -/
def scanWord : Text → Option Text
| [] => none
| c :: rest =>
    if c = '\n' then none
    else
      some ((c :: rest).takeWhile fun d => !Text.isSpace d)

/- `fmt.Sscanf(a, "profile = %s", &p)`, where `p` is read. -/
def sscanProfile (a : Text) : Option Text := do
  let s ← scanLiteral "profile" a
  let s ← scanSpaces s
  let s ← scanLiteral "=" s
  let s ← scanSpaces s
  scanWord s

example : sscanProfile "profile = admins" = some "admins" := by
  decide

/- Profiles by the names of groups. -/
abbrev ProfileMap := List (Text × Text)

/- The first profile of a group stays. -/
def noteProfile
    (out : ProfileMap)
    (group profile : Text) : ProfileMap :=
  if (out.lookup group).isSome then out
  else (group, profile) :: out

/- The actions of a condition on a group. -/
def noteActions
    (out : ProfileMap)
    (group : Text)
    (actions : List Text) : ProfileMap :=
  (actions.filterMap sscanProfile).foldl
    (fun out profile => noteProfile out group profile) out

/- The condition is `member == value`. -/
def isMember (attr operator : Text) : Bool :=
  attr == "member" && operator == "=="

mutual

/- The `walk` of `groupProfileMap`, at one condition. -/
def walkCondition
    (out : ProfileMap) : RuleCondition → ProfileMap
| ⟨attr, operator, value, actions, children, _, _, _⟩ =>
    walk
      (if isMember attr operator then
        noteActions out value actions
      else out)
      children

def walk (out : ProfileMap) : List RuleCondition → ProfileMap
| [] => out
| c :: rest => walk (walkCondition out c) rest

end

/- `groupProfileMap`. -/
def groupProfileMap (rules : List Rule) : ProfileMap :=
  rules.foldl (fun out r => walk out r.matchConds) []

end Api

end Soteria

------------------------------------------------------------
-- Evaluation
------------------------------------------------------------

namespace Soteria

namespace Api

open Tacconfig

/- The profile an action sets, as the grammar reads it. -/
def actionProfile (action : Text) : Option Text :=
  match parse action with
  | .ok ([.assign name value _ _], _) =>
      if name = "profile" then some value else none
  | _ => none

/- The action is a verdict. -/
def actionEnds (action : Text) : Bool :=
  match parse action with
  | .ok ([.action value _ _], _) => isTerminalAction value
  | _ => false

/- What holds for a user that is in this group only. -/
def memberOf (group : Text) (test : Test) : Bool :=
  isMember test.attr test.op && test.value == group

/- The enabled rules from the top, up to a verdict. -/
def evaluate
    (group : Text)
    (rules : List Rule) : Script.Outcome Text :=
  Script.run actionEnds (memberOf group)
    ((rules.filter Rule.enabled).flatMap Rule.stmts)

/- The profiles that are set on the way, in order. -/
def assigned (group : Text) (rules : List Rule) : List Text :=
  (evaluate group rules).actions.filterMap actionProfile

/- A later profile overrides an earlier one. -/
def inForce (group : Text) (rules : List Rule) : Option Text :=
  (assigned group rules).getLast?

end Api

end Soteria

------------------------------------------------------------
-- Mentioned Profiles
------------------------------------------------------------

namespace Soteria

namespace Api

open Tacconfig

mutual

/- The profiles in actions of conditions on the group. -/
def conditionMentions
    (group : Text) : RuleCondition → List Text
| ⟨attr, operator, value, actions, children, _, _, _⟩ =>
    (if isMember attr operator && value == group then
      actions.filterMap sscanProfile
    else []) ++ mentionsOf group children

def mentionsOf
    (group : Text) : List RuleCondition → List Text
| [] => []
| c :: rest =>
    conditionMentions group c ++ mentionsOf group rest

end

/- The same for whole rules, whether they are enabled or not. -/
def mentions (group : Text) (rules : List Rule) : List Text :=
  rules.flatMap fun r => mentionsOf group r.matchConds

variable {group : Text}

theorem lookup_noteProfile
    (out : ProfileMap)
    (name profile : Text) :
    (noteProfile out name profile).lookup group =
      (out.lookup group).or
        (if name = group then some profile else none) := by
  unfold noteProfile
  by_cases hSame : name = group
  · subst hSame
    cases hSeen : out.lookup name with
    | none => simp
    | some seen => simp [hSeen]
  · have hOther : (group == name) = false := by
      rw [beq_eq_false_iff_ne]
      exact Ne.symm hSame
    rw [if_neg hSame, Option.or_none]
    split
    · rfl
    · rw [List.lookup_cons, hOther]

theorem lookup_noteActions
    (out : ProfileMap)
    (name : Text)
    (actions : List Text) :
    (noteActions out name actions).lookup group =
      (out.lookup group).or
        (if name = group then
          (actions.filterMap sscanProfile).head?
        else none) := by
  unfold noteActions
  generalize actions.filterMap sscanProfile = profiles
  induction profiles generalizing out with
  | nil => simp
  | cons profile rest ih =>
      rw [List.foldl_cons, ih, lookup_noteProfile,
        Option.or_assoc]
      split
      · rfl
      · rfl

mutual

/- The walk finds the first profile that is mentioned. -/
theorem lookup_walkCondition
    (out : ProfileMap)
    (c : RuleCondition) :
    (walkCondition out c).lookup group =
      (out.lookup group).or
        (conditionMentions group c).head? := by
  rcases c with ⟨attr, operator, value, actions, children,
    elseActions, elseAction, defaultAction⟩
  rw [walkCondition, conditionMentions,
    lookup_walk _ children, List.head?_append,
    ← Option.or_assoc]
  congr 1
  cases isMember attr operator with
  | false => simp
  | true =>
      rw [if_pos rfl, lookup_noteActions]
      by_cases hSame : value = group
      · simp [hSame]
      · simp [hSame]

theorem lookup_walk
    (out : ProfileMap)
    (conds : List RuleCondition) :
    (walk out conds).lookup group =
      (out.lookup group).or (mentionsOf group conds).head? := by
  cases conds with
  | nil => simp [walk, mentionsOf]
  | cons c rest =>
      rw [walk, mentionsOf, lookup_walk _ rest,
        lookup_walkCondition out c, List.head?_append,
        Option.or_assoc]

end

theorem lookup_groupProfileMap (rules : List Rule) :
    (groupProfileMap rules).lookup group =
      (mentions group rules).head? := by
  have hAll :
      ∀ out : ProfileMap,
        (rules.foldl (fun out r => walk out r.matchConds)
            out).lookup group =
          (out.lookup group).or (mentions group rules).head? := by
    unfold mentions
    induction rules with
    | nil => simp
    | cons r rest ih =>
        intro out
        rw [List.foldl_cons, ih, lookup_walk, List.flatMap_cons,
          List.head?_append, Option.or_assoc]
  exact hAll []

end Api

end Soteria

------------------------------------------------------------
-- The Rules as They Are Written
------------------------------------------------------------

namespace Soteria

namespace Api

open Tacconfig

/-
  An action of a rule where it is written. It is listed if it
  is one of the actions of a condition, not its default action
  or one of its else part.
-/
structure ActionLine extends Script.Line Test Text where
  listed : Bool

def actionLines
    (listed : Bool)
    (around : List (Test × Bool))
    (actions : List Text) : List ActionLine :=
  actions.map fun a => ⟨⟨around, a⟩, listed⟩

/- The actions of a list that are not blank. -/
def unblank (actions : List Text) : List Text :=
  actions.filter fun a => a.trimSpace != []

/- An action of its own, if there is one. -/
def single (action : Text) : List Text :=
  if action = [] then [] else [action]

mutual

def conditionLines
    (around : List (Test × Bool)) :
    RuleCondition → List ActionLine
| ⟨attr, operator, value, actions, children, elseActions,
    elseAction, defaultAction⟩ =>
    actionLines true ((⟨attr, operator, value⟩, true) :: around)
        (unblank actions) ++
      (conditionsLines
          ((⟨attr, operator, value⟩, true) :: around) children ++
        (actionLines false
            ((⟨attr, operator, value⟩, true) :: around)
            (single defaultAction) ++
          actionLines false
            ((⟨attr, operator, value⟩, false) :: around)
            (unblank elseActions ++ single elseAction)))

def conditionsLines
    (around : List (Test × Bool)) :
    List RuleCondition → List ActionLine
| [] => []
| c :: rest =>
    conditionLines around c ++ conditionsLines around rest

end

def ruleLines (r : Rule) : List ActionLine :=
  conditionsLines [] r.matchConds ++
    actionLines false [] (single r.defaultAction)

/- An action where it is written in a ruleset. -/
structure RulesetLine extends ActionLine where
  enabled : Bool

/- The actions of a ruleset from its top to its end. -/
def rulesetLines (rules : List Rule) : List RulesetLine :=
  rules.flatMap fun r =>
    (ruleLines r).map fun l => ⟨l, r.enabled⟩

/-
  The line is in an enabled rule, and for a member of the
  group only it is on the right side of every condition that
  stands around it.
-/
def RulesetLine.isOpen
    (group : Text)
    (l : RulesetLine) : Bool :=
  l.enabled && l.toLine.isOpen (memberOf group)

def RulesetLine.ends (l : RulesetLine) : Bool :=
  actionEnds l.action

/- The profile the line sets when it runs. -/
def RulesetLine.sets (l : RulesetLine) : Option Text :=
  actionProfile l.action

/-
  The profile the line has for the group: it is listed right
  under a condition on the group.
-/
def ActionLine.mention
    (group : Text)
    (l : ActionLine) : Option Text :=
  if l.listed &&
      l.around.head?.any fun part => memberOf group part.1 then
    sscanProfile l.action
  else none

end Api

end Soteria

------------------------------------------------------------
-- What Is Mentioned and What Is Reached
------------------------------------------------------------

namespace Soteria

namespace Api

open Tacconfig

variable {group : Text}

/- A blank action mentions no profile. -/
theorem sscanProfile_blank
    {a : Text}
    (hBlank : a.trimSpace = []) :
    sscanProfile a = none := by
  cases a with
  | nil => decide
  | cons c rest =>
      have hNot : c ≠ 'p' := by
        rintro rfl
        have hHead :
            List.dropWhile Text.isSpace ('p' :: rest) =
              'p' :: rest :=
          List.dropWhile_cons_of_neg (by decide)
        unfold Text.trimSpace at hBlank
        rw [hHead, List.rdropWhile_eq_nil_iff] at hBlank
        exact absurd (hBlank 'p' (List.mem_cons_self ..))
          (by decide)
      have hPrefix :
          Text.hasPrefix (c :: rest) "profile" = false := by
        simp [Text.hasPrefix, List.isPrefixOf, Ne.symm hNot]
      unfold sscanProfile scanLiteral
      rw [hPrefix]
      rfl

theorem unblank_mentions (actions : List Text) :
    (unblank actions).filterMap sscanProfile =
      actions.filterMap sscanProfile := by
  unfold unblank
  induction actions with
  | nil => rfl
  | cons a rest ih =>
      by_cases hBlank : a.trimSpace = []
      · rw [List.filter_cons_of_neg (by simp [hBlank]), ih,
          List.filterMap_cons_none (sscanProfile_blank hBlank)]
      · rw [List.filter_cons_of_pos (by simp [hBlank]),
          List.filterMap_cons, List.filterMap_cons, ih]

/- Only listed actions are mentioned. -/
theorem actionLines_mention
    (listed : Bool)
    (test : Test)
    (side : Bool)
    (around : List (Test × Bool))
    (actions : List Text) :
    (actionLines listed ((test, side) :: around)
        actions).filterMap (ActionLine.mention group) =
      if listed && memberOf group test then
        actions.filterMap sscanProfile
      else [] := by
  unfold actionLines
  rw [List.filterMap_map]
  have hLine :
      (ActionLine.mention group ∘ fun a =>
          ⟨⟨(test, side) :: around, a⟩, listed⟩) =
        fun a =>
          if listed && memberOf group test then sscanProfile a
          else none := rfl
  rw [hLine]
  cases listed && memberOf group test with
  | true => rfl
  | false => simp

mutual

theorem conditionLines_mention
    (around : List (Test × Bool)) :
    (c : RuleCondition) →
      (conditionLines around c).filterMap
          (ActionLine.mention group) =
        conditionMentions group c
| ⟨attr, operator, value, actions, children, elseActions,
    elseAction, defaultAction⟩ => by
    rw [conditionLines, conditionMentions]
    simp only [List.filterMap_append, actionLines_mention,
      conditionsLines_mention _ children, unblank_mentions,
      Bool.true_and, Bool.false_and, Bool.false_eq_true,
      if_false, List.append_nil]
    rfl

theorem conditionsLines_mention
    (around : List (Test × Bool)) :
    (conds : List RuleCondition) →
      (conditionsLines around conds).filterMap
          (ActionLine.mention group) =
        mentionsOf group conds
| [] => rfl
| c :: rest => by
    rw [conditionsLines, mentionsOf, List.filterMap_append,
      conditionLines_mention around c,
      conditionsLines_mention around rest]

end

/- The profiles that are mentioned stand in the text. -/
theorem mentions_eq (rules : List Rule) :
    mentions group rules =
      (rulesetLines rules).filterMap fun l =>
        l.mention group := by
  unfold mentions rulesetLines
  rw [List.filterMap_flatMap]
  refine List.flatMap_congr fun r _ => ?_
  have hDefault :
      (actionLines false [] (single r.defaultAction)).filterMap
          (ActionLine.mention group) = [] := by
    unfold actionLines
    rw [List.filterMap_map]
    exact List.filterMap_eq_nil_iff.mpr fun _ _ => rfl
  rw [List.filterMap_map, ← conditionsLines_mention []]
  unfold ruleLines
  have hSame :
      ((fun l : RulesetLine => l.mention group) ∘
          fun l : ActionLine => ⟨l, r.enabled⟩) =
        ActionLine.mention group := rfl
  rw [hSame, List.filterMap_append, hDefault, List.append_nil]

theorem actionLines_stmts
    (listed : Bool)
    (around : List (Test × Bool))
    (actions : List Text) :
    (actionLines listed around (unblank actions)).map
        ActionLine.toLine =
      Script.lines around (actionStmts actions) := by
  unfold actionStmts
  have hKept : ∀ a ∈ unblank actions, a ≠ [] := by
    rintro a hMem rfl
    unfold unblank at hMem
    have := (List.mem_filter.mp hMem).2
    exact absurd this (by decide)
  change _ = Script.lines around
    ((unblank actions).flatMap textStmt)
  unfold actionLines
  generalize unblank actions = kept at hKept
  induction kept with
  | nil => rfl
  | cons a rest ih =>
      have hStmt : textStmt a = [.act a] :=
        if_neg (hKept a (List.mem_cons_self ..))
      rw [List.flatMap_cons, Script.lines_append, hStmt,
        ← ih fun b hB => hKept b (List.mem_cons_of_mem _ hB)]
      rfl

theorem single_stmts
    (listed : Bool)
    (around : List (Test × Bool))
    (action : Text) :
    (actionLines listed around (single action)).map
        ActionLine.toLine =
      Script.lines around (textStmt action) := by
  unfold single textStmt
  by_cases hNone : action = []
  · rw [if_pos hNone, if_pos hNone]
    rfl
  · rw [if_neg hNone, if_neg hNone]
    rfl

theorem actionLines_append
    (listed : Bool)
    (around : List (Test × Bool))
    (first rest : List Text) :
    actionLines listed around (first ++ rest) =
      actionLines listed around first ++
        actionLines listed around rest :=
  List.map_append

mutual

/- The lines are the ones of the script that is written. -/
theorem conditionLines_stmt
    (around : List (Test × Bool)) :
    (c : RuleCondition) →
      (conditionLines around c).map ActionLine.toLine =
        c.stmt.lines around
| ⟨attr, operator, value, actions, children, elseActions,
    elseAction, defaultAction⟩ => by
    rw [conditionLines, RuleCondition.stmt, Script.Stmt.lines]
    simp only [List.map_append, actionLines_append,
      Script.lines_append, actionLines_stmts, single_stmts,
      conditionsLines_stmts _ children, List.append_assoc]

theorem conditionsLines_stmts
    (around : List (Test × Bool)) :
    (conds : List RuleCondition) →
      (conditionsLines around conds).map ActionLine.toLine =
        Script.lines around (conditionStmts conds)
| [] => rfl
| c :: rest => by
    rw [conditionsLines, conditionStmts, Script.lines,
      List.map_append, conditionLines_stmt around c,
      conditionsLines_stmts around rest]

end

theorem ruleLines_stmts (r : Rule) :
    (ruleLines r).map ActionLine.toLine =
      Script.lines [] r.stmts := by
  unfold ruleLines Rule.stmts
  rw [List.map_append, conditionsLines_stmts, single_stmts,
    Script.lines_append]

/- The open lines are the ones of the enabled rules. -/
theorem opened_rulesetLines (rules : List Rule) :
    ((rulesetLines rules).filter
        (RulesetLine.isOpen group)).map (fun l => l.action) =
      Script.opened (memberOf group)
        (Script.lines []
          ((rules.filter Rule.enabled).flatMap Rule.stmts)) := by
  unfold rulesetLines
  induction rules with
  | nil => rfl
  | cons r rest ih =>
      rw [List.flatMap_cons, List.filter_append,
        List.map_append, ih]
      cases hEnabled : r.enabled with
      | false =>
          have hNone :
              ((ruleLines r).map fun l =>
                (⟨l, false⟩ : RulesetLine)).filter
                  (RulesetLine.isOpen group) = [] := by
            rw [List.filter_map]
            exact List.map_eq_nil_iff.mpr
              (List.filter_eq_nil_iff.mpr fun _ _ =>
                Bool.false_ne_true)
          rw [hNone, List.filter_cons_of_neg (by simp [hEnabled])]
          rfl
      | true =>
          have hOpen :
              (RulesetLine.isOpen group ∘ fun l =>
                  (⟨l, true⟩ : RulesetLine)) =
                Script.Line.isOpen (memberOf group) ∘
                  ActionLine.toLine := rfl
          rw [List.filter_cons_of_pos hEnabled,
            List.flatMap_cons, Script.lines_append,
            Script.opened_append, ← ruleLines_stmts]
          congr 1
          unfold Script.opened
          rw [List.filter_map, List.filter_map, hOpen,
            List.map_map, List.map_map]
          rfl

/- The profiles that are set stand in the lines reached. -/
theorem assigned_eq (rules : List Rule) :
    assigned group rules =
      (Script.passed (RulesetLine.isOpen group)
        RulesetLine.ends (rulesetLines rules)).filterMap
          RulesetLine.sets := by
  have hTop : Script.goes (memberOf group) [] = true := rfl
  unfold assigned evaluate Script.passed
  rw [Script.run_lines hTop, ← opened_rulesetLines]
  unfold Script.Outcome.upTo
  rw [List.takeWhile_map, List.filterMap_map]
  rfl

end Api

end Soteria

------------------------------------------------------------
-- Agreement
------------------------------------------------------------

namespace Soteria

namespace Api

open Tacconfig

/- The map shows what is in force, or nothing if nothing is. -/
def ProfileAgrees (group : Text) (rules : List Rule) : Prop :=
  (groupProfileMap rules).lookup group = inForce group rules

/-
  The line runs for a member of the group: its rule is
  enabled, the conditions around it let the member in, and
  neither it nor a line above it that is placed so is a
  verdict.
-/
def Runs
    (group : Text)
    (above : List RulesetLine)
    (l : RulesetLine) : Prop :=
  Script.Reached (RulesetLine.isOpen group) RulesetLine.ends
    above l

/-
  A line that runs sets the profile, and no line that runs
  below it sets another one.
-/
def StaysSet
    (group : Text)
    (text : List RulesetLine)
    (profile : Text) : Prop :=
  ∃ above l below, text = above ++ l :: below ∧
    Runs group above l ∧ l.sets = some profile ∧
    ∀ between m rest, below = between ++ m :: rest →
      Runs group (above ++ l :: between) m →
      ∀ other, m.sets = some other → other = profile

/-
  The first profile that is mentioned for the group, in
  whatever rule and behind whatever line, stays set. Where
  none is mentioned, no line that runs sets one.
-/
structure FirstStays
    (group : Text)
    (text : List RulesetLine) : Prop where
  first : ∀ above l below profile,
    text = above ++ l :: below →
    (∀ m ∈ above, m.mention group = none) →
    l.mention group = some profile →
    StaysSet group text profile
  unmentioned : (∀ l ∈ text, l.mention group = none) →
    ∀ above l below, text = above ++ l :: below →
      Runs group above l → l.sets = none

/- The profile in force, in terms of the text. -/
theorem inForce_iff
    {group profile : Text}
    {rules : List Rule} :
    inForce group rules = some profile ↔
      StaysSet group (rulesetLines rules) profile := by
  unfold inForce
  rw [assigned_eq]
  exact Script.passed_getLast?_iff

theorem inForce_none_iff
    {group : Text}
    {rules : List Rule} :
    inForce group rules = none ↔
      ∀ above l below,
        rulesetLines rules = above ++ l :: below →
        Runs group above l → l.sets = none := by
  unfold inForce
  rw [assigned_eq, List.getLast?_eq_none_iff,
    List.filterMap_eq_nil_iff]
  constructor
  · intro hNone above l below hText hRuns
    exact hNone l
      (Script.mem_passed_iff.mpr ⟨above, below, hText, hRuns⟩)
  · intro hNone l hMem
    rcases Script.mem_passed_iff.mp hMem with
      ⟨above, below, hText, hRuns⟩
    exact hNone above l below hText hRuns

/-
  The map is right if and only if the first profile that is
  written for the group stays set.
-/
theorem groupProfile_agrees_iff
    (group : Text)
    (rules : List Rule) :
    ProfileAgrees group rules ↔
      FirstStays group (rulesetLines rules) := by
  unfold ProfileAgrees
  rw [lookup_groupProfileMap, mentions_eq,
    List.head?_filterMap]
  cases hFirst :
      (rulesetLines rules).findSome? fun l =>
        l.mention group with
  | none =>
      rw [List.findSome?_eq_none_iff] at hFirst
      rw [eq_comm, inForce_none_iff]
      constructor
      · intro hNone
        refine ⟨?_, fun _ => hNone⟩
        intro above l below profile hText _ hMention
        rw [hFirst l (by simp [hText])] at hMention
        cases hMention
      · intro hStays
        exact hStays.unmentioned hFirst
  | some profile =>
      rcases List.findSome?_eq_some_iff.mp hFirst with
        ⟨above, l, below, hText, hMention, hAbove⟩
      rw [eq_comm, inForce_iff]
      constructor
      · intro hSet
        refine ⟨?_, fun hNone => ?_⟩
        · intro above' l' below' other hText' hAbove' hOther
          have hSame : some other = some profile := by
            rw [← hFirst]
            exact (List.findSome?_eq_some_iff.mpr
              ⟨above', l', below', hText', hOther, hAbove'⟩).symm
          injection hSame with hSame
          rwa [hSame]
        · rw [hNone l (by simp [hText])] at hMention
          cases hMention
      · intro hStays
        exact hStays.first above l below profile hText hAbove
          hMention

/- A rule that only sets the profile of a group. -/
def profileRule
    (enabled : Bool)
    (group profile : Text) : Rule where
  enabled := enabled
  matchConds :=
    [⟨"member", "==", group, ["profile = " ++ profile], [], [],
      [], "permit"⟩]
  defaultAction := []

/- A disabled rule above the one that is in use. -/
theorem disabled_rule_shown :
    ¬ ProfileAgrees "ops"
      [profileRule false "ops" "admins",
        profileRule true "ops" "readers"] := by
  unfold ProfileAgrees
  decide +kernel

end Api

end Soteria
