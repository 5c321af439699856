import Mathlib.Data.List.Basic
import Mathlib.Data.List.Induction

/-
  Scripts of actions and conditions.

  The statements of a script run in order. A condition that
  holds runs its body and otherwise its else part; an action
  that ends the script is its verdict, and nothing runs
  after it.

  What runs is read off the text: the actions with only such
  conditions around them as go their way, up to the first
  verdict among them.

  Key definitions include:
    * `Script.Stmt`
    * `Script.Outcome`
    * `Script.run`
    * `Script.lines`, `Script.run_lines`
    * `Script.Reached`, `Script.passed_getLast?_iff`
-/

------------------------------------------------------------
-- Statements
------------------------------------------------------------

namespace Script

inductive Stmt (Test Action : Type) where
  | act (action : Action)
  | cond (test : Test) (body els : List (Stmt Test Action))

/- The actions a script ran and the verdict, if it has one. -/
structure Outcome (Action : Type) where
  actions : List Action
  verdict : Option Action
deriving DecidableEq

namespace Outcome

variable {Action : Type}

/- Nothing ran. -/
def nothing : Outcome Action :=
  ⟨[], none⟩

/- What runs first, and then the rest unless it ended. -/
def andThen (first rest : Outcome Action) : Outcome Action :=
  match first.verdict with
  | some _ => first
  | none => ⟨first.actions ++ rest.actions, rest.verdict⟩

@[simp] theorem nothing_andThen (rest : Outcome Action) :
    nothing.andThen rest = rest := rfl

@[simp] theorem andThen_nothing (first : Outcome Action) :
    first.andThen nothing = first := by
  rcases first with ⟨actions, _ | verdict⟩
  · simp [andThen, nothing]
  · rfl

end Outcome

end Script

------------------------------------------------------------
-- Runs
------------------------------------------------------------

namespace Script

variable {Test Action : Type}

mutual

/- One statement, for a valuation of the tests. -/
def Stmt.run
    (ends : Action → Bool)
    (holds : Test → Bool) :
    Stmt Test Action → Outcome Action
| .act action =>
    if ends action then ⟨[], some action⟩ else ⟨[action], none⟩
| .cond test body els =>
    if holds test then run ends holds body
    else run ends holds els

def run
    (ends : Action → Bool)
    (holds : Test → Bool) :
    List (Stmt Test Action) → Outcome Action
| [] => .nothing
| stmt :: rest =>
    (stmt.run ends holds).andThen (run ends holds rest)

end

end Script

------------------------------------------------------------
-- Lines
------------------------------------------------------------

namespace Script

/-
  An action where it is written: the conditions around it,
  the innermost first, and for each whether the action is in
  its body or in its else part.
-/
structure Line (Test Action : Type) where
  around : List (Test × Bool)
  action : Action

variable {Test Action : Type}

/- Every one of the conditions goes this way. -/
def goes
    (holds : Test → Bool)
    (around : List (Test × Bool)) : Bool :=
  around.all fun part => holds part.1 == part.2

@[simp] theorem goes_cons
    (holds : Test → Bool)
    (test : Test)
    (side : Bool)
    (around : List (Test × Bool)) :
    goes holds ((test, side) :: around) =
      (holds test == side && goes holds around) := rfl

def Line.isOpen
    (holds : Test → Bool)
    (l : Line Test Action) : Bool :=
  goes holds l.around

mutual

/- The actions in the order in which they are written. -/
def Stmt.lines
    (around : List (Test × Bool)) :
    Stmt Test Action → List (Line Test Action)
| .act action => [⟨around, action⟩]
| .cond test body els =>
    lines ((test, true) :: around) body ++
      lines ((test, false) :: around) els

def lines
    (around : List (Test × Bool)) :
    List (Stmt Test Action) → List (Line Test Action)
| [] => []
| stmt :: rest => stmt.lines around ++ lines around rest

end

theorem lines_append
    (around : List (Test × Bool))
    (first rest : List (Stmt Test Action)) :
    lines around (first ++ rest) =
      lines around first ++ lines around rest := by
  induction first with
  | nil => rfl
  | cons stmt more ih =>
      rw [List.cons_append, lines, lines, ih, List.append_assoc]

/- The actions of the lines that are open. -/
def opened
    (holds : Test → Bool)
    (ls : List (Line Test Action)) : List Action :=
  (ls.filter (Line.isOpen holds)).map Line.action

theorem opened_append
    (holds : Test → Bool)
    (first rest : List (Line Test Action)) :
    opened holds (first ++ rest) =
      opened holds first ++ opened holds rest := by
  unfold opened
  rw [List.filter_append, List.map_append]

mutual

/- Nothing is open where the way is closed. -/
theorem Stmt.opened_closed
    {holds : Test → Bool}
    {around : List (Test × Bool)}
    (hClosed : goes holds around = false) :
    (stmt : Stmt Test Action) →
      opened holds (stmt.lines around) = []
| .act action => by
    have hLine :
        Line.isOpen holds ⟨around, action⟩ = false := hClosed
    unfold opened
    rw [Stmt.lines, List.filter_singleton, hLine]
    rfl
| .cond test body els => by
    have hDeeper : ∀ side,
        goes holds ((test, side) :: around) = false := by
      intro side
      rw [goes_cons, hClosed, Bool.and_false]
    rw [Stmt.lines, opened_append,
      opened_closed (hDeeper true) body,
      opened_closed (hDeeper false) els]
    rfl

theorem opened_closed
    {holds : Test → Bool}
    {around : List (Test × Bool)}
    (hClosed : goes holds around = false) :
    (stmts : List (Stmt Test Action)) →
      opened holds (lines around stmts) = []
| [] => rfl
| stmt :: rest => by
    rw [lines, opened_append, stmt.opened_closed hClosed,
      opened_closed hClosed rest]
    rfl

end

namespace Outcome

/- Actions up to the first one that ends the script. -/
def upTo
    (ends : Action → Bool)
    (actions : List Action) : Outcome Action :=
  ⟨actions.takeWhile fun a => !ends a, actions.find? ends⟩

theorem upTo_append
    (ends : Action → Bool)
    (first rest : List Action) :
    upTo ends (first ++ rest) =
      (upTo ends first).andThen (upTo ends rest) := by
  induction first with
  | nil => rfl
  | cons a more ih =>
      unfold upTo andThen at ih ⊢
      cases hEnds : ends a with
      | true => simp [hEnds]
      | false =>
          cases hMore : more.find? ends with
          | none =>
              simp only [hMore, Outcome.mk.injEq] at ih
              simp [hEnds, hMore, ih.1, ih.2]
          | some v =>
              simp only [hMore, Outcome.mk.injEq] at ih
              simp [hEnds, hMore, ih.1, ih.2]

end Outcome

mutual

/- What runs are the open lines, up to the verdict. -/
theorem Stmt.run_lines
    {ends : Action → Bool}
    {holds : Test → Bool}
    {around : List (Test × Bool)}
    (hOpen : goes holds around = true) :
    (stmt : Stmt Test Action) →
      stmt.run ends holds =
        .upTo ends (opened holds (stmt.lines around))
| .act action => by
    have hLine :
        Line.isOpen holds ⟨around, action⟩ = true := hOpen
    unfold opened
    rw [Stmt.run, Stmt.lines, List.filter_singleton, hLine]
    cases hEnds : ends action with
    | true => simp [Outcome.upTo, hEnds]
    | false => simp [Outcome.upTo, hEnds]
| .cond test body els => by
    have hWay : ∀ side,
        goes holds ((test, side) :: around) =
          (holds test == side) := by
      intro side
      rw [goes_cons, hOpen, Bool.and_true]
    rw [Stmt.run, Stmt.lines, opened_append]
    cases hHolds : holds test with
    | true =>
        have hBody := hWay true
        have hElse := hWay false
        rw [hHolds] at hBody hElse
        rw [if_pos rfl, opened_closed hElse els, List.append_nil]
        exact run_lines hBody body
    | false =>
        have hBody := hWay true
        have hElse := hWay false
        rw [hHolds] at hBody hElse
        rw [if_neg Bool.false_ne_true, opened_closed hBody body,
          List.nil_append]
        exact run_lines hElse els

theorem run_lines
    {ends : Action → Bool}
    {holds : Test → Bool}
    {around : List (Test × Bool)}
    (hOpen : goes holds around = true) :
    (stmts : List (Stmt Test Action)) →
      run ends holds stmts =
        .upTo ends (opened holds (lines around stmts))
| [] => rfl
| stmt :: rest => by
    rw [run, lines, opened_append, Outcome.upTo_append,
      stmt.run_lines hOpen, run_lines hOpen rest]

end

end Script

------------------------------------------------------------
-- What Is Reached
------------------------------------------------------------

namespace Script

variable {α β : Type}

/-
  A place in a text is reached: it is live, and no live place
  up to it ends the script.
-/
structure Reached
    (live ends : α → Bool)
    (above : List α)
    (x : α) : Prop where
  isLive : live x = true
  goesOn : ∀ v ∈ above ++ [x], live v = true → ends v = false

/- The live places up to the first one that ends. -/
def passed (live ends : α → Bool) (text : List α) : List α :=
  (text.filter live).takeWhile fun x => !ends x

variable {live ends : α → Bool}

theorem passed_append
    {above : List α}
    (hAbove : ∀ v ∈ above, live v = true → ends v = false)
    (below : List α) :
    passed live ends (above ++ below) =
      above.filter live ++ passed live ends below := by
  unfold passed
  rw [List.filter_append]
  refine List.takeWhile_append_of_pos fun x hMem => ?_
  rw [List.mem_filter] at hMem
  rw [hAbove x hMem.1 hMem.2]
  rfl

theorem Reached.passed_eq
    {above : List α}
    {x : α}
    (hReached : Reached live ends above x)
    (below : List α) :
    passed live ends (above ++ x :: below) =
      above.filter live ++ x :: passed live ends below := by
  have hText : above ++ x :: below = (above ++ [x]) ++ below := by
    simp
  have hHere : [x].filter live = [x] := by
    rw [List.filter_singleton, hReached.isLive]
    rfl
  rw [hText, passed_append hReached.goesOn, List.filter_append,
    hHere, List.append_assoc, List.singleton_append]

/- What is passed from such a place on. -/
theorem reached_below_iff
    {above between : List α}
    {x y : α}
    (hReached : Reached live ends above x) :
    Reached live ends (above ++ x :: between) y ↔
      Reached live ends between y := by
  have hText :
      above ++ x :: between ++ [y] =
        (above ++ [x]) ++ (between ++ [y]) := by
    simp
  constructor
  · intro hBelow
    refine ⟨hBelow.isLive, fun v hV => hBelow.goesOn v ?_⟩
    rw [hText]
    exact List.mem_append_right _ hV
  · intro hBelow
    refine ⟨hBelow.isLive, fun v hV => ?_⟩
    rw [hText] at hV
    rcases List.mem_append.mp hV with hV | hV
    · exact hReached.goesOn v hV
    · exact hBelow.goesOn v hV

/- A place that is passed is reached in the text. -/
theorem passed_split
    {text front back : List α}
    {x : α}
    (hPassed : passed live ends text = front ++ x :: back) :
    ∃ above below, text = above ++ x :: below ∧
      Reached live ends above x ∧
      passed live ends below = back := by
  induction text generalizing front with
  | nil =>
      have hNil : ([] : List α) = front ++ x :: back := hPassed
      simp at hNil
  | cons y rest ih =>
      have hLater :
          ∀ front',
            passed live ends rest = front' ++ x :: back →
            (live y = true → ends y = false) →
            ∃ above below, y :: rest = above ++ x :: below ∧
              Reached live ends above x ∧
              passed live ends below = back := by
        intro front' hRest hGoesOn
        rcases ih hRest with
          ⟨above, below, rfl, hReached, hBack⟩
        refine ⟨y :: above, below, rfl,
          ⟨hReached.isLive, fun v hV hLive => ?_⟩, hBack⟩
        rcases List.mem_cons.mp hV with rfl | hV
        · exact hGoesOn hLive
        · exact hReached.goesOn v hV hLive
      cases hLive : live y with
      | false =>
          have hSame :
              passed live ends (y :: rest) =
                passed live ends rest := by
            unfold passed
            rw [List.filter_cons_of_neg (by simp [hLive])]
          rw [hSame] at hPassed
          exact hLater front hPassed fun h => by simp [hLive] at h
      | true =>
          unfold passed at hPassed
          rw [List.filter_cons_of_pos hLive,
            List.takeWhile_cons] at hPassed
          cases hEnds : ends y with
          | true => simp [hEnds] at hPassed
          | false =>
              simp only [hEnds, Bool.not_false, if_true]
                at hPassed
              cases front with
              | nil =>
                  injection hPassed with hHere hBack
                  subst hHere
                  refine ⟨[], rest, rfl, ⟨hLive, ?_⟩, hBack⟩
                  intro v hV _
                  cases List.mem_singleton.mp hV
                  exact hEnds
              | cons z front' =>
                  injection hPassed with _ hRest
                  exact hLater front' hRest fun _ => hEnds

/- The places that are passed are the ones that are reached. -/
theorem mem_passed_iff
    {text : List α}
    {x : α} :
    x ∈ passed live ends text ↔
      ∃ above below, text = above ++ x :: below ∧
        Reached live ends above x := by
  constructor
  · intro hMem
    rcases List.append_of_mem hMem with ⟨front, back, hSplit⟩
    rcases passed_split hSplit with
      ⟨above, below, hText, hReached, _⟩
    exact ⟨above, below, hText, hReached⟩
  · rintro ⟨above, below, rfl, hReached⟩
    rw [hReached.passed_eq]
    exact List.mem_append_right _ (List.mem_cons_self ..)

/- A value is last if nothing below it sets another one. -/
theorem getLast?_filterMap_iff
    {f : α → Option β}
    {xs : List α}
    {p : β} :
    (xs.filterMap f).getLast? = some p ↔
      ∃ front x back, xs = front ++ x :: back ∧
        f x = some p ∧
        ∀ y ∈ back, ∀ q, f y = some q → q = p := by
  constructor
  · intro hLast
    induction xs using List.reverseRecOn with
    | nil => cases hLast
    | append_singleton ys y ih =>
        rw [List.filterMap_append] at hLast
        cases hHere : f y with
        | none =>
            rw [List.filterMap_cons_none hHere,
              List.filterMap_nil, List.append_nil] at hLast
            rcases ih hLast with ⟨front, x, back, rfl, hX, hBack⟩
            refine ⟨front, x, back ++ [y], by simp, hX, ?_⟩
            intro z hZ q hQ
            rcases List.mem_append.mp hZ with hZ | hZ
            · exact hBack z hZ q hQ
            · cases List.mem_singleton.mp hZ
              rw [hHere] at hQ
              cases hQ
        | some q =>
            rw [List.filterMap_cons_some hHere,
              List.filterMap_nil, List.getLast?_concat] at hLast
            exact ⟨ys, y, [], rfl, hHere.trans hLast, by simp⟩
  · rintro ⟨front, x, back, rfl, hX, hBack⟩
    rw [List.filterMap_append, List.filterMap_cons_some hX,
      List.getLast?_append_cons,
      List.getLast?_eq_some_getLast (List.cons_ne_nil _ _)]
    have hMem := List.getLast_mem
      (List.cons_ne_nil p (back.filterMap f))
    rcases List.mem_cons.mp hMem with hSame | hMem
    · rw [hSame]
    · rcases List.mem_filterMap.mp hMem with ⟨y, hY, hQ⟩
      rw [hBack y hY _ hQ]

/- The last value that is set in the places passed. -/
theorem passed_getLast?_iff
    {f : α → Option β}
    {text : List α}
    {p : β} :
    ((passed live ends text).filterMap f).getLast? = some p ↔
      ∃ above x below, text = above ++ x :: below ∧
        Reached live ends above x ∧ f x = some p ∧
        ∀ between y rest, below = between ++ y :: rest →
          Reached live ends (above ++ x :: between) y →
          ∀ q, f y = some q → q = p := by
  rw [getLast?_filterMap_iff]
  constructor
  · rintro ⟨front, x, back, hSplit, hX, hBack⟩
    rcases passed_split hSplit with
      ⟨above, below, hText, hReached, rfl⟩
    refine ⟨above, x, below, hText, hReached, hX, ?_⟩
    intro between y rest hBelow hY
    refine hBack y (mem_passed_iff.mpr ⟨between, rest, hBelow, ?_⟩)
    exact (reached_below_iff hReached).mp hY
  · rintro ⟨above, x, below, rfl, hReached, hX, hBelow⟩
    refine ⟨_, x, _, hReached.passed_eq below, hX, ?_⟩
    intro y hY
    rcases mem_passed_iff.mp hY with ⟨between, rest, hSplit, hY⟩
    exact hBelow between y rest hSplit
      ((reached_below_iff hReached).mpr hY)

end Script
