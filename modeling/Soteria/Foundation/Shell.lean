import Mathlib.Data.List.Chain
import Mathlib.Data.List.Nodup
import Soteria.Foundation.Text

/-
  Shell scripts without expansions.

  A script is read character by character: quotes, escapes
  and comments leave marks, and the marks between two
  separators are a word. A command is assignments and words.
  Where the shell would expand a text, or where an operator
  makes more than a list of commands of it, the script has no
  meaning here.

  Key definitions include:
    * `Shell.Mode`, `Shell.step`, `Shell.run`
    * `Shell.parts`, `Shell.wordLists`
    * `Shell.Command`, `Shell.source`
    * `Shell.Sources`, `Shell.Literal`
    * `Shell.assignAll`
-/

------------------------------------------------------------
-- Reading Characters
------------------------------------------------------------

namespace Shell

/- How the next character is read. -/
inductive Mode where
  | fresh
  | comment
  | plain
  | escape (inWord : Bool)
  | dollar
  | single
  | double
  | doubleEscape
  | doubleDollar
deriving DecidableEq

/- What characters leave behind. -/
inductive Mark where
  | lit (c : Char) (quoted : Bool)
  | quote
  | blank
  | stop
deriving DecidableEq

def isNameChar (c : Char) : Bool :=
  c.isAlphanum || c == '_'

/- A dollar sign in front of it is an expansion. -/
def startsExpansion (c : Char) : Bool :=
  isNameChar c ||
    c ∈ ['@', '*', '#', '?', '-', '$', '!', '(', '[', '\x7b']

/- Operators other than the end of a command. -/
def isOperator (c : Char) : Bool :=
  c ∈ ['&', '|', '<', '>', '(', ')']

/- A character that is not in quotes. -/
def stepPlain (inWord : Bool) (c : Char) :
    Option (List Mark × Mode) :=
  if c = '\n' ∨ c = ';' then some ([.stop], .fresh)
  else if c = ' ' ∨ c = '\t' then some ([.blank], .fresh)
  else if c = '\'' then some ([.quote], .single)
  else if c = '"' then some ([.quote], .double)
  else if c = '\\' then some ([], .escape inWord)
  else if c = '$' then some ([], .dollar)
  else if c = '`' ∨ isOperator c = true then none
  else some ([.lit c false], .plain)

def stepDouble (c : Char) : Option (List Mark × Mode) :=
  if c = '"' then some ([], .plain)
  else if c = '\\' then some ([], .doubleEscape)
  else if c = '$' then some ([], .doubleDollar)
  else if c = '`' then none
  else some ([.lit c true], .double)

/- Put a mark before what is left behind. -/
def behind
    (mark : Mark)
    (next : Option (List Mark × Mode)) :
    Option (List Mark × Mode) :=
  next.map fun r => (mark :: r.1, r.2)

/- One character; none where the shell would expand. -/
def step : Mode → Char → Option (List Mark × Mode)
| .fresh, c =>
    if c = '#' then some ([], .comment) else stepPlain false c
| .comment, c =>
    if c = '\n' then some ([.stop], .fresh)
    else some ([], .comment)
| .plain, c => stepPlain true c
| .escape inWord, c =>
    -- a newline behind a backslash is as if it was not there
    if c = '\n' then
      some ([], if inWord then .plain else .fresh)
    else some ([.lit c true], .plain)
| .dollar, c =>
    if startsExpansion c = true then none
    else behind (.lit '$' false) (stepPlain true c)
| .single, c =>
    if c = '\'' then some ([], .plain)
    else some ([.lit c true], .single)
| .double, c => stepDouble c
| .doubleEscape, c =>
    if c = '\n' then some ([], .double)
    else if c ∈ ['$', '`', '"', '\\'] then
      some ([.lit c true], .double)
    else some ([.lit '\\' true, .lit c true], .double)
| .doubleDollar, c =>
    if startsExpansion c = true then none
    else behind (.lit '$' true) (stepDouble c)

/- The marks of a text, and how it goes on behind it. -/
def run : Mode → Text → Option (List Mark × Mode)
| m, [] => some ([], m)
| m, c :: rest =>
    (step m c).bind fun first =>
      (run first.2 rest).map fun others =>
        (first.1 ++ others.1, others.2)

/- What the end of a script leaves; quotes must be closed. -/
def finish : Mode → Option (List Mark)
| .fresh => some []
| .comment => some []
| .plain => some []
| .escape _ => some [.lit '\\' false]
| .dollar => some [.lit '$' false]
| _ => none

/- All marks of a script. -/
def read (script : Text) : Option (List Mark) :=
  (run .fresh script).bind fun r =>
    (finish r.2).map fun last => r.1 ++ last

end Shell

------------------------------------------------------------
-- Words and Commands
------------------------------------------------------------

namespace Shell

/- Characters, each with whether it was quoted. -/
abbrev Word := List (Char × Bool)

/-
  What marks are, from their end: the word they start in, the
  other words of its command, and the commands behind it.
-/
structure Parts where
  word : Option Word
  rest : List Word
  commands : List (List Word)

def Parts.first (p : Parts) : List Word :=
  p.word.toList ++ p.rest

def parts : List Mark → Parts
| [] => ⟨none, [], []⟩
| .lit c quoted :: ms =>
    ⟨some ((c, quoted) :: (parts ms).word.getD []),
      (parts ms).rest, (parts ms).commands⟩
| .quote :: ms =>
    ⟨some ((parts ms).word.getD []), (parts ms).rest,
      (parts ms).commands⟩
| .blank :: ms =>
    ⟨none, (parts ms).first, (parts ms).commands⟩
| .stop :: ms =>
    ⟨none, [], (parts ms).first :: (parts ms).commands⟩

/- The words of each command that has any. -/
def wordLists (ms : List Mark) : List (List Word) :=
  ((parts ms).first :: (parts ms).commands).filter (· ≠ [])

def Word.text (w : Word) : Text :=
  w.map Prod.fst

/- A bare character of a name. -/
def bareName (p : Char × Bool) : Bool :=
  !p.2 && isNameChar p.1

/- The name and the value of a word that assigns. -/
def assignment (w : Word) : Option (Text × Word) :=
  let name := w.takeWhile bareName
  match w.dropWhile bareName with
  | ('=', false) :: value =>
      match name with
      | [] => none
      | first :: _ =>
          if first.1.isDigit then none
          else some (Word.text name, value)
  | _ => none

/- A bare tilde here, or behind a bare colon. -/
def hasTilde : Bool → Word → Bool
| _, [] => false
| here, (c, quoted) :: rest =>
    (here && c == '~' && !quoted) ||
      hasTilde (c == ':' && !quoted) rest

structure Command where
  assigns : List (Text × Text)
  words : List Text
deriving DecidableEq

/- A command, unless a tilde of it is expanded. -/
def command (ws : List Word) : Option Command :=
  let isAssign : Word → Bool := fun w => (assignment w).isSome
  let assigns := (ws.takeWhile isAssign).filterMap assignment
  let words := ws.dropWhile isAssign
  if assigns.any (fun a => hasTilde true a.2) ||
      words.any (fun w => w.head? == some ('~', false)) then
    none
  else
    some
      ⟨assigns.map fun a => (a.1, Word.text a.2),
        words.map Word.text⟩

/-
  The commands of a script, in order. No variable can hold a
  NUL, and no script may have one.
-/
def source (script : Text) : Option (List Command) :=
  if '\x00' ∈ script then none
  else (read script).bind fun ms => (wordLists ms).mapM command

/- The value a variable is assigned last. -/
def lastAssigned (commands : List Command) (name : Text) :
    Option Text :=
  ((commands.flatMap Command.assigns).reverse.find?
    fun a => a.1 == name).map Prod.snd

/- A command is run; assignments alone run none. -/
def runsCommand (commands : List Command) : Bool :=
  commands.any fun c => c.words != []

end Shell

------------------------------------------------------------
-- Runs over Texts
------------------------------------------------------------

namespace Shell

theorem run_append (m : Mode) (a b : Text) :
    run m (a ++ b) =
      (run m a).bind fun first =>
        (run first.2 b).map fun others =>
          (first.1 ++ others.1, others.2) := by
  induction a generalizing m with
  | nil =>
      cases hRun : run m b <;> simp [run, hRun]
  | cons c a ih =>
      rw [List.cons_append, run, run]
      cases hStep : step m c with
      | none => rfl
      | some first =>
          simp only [Option.bind_some]
          rw [ih]
          cases hFirst : run first.2 a with
          | none => rfl
          | some others =>
              cases hOthers : run others.2 b with
              | none => simp [hOthers]
              | some last => simp [hOthers]

theorem run_cons
    {m m' m'' : Mode}
    {c : Char}
    {s : Text}
    {ms more : List Mark}
    (hStep : step m c = some (ms, m'))
    (hRun : run m' s = some (more, m'')) :
    run m (c :: s) = some (ms ++ more, m'') := by
  rw [run, hStep]
  simp [hRun]

/- What a run over one more character is made of. -/
theorem run_cons_some
    {m m'' : Mode}
    {c : Char}
    {s : Text}
    {all : List Mark}
    (hRun : run m (c :: s) = some (all, m'')) :
    ∃ ms m' more,
      step m c = some (ms, m') ∧ run m' s = some (more, m'') ∧
        all = ms ++ more := by
  rw [run, Option.bind_eq_some_iff] at hRun
  rcases hRun with ⟨⟨ms, m'⟩, hStep, hRest⟩
  rcases Option.map_eq_some_iff.mp hRest with
    ⟨⟨more, m⟩, hMore, hEq⟩
  cases hEq
  exact ⟨ms, m', more, hStep, hMore, rfl⟩

theorem run_append_some
    {m m' m'' : Mode}
    {a b : Text}
    {ms more : List Mark}
    (hFirst : run m a = some (ms, m'))
    (hSecond : run m' b = some (more, m'')) :
    run m (a ++ b) = some (ms ++ more, m'') := by
  rw [run_append, hFirst]
  simp [hSecond]

/- A character that stands for itself outside quotes. -/
def special (c : Char) : Bool :=
  c ∈ ['\n', ';', ' ', '\t', '\'', '"', '\\', '`'] ||
    isOperator c

theorem stepPlain_bare
    {c : Char}
    (hPlain : special c = false)
    (hDollar : c ≠ '$')
    (inWord : Bool) :
    stepPlain inWord c = some ([.lit c false], .plain) := by
  simp only [special, Bool.or_eq_false_iff, decide_eq_false_iff_not,
    List.mem_cons, List.not_mem_nil, or_false, not_or] at hPlain
  rcases hPlain with ⟨⟨h₁, h₂, h₃, h₄, h₅, h₆, h₇, h₈⟩, h₉⟩
  simp [stepPlain, h₁, h₂, h₃, h₄, h₅, h₆, h₇, h₈, h₉, hDollar]

theorem isNameChar_bare
    {c : Char}
    (hName : isNameChar c = true) :
    special c = false ∧ c ≠ '$' ∧ c ≠ '#' ∧ c ≠ '=' := by
  have hAll :
      ∀ d ∈ ['\n', ';', ' ', '\t', '\'', '"', '\\', '`', '&',
          '|', '<', '>', '(', ')', '$', '#', '='],
        isNameChar d = false := by
    decide
  have hNot :
      ∀ d ∈ ['\n', ';', ' ', '\t', '\'', '"', '\\', '`', '&',
          '|', '<', '>', '(', ')', '$', '#', '='], c ≠ d := by
    rintro d hd rfl
    rw [hAll c hd] at hName
    cases hName
  simp only [List.mem_cons, List.not_mem_nil, or_false,
    forall_eq_or_imp, forall_eq] at hNot
  simp [special, isOperator, hNot]

/- The marks of characters that stand for themselves. -/
def lits (quoted : Bool) (s : Text) : List Mark :=
  s.map fun c => .lit c quoted

theorem run_bare
    {s : Text}
    (hBare : ∀ c ∈ s, special c = false ∧ c ≠ '$') :
    run .plain s = some (lits false s, .plain) := by
  induction s with
  | nil => rfl
  | cons c s ih =>
      have hFirst := hBare c (List.mem_cons_self ..)
      have hRest :=
        ih fun d hd => hBare d (List.mem_cons_of_mem _ hd)
      have hStep : step .plain c = some ([.lit c false], .plain) :=
        stepPlain_bare hFirst.1 hFirst.2 true
      exact run_cons hStep hRest

/- In single quotes every other character is literal. -/
theorem run_single
    {s : Text}
    (hQuote : '\'' ∉ s) :
    run .single s = some (lits true s, .single) := by
  induction s with
  | nil => rfl
  | cons c s ih =>
      have hFirst : c ≠ '\'' := by
        rintro rfl
        exact hQuote (List.mem_cons_self ..)
      have hRest :=
        ih fun h => hQuote (List.mem_cons_of_mem _ h)
      have hStep :
          step .single c = some ([.lit c true], .single) :=
        if_neg hFirst
      exact run_cons hStep hRest

theorem run_comment
    {s : Text}
    (hLine : '\n' ∉ s) :
    run .comment s = some ([], .comment) := by
  induction s with
  | nil => rfl
  | cons c s ih =>
      have hFirst : c ≠ '\n' := by
        rintro rfl
        exact hLine (List.mem_cons_self ..)
      have hRest :=
        ih fun h => hLine (List.mem_cons_of_mem _ h)
      have hStep : step .comment c = some ([], .comment) :=
        if_neg hFirst
      exact run_cons hStep hRest

end Shell

------------------------------------------------------------
-- Words of Marks
------------------------------------------------------------

namespace Shell

/- The word that marks spell, if none of them ends it. -/
def spelled : List Mark → Option Word
| [] => some []
| .lit c quoted :: ms =>
    (spelled ms).map fun w => (c, quoted) :: w
| .quote :: ms => spelled ms
| .blank :: _ => none
| .stop :: _ => none

theorem spelled_append (ms more : List Mark) :
    spelled (ms ++ more) =
      (spelled ms).bind fun w =>
        (spelled more).map fun v => w ++ v := by
  induction ms with
  | nil =>
      cases hMore : spelled more <;> simp [spelled, hMore]
  | cons mark ms ih =>
      cases mark with
      | lit c quoted =>
          rw [List.cons_append, spelled, spelled, ih]
          cases spelled ms with
          | none => rfl
          | some w =>
              cases spelled more with
              | none => rfl
              | some v => rfl
      | quote =>
          rw [List.cons_append, spelled, spelled, ih]
      | blank => rfl
      | stop => rfl

theorem spelled_lits (quoted : Bool) (s : Text) :
    spelled (lits quoted s) =
      some (s.map fun c => (c, quoted)) := by
  induction s with
  | nil => rfl
  | cons c s ih =>
      show (spelled (lits quoted s)).map _ = _
      rw [ih]
      rfl

/- A word that a separator ends is a command of its own. -/
theorem parts_spelled
    {ms : List Mark}
    {w : Word}
    (hSpelled : spelled ms = some w)
    (hSome : ms ≠ [])
    (more : List Mark) :
    parts (ms ++ .stop :: more) =
      ⟨some w, [], (parts more).first :: (parts more).commands⟩ := by
  induction ms generalizing w with
  | nil => exact (hSome rfl).elim
  | cons mark ms ih =>
      have hEnd :
          ∀ v, spelled ms = some v →
            (parts (ms ++ .stop :: more)).word.getD [] = v ∧
              (parts (ms ++ .stop :: more)).rest = [] ∧
                (parts (ms ++ .stop :: more)).commands =
                  (parts more).first ::
                    (parts more).commands := by
        intro v hv
        cases ms with
        | nil =>
            cases hv
            exact ⟨rfl, rfl, rfl⟩
        | cons other ms =>
            rw [ih hv (by simp)]
            exact ⟨rfl, rfl, rfl⟩
      cases mark with
      | lit c quoted =>
          rcases Option.map_eq_some_iff.mp hSpelled with
            ⟨v, hv, rfl⟩
          rcases hEnd v hv with ⟨hWord, hRest, hCommands⟩
          rw [List.cons_append, parts, hWord, hRest, hCommands]
      | quote =>
          rcases hEnd w hSpelled with
            ⟨hWord, hRest, hCommands⟩
          rw [List.cons_append, parts, hWord, hRest, hCommands]
      | blank => cases hSpelled
      | stop => cases hSpelled

end Shell

------------------------------------------------------------
-- Scripts Line by Line
------------------------------------------------------------

namespace Shell

/-
  The text is whole lines with these commands, in front of
  any other lines.
-/
def Sources (script : Text) (commands : List Command) : Prop :=
  ∃ ms ws,
    run .fresh script = some (ms, .fresh) ∧
      (∀ more, wordLists (ms ++ more) = ws ++ wordLists more) ∧
        ws.mapM command = some commands

/- What is behind the name of a variable is this word. -/
def Spells (raw : Text) (w : Word) : Prop :=
  ∃ ms,
    run .plain (raw ++ "\n") = some (ms ++ [.stop], .fresh) ∧
      spelled ms = some w

/- A name that can be assigned to. -/
structure Name (name : Text) : Prop where
  nonempty : name ≠ []
  chars : ∀ c ∈ name, isNameChar c = true
  start : (name.head?.all fun c => !c.isDigit) = true

instance : DecidablePred Name := fun name =>
  decidable_of_iff
    (name ≠ [] ∧ (∀ c ∈ name, isNameChar c = true) ∧
      (name.head?.all fun c => !c.isDigit) = true)
    ⟨fun h => ⟨h.1, h.2.1, h.2.2⟩,
      fun h => ⟨h.nonempty, h.chars, h.start⟩⟩

theorem Sources.nil : Sources [] [] :=
  ⟨[], [], rfl, fun _ => rfl, rfl⟩

theorem Sources.append
    {a b : Text}
    {commands others : List Command}
    (hFirst : Sources a commands)
    (hSecond : Sources b others) :
    Sources (a ++ b) (commands ++ others) := by
  rcases hFirst with ⟨ms, ws, hRun, hLists, hCommands⟩
  rcases hSecond with ⟨ms', ws', hRun', hLists', hCommands'⟩
  refine ⟨_, ws ++ ws', run_append_some hRun hRun', ?_, ?_⟩
  · intro more
    rw [List.append_assoc, hLists, hLists', List.append_assoc]
  · rw [List.mapM_append, hCommands, hCommands']
    rfl

/- Whole lines are what the shell makes of them. -/
theorem Sources.source
    {script : Text}
    {commands : List Command}
    (hSources : Sources script commands)
    (hNul : '\x00' ∉ script) :
    Shell.source script = some commands := by
  rcases hSources with ⟨ms, ws, hRun, hLists, hCommands⟩
  have hEnd := hLists []
  have hNone : wordLists [] = [] := rfl
  rw [List.append_nil, hNone, List.append_nil] at hEnd
  unfold Shell.source read
  rw [if_neg hNul, hRun]
  show (wordLists (ms ++ [])).mapM command = _
  rw [List.append_nil, hEnd]
  exact hCommands

theorem Sources.comment
    {s : Text}
    (hLine : '\n' ∉ s) :
    Sources ("#" ++ s ++ "\n") [] := by
  have hHash : step .fresh '#' = some ([], .comment) := rfl
  have hEnd :
      run .comment "\n" = some ([.stop], .fresh) := rfl
  have hRun :
      run .fresh ('#' :: (s ++ "\n")) =
        some ([] ++ ([] ++ [.stop]), .fresh) :=
    run_cons hHash (run_append_some (run_comment hLine) hEnd)
  refine ⟨[.stop], [], hRun, ?_, rfl⟩
  intro more
  rfl

/- A line that is one word. -/
theorem Sources.word
    {line : Text}
    {ms : List Mark}
    {w : Word}
    {c : Command}
    (hRun : run .fresh line = some (ms ++ [.stop], .fresh))
    (hSpelled : spelled ms = some w)
    (hSome : ms ≠ [])
    (hCommand : command [w] = some c) :
    Sources line [c] := by
  refine ⟨_, [[w]], hRun, ?_, ?_⟩
  · intro more
    unfold wordLists
    rw [List.append_assoc, List.singleton_append,
      parts_spelled hSpelled hSome more]
    rfl
  · rw [List.mapM_cons, hCommand]
    rfl

/- The word of an assignment is taken apart again. -/
theorem assignment_name
    {name : Text}
    (hName : Name name)
    (w : Word) :
    assignment
        (name.map (fun c => (c, false)) ++ ('=', false) :: w) =
      some (name, w) := by
  have hBare :
      ∀ p ∈ name.map (fun c => (c, false)), bareName p = true := by
    intro p hp
    rcases List.mem_map.mp hp with ⟨c, hc, rfl⟩
    exact hName.chars c hc
  have hSign : bareName ('=', false) = false := by decide
  have hTake :
      (name.map (fun c => (c, false)) ++
          ('=', false) :: w).takeWhile bareName =
        name.map fun c => (c, false) := by
    rw [List.takeWhile_append_of_pos hBare,
      List.takeWhile_cons_of_neg (by simp [hSign]),
      List.append_nil]
  have hDrop :
      (name.map (fun c => (c, false)) ++
          ('=', false) :: w).dropWhile bareName =
        ('=', false) :: w := by
    rw [List.dropWhile_append_of_pos hBare,
      List.dropWhile_cons_of_neg (by simp [hSign])]
  have hText :
      Word.text (name.map fun c => (c, false)) = name := by
    simp [Word.text, Function.comp_def]
  unfold assignment
  rw [hTake, hDrop]
  rcases List.exists_cons_of_ne_nil hName.nonempty with
    ⟨c, rest, rfl⟩
  have hStart : c.isDigit = false := by
    simpa using hName.start
  simp only [List.map_cons] at hText ⊢
  simp only [hStart, Bool.false_eq_true, if_false, hText]

theorem command_assignment
    {name : Text}
    (hName : Name name)
    {w : Word}
    (hTilde : hasTilde true w = false) :
    command
        [name.map (fun c => (c, false)) ++ ('=', false) :: w] =
      some ⟨[(name, Word.text w)], []⟩ := by
  have hAssign := assignment_name hName w
  unfold command
  simp [hAssign, hTilde]

/- The marks of a line that assigns. -/
theorem run_assign
    {name raw : Text}
    {ms : List Mark}
    {m : Mode}
    (hName : Name name)
    (hRun : run .plain raw = some (ms, m)) :
    run .fresh (name ++ "=" ++ raw) =
      some (lits false name ++ .lit '=' false :: ms, m) := by
  rcases List.exists_cons_of_ne_nil hName.nonempty with
    ⟨c, rest, rfl⟩
  have hFirst :=
    isNameChar_bare (hName.chars c (List.mem_cons_self ..))
  have hStart : step .fresh c = some ([.lit c false], .plain) := by
    show (if c = '#' then _ else stepPlain false c) = _
    rw [if_neg hFirst.2.2.1]
    exact stepPlain_bare hFirst.1 hFirst.2.1 false
  have hSign :
      step .plain '=' = some ([.lit '=' false], .plain) := rfl
  have hRest : run .plain rest = some (lits false rest, .plain) := by
    apply run_bare
    intro d hd
    have hBare :=
      isNameChar_bare (hName.chars d (List.mem_cons_of_mem _ hd))
    exact ⟨hBare.1, hBare.2.1⟩
  have hAll :=
    run_cons hStart
      (run_append_some hRest (run_cons hSign hRun))
  rw [List.append_assoc]
  exact hAll

/- A line that assigns what is behind the name. -/
theorem Sources.assign
    {name raw : Text}
    {w : Word}
    (hName : Name name)
    (hSpells : Spells raw w)
    (hTilde : hasTilde true w = false) :
    Sources (name ++ "=" ++ raw ++ "\n")
      [⟨[(name, Word.text w)], []⟩] := by
  rcases hSpells with ⟨ms, hRun, hSpelled⟩
  have hLine := run_assign hName hRun
  have hWord :
      spelled (lits false name ++ .lit '=' false :: ms) =
        some
          (name.map (fun c => (c, false)) ++
            ('=', false) :: w) := by
    rw [spelled_append, spelled_lits, spelled, hSpelled]
    rfl
  have hSome :
      lits false name ++ .lit '=' false :: ms ≠ [] := by
    simp
  have hAll :
      run .fresh (name ++ "=" ++ raw ++ "\n") =
        some
          ((lits false name ++ .lit '=' false :: ms) ++ [.stop],
            .fresh) := by
    rw [List.append_assoc, hLine]
    simp
  exact Sources.word hAll hWord hSome
    (command_assignment hName hTilde)

end Shell

------------------------------------------------------------
-- Literal Texts
------------------------------------------------------------

namespace Shell

/-
  A value that stands for itself without quotes: it has no
  special character, no dollar sign before an expansion, and
  no tilde at its start or behind a colon.
-/
structure Literal (v : Text) : Prop where
  plain : ∀ c ∈ v, special c = false
  dollars :
    List.IsChain (fun a b => a = '$' → startsExpansion b = false)
      v
  tildes : List.IsChain (fun a b => a = ':' → b ≠ '~') (':' :: v)

/- The mode behind a character that stands for itself. -/
def literalMode (c : Char) : Mode :=
  if c = '$' then .dollar else .plain

/- A dollar sign that is held back is a mark too. -/
def heldMarks : Mode → List Mark
| .dollar => lits false "$"
| _ => []

/- Literal characters leave themselves behind, in order. -/
theorem run_literal
    {v : Text}
    {m : Mode}
    (hMode : m = .plain ∨ m = .dollar)
    (hPlain : ∀ c ∈ v, special c = false)
    (hChain :
      List.IsChain
        (fun a b => a = '$' → startsExpansion b = false) v)
    (hHead :
      m = .dollar → ∀ c ∈ v.head?, startsExpansion c = false) :
    ∃ ms m',
      run m v = some (ms, m') ∧
        (m' = .plain ∨ m' = .dollar) ∧
          ms ++ heldMarks m' = heldMarks m ++ lits false v := by
  induction v generalizing m with
  | nil => exact ⟨[], m, rfl, hMode, by simp [lits]⟩
  | cons c v ih =>
      have hSpecial := hPlain c (List.mem_cons_self ..)
      have hRest : ∀ d ∈ v, special d = false :=
        fun d hd => hPlain d (List.mem_cons_of_mem _ hd)
      have hNext :
          literalMode c = .dollar →
            ∀ d ∈ v.head?, startsExpansion d = false := by
        intro hDollar d hd
        have hc : c = '$' := by
          by_contra hOther
          rw [literalMode, if_neg hOther] at hDollar
          cases hDollar
        exact (List.isChain_cons.mp hChain).1 d hd hc
      have hLater :
          literalMode c = .plain ∨ literalMode c = .dollar := by
        unfold literalMode
        split
        · exact Or.inr rfl
        · exact Or.inl rfl
      rcases ih hLater hRest (List.isChain_cons.mp hChain).2
          hNext with ⟨ms, m', hRun, hMode', hMarks⟩
      have hStep :
          ∃ first,
            stepPlain true c = some (first, literalMode c) ∧
              first ++ heldMarks (literalMode c) =
                lits false [c] := by
        by_cases hDollar : c = '$'
        · subst hDollar
          exact ⟨[], rfl, rfl⟩
        · refine ⟨[.lit c false], ?_, ?_⟩
          · rw [literalMode, if_neg hDollar]
            exact stepPlain_bare hSpecial hDollar true
          · rw [literalMode, if_neg hDollar]
            rfl
      rcases hStep with ⟨first, hStep, hFirst⟩
      have hJoin :
          (first ++ ms) ++ heldMarks m' =
            lits false (c :: v) := by
        rw [List.append_assoc, hMarks, ← List.append_assoc,
          hFirst]
        rfl
      rcases hMode with rfl | rfl
      · exact ⟨first ++ ms, m', run_cons hStep hRun, hMode',
          hJoin⟩
      · have hExpansion : startsExpansion c = false :=
          hHead rfl c rfl
        have hDollar :
            step .dollar c =
              some (.lit '$' false :: first, literalMode c) := by
          show (if startsExpansion c = true then none else _) = _
          rw [hExpansion, hStep]
          rfl
        refine ⟨.lit '$' false :: first ++ ms, m',
          run_cons hDollar hRun, hMode', ?_⟩
        rw [List.cons_append, List.cons_append, hJoin]
        rfl

/- The end of a line ends what is held back. -/
theorem run_newline
    {m : Mode}
    (hMode : m = .plain ∨ m = .dollar) :
    run m "\n" = some (heldMarks m ++ [.stop], .fresh) := by
  rcases hMode with rfl | rfl
  · rfl
  · rfl

theorem hasTilde_literal
    {v : Text}
    {here : Bool}
    (hHere : here = true → ∀ c ∈ v.head?, c ≠ '~')
    (hChain :
      List.IsChain (fun a b => a = ':' → b ≠ '~') v) :
    hasTilde here (v.map fun c => (c, false)) = false := by
  induction v generalizing here with
  | nil => rfl
  | cons c v ih =>
      have hFirst : (here && c == '~' && !false) = false := by
        cases here with
        | false => rfl
        | true =>
            have hTilde : c ≠ '~' := hHere rfl c rfl
            simp [hTilde]
      have hNext :
          (c == ':' && !false) = true →
            ∀ d ∈ v.head?, d ≠ '~' := by
        intro hColon d hd
        have hc : c = ':' := by simpa using hColon
        exact (List.isChain_cons.mp hChain).1 d hd hc
      show ((here && c == '~' && !false) ||
        hasTilde (c == ':' && !false)
          (v.map fun c => (c, false))) = false
      rw [hFirst, ih hNext (List.isChain_cons.mp hChain).2]
      rfl

/- A literal text is the word of its characters. -/
theorem Literal.spells
    {v : Text}
    (hLiteral : Literal v) :
    Spells v (v.map fun c => (c, false)) ∧
      hasTilde true (v.map fun c => (c, false)) = false := by
  have hHead : Mode.plain = .dollar →
      ∀ c ∈ v.head?, startsExpansion c = false := by
    intro hMode
    cases hMode
  rcases run_literal (Or.inl rfl) hLiteral.plain
      hLiteral.dollars hHead with ⟨ms, m, hRun, hMode, hMarks⟩
  have hTildes := List.isChain_cons.mp hLiteral.tildes
  refine ⟨⟨ms ++ heldMarks m, ?_, ?_⟩, ?_⟩
  · rw [List.append_assoc]
    exact run_append_some hRun (run_newline hMode)
  · rw [hMarks]
    exact spelled_lits false v
  · exact hasTilde_literal
      (fun _ c hc => hTildes.1 c hc rfl) hTildes.2

/- A text in single quotes is the word of its characters. -/
theorem spells_quoted (v : Text) :
    Spells ("'" ++ v.replaceChar '\'' "'\\''" ++ "'")
        (v.map fun c => (c, true)) := by
  have hInner :
      ∃ ms,
        run .single (v.replaceChar '\'' "'\\''") =
            some (ms, .single) ∧
          spelled ms = some (v.map fun c => (c, true)) := by
    induction v with
    | nil => exact ⟨[], rfl, rfl⟩
    | cons c v ih =>
        rcases ih with ⟨ms, hRun, hSpelled⟩
        have hFirst :
            ∃ first,
              run .single (if c = '\'' then "'\\''" else [c]) =
                  some (first, .single) ∧
                spelled first = some [(c, true)] := by
          by_cases hQuote : c = '\''
          · rw [if_pos hQuote, hQuote]
            exact ⟨[.lit '\'' true, .quote], rfl, rfl⟩
          · rw [if_neg hQuote]
            refine ⟨_, run_single ?_, rfl⟩
            intro hMem
            exact hQuote (List.mem_singleton.mp hMem).symm
        rcases hFirst with ⟨first, hFirst, hChar⟩
        refine ⟨first ++ ms, ?_, ?_⟩
        · exact run_append_some hFirst hRun
        · rw [spelled_append, hChar, hSpelled]
          rfl
  rcases hInner with ⟨ms, hRun, hSpelled⟩
  have hOpen : step .plain '\'' = some ([.quote], .single) := rfl
  have hClose :
      run .single ("'" ++ "\n") = some ([.stop], .fresh) := rfl
  refine ⟨.quote :: ms, ?_, hSpelled⟩
  have hAll := run_cons hOpen (run_append_some hRun hClose)
  rw [List.append_assoc, List.append_assoc]
  exact hAll

theorem hasTilde_quoted
    (here : Bool)
    (v : Text) :
    hasTilde here (v.map fun c => (c, true)) = false := by
  induction v generalizing here with
  | nil => rfl
  | cons c v ih =>
      show ((here && c == '~' && !true) ||
        hasTilde (c == ':' && !true)
          (v.map fun c => (c, true))) = false
      rw [ih]
      simp

theorem Word.text_map
    (quoted : Bool)
    (v : Text) :
    Word.text (v.map fun c => (c, quoted)) = v := by
  simp [Word.text, Function.comp_def]

end Shell

------------------------------------------------------------
-- Lists of Assignments
------------------------------------------------------------

namespace Shell

/- What is behind a name is read as this value. -/
def Written (raw v : Text) : Prop :=
  ∃ w,
    Spells raw w ∧ hasTilde true w = false ∧ Word.text w = v

theorem Literal.written
    {v : Text}
    (hLiteral : Literal v) :
    Written v v :=
  ⟨_, hLiteral.spells.1, hLiteral.spells.2,
    Word.text_map false v⟩

theorem written_quoted (v : Text) :
    Written ("'" ++ v.replaceChar '\'' "'\\''" ++ "'") v :=
  ⟨_, spells_quoted v, hasTilde_quoted true v,
    Word.text_map true v⟩

/- One command for each variable. -/
def assignAll (vars : List (Text × Text)) : List Command :=
  vars.map fun a => ⟨[a], []⟩

theorem assignAll_append (a b : List (Text × Text)) :
    assignAll (a ++ b) = assignAll a ++ assignAll b :=
  List.map_append

/- A line for each variable, with its value as it is written. -/
theorem Sources.assigns
    {vars : List (Text × Text)}
    {raw : Text → Text}
    (hLines :
      ∀ a ∈ vars, Name a.1 ∧ Written (raw a.2) a.2) :
    Sources
      (vars.flatMap fun a => a.1 ++ "=" ++ raw a.2 ++ "\n")
      (assignAll vars) := by
  induction vars with
  | nil => exact Sources.nil
  | cons a rest ih =>
      rcases hLines a (List.mem_cons_self ..) with
        ⟨hName, w, hSpells, hTilde, hText⟩
      have hFirst := Sources.assign hName hSpells hTilde
      rw [hText] at hFirst
      have hRest :=
        ih fun b hb => hLines b (List.mem_cons_of_mem _ hb)
      exact hFirst.append hRest

theorem runsCommand_assignAll
    (vars : List (Text × Text)) :
    runsCommand (assignAll vars) = false := by
  simp [runsCommand, assignAll]

/- Of variables with names of their own, each has its value. -/
theorem lastAssigned_assignAll
    {vars : List (Text × Text)}
    (hNames : (vars.map Prod.fst).Nodup)
    {name v : Text}
    (hMem : (name, v) ∈ vars) :
    lastAssigned (assignAll vars) name = some v := by
  have hAssigns :
      (assignAll vars).flatMap Command.assigns =
        vars := by
    unfold assignAll
    induction vars with
    | nil => rfl
    | cons a rest ih =>
        simp [List.flatMap_map]
  cases hFind :
      vars.reverse.find? fun a => a.1 == name with
  | none =>
      have hNone := List.find?_eq_none.mp hFind
      exact absurd (beq_self_eq_true name)
        (hNone (name, v) (List.mem_reverse.mpr hMem))
  | some a =>
      have hName := List.find?_some hFind
      have hOther :=
        List.mem_reverse.mp (List.mem_of_find?_eq_some hFind)
      have hSame : a = (name, v) := by
        apply List.inj_on_of_nodup_map hNames hOther hMem
        simpa using hName
      unfold lastAssigned
      rw [hAssigns, hFind, hSame]
      rfl

end Shell
