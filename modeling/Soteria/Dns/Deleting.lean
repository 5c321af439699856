import Soteria.Dns.Failures
import Soteria.Dns.Statements

/-
  Deleting a zone: what is removed from `named.conf.local`
  and from the disk, against the statement the zone has.

  A statement is read as a name server reads it, with braces,
  strings and comments. The pattern that finds a zone knows
  none of them: it ends at the first close behind the first
  file clause, wherever these stand.

  Key definitions include:
    * `takeStatement`, `ownFile`
    * `FoundAt`, `Quiet`, `StatementAt`
    * `DeletesOnly`, `Deletable`
    * `deletes_only_iff`
-/

------------------------------------------------------------
-- Statements of a Configuration
------------------------------------------------------------

namespace Soteria

namespace Dns

/- Where a character of a configuration stands. -/
inductive Standing where
  | code
  | quoted
  | lineComment
  | blockComment
deriving DecidableEq

/- The characters of a text, with where they stand. -/
def marks : Standing → Text → List (Char × Standing)
| _, [] => []
| .code, '"' :: rest => ('"', .quoted) :: marks .quoted rest
| .code, '#' :: rest =>
    ('#', .lineComment) :: marks .lineComment rest
| .code, '/' :: '/' :: rest =>
    ('/', .lineComment) :: ('/', .lineComment) ::
      marks .lineComment rest
| .code, '/' :: '*' :: rest =>
    ('/', .blockComment) :: ('*', .blockComment) ::
      marks .blockComment rest
| .quoted, '\\' :: c :: rest =>
    ('\\', .quoted) :: (c, .quoted) :: marks .quoted rest
| .quoted, '"' :: rest => ('"', .quoted) :: marks .code rest
| .lineComment, '\n' :: rest => ('\n', .code) :: marks .code rest
| .blockComment, '*' :: '/' :: rest =>
    ('*', .blockComment) :: ('/', .blockComment) ::
      marks .code rest
| standing, c :: rest => (c, standing) :: marks standing rest

/- How deep in braces a text is behind a character. -/
def deeper (depth : Nat) : Char × Standing → Nat
| ('\x7b', .code) => depth + 1
| ('\x7d', .code) => depth - 1
| _ => depth

/- A statement ends at a semicolon outside of braces. -/
def statementLength :
    Nat → List (Char × Standing) → Option Nat
| _, [] => none
| depth, mark :: rest =>
    if mark = (';', .code) ∧ depth = 0 then some 1
    else
      (statementLength (deeper depth mark) rest).map (· + 1)

/- The statement a text begins with, and what is behind it. -/
def takeStatement (text : Text) : Option (Text × Text) :=
  (statementLength 0 (marks .code text)).map fun n =>
    (text.take n, text.drop n)

/-
  The clauses of a statement, without comments: what is read
  between two semicolons inside of its own braces.
-/
def clauses :
    Nat → Text → List (Char × Standing) → List Text
| _, _, [] => []
| depth, read, (c, standing) :: rest =>
    if standing = .lineComment ∨ standing = .blockComment then
      clauses depth (' ' :: read) rest
    else if (c, standing) = (';', .code) ∧ depth = 1 then
      read.reverse :: clauses depth [] rest
    else if (c, standing) = ('\x7b', .code) ∧ depth = 0 then
      clauses 1 [] rest
    else
      clauses (deeper depth (c, standing)) (c :: read) rest

/- The file of a clause that names one, quoted or not. -/
def clauseFile (clause : Text) : Option Text :=
  let words := clause.trimSpace
  let value : Text := words.drop 4
  let apart := value.head?.any fun c => Text.isSpace c || c == '"'
  if words.hasPrefix "file" && apart then
    some ((value.trimSpace.trimPrefix "\"").trimSuffix "\"")
  else none

/- The file that the statement of a zone names. -/
def ownFile (statement : Text) : Option Text :=
  (clauses 0 [] (marks .code statement)).findSome? clauseFile

theorem marks_fst
    (standing : Standing)
    (text : Text) :
    (marks standing text).map Prod.fst = text := by
  fun_induction marks standing text with
  | case1 => rfl
  | case2 rest ih => rw [List.map_cons, ih]
  | case3 rest ih => rw [List.map_cons, ih]
  | case4 rest ih => rw [List.map_cons, List.map_cons, ih]
  | case5 rest ih => rw [List.map_cons, List.map_cons, ih]
  | case6 c rest ih => rw [List.map_cons, List.map_cons, ih]
  | case7 rest ih => rw [List.map_cons, ih]
  | case8 rest ih => rw [List.map_cons, ih]
  | case9 rest ih => rw [List.map_cons, List.map_cons, ih]
  | case10 standing c rest _ _ _ _ _ _ _ _ ih =>
      rw [List.map_cons, ih]

theorem statementLength_ends
    {depth n : Nat}
    {read : List (Char × Standing)}
    (hLength : statementLength depth read = some n) :
    ∃ x, (read.map Prod.fst).take n = x ++ [';'] := by
  induction read generalizing depth n with
  | nil => cases hLength
  | cons mark read ih =>
      unfold statementLength at hLength
      split at hLength
      · rename_i hEnd
        cases hLength
        exact ⟨[], by rw [hEnd.1]; rfl⟩
      · rcases Option.map_eq_some_iff.mp hLength with
          ⟨k, hRest, rfl⟩
        rcases ih hRest with ⟨x, hTake⟩
        refine ⟨mark.1 :: x, ?_⟩
        rw [List.map_cons, List.take_succ_cons, hTake,
          List.cons_append]

/- A statement ends in a semicolon. -/
theorem takeStatement_ends
    {text statement back : Text}
    (hTake : takeStatement text = some (statement, back)) :
    ∃ x, statement = x ++ [';'] := by
  rcases Option.map_eq_some_iff.mp hTake with
    ⟨n, hLength, hSplit⟩
  rcases statementLength_ends hLength with ⟨x, hEnds⟩
  rw [marks_fst] at hEnds
  exact ⟨x, (congrArg Prod.fst hSplit).symm.trans hEnds⟩

example :
    takeStatement
        "zone \"a;\" \x7b x; /* \x7d; */ \x7d; rest".toList =
      some ("zone \"a;\" \x7b x; /* \x7d; */ \x7d;".toList,
        " rest".toList) := by
  decide

example :
    ownFile
        ("zone \"a\" \x7b m \x7b file \"x\"; \x7d; ".toList ++
          "file \"y\"; \x7d;".toList) =
      some "y".toList := by
  decide

end Dns

end Soteria

------------------------------------------------------------
-- Statements That Are Found
------------------------------------------------------------

namespace Soteria

namespace Dns

open Regex Regex.Pattern

variable {prev : Option Char}
variable {name file statement back : Text}

/- Every statement that is found has the pieces of one. -/
theorem statement_of_first
    {input : Text}
    {m : Match}
    (hFirst : First zoneBlockRe prev input m) :
    ∃ name file, Statement m.text name file ∧
      m.groups = [(1, name), (2, file)] := by
  have hHeadSole : Sole zoneHeaderRe :=
    sole_quotedClause (by decide)
  have hFileSole : Sole fileClauseRe :=
    sole_quotedClause (by decide)
  unfold First at hFirst
  rw [zoneBlockRe_run] at hFirst
  rcases hHeadSole.exists_of_first_seq hFirst with
    ⟨head, g, n, rest, -, hHead, hBody, rfl⟩
  rcases takes_quotedClause.mp hHead with ⟨name, hName, rfl⟩
  rcases exists_of_first_lazy hBody with
    ⟨gap, rest', n', -, -, hSkips, hClause, rfl⟩
  rcases hFileSole.exists_of_first_seq hClause with
    ⟨clause, g', k, rest'', rfl, hFile, hEnd, rfl⟩
  rcases takes_quotedClause.mp hFile with ⟨file, hNamed, rfl⟩
  rcases exists_of_first_lazy hEnd with
    ⟨gap', rest₃, stop, rfl, -, hSkips', hStop, rfl⟩
  have hInput := hStop.input_eq
  have hClose := hStop.takes
  have hGroups : stop.groups = [] := by
    rcases takes_closeRe.mp hClose with ⟨_, -, -, hNone⟩
    exact hNone
  rw [hInput] at hSkips hSkips'
  have hThen :
      ∀ before x, (Pattern.seq (many false anyChar) closeRe).run
        before (x ++ (gap' ++ (stop.text ++ stop.rest))) ≠
          [] := by
    intro before x
    rw [← List.append_assoc]
    exact lazy_run_ne_nil (fun _ => rfl) (by decide) hClose _ _
  refine ⟨name, file, ⟨head, gap, clause, gap', stop.text, rfl,
    hName, skips_of_seq (by decide) hThen hSkips, hNamed,
    Skips.truncate (by decide) hSkips', ?_⟩, ?_⟩
  · rw [← hGroups]
    exact takes_anywhere (by decide) hClose
  · rw [hGroups]
    rfl

/-
  In front of a statement that is found no head begins where
  no statement was found: its end is not behind that of the
  head of the statement, so that it would have its file
  clause and its close.
-/
theorem no_head_before
    (hStatement : Statement statement name file)
    {c : Char}
    {gap : Text}
    (hNone :
      zoneBlockRe.run prev (c :: (gap ++ (statement ++ back))) =
        [])
    {h x other : Text}
    (hHead : Quoted "zone" '\x7b' h other) :
    c :: (gap ++ (statement ++ back)) ≠ h ++ x := by
  intro hInput
  rcases hStatement.pieces with
    ⟨head, between, clause, later, stop, rfl, hOwn, -, hClause,
      -, hStop⟩
  have hTakes :
      zoneHeaderRe.Takes prev x h [(1, other)] :=
    takes_quotedClause.mpr ⟨other, hHead, rfl⟩
  have hOwnTakes :
      zoneHeaderRe.Takes prev [] head [(1, name)] :=
    takes_quotedClause.mpr ⟨name, hOwn, rfl⟩
  have hApace : Apace zoneHeaderRe :=
    apace_quotedClause (by decide) (by decide) (by decide)
      (by decide)
  have hSame :
      h ++ x =
        (c :: gap) ++ (head ++ (between ++ (clause ++
          (later ++ (stop ++ back))))) := by
    rw [← hInput]
    simp
  have hShort := hApace hTakes hOwnTakes (by simp) hSame
  rw [← List.append_assoc] at hSame
  rcases exists_append_of_le hSame hShort with ⟨z, -, hRest⟩
  have hFile :
      fileClauseRe.Takes prev [] clause [(2, file)] :=
    takes_quotedClause.mpr ⟨file, hClause, rfl⟩
  have hTail :
      (Pattern.seq fileClauseRe
        (.seq (many false anyChar) closeRe)).Takes prev back
          (clause ++ (later ++ stop)) ([(2, file)] ++ ([] ++ [])) :=
    ⟨clause, later ++ stop, _, _,
      takes_anywhere (by decide) hFile,
      ⟨later, stop, [], [], ⟨fun _ _ => rfl, rfl⟩,
        takes_anywhere (by decide) hStop, rfl, rfl⟩, rfl, rfl⟩
  have hWhole :
      (Pattern.seq zoneHeaderRe
        (.seq (many false anyChar)
          (.seq fileClauseRe
            (.seq (many false anyChar) closeRe)))).Takes prev
        back (h ++ ((z ++ between) ++
          (clause ++ (later ++ stop))))
        ([(1, other)] ++ ([] ++ ([(2, file)] ++ ([] ++ [])))) :=
    ⟨h, _, _, _, takes_anywhere (by decide) hTakes,
      ⟨z ++ between, _, [], _, ⟨fun _ _ => rfl, rfl⟩,
        takes_anywhere (by decide) hTail, rfl, rfl⟩, rfl, rfl⟩
  have hText :
      c :: (gap ++ ((head ++ (between ++ (clause ++
          (later ++ stop)))) ++ back)) =
        (h ++ ((z ++ between) ++ (clause ++ (later ++ stop)))) ++
          back := by
    rw [hInput, hRest]
    simp
  rw [zoneBlockRe_run] at hNone
  have hMem :
      (⟨h ++ ((z ++ between) ++ (clause ++ (later ++ stop))),
          back, [(1, other)] ++ ([] ++ ([(2, file)] ++
            ([] ++ [])))⟩ : Match) ∈ ([] : List Match) := by
    rw [← hNone]
    exact mem_run_iff.mpr ⟨hText, hWhole⟩
  cases hMem

end Dns

end Soteria

------------------------------------------------------------
-- A Statement Among Others
------------------------------------------------------------

namespace Soteria

namespace Dns

open Regex Regex.Pattern

/- The pattern finds a zone once, behind this text. -/
structure Found
    (name conf front : Text)
    (cuts later : List (Char ⊕ Match))
    (m : Match) : Prop where
  whole : Cuts zoneBlockRe none conf (cuts ++ .inr m :: later)
  place : cuts.flatMap pieceText = front
  zone : m.group 1 = name
  others :
    ∀ n, .inr n ∈ cuts ++ later → n.group 1 ≠ name

def FoundAt (name conf front : Text) : Prop :=
  ∃ cuts later m, Found name conf front cuts later m

/-
  Where two texts are joined no statement is formed of which
  the head begins in the first and ends in the second one.
-/
def Quiet (front back : Text) : Prop :=
  ∀ x s p y name, front = x ++ s → back = p ++ y →
    s ≠ [] → p ≠ [] → Quoted "zone" '\x7b' (s ++ p) name →
      ∀ before, zoneBlockRe.run before (s ++ back) = []

variable {name file conf front back statement : Text}
variable {cuts later : List (Char ⊕ Match)}
variable {m : Match}

/- No head begins where there is none of its first letter. -/
theorem quiet_of_not_mem
    (hFront : 'z' ∉ front)
    (back : Text) :
    Quiet front back := by
  intro x s p y name hText _ hSome _ hQuoted before
  exfalso
  apply hFront
  rcases hQuoted.pieces with ⟨blanks, later, hHead, -⟩
  rcases List.exists_cons_of_ne_nil hSome with ⟨c, t, rfl⟩
  have hFirst : c = 'z' := (List.cons.inj hHead).1
  rw [hText, hFirst]
  simp

/- What is found is a statement in front of the other text. -/
theorem Found.exists_statement
    (hFound : Found name conf front cuts later m) :
    conf = front ++ (m.text ++ m.rest) ∧
      ∃ file, Statement m.text name file ∧
        m.groups = [(1, name), (2, file)] := by
  rcases hFound.whole.split with ⟨hInput, before, hFirst, -, -⟩
  rcases statement_of_first hFirst with
    ⟨name', file, hStatement, hGroups⟩
  have hSame : name' = name := by
    rw [← hFound.zone, Match.group, hGroups]
    rfl
  subst hSame
  rw [hFound.place] at hInput
  exact ⟨hInput, file, hStatement, hGroups⟩

/- A statement that stands there is what is found. -/
theorem Found.eq_of_statement
    (hFound : Found name conf front cuts later m)
    (hText : conf = front ++ (statement ++ back))
    (hStatement : Statement statement name file) :
    m = ⟨statement, back, [(1, name), (2, file)]⟩ := by
  rcases hFound.whole.split with ⟨hInput, before, hFirst, -, -⟩
  rw [hFound.place, hText] at hInput
  rw [← List.append_cancel_left hInput] at hFirst
  have hHere := hStatement.first before back
  rw [First, hFirst] at hHere
  exact Option.some.inj hHere

/- Pieces without a statement of the zone stay as they are. -/
theorem flatMap_keepBlock
    {pieces : List (Char ⊕ Match)}
    (hTakes :
      ∀ n, .inr n ∈ pieces →
        ∃ before, zoneBlockRe.Takes before n.rest n.text
          n.groups)
    (hOthers : ∀ n, .inr n ∈ pieces → n.group 1 ≠ name) :
    pieces.flatMap
        (Sum.elim (fun c => [c])
          fun n => keepBlock name n.text) =
      pieces.flatMap pieceText := by
  apply List.flatMap_congr
  intro piece hMem
  cases piece with
  | inl c => rfl
  | inr n =>
      rcases hTakes n hMem with ⟨before, hHere⟩
      show keepBlock name n.text = n.text
      rw [keepBlock_eq hHere, if_neg (hOthers n hMem)]

/- What is written is the text without what is found. -/
theorem Found.withoutZone_eq
    (hFound : Found name conf front cuts later m) :
    withoutZone name conf = front ++ m.rest := by
  have hTakes :
      ∀ n, .inr n ∈ cuts ++ .inr m :: later →
        ∃ before, zoneBlockRe.Takes before n.rest n.text
          n.groups :=
    fun n hn => hFound.whole.takes hn
  rcases hTakes m (by simp) with ⟨before, hHere⟩
  have hDropped : keepBlock name m.text = [] := by
    rw [keepBlock_eq hHere, if_pos hFound.zone]
  have hRest : later.flatMap pieceText = m.rest := by
    rcases hFound.whole.split with ⟨-, _, -, -, hLater⟩
    exact hLater.input_eq.symm
  unfold withoutZone
  rw [hFound.whole.replaceAll, List.flatMap_append,
    List.flatMap_cons, flatMap_keepBlock, flatMap_keepBlock,
    hFound.place, hRest]
  · show front ++ (keepBlock name m.text ++ m.rest) = _
    rw [hDropped]
    rfl
  · exact fun n hn => hTakes n (by simp [hn])
  · exact fun n hn => hFound.others n (by simp [hn])
  · exact fun n hn => hTakes n (by simp [hn])
  · exact fun n hn => hFound.others n (by simp [hn])

/- The entries are those of what is told of the pieces. -/
theorem entriesOf_eq
    (pieces : List (Char ⊕ Match)) :
    entriesOf pieces =
      (pieces.map told).filterMap fun piece =>
        piece.getRight?.map fun p =>
          ((p.2.lookup 1).getD [], (p.2.lookup 2).getD []) := by
  induction pieces with
  | nil => rfl
  | cons piece pieces ih =>
      cases piece with
      | inl c => exact ih
      | inr n => exact congrArg ((n.group 1, n.group 2) :: ·) ih

theorem Found.zoneEntries_eq
    (hFound : Found name conf front cuts later m) :
    zoneEntries conf =
      entriesOf cuts ++ (name, m.group 2) :: entriesOf later := by
  have hEntry :
      entriesOf (.inr m :: later) =
        (m.group 1, m.group 2) :: entriesOf later := rfl
  rw [zoneEntries_of_cuts hFound.whole, entriesOf_append,
    hEntry, hFound.zone]

/- The other statements are found when the one is gone. -/
theorem Found.zoneEntries_joined
    (hFound : Found name conf front cuts later m)
    (hQuiet : Quiet front m.rest) :
    zoneEntries (front ++ m.rest) =
      entriesOf cuts ++ entriesOf later := by
  have hWhole := hFound.whole
  rcases hWhole.split with ⟨-, before, -, -, hLater⟩
  rcases hFound.exists_statement with ⟨hConf, file, hStatement, -⟩
  rw [hConf] at hWhole
  have hNone :
      ∀ {prev c gap}, (c :: gap) <:+ front →
        zoneBlockRe.run prev
            (c :: (gap ++ (m.text ++ m.rest))) = [] →
          zoneBlockRe.run prev (c :: (gap ++ m.rest)) = [] := by
    intro prev c gap hSuffix hHere
    rcases hSuffix with ⟨x, hFront⟩
    by_contra hSome
    rcases List.exists_mem_of_ne_nil _ hSome with ⟨n, hMem⟩
    rw [zoneBlockRe_run] at hMem
    rcases mem_run_iff.mp hMem with ⟨hInput, hTakes⟩
    rcases hTakes with ⟨h, t, _, _, hHead, -, hText, -⟩
    rcases takes_quotedClause.mp hHead with ⟨other, hQuoted, -⟩
    rw [hText, List.append_assoc, ← List.cons_append]
      at hInput
    have hAbsent :
        ∀ z, c :: (gap ++ (m.text ++ m.rest)) ≠ h ++ z :=
      fun _ => no_head_before hStatement hHere hQuoted
    rcases List.append_eq_append_iff.mp hInput with
      ⟨p, hCross, hRest⟩ | ⟨p, hInside, hRest⟩
    · -- the head ends behind the place of the statement
      by_cases hNil : p = []
      · subst hNil
        rw [List.append_nil] at hCross
        apply hAbsent (m.text ++ m.rest)
        rw [hCross, List.cons_append]
      · rw [hCross] at hQuoted
        exact hSome (hQuiet x (c :: gap) p _ other hFront.symm
          hRest (by simp) hNil hQuoted prev)
    · apply hAbsent (p ++ (m.text ++ m.rest))
      rw [← List.append_assoc h, ← hInside, List.cons_append]
  have hAfter :
      Cuts zoneBlockRe (lastOf none front) m.rest later :=
    hLater.elsewhere (by decide)
  have hExchanged :=
    Cuts.exchange
      (fun {prev t rest g} hFirst rest' => by
        rcases statement_of_first hFirst with
          ⟨name', file', hStatement, hGroups⟩
        dsimp only at hStatement hGroups
        subst hGroups
        exact hStatement.first prev rest')
      hWhole hFound.place hNone hAfter
  rcases hExchanged with ⟨cuts', hCuts', hTold⟩
  rw [zoneEntries_of_cuts hCuts', entriesOf_append,
    entriesOf_eq cuts', hTold, ← entriesOf_eq]

end Dns

end Soteria

------------------------------------------------------------
-- What Deleting Removes
------------------------------------------------------------

namespace Soteria

namespace Dns

open Regex Regex.Pattern BindProvider

/-
  The statement of a zone in its place. The pattern finds the
  zone there and nowhere else, and no statement is formed by
  what stands around it.
-/
structure StatementAt
    (name conf front statement back : Text) : Prop where
  text : conf = front ++ (statement ++ back)
  read :
    takeStatement (statement ++ back) = some (statement, back)
  found : FoundAt name conf front
  quiet : Quiet front back

/- The path of the file that a statement names. -/
def OwnPath
    (b : BindProvider)
    (statement k : Text) : Prop :=
  ∃ file, ownFile statement = some file ∧
    k = Path.clean (b.agentPath file)

/- The path of the file of a zone that is listed. -/
def ZonePath
    (b : BindProvider)
    (conf k : Text) : Prop :=
  ∃ entry ∈ zoneEntries conf,
    k = Path.clean (b.agentPath entry.2)

/-
  Only the zone is gone, and the text ends in one newline.
  The temporary file that a write uses is no zone file, unless
  one of a listed zone has its path.
-/
structure DeletesOnly
    (b : BindProvider)
    (e : Surroundings)
    (name conf front statement back : Text)
    (disk disk' : Disk) : Prop where
  text :
    disk'.read b.namedLocal =
      some ((front ++ back).trimRightChar '\n' ++ "\n".toList)
  zones :
    ∀ e' files, b.zoneFiles e' disk' = .ok files →
      ∀ other, fileOf files other =
        if other = name then none
        else fileOf (zoneEntries conf) other
  removed :
    ∀ k, disk k ≠ none → disk' k = none →
      OwnPath b statement k ∨
        (k = Path.clean (tmpOf b.namedLocal) ∧
          ¬ ZonePath b conf k)
  gone :
    e.removeFails = false →
      ∀ k, OwnPath b statement k → disk' k = none

/-
  The statement has its own file clause first and ends at the
  first close behind it; the file is not `named.conf.local`,
  whose temporary file is no other zone's.
-/
structure Deletable
    (b : BindProvider)
    (name conf statement : Text) : Prop where
  own :
    ∃ file, Statement statement name file ∧
      OwnPath b statement (Path.clean (b.agentPath file))
  apart : ¬ OwnPath b statement (Path.clean b.namedLocal)
  temporary :
    ZonePath b conf (Path.clean (tmpOf b.namedLocal)) →
      OwnPath b statement (Path.clean (tmpOf b.namedLocal))

variable {b : BindProvider}
variable {e : Surroundings}
variable {disk disk' : Disk}
variable {name file conf front statement back k : Text}
variable {cuts later : List (Char ⊕ Match)}
variable {m : Match}

theorem OwnPath.unique
    {k' : Text}
    (hPath : OwnPath b statement k)
    (hPath' : OwnPath b statement k') :
    k = k' := by
  rcases hPath with ⟨file, hFile, rfl⟩
  rcases hPath' with ⟨file', hFile', rfl⟩
  rw [hFile] at hFile'
  cases hFile'
  rfl

theorem fileOf_append
    (entries later : List (Text × Text))
    (name : Text) :
    fileOf (entries ++ later) name =
      (fileOf later name).or (fileOf entries name) := by
  unfold fileOf
  rw [List.reverse_append, List.lookup_append]

theorem fileOf_none
    {entries : List (Text × Text)}
    (hNone : ∀ entry ∈ entries, entry.1 ≠ name) :
    fileOf entries name = none := by
  unfold fileOf
  rw [List.lookup_eq_none_iff]
  intro entry hMem
  exact bne_iff_ne.mpr
    (hNone entry (List.mem_reverse.mp hMem)).symm

/- The entries without those of a zone, as a map. -/
theorem fileOf_without
    {entries later : List (Text × Text)}
    (hBefore : ∀ entry ∈ entries, entry.1 ≠ name)
    (hLater : ∀ entry ∈ later, entry.1 ≠ name)
    (other : Text) :
    fileOf (entries ++ later) other =
      if other = name then none
      else
        fileOf (entries ++ (name, file) :: later) other := by
  have hMiddle :
      (name, file) :: later = [(name, file)] ++ later := rfl
  rw [hMiddle, fileOf_append, fileOf_append, fileOf_append]
  by_cases hSame : other = name
  · subst hSame
    rw [if_pos rfl, fileOf_none hBefore, fileOf_none hLater]
    rfl
  · have hSkip : fileOf [(name, file)] other = none :=
      fileOf_none (by simpa using Ne.symm hSame)
    rw [if_neg hSame, hSkip, Option.or_none]

/- Trimming newlines keeps the other characters. -/
theorem count_trimmed (s : Text) :
    (s.trimRightChar '\n' ++ "\n".toList).count ';' =
      s.count ';' := by
  have hTaken :
      (s.rtakeWhile (· == '\n')).count ';' = 0 := by
    rw [List.count_eq_zero]
    intro hMem
    have hLine :=
      List.mem_rtakeWhile_imp hMem
    cases hLine
  have hWhole :
      s.trimRightChar '\n' ++ s.rtakeWhile (· == '\n') = s :=
    List.rdropWhile_append_rtakeWhile
  have hCount := congrArg (List.count ';') hWhole
  rw [List.count_append, hTaken] at hCount
  rw [List.count_append, ← hCount]
  rfl

/- A part behind which both texts end is empty. -/
theorem part_eq_nil
    {x y z : Text}
    (hEnds : ∃ w, x = w ++ [';'])
    (hParts : x = y ++ z)
    (hNone : z.count ';' = 0) :
    z = [] := by
  rcases hEnds with ⟨w, rfl⟩
  rcases List.eq_nil_or_concat z with rfl | ⟨v, c, rfl⟩
  · rfl
  · rw [List.concat_eq_append, ← List.append_assoc] at hParts
    rcases List.append_inj' hParts rfl with ⟨-, hLast⟩
    cases hLast
    simp at hNone

/- The statement is what is found if it is what is removed. -/
theorem Found.text_eq
    (hFound : Found name conf front cuts later m)
    (hText : conf = front ++ (statement ++ back))
    (hEnds : ∃ x, statement = x ++ [';'])
    (hWritten :
      withoutZoneLine name conf =
        (front ++ back).trimRightChar '\n' ++ "\n".toList) :
    m.text = statement ∧ m.rest = back := by
  rcases hFound.exists_statement with
    ⟨hConf, file, hStatement, -⟩
  have hCount : m.rest.count ';' = back.count ';' := by
    have hBoth := congrArg (List.count ';') hWritten
    unfold withoutZoneLine at hBoth
    rw [count_trimmed, count_trimmed, hFound.withoutZone_eq,
      List.count_append, List.count_append] at hBoth
    omega
  have hOther : ∃ x, m.text = x ++ [';'] := by
    rcases hStatement.pieces with
      ⟨head, gap, clause, gap', stop, hPieces, -, -, -, -,
        hStop⟩
    rcases takes_closeRe.mp hStop with ⟨blanks, rfl, -⟩
    refine ⟨head ++ (gap ++ (clause ++ (gap' ++
      '\x7d' :: blanks))), ?_⟩
    rw [hPieces]
    simp
  rw [hText] at hConf
  rcases List.append_eq_append_iff.mp
      (List.append_cancel_left hConf) with
    ⟨z, hLonger, hBack⟩ | ⟨z, hLonger, hRest⟩
  · rw [hBack, List.count_append] at hCount
    have hNone : z = [] :=
      part_eq_nil hOther hLonger (by omega)
    subst hNone
    rw [List.append_nil] at hLonger
    exact ⟨hLonger, hBack.symm⟩
  · rw [hRest, List.count_append] at hCount
    have hNone : z = [] :=
      part_eq_nil hEnds hLonger (by omega)
    subst hNone
    rw [List.append_nil] at hLonger
    exact ⟨hLonger.symm, hRest⟩

/- The zone is listed with the file that is found. -/
theorem Found.fileOf_eq
    (hFound : Found name conf front cuts later m) :
    (∀ entry ∈ entriesOf cuts, entry.1 ≠ name) ∧
      (∀ entry ∈ entriesOf later, entry.1 ≠ name) ∧
        fileOf (zoneEntries conf) name = some (m.group 2) := by
  have hOthers :
      ∀ pieces : List (Char ⊕ Match),
        (∀ n, .inr n ∈ pieces → n.group 1 ≠ name) →
          ∀ entry ∈ entriesOf pieces, entry.1 ≠ name := by
    intro pieces hPieces entry hMem
    rcases List.mem_map.mp hMem with ⟨n, hn, rfl⟩
    rcases List.mem_filterMap.mp hn with ⟨piece, hPiece, hHere⟩
    rw [Sum.getRight?_eq_some_iff] at hHere
    subst hHere
    exact hPieces n hPiece
  have hLater : ∀ entry ∈ entriesOf later, entry.1 ≠ name :=
    hOthers later fun n hn => hFound.others n (by simp [hn])
  refine ⟨hOthers cuts fun n hn =>
    hFound.others n (by simp [hn]), hLater, ?_⟩
  have hMiddle :
      (name, m.group 2) :: entriesOf later =
        [(name, m.group 2)] ++ entriesOf later := rfl
  have hSelf :
      fileOf [(name, m.group 2)] name = some (m.group 2) := by
    simp [fileOf]
  rw [hFound.zoneEntries_eq, hMiddle, fileOf_append,
    fileOf_append, fileOf_none hLater, hSelf]
  rfl

/- A zone that is listed is deleted where nothing fails. -/
theorem deleteZone_calm
    (hConf : disk.read b.namedLocal = some conf)
    (hFile : fileOf (zoneEntries conf) name = some file)
    (today : Int) :
    b.deleteZone (.calm today) name disk =
      (.ok (), removeFile (.calm today) (b.agentPath file)
        (written disk b.namedLocal
          (withoutZoneLine name conf))) := by
  have hRead :
      readFile (.calm today) b.namedLocal disk = .ok conf := by
    unfold readFile Surroundings.calm
    rw [hConf]
  unfold deleteZone zoneFiles
  rw [hRead]
  simp only [Except.map, hFile]
  rfl

/- What is on the disk when a deletion succeeds. -/
theorem deleteZone_ok
    (hConf : disk.read b.namedLocal = some conf)
    (hFile : fileOf (zoneEntries conf) name = some file)
    (hOk : b.deleteZone e name disk = (.ok (), disk')) :
    disk' =
      removeFile e (b.agentPath file)
        (written disk b.namedLocal
          (withoutZoneLine name conf)) := by
  unfold deleteZone at hOk
  cases hFiles : b.zoneFiles e disk with
  | error error =>
      rw [hFiles] at hOk
      cases (Prod.mk.inj hOk).1
  | ok files =>
      rcases zoneFiles_ok hFiles with ⟨conf', hConf', rfl⟩
      rw [hConf] at hConf'
      cases hConf'
      rw [hFiles] at hOk
      simp only [hFile] at hOk
      split at hOk
      · cases (Prod.mk.inj hOk).1
      · rename_i conf' hRead
        have hSame := readFile_ok hRead
        rw [hConf] at hSame
        cases hSame
        split at hOk
        · cases (Prod.mk.inj hOk).1
        · rename_i disk₁ hWrite
          rw [← (Prod.mk.inj hOk).2, writeFileAtomic_ok hWrite]
          rfl

/- A deletion that is seen through removes one statement. -/
theorem deletesOnly_of_deletable
    (hAt : StatementAt name conf front statement back)
    (hHere : Deletable b name conf statement)
    (hConf : disk.read b.namedLocal = some conf)
    (hOk : b.deleteZone e name disk = (.ok (), disk')) :
    DeletesOnly b e name conf front statement back disk
      disk' := by
  rcases hAt.found with ⟨cuts, later, m, hFound⟩
  rcases hHere.own with ⟨file, hStatement, hOwn⟩
  have hMatch := hFound.eq_of_statement hAt.text hStatement
  have hGroup : m.group 2 = file := by
    rw [hMatch]
    rfl
  have hRest : m.rest = back := by rw [hMatch]
  rcases hFound.fileOf_eq with ⟨hBefore, hLater, hFile⟩
  rw [hGroup] at hFile
  have hDisk := deleteZone_ok hConf hFile hOk
  have hApart :
      Path.clean b.namedLocal ≠ Path.clean (b.agentPath file) := by
    intro hSame
    exact hHere.apart (hSame ▸ hOwn)
  have hText :
      disk'.read b.namedLocal =
        some ((front ++ back).trimRightChar '\n' ++
          "\n".toList) := by
    rw [hDisk, removeFile_read_of_ne hApart, read_written.1]
    unfold withoutZoneLine
    rw [hFound.withoutZone_eq, hRest]
  refine ⟨hText, ?_, ?_, ?_⟩
  · intro e' files hFiles other
    rcases zoneFiles_ok hFiles with ⟨conf', hConf', rfl⟩
    rw [hText] at hConf'
    cases hConf'
    have hJoined :=
      hFound.zoneEntries_joined (hRest ▸ hAt.quiet)
    rw [hRest] at hJoined
    rw [zoneEntries_trimmed, hJoined, hFound.zoneEntries_eq]
    exact fileOf_without hBefore hLater other
  · intro k hBeforeK hAfter
    by_cases hk : k = Path.clean (b.agentPath file)
    · exact Or.inl (hk ▸ hOwn)
    · rw [hDisk, removeFile_of_ne hk] at hAfter
      by_cases hTmp : k = Path.clean (tmpOf b.namedLocal)
      · by_cases hZone : ZonePath b conf k
        · subst hTmp
          exact Or.inl (hHere.temporary hZone)
        · exact Or.inr ⟨hTmp, hZone⟩
      · have hOther : k ≠ Path.clean b.namedLocal := by
          rintro rfl
          have hSome :
              (written disk b.namedLocal
                  (withoutZoneLine name conf)).read
                  b.namedLocal =
                some (withoutZoneLine name conf) :=
            read_written.1
          exact absurd (hSome.symm.trans hAfter) (by simp)
        rw [written_of_ne hTmp hOther] at hAfter
        exact absurd hAfter hBeforeK
  · intro hRemoves k hk
    have hSame := hk.unique hOwn
    subst hSame
    have hGone :
        (removeFile e (b.agentPath file)
            (written disk b.namedLocal
              (withoutZoneLine name conf))).read
            (b.agentPath file) =
          none := by
      rw [removeFile_read, if_neg (by simp [hRemoves])]
    rw [hDisk]
    exact hGone

/- A disk on which every path is one of a file. -/
def fullDisk (b : BindProvider) (conf : Text) : Disk :=
  Disk.write (fun _ => some []) b.namedLocal conf

theorem fullDisk_ne_none (k : Text) :
    fullDisk b conf k ≠ none := by
  by_cases hk : k = Path.clean b.namedLocal
  · subst hk
    have hRead := Disk.read_write (fun _ => some [])
      b.namedLocal conf
    intro hNone
    exact absurd (hRead.symm.trans hNone) (by simp)
  · unfold fullDisk
    rw [Disk.write_of_ne _ conf hk]
    exact Option.some_ne_none []

/- What deleting does to such a disk tells of the statement. -/
theorem deletable_of_fullDisk
    (hAt : StatementAt name conf front statement back)
    (hOnly :
      ∀ disk', b.deleteZone (.calm 0) name (fullDisk b conf) =
        (.ok (), disk') →
          DeletesOnly b (.calm 0) name conf front statement back
            (fullDisk b conf) disk') :
    Deletable b name conf statement := by
  rcases hAt.found with ⟨cuts, later, m, hFound⟩
  rcases hFound.fileOf_eq with ⟨-, -, hFile⟩
  have hConf :
      (fullDisk b conf).read b.namedLocal = some conf :=
    Disk.read_write _ _ _
  have hDeletes := hOnly _ (deleteZone_calm hConf hFile 0)
  generalize hWritten :
    written (fullDisk b conf) b.namedLocal
      (withoutZoneLine name conf) = after at hDeletes
  have hGone :
      removeFile (.calm 0) (b.agentPath (m.group 2)) after
        (Path.clean (b.agentPath (m.group 2))) = none :=
    removeFile_read (b.agentPath (m.group 2))
  have hApart :
      Path.clean b.namedLocal ≠
        Path.clean (b.agentPath (m.group 2)) := by
    intro hSame
    have hText := hDeletes.text
    rw [Disk.read_congr _ hSame] at hText
    exact absurd (hGone.symm.trans hText) (by simp)
  have hText :
      withoutZoneLine name conf =
        (front ++ back).trimRightChar '\n' ++ "\n".toList := by
    have hRead := hDeletes.text
    rw [removeFile_read_of_ne hApart, ← hWritten,
      read_written.1] at hRead
    exact Option.some.inj hRead
  rcases hFound.text_eq hAt.text (takeStatement_ends hAt.read)
    hText with ⟨hMatch, -⟩
  rcases hFound.exists_statement with
    ⟨-, file, hStatement, hGroups⟩
  have hGroup : m.group 2 = file := by
    rw [Match.group, hGroups]
    rfl
  rw [hMatch] at hStatement
  rw [hGroup] at hGone hApart hDeletes
  have hListed :
      ZonePath b conf (Path.clean (b.agentPath file)) := by
    refine ⟨(name, m.group 2), ?_, by rw [hGroup]⟩
    rw [hFound.zoneEntries_eq]
    simp
  have hOwn :
      OwnPath b statement (Path.clean (b.agentPath file)) := by
    rcases hDeletes.removed _ (fullDisk_ne_none _) hGone with
      hOwn | ⟨-, hNot⟩
    · exact hOwn
    · exact absurd hListed hNot
  refine ⟨⟨file, hStatement, hOwn⟩, ?_, ?_⟩
  · intro hLocal
    exact hApart (hLocal.unique hOwn)
  · intro hZone
    have hTmp :
        removeFile (.calm 0) (b.agentPath file) after
          (Path.clean (tmpOf b.namedLocal)) = none := by
      by_cases hSame :
          Path.clean (tmpOf b.namedLocal) =
            Path.clean (b.agentPath file)
      · rw [hSame]
        exact hGone
      · rw [removeFile_of_ne hSame, ← hWritten]
        exact read_written.2
    rcases hDeletes.removed _ (fullDisk_ne_none _) hTmp with
      hOwn | ⟨-, hNot⟩
    · exact hOwn
    · exact absurd hZone hNot

/-
  Deleting a zone removes its statement and its file and
  nothing else, whatever fails and whatever is on the disk,
  exactly where the statement is seen through.
-/
theorem deletes_only_iff
    (b : BindProvider)
    (name conf front statement back : Text)
    (hAt : StatementAt name conf front statement back) :
    (∀ (e : Surroundings) (disk disk' : Disk),
        disk.read b.namedLocal = some conf →
          b.deleteZone e name disk = (.ok (), disk') →
            DeletesOnly b e name conf front statement back disk
              disk') ↔
      Deletable b name conf statement := by
  constructor
  · intro hOnly
    apply deletable_of_fullDisk hAt
    intro disk' hOk
    exact hOnly _ _ _ (Disk.read_write _ _ _) hOk
  · intro hHere e disk disk' hConf hOk
    exact deletesOnly_of_deletable hAt hHere hConf hOk

theorem skips_of_head
    {gap : Text}
    {prev : Option Char}
    (hGap : 'z' ∉ gap)
    (rest : Text) :
    Skips zoneBlockRe prev gap rest :=
  skips_zoneBlockRe (skips_quotedClause hGap rest)

/- The first statement of a text, if others are of others. -/
theorem found_first
    (hFront : 'z' ∉ front)
    (hStatement : Statement statement name file)
    (hBack : Cuts zoneBlockRe none back later)
    (hOthers : ∀ n, .inr n ∈ later → n.group 1 ≠ name) :
    Found name (front ++ (statement ++ back)) front
      (front.map .inl) later
      ⟨statement, back, [(1, name), (2, file)]⟩ := by
  refine ⟨?_, ?_, rfl, ?_⟩
  · apply Cuts.of_skips (skips_of_head hFront _)
    have hFirst := hStatement.first (lastOf none front) back
    have hSome : statement ≠ [] := by
      rintro rfl
      have hLong := zoneBlock_ne_nil hFirst.takes
      simp at hLong
    rcases List.exists_cons_of_ne_nil hSome with ⟨c, t, rfl⟩
    exact .take hFirst hSome (hBack.elsewhere (by decide))
  · rw [List.flatMap_map]
    exact List.flatMap_singleton' front
  · intro n hn
    apply hOthers
    simpa using hn

/- A provider with the directories of the two sides. -/
def labProvider : BindProvider where
  zonesDir := "/zones"
  bindZonesDir := "/etc/bind/zones"
  namedLocal := "/zones/named.conf.local"
  available := List.cons_ne_nil _ _

/- A zone with a block in its statement. -/
def labStatement : Text :=
  statementText "lab"
    " type slave; masters \x7b 10.0.0.1; \x7d; ".toList
    "/etc/bind/zones/db.lab" "\n".toList

theorem labStatement_statement :
    Statement labStatement "lab" "/etc/bind/zones/db.lab" :=
  statementText_statement (by decide) (by decide) (by decide)
    (by decide)

theorem cuts_newline :
    Cuts zoneBlockRe none "\n".toList [.inl '\n'] :=
  Cuts.of_skips_end (skips_of_head (by decide) [])

/- The statement with a comment in front of it. -/
def labConf : Text :=
  "// lab\n".toList ++ (labStatement ++ "\n".toList)

theorem labConf_found :
    Found "lab" labConf "// lab\n" ("// lab\n".toList.map .inl)
      [.inl '\n']
      ⟨labStatement, "\n",
        [(1, "lab"), (2, "/etc/bind/zones/db.lab")]⟩ :=
  found_first (by decide) labStatement_statement cuts_newline
    (by simp)

theorem labConf_at :
    StatementAt "lab" labConf "// lab\n" labStatement "\n" :=
  ⟨rfl, by decide, ⟨_, _, _, labConf_found⟩,
    quiet_of_not_mem (by decide) _⟩

theorem labConf_deletable :
    Deletable labProvider "lab" labConf labStatement := by
  have hOwn :
      OwnPath labProvider labStatement "/zones/db.lab" :=
    ⟨"/etc/bind/zones/db.lab", by decide, by decide⟩
  refine ⟨⟨_, labStatement_statement, _, rfl, rfl⟩, ?_, ?_⟩
  · intro hLocal
    exact absurd (hLocal.unique hOwn) (by decide)
  · rintro ⟨entry, hMem, hTmp⟩
    rw [labConf_found.zoneEntries_eq] at hMem
    rw [List.mem_singleton.mp hMem] at hTmp
    exact absurd hTmp (by decide)

/- The zone with the block is deleted and nothing else. -/
theorem deletes_only_lab :
    ∃ disk',
      labProvider.deleteZone (.calm 0) "lab"
          (fullDisk labProvider labConf) = (.ok (), disk') ∧
        DeletesOnly labProvider (.calm 0) "lab" labConf
          "// lab\n" labStatement "\n"
          (fullDisk labProvider labConf) disk' := by
  have hConf := Disk.read_write (fun _ => some [])
    labProvider.namedLocal labConf
  have hOk :=
    deleteZone_calm (b := labProvider) hConf
      labConf_found.fileOf_eq.2.2 0
  have hOnly :=
    (deletes_only_iff labProvider "lab" labConf "// lab\n"
      labStatement "\n" labConf_at).mpr labConf_deletable
  exact ⟨_, hOk, hOnly _ _ _ hConf hOk⟩

/- A zone without a file clause. -/
def stubStatement : Text :=
  "zone \"stub\" \x7b type static-stub; ".toList ++
    "server-addresses \x7b 10.0.0.1; \x7d; \x7d;".toList

/- The two zones, as the pattern sees them. -/
def stubSeen : Text :=
  statementText "stub"
    (" type static-stub; ".toList ++
      ("server-addresses \x7b 10.0.0.1; \x7d; \x7d;\n".toList ++
        "zone \"lab\" \x7b type master; ".toList))
    "/etc/bind/zones/db.lab" "\n".toList

def stubConf : Text :=
  stubSeen ++ "\n".toList

def stubBack : Text :=
  "\nzone \"lab\" \x7b type master; ".toList ++
    "file \"/etc/bind/zones/db.lab\";\n\x7d;\n".toList

theorem stubConf_found :
    Found "stub" stubConf [] [] [.inl '\n']
      ⟨stubSeen, "\n",
        [(1, "stub"), (2, "/etc/bind/zones/db.lab")]⟩ := by
  have hSeen :
      Statement stubSeen "stub" "/etc/bind/zones/db.lab" :=
    statementText_statement (by decide) (by decide)
      (by decide) (by decide)
  exact found_first List.not_mem_nil hSeen cuts_newline (by simp)

/-
  With a zone that has no file clause the next zone goes, too:
  its statement and its file.
-/
theorem stub_deletes_next :
    StatementAt "stub" stubConf [] stubStatement stubBack ∧
      ∃ disk',
        labProvider.deleteZone (.calm 0) "stub"
            (fullDisk labProvider stubConf) = (.ok (), disk') ∧
          disk'.read labProvider.namedLocal = some "\n" ∧
            disk'.read "/zones/db.lab" = none ∧
              ¬ DeletesOnly labProvider (.calm 0) "stub"
                  stubConf [] stubStatement stubBack
                  (fullDisk labProvider stubConf) disk' := by
  have hConf := Disk.read_write (fun _ => some [])
    labProvider.namedLocal stubConf
  have hOk :=
    deleteZone_calm (b := labProvider) hConf
      stubConf_found.fileOf_eq.2.2 0
  have hText :
      withoutZoneLine "stub" stubConf = "\n".toList := by
    unfold withoutZoneLine
    rw [stubConf_found.withoutZone_eq]
    decide
  rw [hText] at hOk
  refine ⟨⟨by decide, by decide, ⟨_, _, _, stubConf_found⟩,
    quiet_of_not_mem (by decide) _⟩, _, hOk, ?_, ?_, ?_⟩
  · rw [removeFile_read_of_ne (by decide), read_written.1]
    rfl
  · exact removeFile_read (e := .calm 0) _
  · intro hOnly
    have hRead := hOnly.text
    rw [removeFile_read_of_ne (by decide), read_written.1]
      at hRead
    exact absurd hRead (by decide)

end Dns

end Soteria
