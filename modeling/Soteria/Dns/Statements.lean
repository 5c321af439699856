import Soteria.Foundation.Lazy
import Soteria.Dns.NamedConf

/-
  The statements of `named.conf.local` as texts: the head of
  a zone, its file clause and its close, and what is found in
  a configuration that goes on.

  Key definitions include:
    * `quotedClause`
    * `zoneHeaderRe`, `fileClauseRe`, `closeRe`
    * `zoneBlockRe_steady`
    * `zoneEntries_append`
-/

------------------------------------------------------------
-- Keywords With a Quoted Name
------------------------------------------------------------

namespace Soteria

namespace Dns

open Regex Regex.Pattern

/- A keyword, a name in quotes and a closing character. -/
def quotedClause
    (key : Text)
    (index : Nat)
    (stop : Char) : List Pattern :=
  [lit key, plus space] ++ quotedGroup index ++
    [many true space, lit [stop]]

variable {key : Text}
variable {index : Nat}
variable {stop : Char}
variable {prev : Option Char}
variable {rest text : Text}
variable {groups : List (Nat × Text)}

/- The pieces of such a text. -/
structure Quoted
    (key : Text)
    (stop : Char)
    (text name : Text) : Prop where
  pieces :
    ∃ blanks later, text =
        key ++ (blanks ++ '"' :: (name ++ '"' ::
          (later ++ [stop]))) ∧
      blanks ≠ [] ∧ (∀ c ∈ blanks, space c = true) ∧
        ∀ c ∈ later, space c = true
  some : name ≠ []
  free : '"' ∉ name

theorem takes_quotedClause :
    (all (quotedClause key index stop)).Takes prev rest text
        groups ↔
      ∃ name, Quoted key stop text name ∧
        groups = [(index, name)] := by
  constructor
  · intro hTakes
    unfold quotedClause at hTakes
    rw [List.append_assoc] at hTakes
    rcases hTakes with
      ⟨_, _, _, _, hKey, ⟨blanks, _, _, _, hBlanks, hName, rfl,
        rfl⟩, rfl, rfl⟩
    rcases takes_lit.mp hKey with ⟨rfl, rfl⟩
    rcases takes_plus.mp hBlanks with ⟨hSome, hSpaces, rfl⟩
    rcases takes_quotedGroup hName with
      ⟨name, _, after, groups', rfl, hNamed, hFree, hAfter,
        rfl⟩
    rcases hAfter with
      ⟨later, _, _, _, ⟨hLater, rfl⟩, ⟨_, _, _, _, hStop,
        ⟨rfl, rfl⟩, rfl, rfl⟩, rfl, rfl⟩
    rcases takes_lit.mp hStop with ⟨rfl, rfl⟩
    exact ⟨name, ⟨⟨blanks, later, by simp, hSome, hSpaces,
      hLater⟩, hNamed, hFree⟩, rfl⟩
  · rintro ⟨name, ⟨⟨blanks, later, rfl, hSome, hSpaces,
      hLater⟩, hName, hFree⟩, rfl⟩
    have hQuote :
        ∀ {prev rest},
          (lit "\"").Takes prev rest ['"'] [] :=
      takes_lit.mpr ⟨rfl, rfl⟩
    have hInside : ∀ c ∈ name, (c != '"') = true := by
      intro c hMem
      rw [bne_iff_ne]
      rintro rfl
      exact hFree hMem
    refine ⟨key, _, [], _, takes_lit.mpr ⟨rfl, rfl⟩,
      ⟨blanks, _, [], _, takes_plus.mpr ⟨hSome, hSpaces, rfl⟩,
        ⟨['"'], _, [], _, hQuote,
          ⟨name, _, _, _, ⟨_, takes_plus.mpr
              ⟨hName, hInside, rfl⟩, rfl⟩,
            ⟨['"'], _, [], _, hQuote,
              ⟨later, _, [], _, ⟨hLater, rfl⟩,
                ⟨[stop], [], [], [], takes_lit.mpr ⟨rfl, rfl⟩,
                  ⟨rfl, rfl⟩, rfl, rfl⟩, rfl, rfl⟩, rfl, rfl⟩,
            rfl, rfl⟩, rfl, rfl⟩, rfl, rfl⟩, rfl, rfl⟩

/- Its name and its end are those of its first characters. -/
theorem sole_quotedClause
    (hStop : space stop = false) :
    Sole (all (quotedClause key index stop)) := by
  intro prev prev' rest rest' x x' y y' g g' hTakes hTakes' hSame
  rcases takes_quotedClause.mp hTakes with
    ⟨name, ⟨⟨blanks, later, rfl, -, hBlanks, hLater⟩, -, hFree⟩,
      rfl⟩
  rcases takes_quotedClause.mp hTakes' with
    ⟨name', ⟨⟨blanks', later', rfl, -, hBlanks', hLater'⟩, -,
      hFree'⟩, rfl⟩
  have hOut :
      ∀ {s : Text} {d : Char}, space d = false →
        (∀ c ∈ s, space c = true) → d ∉ s := by
    intro s d hd hAll hMem
    rw [hAll d hMem] at hd
    cases hd
  simp only [List.append_assoc, List.cons_append,
    List.append_cancel_left_eq, List.nil_append] at hSame
  have hOpened :=
    Text.cut_unique (hOut (by decide) hBlanks)
      (hOut (by decide) hBlanks') hSame
  have hClosed := Text.cut_unique hFree hFree' hOpened.2
  have hEnded :=
    Text.cut_unique (hOut hStop hLater) (hOut hStop hLater')
      hClosed.2
  rw [hOpened.1, hClosed.1, hEnded.1]
  exact ⟨rfl, rfl⟩

/-
  A later text of this kind does not end before: inside the
  first it would begin at the keyword, since it has the same
  two quotes.
-/
theorem apace_quotedClause
    {first : Char}
    {others : Text}
    (hFirst : space first = false)
    (hOnce : first ∉ others)
    (hQuote : '"' ∉ first :: others)
    (hStop : stop ≠ '"') :
    Apace (all (quotedClause (first :: others) index stop)) := by
  intro prev prev' rest rest' x x' y y' g g' a hTakes hTakes'
    hSome hSame
  by_contra hLong
  rw [← List.append_assoc] at hSame
  rcases exists_append_of_le hSame.symm (by omega) with
    ⟨z, hText, -⟩
  rcases takes_quotedClause.mp hTakes with
    ⟨name, ⟨⟨blanks, later, rfl, -, hBlanks, hLater⟩, -, hFree⟩,
      -⟩
  rcases takes_quotedClause.mp hTakes' with
    ⟨name', ⟨⟨blanks', later', rfl, -, hBlanks', hLater'⟩, -,
      hFree'⟩, -⟩
  have hNone :
      ∀ {s : Text}, (∀ c ∈ s, space c = true) → '"' ∉ s := by
    intro s hAll hMem
    exact absurd (hAll _ hMem) (by decide)
  have hCount := congrArg (List.count '"') hText
  simp only [List.count_append, List.count_cons,
    List.count_nil, List.count_eq_zero_of_not_mem hQuote,
    List.count_eq_zero_of_not_mem (hNone hBlanks),
    List.count_eq_zero_of_not_mem (hNone hBlanks'),
    List.count_eq_zero_of_not_mem (hNone hLater),
    List.count_eq_zero_of_not_mem (hNone hLater'),
    List.count_eq_zero_of_not_mem hFree,
    List.count_eq_zero_of_not_mem hFree',
    beq_self_eq_true, beq_iff_eq, if_true, if_neg hStop]
    at hCount
  have hBefore : '"' ∉ a := by
    apply List.count_eq_zero.mp
    omega
  have hHeads :
      (first :: others) ++ blanks =
        a ++ ((first :: others) ++ blanks') := by
    have hCut :
        ((first :: others) ++ blanks) ++ '"' :: (name ++ '"' ::
            (later ++ [stop])) =
          (a ++ ((first :: others) ++ blanks')) ++ '"' ::
            (name' ++ '"' :: (later' ++ [stop]) ++ z) := by
      simpa using hText
    apply (Text.cut_unique ?_ ?_ hCut).1
    · simp only [List.mem_append, not_or]
      exact ⟨hQuote, hNone hBlanks⟩
    · simp only [List.mem_append, not_or]
      exact ⟨hBefore, hQuote, hNone hBlanks'⟩
  rcases List.exists_cons_of_ne_nil hSome with ⟨d, a', rfl⟩
  rw [List.cons_append, List.cons_append,
    List.cons.injEq] at hHeads
  have hMem : first ∈ others ++ blanks := by
    rw [hHeads.2]
    simp
  rcases List.mem_append.mp hMem with hMem | hMem
  · exact hOnce hMem
  · rw [hBlanks _ hMem] at hFirst
    cases hFirst

end Dns

end Soteria

------------------------------------------------------------
-- Zone Statements
------------------------------------------------------------

namespace Soteria

namespace Dns

open Regex Regex.Pattern

/- `zone\s+"([^"]+)"\s*\{`, with which a zone begins. -/
def zoneHeaderRe : Pattern :=
  all (quotedClause "zone" 1 '\x7b')

/- `file\s+"([^"]+)"\s*;`. -/
def fileClauseRe : Pattern :=
  all (quotedClause "file" 2 ';')

/- `\}\s*;`. -/
def closeRe : Pattern :=
  all [lit "\x7d", many true space, lit ";"]

theorem takes_closeRe
    {prev : Option Char}
    {rest text : Text}
    {groups : List (Nat × Text)} :
    closeRe.Takes prev rest text groups ↔
      ∃ blanks, text = '\x7d' :: (blanks ++ [';']) ∧
        (∀ c ∈ blanks, space c = true) ∧ groups = [] := by
  constructor
  · rintro ⟨_, _, _, _, hOpen, ⟨blanks, _, _, _,
      ⟨hBlanks, rfl⟩, ⟨_, _, _, _, hStop, ⟨rfl, rfl⟩, rfl,
        rfl⟩, rfl, rfl⟩, rfl, rfl⟩
    rcases takes_lit.mp hOpen with ⟨rfl, rfl⟩
    rcases takes_lit.mp hStop with ⟨rfl, rfl⟩
    exact ⟨blanks, rfl, hBlanks, rfl⟩
  · rintro ⟨blanks, rfl, hBlanks, rfl⟩
    exact ⟨['\x7d'], _, [], _, takes_lit.mpr ⟨rfl, rfl⟩,
      ⟨blanks, _, [], _, ⟨hBlanks, rfl⟩,
        ⟨[';'], [], [], [], takes_lit.mpr ⟨rfl, rfl⟩,
          ⟨rfl, rfl⟩, rfl, rfl⟩, rfl, rfl⟩, rfl, rfl⟩

theorem not_mem_of_space
    {s : Text}
    {d : Char}
    (hd : space d = false)
    (hAll : ∀ c ∈ s, space c = true) :
    d ∉ s := by
  intro hMem
  rw [hAll d hMem] at hd
  cases hd

theorem sole_closeRe : Sole closeRe := by
  intro prev prev' rest rest' x x' y y' g g' hTakes hTakes'
    hSame
  rcases takes_closeRe.mp hTakes with
    ⟨blanks, rfl, hBlanks, rfl⟩
  rcases takes_closeRe.mp hTakes' with
    ⟨blanks', rfl, hBlanks', rfl⟩
  simp only [List.append_assoc, List.cons_append,
    List.nil_append, List.cons.injEq, true_and] at hSame
  have hCut :=
    Text.cut_unique (not_mem_of_space (by decide) hBlanks)
      (not_mem_of_space (by decide) hBlanks') hSame
  rw [hCut.1]
  exact ⟨rfl, rfl⟩

/- Inside a close there is no other brace. -/
theorem apace_closeRe : Apace closeRe := by
  intro prev prev' rest rest' x x' y y' g g' a hTakes hTakes'
    hSome hSame
  by_contra hLong
  rw [← List.append_assoc] at hSame
  rcases exists_append_of_le hSame.symm (by omega) with
    ⟨z, hText, -⟩
  rcases takes_closeRe.mp hTakes with ⟨blanks, rfl, hBlanks, -⟩
  rcases takes_closeRe.mp hTakes' with ⟨blanks', rfl, -, -⟩
  rcases List.exists_cons_of_ne_nil hSome with ⟨d, a', rfl⟩
  simp only [List.append_assoc, List.cons_append,
    List.cons.injEq] at hText
  have hMem : '\x7d' ∈ blanks ++ [';'] := by
    rw [hText.2]
    simp
  rcases List.mem_append.mp hMem with hMem | hMem
  · exact not_mem_of_space (by decide) hBlanks hMem
  · exact absurd hMem (by decide)

theorem closeRe_steady : Steady closeRe :=
  sole_closeRe.steady apace_closeRe (by decide)

theorem fileClauseRe_steady : Steady fileClauseRe := by
  apply Sole.steady (sole_quotedClause (by decide)) ?_
    (by decide)
  exact apace_quotedClause (by decide) (by decide)
    (by decide) (by decide)

/- A zone statement is a head, a file clause and a close. -/
theorem zoneBlockRe_run
    (prev : Option Char)
    (input : Text) :
    zoneBlockRe.run prev input =
      (Pattern.seq zoneHeaderRe
        (.seq (many false anyChar)
          (.seq fileClauseRe
            (.seq (many false anyChar) closeRe)))).run prev
        input := by
  have hParts :
      zoneBlockRe =
        all (quotedClause "zone" 1 '\x7b' ++
          (many false anyChar ::
            (quotedClause "file" 2 ';' ++
              [many false anyChar, lit "\x7d", many true space,
                lit ";"]))) := rfl
  rw [hParts, run_all_append]
  apply run_seq_congr
  intro prev input
  apply run_seq_congr
  intro prev input
  exact run_all_append _ _ prev input

theorem zoneBlockRe_steady : Steady zoneBlockRe := by
  have hClause :
      Steady (.seq fileClauseRe
        (.seq (many false anyChar) closeRe)) := by
    apply closeRe_steady.lazySeq (fun _ => rfl)
      (sole_quotedClause (by decide)) ?_ (by decide)
    exact apace_quotedClause (by decide) (by decide)
      (by decide) (by decide)
  have hWhole :
      Steady (.seq zoneHeaderRe (.seq (many false anyChar)
        (.seq fileClauseRe
          (.seq (many false anyChar) closeRe)))) := by
    apply hClause.lazySeq (fun _ => rfl)
      (sole_quotedClause (by decide)) ?_ (by decide)
    exact apace_quotedClause (by decide) (by decide)
      (by decide) (by decide)
  exact hWhole.congr zoneBlockRe_run (by decide)

end Dns

end Soteria

------------------------------------------------------------
-- Statements That Are Found
------------------------------------------------------------

namespace Soteria

namespace Dns

open Regex Regex.Pattern

variable {prev : Option Char}
variable {rest : Text}

/-
  The pieces of a zone statement: the file clause is the first
  one behind the head, and the close is the first one behind
  the file clause.
-/
structure Statement
    (text name file : Text) : Prop where
  pieces :
    ∃ head gap clause gap' stop,
      text = head ++ (gap ++ (clause ++ (gap' ++ stop))) ∧
        Quoted "zone" '\x7b' head name ∧
          Skips fileClauseRe none gap clause ∧
            Quoted "file" ';' clause file ∧
              Skips closeRe none gap' stop ∧
                closeRe.Takes none [] stop []

/- Such a statement is found wherever a scan comes to it. -/
theorem Statement.first
    {text name file : Text}
    (hStatement : Statement text name file)
    (prev : Option Char)
    (rest : Text) :
    First zoneBlockRe prev (text ++ rest)
      ⟨text, rest, [(1, name), (2, file)]⟩ := by
  rcases hStatement.pieces with
    ⟨head, gap, clause, gap', stop, rfl, hHead, hGap, hClause,
      hGap', hStop⟩
  have hHeader :
      zoneHeaderRe.Takes prev
        (gap ++ (clause ++ (gap' ++ (stop ++ rest)))) head
        [(1, name)] :=
    takes_quotedClause.mpr ⟨name, hHead, rfl⟩
  have hFile :
      ∀ prev rest, fileClauseRe.Takes prev rest clause
        [(2, file)] :=
    fun _ _ => takes_quotedClause.mpr ⟨file, hClause, rfl⟩
  have hEnd :
      First closeRe
        (lastOf (lastOf (lastOf (lastOf prev head) gap) clause)
          gap') (stop ++ rest) ⟨stop, rest, []⟩ :=
    sole_closeRe.first (takes_anywhere (by decide) hStop)
  have hSkips' :
      Skips closeRe
        (lastOf (lastOf (lastOf prev head) gap) clause) gap'
        (stop ++ rest) := by
    have hHere :
        Skips closeRe none gap' (stop ++ []) := by
      rwa [List.append_nil]
    exact skips_anywhere (by decide)
      (closeRe_steady.skips rest hStop hHere)
  have hSkips :
      Skips fileClauseRe (lastOf prev head) gap
        (clause ++ (gap' ++ (stop ++ rest))) := by
    have hHere :
        Skips fileClauseRe none gap (clause ++ []) := by
      rwa [List.append_nil]
    exact skips_anywhere (by decide)
      (fileClauseRe_steady.skips (gap' ++ (stop ++ rest))
        (hFile none []) hHere)
  have hBody :=
    first_lazy (p := anyChar) (fun _ _ => rfl)
      (skips_seq hSkips)
      (first_seq (Sole.first (sole_quotedClause (by decide))
        (hFile _ _)) (first_lazy (p := anyChar) (fun _ _ => rfl)
          hSkips' hEnd))
  have hWhole :=
    first_seq (Sole.first (sole_quotedClause (by decide))
      hHeader) hBody
  unfold First at hWhole ⊢
  rw [zoneBlockRe_run]
  simp only [List.append_assoc]
  exact hWhole

/- No such text begins in front of its keyword. -/
theorem skips_quotedClause
    {first : Char}
    {others : Text}
    {index : Nat}
    {stop : Char}
    {gap : Text}
    (hGap : first ∉ gap)
    (rest : Text) :
    Skips (all (quotedClause (first :: others) index stop)) prev
      gap rest := by
  have hFirst :
      ∀ prev c rest, (c == first) = false →
        (all (quotedClause (first :: others) index stop)).run
          prev (c :: rest) = [] := by
    intro prev c rest hOther
    apply List.eq_nil_iff_forall_not_mem.mpr
    intro m hMem
    rcases mem_run_iff.mp hMem with ⟨hInput, hTakes⟩
    rcases takes_quotedClause.mp hTakes with
      ⟨name, ⟨⟨blanks, later, hText, -⟩, -, -⟩, -⟩
    rw [hText, List.cons_append, List.cons_append] at hInput
    rw [(List.cons.inj hInput).1, beq_self_eq_true] at hOther
    cases hOther
  apply skips_of_first hFirst
  intro c hMem
  rw [beq_eq_false_iff_ne]
  rintro rfl
  exact hGap hMem

/- No close begins where there is no brace. -/
theorem skips_closeRe
    {gap : Text}
    (hGap : '\x7d' ∉ gap)
    (rest : Text) :
    Skips closeRe prev gap rest := by
  have hFirst :
      ∀ prev c rest, (c == '\x7d') = false →
        closeRe.run prev (c :: rest) = [] := by
    intro prev c rest hOther
    apply List.eq_nil_iff_forall_not_mem.mpr
    intro m hMem
    rcases mem_run_iff.mp hMem with ⟨hInput, hTakes⟩
    rcases takes_closeRe.mp hTakes with ⟨blanks, hText, -⟩
    rw [hText, List.cons_append] at hInput
    rw [(List.cons.inj hInput).1, beq_self_eq_true] at hOther
    cases hOther
  apply skips_of_first hFirst
  intro c hMem
  rw [beq_eq_false_iff_ne]
  rintro rfl
  exact hGap hMem

/- A statement with other texts around its file clause. -/
def statementText (name before file behind : Text) : Text :=
  ("zone \"".toList ++ (name ++ "\" \x7b".toList)) ++
    (before ++ (("file \"".toList ++ (file ++ "\";".toList)) ++
      (behind ++ "\x7d;".toList)))

theorem statementText_statement
    {name before file behind : Text}
    (hName : name ≠ [] ∧ '"' ∉ name)
    (hFile : file ≠ [] ∧ '"' ∉ file)
    (hBefore : 'f' ∉ before)
    (hBehind : '\x7d' ∉ behind) :
    Statement (statementText name before file behind) name
      file := by
  refine ⟨_, _, _, _, _, rfl, ?_, ?_, ?_, ?_, ?_⟩
  · refine ⟨⟨[' '], [' '], ?_, by decide, by decide,
      by decide⟩, hName.1, hName.2⟩
    rfl
  · exact skips_quotedClause hBefore _
  · refine ⟨⟨[' '], [], ?_, by decide, by decide,
      by decide⟩, hFile.1, hFile.2⟩
    rfl
  · exact skips_closeRe hBehind _
  · exact takes_closeRe.mpr ⟨[], rfl, by decide, rfl⟩

/- The statement that is appended for a new zone. -/
theorem zoneBlock_statement
    {name file : Text}
    (hName : name ≠ [])
    (hNameFree : '"' ∉ name)
    (hFile : file ≠ [])
    (hFileFree : '"' ∉ file) :
    ∃ text, zoneBlock name file = '\n' :: (text ++ ['\n']) ∧
      Statement text name file := by
  have hHead :
      "\nzone \"".toList = '\n' :: "zone \"".toList := rfl
  have hOpen :
      "\" \x7b\n".toList = "\" \x7b".toList ++ ['\n'] := rfl
  have hMaster :
      "    type master;\n    file \"".toList =
        "    type master;\n    ".toList ++
          "file \"".toList := rfl
  have hStop :
      "\";\n\x7d;\n".toList =
        "\";".toList ++ (['\n'] ++ ("\x7d;".toList ++ ['\n'])) :=
    rfl
  have hGap :
      "\n    type master;\n    ".toList =
        ['\n'] ++ "    type master;\n    ".toList := rfl
  refine ⟨statementText name
    "\n    type master;\n    ".toList file ['\n'], ?_, ?_⟩
  · unfold zoneBlock statementText
    rw [hHead, hOpen, hMaster, hStop, hGap]
    simp only [List.append_assoc, List.cons_append,
      List.nil_append]
  · exact statementText_statement ⟨hName, hNameFree⟩
      ⟨hFile, hFileFree⟩ (by decide) (by decide)

/- The zones and files that the pieces of a cut name. -/
def entriesOf (cuts : List (Char ⊕ Match)) :
    List (Text × Text) :=
  (cuts.filterMap Sum.getRight?).map fun m =>
    (m.group 1, m.group 2)

theorem zoneEntries_of_cuts
    {conf : Text}
    {cuts : List (Char ⊕ Match)}
    (hCuts : Cuts zoneBlockRe none conf cuts) :
    zoneEntries conf = entriesOf cuts := by
  unfold zoneEntries entriesOf
  rw [hCuts.findAll]

theorem entriesOf_append
    (cuts later : List (Char ⊕ Match)) :
    entriesOf (cuts ++ later) =
      entriesOf cuts ++ entriesOf later := by
  unfold entriesOf
  rw [List.filterMap_append, List.map_append]

/- A configuration behind its last statement. -/
def behindZones (conf : Text) : Text :=
  (((zoneBlockRe.findAll conf).getLast?).map
    Match.rest).getD conf

theorem behindZones_eq
    {conf : Text}
    {cuts : List (Char ⊕ Match)}
    (hCuts : Cuts zoneBlockRe none conf cuts) :
    behindZones conf = behind conf cuts := by
  unfold behindZones behind
  rw [hCuts.findAll]

/- The entries of a cut are those of the text that goes on. -/
theorem entriesOf_followedBy
    (more : Text)
    (cuts : List (Char ⊕ Match)) :
    entriesOf (cuts.map (followedBy more)) = entriesOf cuts := by
  induction cuts with
  | nil => rfl
  | cons piece cuts ih =>
      cases piece with
      | inl c => exact ih
      | inr m => exact congrArg ((m.group 1, m.group 2) :: ·) ih

theorem skips_zoneBlockRe
    {gap rest : Text}
    (hHead : Skips zoneHeaderRe prev gap rest) :
    Skips zoneBlockRe prev gap rest :=
  skips_congr zoneBlockRe_run (skips_seq hHead)

/- Behind a text that goes on there are its own entries. -/
theorem zoneEntries_cuts
    {conf more : Text}
    {later : List (Char ⊕ Match)}
    (hClosed :
      Skips zoneHeaderRe none (behindZones conf) more)
    (hMore : Cuts zoneBlockRe (lastOf none conf) more later) :
    zoneEntries (conf ++ more) =
      zoneEntries conf ++ entriesOf later := by
  rcases exists_zoneCuts conf with ⟨cuts, hCuts⟩
  rw [behindZones_eq hCuts] at hClosed
  have hWhole :=
    hCuts.append zoneBlockRe_steady (skips_zoneBlockRe hClosed)
      hMore
  rw [zoneEntries_of_cuts hCuts, zoneEntries_of_cuts hWhole,
    entriesOf_append, entriesOf_followedBy]

/-
  A statement that is appended is registered, if no head of
  a statement is open behind the last one.
-/
theorem zoneEntries_append
    {conf name file : Text}
    (hName : name ≠ [])
    (hNameFree : '"' ∉ name)
    (hFile : file ≠ [])
    (hFileFree : '"' ∉ file)
    (hClosed :
      Skips zoneHeaderRe none (behindZones conf)
        (zoneBlock name file)) :
    zoneEntries (conf ++ zoneBlock name file) =
      zoneEntries conf ++ [(name, file)] := by
  rcases zoneBlock_statement hName hNameFree hFile hFileFree with
    ⟨text, hBlock, hStatement⟩
  have hFirst := hStatement.first (some '\n') ['\n']
  have hSome : text ≠ [] := by
    intro hNone
    have hLong := zoneBlock_ne_nil hFirst.takes
    rw [hNone] at hLong
    simp at hLong
  have hNewline :
      ∀ prev rest, zoneBlockRe.run prev ('\n' :: rest) = [] := by
    intro prev rest
    have hSkips :
        Skips zoneBlockRe prev ['\n'] rest :=
      skips_zoneBlockRe (skips_quotedClause (by decide) rest)
    exact hSkips.1
  have hMore :
      Cuts zoneBlockRe (lastOf none conf) (zoneBlock name file)
        [.inl '\n', .inr ⟨text, ['\n'], [(1, name), (2, file)]⟩,
          .inl '\n'] := by
    rw [hBlock]
    apply Cuts.skip (hNewline _ _)
    rcases List.exists_cons_of_ne_nil hSome with ⟨c, t, rfl⟩
    exact .take hFirst hSome (.skip (hNewline _ _) .stop)
  exact zoneEntries_cuts hClosed hMore

/- A statement does not end in a newline. -/
theorem zoneBlockRe_inert
    {more : Text}
    (hMore : ∀ c ∈ more, c = '\n') :
    Inert zoneBlockRe more := by
  intro prev rest text g hTakes
  have hMem :
      (⟨text, rest, g⟩ : Match) ∈
        zoneBlockRe.run prev (text ++ rest) :=
    mem_run_iff.mpr ⟨rfl, hTakes⟩
  rw [zoneBlockRe_run] at hMem
  rcases (mem_run_iff.mp hMem).2 with
    ⟨head, _, _, _, -, ⟨gap, _, _, _, -, ⟨clause, _, _, _, -,
      ⟨gap', stop, _, _, -, hStop, rfl, -⟩, rfl, -⟩, rfl, -⟩,
      hText, -⟩
  rcases takes_closeRe.mp hStop with ⟨blanks, rfl, -⟩
  refine ⟨head ++ (gap ++ (clause ++ (gap' ++
    '\x7d' :: blanks))), ';', ?_, ?_⟩
  · rw [show text = _ from hText]
    simp
  · intro hMem
    exact absurd (hMore _ hMem) (by decide)

/- The newlines at the end of a configuration do not matter. -/
theorem zoneEntries_newlines
    {more : Text}
    (hMore : ∀ c ∈ more, c = '\n')
    (conf : Text) :
    zoneEntries (conf ++ more) = zoneEntries conf := by
  rcases exists_zoneCuts conf with ⟨cuts, hCuts⟩
  have hLonger :=
    hCuts.append_inert zoneBlockRe_steady
      (zoneBlockRe_inert hMore)
  have hNone :
      entriesOf (more.map Sum.inl : List (Char ⊕ Match)) =
        [] := by
    unfold entriesOf
    rw [List.filterMap_map]
    simp [Function.comp_def]
  rw [zoneEntries_of_cuts hLonger, entriesOf_append,
    entriesOf_followedBy, hNone, List.append_nil,
    zoneEntries_of_cuts hCuts]

theorem zoneEntries_trimmed (conf : Text) :
    zoneEntries (conf.trimRightChar '\n' ++ "\n".toList) =
      zoneEntries conf := by
  have hWhole :
      conf.trimRightChar '\n' ++
        conf.rtakeWhile (· == '\n') = conf :=
    List.rdropWhile_append_rtakeWhile
  have hNewlines :
      ∀ c ∈ conf.rtakeWhile (· == '\n'), c = '\n' := by
    intro c hMem
    have hLine := List.mem_rtakeWhile_imp hMem
    exact beq_iff_eq.mp hLine
  rw [zoneEntries_newlines (by decide),
    ← zoneEntries_newlines hNewlines, hWhole]

end Dns

end Soteria
