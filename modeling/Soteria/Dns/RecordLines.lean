import Soteria.Dns.Serials
import Soteria.Foundation.Lazy

/-
  The lines of records: which text of a line is the value of
  a record, how a line is written, and which records are read
  from their own lines as they were given.

  Key definitions include:
    * `lineTail`, `RecordLine`, `RecordLine.parse`
    * `recordLine`, `Record.stored`
    * `Storable`, `parse_recordLine_iff`
-/

------------------------------------------------------------
-- Runs of a Class
------------------------------------------------------------

namespace Soteria

namespace Dns

open Regex Regex.Pattern

/- Some characters of a class. -/
structure Run (p : Char → Bool) (s : Text) : Prop where
  nonempty : s ≠ []
  all : ∀ c ∈ s, p c = true

theorem Run.head
    {p : Char → Bool}
    {s : Text}
    (hRun : Run p s)
    (rest : Text) :
    ∃ c, p c = true ∧ (s ++ rest).head? = some c := by
  rcases List.exists_cons_of_ne_nil hRun.nonempty with
    ⟨c, t, rfl⟩
  exact ⟨c, hRun.all c (List.mem_cons_self ..), rfl⟩

/- A run of another class ends a run. -/
theorem Run.out
    {p q : Char → Bool}
    {s : Text}
    (hRun : Run p s)
    (hOther : ∀ c, p c = true → q c = false)
    (rest : Text) :
    ∀ c ∈ (s ++ rest).head?, q c = false := by
  rcases hRun.head rest with ⟨d, hd, hHead⟩
  intro c hMem
  rw [hHead] at hMem
  cases hMem
  exact hOther d hd

theorem nonSpace_out
    (c : Char)
    (hSpace : space c = true) :
    nonSpace c = false := by
  rw [nonSpace, hSpace]
  rfl

/- No character of a class is a blank if no blank is of it. -/
theorem space_out
    {p : Char → Bool}
    (hBlanks :
      ∀ c ∈ ['\t', '\n', '\x0c', '\r', ' '], p c = false)
    (c : Char)
    (hc : p c = true) :
    space c = false := by
  rw [← Bool.not_eq_true]
  intro hSpace
  rw [hBlanks c (of_decide_eq_true hSpace)] at hc
  cases hc

theorem digit_out :
    ∀ c, digit c = true → space c = false :=
  space_out (by decide)

theorem letter_out :
    ∀ c, letter c = true → space c = false :=
  space_out (by decide)

theorem not_of_space
    {p : Char → Bool}
    (hOut : ∀ c, p c = true → space c = false)
    (c : Char)
    (hSpace : space c = true) :
    p c = false := by
  rw [← Bool.not_eq_true]
  intro hc
  rw [hOut c hc] at hSpace
  cases hSpace

theorem space_of_nonSpace
    (c : Char)
    (hc : nonSpace c = true) :
    space c = false := by
  rw [nonSpace, Bool.not_eq_true'] at hc
  exact hc

theorem Run.bare
    {s : Text}
    (hRun : Run nonSpace s) :
    Bare s :=
  ⟨hRun.nonempty, fun c hc =>
    space_of_nonSpace c (hRun.all c hc)⟩

/- A run and what is behind it are the same in every reading. -/
theorem run_unique
    {p : Char → Bool}
    {s s' t t' : Text}
    (hAll : ∀ c ∈ s, p c = true)
    (hAll' : ∀ c ∈ s', p c = true)
    (hOut : ∀ c ∈ t.head?, p c = false)
    (hOut' : ∀ c ∈ t'.head?, p c = false)
    (hSame : s ++ t = s' ++ t') :
    s = s' ∧ t = t' := by
  have hTaken :
      ∀ {s t : Text}, (∀ c ∈ s, p c = true) →
        (∀ c ∈ t.head?, p c = false) →
          (s ++ t).takeWhile p = s := by
    intro s t hAll hOut
    rw [List.takeWhile_append_of_pos hAll]
    cases t with
    | nil => simp
    | cons c t =>
        rw [List.takeWhile_cons_of_neg (by simp [hOut c rfl]),
          List.append_nil]
  have hRun := congrArg (List.takeWhile p) hSame
  rw [hTaken hAll hOut, hTaken hAll' hOut'] at hRun
  subst hRun
  exact ⟨rfl, List.append_cancel_left hSame⟩

end Dns

end Soteria

------------------------------------------------------------
-- Ends of Lines
------------------------------------------------------------

namespace Soteria

namespace Dns

open Regex Regex.Pattern

variable {prev : Option Char}

/- `\s*(?:;.*)?$`, with which a line ends. -/
def lineTail : Pattern :=
  all [many true space, opt (seq (lit ";") (many true dot)),
    lineEnd]

theorem takes_lineTail
    {rest text : Text}
    {groups : List (Nat × Text)}
    (hTakes : lineTail.Takes prev rest text groups) :
    ∃ blanks comment, text = blanks ++ comment ∧
      (∀ c ∈ blanks, space c = true) ∧
        (comment = [] ∨ ∃ z, comment = ';' :: z) ∧
          endsLine rest := by
  rcases hTakes with
    ⟨blanks, _, _, _, ⟨hBlanks, -⟩, ⟨comment, _, _, _, hComment,
      ⟨_, _, _, _, ⟨hEnd, rfl, -⟩, ⟨rfl, -⟩, rfl, -⟩, rfl, -⟩,
      rfl, -⟩
  refine ⟨blanks, comment, by simp, hBlanks, ?_, hEnd⟩
  rcases hComment with hComment | ⟨rfl, -⟩
  · rcases hComment with ⟨_, z, _, _, hSign, -, rfl, -⟩
    rcases takes_lit.mp hSign with ⟨rfl, -⟩
    exact Or.inr ⟨z, rfl⟩
  · exact Or.inl rfl

/- A line does not end in front of other characters. -/
theorem lineTail_none
    {blanks rest : Text}
    {c : Char}
    (hBlanks : ∀ d ∈ blanks, space d = true)
    (hSpace : space c = false)
    (hSign : c ≠ ';')
    (hLine : '\n' ∉ blanks) :
    lineTail.run prev (blanks ++ c :: rest) = [] := by
  apply List.eq_nil_iff_forall_not_mem.mpr
  intro m hMem
  rcases mem_run_iff.mp hMem with ⟨hInput, hTakes⟩
  rcases takes_lineTail hTakes with
    ⟨blanks', comment, hText, hBlanks', hComment, hEnd⟩
  rw [hText, List.append_assoc] at hInput
  have hNewline : c ≠ '\n' := by
    rintro rfl
    cases hSpace
  have hNext :
      ∃ e more, comment ++ m.rest = e :: more ∧ e ≠ ';' ∧
        e ≠ '\n' := by
    rcases List.append_eq_append_iff.mp hInput with
      ⟨z, hLonger, hMore⟩ | ⟨z, hLonger, hMore⟩
    · cases z with
      | nil => exact ⟨c, rest, hMore.symm, hSign, hNewline⟩
      | cons d z =>
          cases hMore
          have hHere := hBlanks' c (by rw [hLonger]; simp)
          rw [hSpace] at hHere
          cases hHere
    · cases z with
      | nil => exact ⟨c, rest, hMore, hSign, hNewline⟩
      | cons d z =>
          have hMem : d ∈ blanks := by
            rw [hLonger]
            simp
          refine ⟨d, _, hMore, ?_, ?_⟩
          · rintro rfl
            exact absurd (hBlanks _ hMem) (by decide)
          · rintro rfl
            exact hLine hMem
  rcases hNext with ⟨e, more, hFollows, hNotSign, hNotLine⟩
  rcases hComment with rfl | ⟨z, rfl⟩
  · rw [List.nil_append] at hFollows
    rw [hFollows] at hEnd
    rcases hEnd with hEnd | hEnd
    · cases hEnd
    · exact hNotLine (Option.some.inj hEnd)
  · exact hNotSign (List.cons.inj hFollows).1.symm

/- A line ends with blanks and a comment, if there is one. -/
theorem lineTail_first
    {blanks comment : Text}
    (hBlanks : ∀ c ∈ blanks, space c = true)
    (hComment :
      comment = [] ∨ ∃ z, comment = ';' :: z ∧ '\n' ∉ z) :
    First lineTail prev (blanks ++ comment)
      ⟨blanks ++ comment, [], []⟩ := by
  have hOut : ∀ c ∈ comment.head?, space c = false := by
    rcases hComment with rfl | ⟨z, rfl, -⟩
    · simp
    · intro c hMem
      cases hMem
      rfl
  have hEnd :
      ∀ before, First (seq lineEnd .empty) before []
        ⟨[] ++ [], [], [] ++ []⟩ :=
    fun _ => first_seq (first_lineEnd (Or.inl rfl)) first_empty
  have hSign :
      ∀ before, First (opt (seq (lit ";") (many true dot)))
        before comment ⟨comment, [], []⟩ := by
    intro before
    rcases hComment with rfl | ⟨z, rfl, hLine⟩
    · exact first_other rfl first_empty
    · have hDots : ∀ c ∈ z, dot c = true := by
        intro c hMem
        rw [dot, bne_iff_ne]
        rintro rfl
        exact hLine hMem
      have hMany :
          First (many true dot) (some ';') (z ++ [])
            ⟨z, [], []⟩ :=
        first_many hDots (by simp)
      rw [List.append_nil] at hMany
      exact first_alt (first_seq (first_lit [';'] z) hMany)
  have hLead :
      First (many true space) prev (blanks ++ comment)
        ⟨blanks, comment, []⟩ :=
    first_many hBlanks hOut
  have hWhole :=
    first_seq hLead (first_seq (hSign _) (hEnd _))
  rw [List.append_nil, List.append_nil] at hWhole
  exact hWhole

/- The value of a record goes on up to its last character. -/
theorem lineTail_skips
    {gap rest : Text}
    (hLast : ∀ d ∈ gap.getLast?, space d = false)
    (hSign : ';' ∉ gap)
    (hLine : '\n' ∉ gap) :
    Skips lineTail prev gap rest := by
  induction gap generalizing prev with
  | nil => trivial
  | cons c gap ih =>
      have hSome : ∃ d ∈ c :: gap, space d = false :=
        ⟨_, List.getLast_mem (List.cons_ne_nil c gap),
          hLast _ (List.getLast?_eq_getLast_of_ne_nil
            (List.cons_ne_nil c gap))⟩
      rcases Text.exists_first_out hSome with
        ⟨blanks, e, more, hText, hBlanks, hOut⟩
      constructor
      · rw [← List.cons_append, hText, List.append_assoc,
          List.cons_append]
        apply lineTail_none hBlanks hOut
        · rintro rfl
          apply hSign
          rw [hText]
          simp
        · intro hMem
          apply hLine
          rw [hText]
          simp [hMem]
      · apply ih
        · intro d hMem
          apply hLast
          cases gap with
          | nil => cases hMem
          | cons d' gap =>
              rw [List.getLast?_cons_cons]
              exact hMem
        · exact fun hMem => hSign (List.mem_cons_of_mem _ hMem)
        · exact fun hMem => hLine (List.mem_cons_of_mem _ hMem)

end Dns

end Soteria

------------------------------------------------------------
-- Lines That Are Records
------------------------------------------------------------

namespace Soteria

namespace Dns

open Regex Regex.Pattern

variable {prev : Option Char}

/- `(?:(\d+)\s+)?`, the TTL of a line, if it has one. -/
def ttlColumn : Pattern :=
  opt (seq (group 2 (plus digit)) (plus space))

/- The TTL of a line and the blanks behind it. -/
abbrev Column : Type :=
  Option (Text × Text)

def Column.text (ttl : Column) : Text :=
  (ttl.map fun t => t.1 ++ t.2).getD []

def Column.groups (ttl : Column) : List (Nat × Text) :=
  (ttl.map fun t => [(2, t.1)]).getD []

/- The TTL that is read. -/
def Column.value (ttl : Column) : Int :=
  (ttl.map fun t => clamp64 t.1.digitsValue).getD 0

/- The pieces of a line that is a record. -/
structure RecordLine where
  name : Text
  blanks : Text
  ttl : Column
  blanksIn : Text
  type : Text
  blanksType : Text
  first : Char
  more : Text
  blanksEnd : Text
  comment : Text
  nameRun : Run nonSpace name
  blanksRun : Run space blanks
  ttlRun : ∀ t ∈ ttl, Run digit t.1 ∧ Run space t.2
  inRun : Run space blanksIn
  typeRun : Run letter type
  blanksTypeRun : Run space blanksType
  firstOut : space first = false
  moreEnd : ∀ d ∈ more.getLast?, space d = false
  moreSign : ';' ∉ more
  moreLine : '\n' ∉ more
  endRun : ∀ c ∈ blanksEnd, space c = true
  commentSign :
    comment = [] ∨ ∃ z, comment = ';' :: z ∧ '\n' ∉ z

namespace RecordLine

/- The value that is read. -/
def value (l : RecordLine) : Text :=
  l.first :: l.more

def text (l : RecordLine) : Text :=
  l.name ++ (l.blanks ++ (l.ttl.text ++ ("IN".toList ++
    (l.blanksIn ++ (l.type ++ (l.blanksType ++ (l.first ::
      (l.more ++ (l.blanksEnd ++ l.comment)))))))))

variable (l : RecordLine)

theorem columnFirst
    (rest : Text) :
    First ttlColumn prev (l.ttl.text ++ ("IN".toList ++ rest))
      ⟨l.ttl.text, "IN".toList ++ rest, l.ttl.groups⟩ := by
  cases hTTL : l.ttl with
  | none =>
      have hDigit :
          (group 2 (plus digit)).run prev
            ('I' :: 'N' :: rest) = [] := by
        rw [run, plus, run_seq_one (by decide)]
        rfl
      apply first_other ?_ first_empty
      rw [run]
      show List.flatMap _ ((group 2 (plus digit)).run prev
        ('I' :: 'N' :: rest)) = []
      rw [hDigit]
      rfl
  | some t =>
      rcases l.ttlRun t hTTL with ⟨hDigits, hBlanks⟩
      apply first_alt
      show First _ prev ((t.1 ++ t.2) ++ ("IN".toList ++ rest)) _
      rw [List.append_assoc]
      exact first_seq
        (first_group (first_plus hDigits.nonempty hDigits.all
          (hBlanks.out (not_of_space digit_out) _)))
        (first_plus hBlanks.nonempty hBlanks.all
          (head_out rfl _))

theorem columnHead
    (rest : Text) :
    ∀ c ∈ (l.ttl.text ++ ("IN".toList ++ rest)).head?,
      space c = false := by
  cases hTTL : l.ttl with
  | none => exact head_out rfl _
  | some t =>
      rcases l.ttlRun t hTTL with ⟨hDigits, -⟩
      show ∀ c ∈ ((t.1 ++ t.2) ++ ("IN".toList ++ rest)).head?,
        space c = false
      rw [List.append_assoc]
      exact hDigits.out digit_out _

/- The value goes on up to the blanks in front of the end. -/
theorem value_first :
    First (seq (group 4 (plusLazy dot)) lineTail) prev
      (l.first :: (l.more ++ (l.blanksEnd ++ l.comment)))
      ⟨l.first :: (l.more ++ (l.blanksEnd ++ l.comment)), [],
        [(4, l.value)]⟩ := by
  have hDot :
      ∀ c ∈ l.first :: l.more, dot c = true := by
    intro c hMem
    rw [dot, bne_iff_ne]
    rintro rfl
    rcases List.mem_cons.mp hMem with hFirst | hMore
    · have hOut := l.firstOut
      rw [← hFirst] at hOut
      cases hOut
    · exact l.moreLine hMore
  exact first_group_lazy (hDot _ (List.mem_cons_self ..))
    (fun c hMem => hDot c (List.mem_cons_of_mem _ hMem))
    (lineTail_skips l.moreEnd l.moreSign l.moreLine)
    (lineTail_first l.endRun l.commentSign)

/- What a line of such pieces is read as. -/
theorem find :
    ∃ text, recordRe.find l.text =
      some ⟨text, [], (1, l.name) :: (l.ttl.groups ++
        [(3, l.type), (4, l.value)])⟩ := by
  have hFirst :
      ∀ c ∈ (l.first :: (l.more ++
          (l.blanksEnd ++ l.comment))).head?,
        space c = false := by
    rintro c ⟨⟩
    exact l.firstOut
  have hWhole : First recordRe none l.text ⟨_, _, _⟩ :=
    first_seq (first_lineStart (Or.inl rfl))
      (first_seq
        (first_group (first_plus l.nameRun.nonempty
          l.nameRun.all (l.blanksRun.out nonSpace_out _)))
        (first_seq
          (first_plus l.blanksRun.nonempty l.blanksRun.all
            (l.columnHead _))
          (first_seq (l.columnFirst _)
            (first_seq (first_lit _ _)
              (first_seq
                (first_plus l.inRun.nonempty l.inRun.all
                  (l.typeRun.out letter_out _))
                (first_seq
                  (first_group
                    (first_plus l.typeRun.nonempty l.typeRun.all
                      (l.blanksTypeRun.out
                        (not_of_space letter_out) _)))
                  (first_seq
                    (first_plus l.blanksTypeRun.nonempty
                      l.blanksTypeRun.all hFirst)
                    l.value_first)))))))
  exact ⟨_, findFrom_here hWhole⟩

end RecordLine

/- The line is no comment and no directive. -/
def Begins (name : Text) : Prop :=
  name.trimSpace ≠ [] ∧ name.trimSpace.hasPrefix ";" = false ∧
    name.trimSpace.hasPrefix "$" = false

namespace RecordLine

variable (l : RecordLine)

/- `parseRecord`, of a line of such pieces. -/
theorem parse
    (hBegins : Begins l.name)
    (hType : l.type.toUpper ∈ recordTypes) :
    parseRecord l.text =
      some
        { name := l.name
          type := l.type.toUpper
          ttl := l.ttl.value
          value := l.value.trimSpace } := by
  rcases hBegins with ⟨hSome, hSign, hDollar⟩
  have hLine : l.text.trimSpace ≠ [] := by
    rcases Text.exists_first_out
        (Text.exists_of_trimSpace_ne_nil hSome) with
      ⟨lead, c, more, hName, hLead, hOut⟩
    unfold text
    rw [hName, List.append_assoc, List.cons_append,
      Text.trimSpace_append_left hLead, Text.trimSpace_cons hOut]
    exact List.cons_ne_nil _ _
  have hNotSign : l.text.trimSpace.hasPrefix ";" = false :=
    (Text.hasPrefix_trimSpace_append hSome ';' _).trans hSign
  have hNotDollar : l.text.trimSpace.hasPrefix "$" = false :=
    (Text.hasPrefix_trimSpace_append hSome '$' _).trans hDollar
  have hNotSOA : l.type.toUpper ≠ "SOA" := by
    intro hSOA
    rw [hSOA] at hType
    exact absurd hType (by decide)
  rcases l.find with ⟨found, hFind⟩
  unfold parseRecord
  rw [hFind]
  dsimp only
  rw [hNotSign, hNotDollar, if_neg (by simp [hLine])]
  have hCheck :
      (decide (l.type.toUpper = "SOA") ||
          decide (l.type.toUpper ∉ recordTypes)) = false := by
    rw [decide_eq_false hNotSOA, decide_eq_false
      (not_not.mpr hType)]
    rfl
  cases hTTL : l.ttl with
  | none =>
      show (if (decide (l.type.toUpper = "SOA") ||
        decide (l.type.toUpper ∉ recordTypes)) = true then none
          else some _) = _
      rw [hCheck]
      rfl
  | some t =>
      show (if (decide (l.type.toUpper = "SOA") ||
        decide (l.type.toUpper ∉ recordTypes)) = true then none
          else some (Record.mk l.name l.type.toUpper
            (if t.1 ≠ [] then clamp64 t.1.digitsValue else 0)
            l.value.trimSpace)) = _
      rw [hCheck, if_pos (l.ttlRun t hTTL).1.nonempty]
      rfl

end RecordLine

end Dns

end Soteria

------------------------------------------------------------
-- Lines That Are Read
------------------------------------------------------------

namespace Soteria

namespace Dns

open Regex Regex.Pattern

/- What a match of a line is made of. -/
theorem takes_recordRe
    {prev : Option Char}
    {rest text : Text}
    {groups : List (Nat × Text)}
    (hTakes : recordRe.Takes prev rest text groups) :
    ∃ name between value behind,
      text = name ++ (between ++ (value ++ behind)) ∧
        startsLine prev ∧ name ≠ [] ∧
          (∀ c ∈ name, nonSpace c = true) ∧
          groups.lookup 1 = some name ∧
            groups.lookup 4 = some value := by
  -- one part of the pattern after the other
  rcases hTakes with
    ⟨_, _, _, _, ⟨hStart, rfl, rfl⟩, hTakes, hText, hGroups⟩
  rcases hTakes with
    ⟨name, _, _, _, ⟨_, hName, rfl⟩, hTakes, rfl, rfl⟩
  rcases takes_plus.mp hName with ⟨hSome, hAll, rfl⟩
  rcases hTakes with ⟨blanks, _, _, _, hBlanks, hTakes, rfl, rfl⟩
  rcases takes_plus.mp hBlanks with ⟨-, -, rfl⟩
  rcases hTakes with ⟨column, _, _, _, hColumn, hTakes, rfl, rfl⟩
  rcases hTakes with ⟨word, _, _, _, hIn, hTakes, rfl, rfl⟩
  rcases takes_lit.mp hIn with ⟨-, rfl⟩
  rcases hTakes with
    ⟨blanksIn, _, _, _, hBlanksIn, hTakes, rfl, rfl⟩
  rcases takes_plus.mp hBlanksIn with ⟨-, -, rfl⟩
  rcases hTakes with
    ⟨typ, _, _, _, ⟨_, hTyp, rfl⟩, hTakes, rfl, rfl⟩
  rcases takes_plus.mp hTyp with ⟨-, -, rfl⟩
  rcases hTakes with
    ⟨blanksType, _, _, _, hBlanksType, hTakes, rfl, rfl⟩
  rcases takes_plus.mp hBlanksType with ⟨-, -, rfl⟩
  rcases hTakes with ⟨value, tail, _, _, ⟨_, -, rfl⟩, -, rfl, rfl⟩
  subst hText hGroups
  refine ⟨name, blanks ++ (column ++ (word ++ (blanksIn ++
    (typ ++ blanksType)))), value, tail, by simp, hStart, hSome,
    hAll, rfl, ?_⟩
  rcases hColumn with hColumn | ⟨rfl, rfl⟩
  · rcases hColumn with
      ⟨digits, _, _, _, ⟨_, hDigits, rfl⟩, hEnd, rfl, rfl⟩
    rcases takes_plus.mp hDigits with ⟨-, -, rfl⟩
    rcases takes_plus.mp hEnd with ⟨-, -, rfl⟩
    rfl
  · rfl

/- What holds of a record that is read from any line. -/
theorem parseRecord_some
    {line : Text}
    {found : Record}
    (hRead : parseRecord line = some found) :
    found.type ∈ recordTypes ∧
      (∀ c ∈ found.name, space c = false) ∧
        line.trimSpace.hasPrefix ";" = false ∧
          line.trimSpace.hasPrefix "$" = false ∧
            found.name.count '(' + found.value.count '(' ≤
              line.count '(' := by
  unfold parseRecord at hRead
  dsimp only at hRead
  split at hRead
  · cases hRead
  · rename_i hPlain
    rw [Bool.not_eq_true, Bool.or_eq_false_iff,
      Bool.or_eq_false_iff] at hPlain
    split at hRead
    · cases hRead
    · rename_i m hFind
      split at hRead
      · cases hRead
      · rename_i hType
        cases hRead
        rw [Bool.not_eq_true, Bool.or_eq_false_iff] at hType
        rcases takes_of_findFrom hFind with
          ⟨gap, hLine, hTakes⟩
        rcases takes_recordRe hTakes with
          ⟨name, between, value, behind, hText, -, -, hName,
            hFirst, hFourth⟩
        have hOne : m.group 1 = name := by
          rw [Match.group, hFirst]
          rfl
        have hFour : m.group 4 = value := by
          rw [Match.group, hFourth]
          rfl
        refine ⟨not_not.mp (of_decide_eq_false hType.2), ?_,
          hPlain.1.2, hPlain.2, ?_⟩
        · intro c hMem
          dsimp only at hMem
          rw [hOne] at hMem
          have hc := hName c hMem
          rw [nonSpace, Bool.not_eq_true'] at hc
          exact hc
        · dsimp only
          rw [hOne, hFour, Text.count_trimSpace (by decide),
            hLine, hText]
          simp only [List.count_append]
          omega

/- A line that begins with a blank is no record. -/
theorem parseRecord_blank
    {line : Text}
    (hLine : '\n' ∉ line) :
    parseRecord (' ' :: line) = none := by
  have hFind : recordRe.find (' ' :: line) = none := by
    cases hFind : recordRe.find (' ' :: line) with
    | none => rfl
    | some m =>
        rcases takes_of_findFrom hFind with ⟨gap, hInput, hTakes⟩
        rcases takes_recordRe hTakes with
          ⟨name, between, value, behind, hText, hStart, hSome,
            hName, -⟩
        cases gap with
        | nil =>
            rcases List.exists_cons_of_ne_nil hSome with
              ⟨c, more, rfl⟩
            rw [hText] at hInput
            rw [← (List.cons.inj hInput).1] at hName
            exact absurd (hName _ (List.mem_cons_self ..))
              (by decide)
        | cons c gap =>
            exfalso
            have hLast :
                lastOf none (c :: gap) =
                  some ((c :: gap).getLast (by simp)) := by
              unfold lastOf
              rw [List.getLast?_eq_getLast_of_ne_nil (by simp)]
              rfl
            rw [hLast] at hStart
            have hNewline : '\n' ∈ c :: gap := by
              rcases hStart with hNone | hSame
              · cases hNone
              · rw [← Option.some.inj hSame]
                exact List.getLast_mem _
            have hMem : '\n' ∈ ' ' :: line := by
              rw [hInput]
              exact List.mem_append_left _ hNewline
            rcases List.mem_cons.mp hMem with hBlank | hMem
            · cases hBlank
            · exact hLine hMem
  unfold parseRecord
  rw [hFind]
  simp

end Dns

end Soteria

------------------------------------------------------------
-- Lines That Are Written
------------------------------------------------------------

namespace Soteria

namespace Dns

open Regex Regex.Pattern

variable {records : List Record}
variable {r : Record}

/- The line of a record, without its newline. -/
def recordLine (records : List Record) (r : Record) : Text :=
  pad r.owner (width 1 (records.map Record.owner)) ++
    ("  ".toList ++ (ttlCell records r ++ ("IN".toList ++
      ("  ".toList ++
        (pad r.type.toUpper (width 1 (records.map Record.type)) ++
          ("  ".toList ++ r.value))))))

theorem renderRecord_eq
    (records : List Record)
    (r : Record) :
    renderRecord records r = recordLine records r ++ ['\n'] := by
  have hIn : "IN  ".toList = "IN".toList ++ "  ".toList := rfl
  have hLine : "\n".toList = ['\n'] := rfl
  unfold renderRecord recordLine
  rw [hIn, hLine]
  simp only [List.append_assoc]

/- Padding adds blanks. -/
theorem pad_eq (s : Text) (w : Nat) :
    ∃ blanks, pad s w = s ++ blanks ∧
      ∀ c ∈ blanks, c = ' ' := by
  unfold pad
  split
  · refine ⟨_, rfl, fun c hMem => ?_⟩
    unfold Text.repeated at hMem
    rcases List.mem_flatten.mp hMem with ⟨s, hs, hc⟩
    rw [List.eq_of_mem_replicate hs] at hc
    exact List.mem_singleton.mp hc
  · exact ⟨[], (List.append_nil s).symm, by simp⟩

theorem run_blanks
    {s : Text}
    (hSome : s ≠ [])
    (hBlanks : ∀ c ∈ s, c = ' ') :
    Run space s :=
  ⟨hSome, fun c hMem => by rw [hBlanks c hMem]; rfl⟩

/- The TTL column, as it is read. -/
theorem ttlCell_eq
    {records : List Record}
    {r : Record}
    (hMem : r ∈ records)
    (hTTL : 0 ≤ r.ttl) :
    ∃ (front : Text) (ttl : Column),
      ttlCell records r = front ++ ttl.text ∧
        (∀ c ∈ front, c = ' ') ∧
          (∀ t ∈ ttl, Run digit t.1 ∧ Run space t.2) ∧
            ttl.value = clamp64 r.ttl := by
  rcases Int.eq_ofNat_of_zero_le hTTL with ⟨n, hN⟩
  by_cases hAny : records.any (0 < ·.ttl) = true
  · rcases pad_eq (if 0 < r.ttl then Text.ofInt r.ttl else [])
        (width 0 ((records.filter (0 < ·.ttl)).map
          (Text.ofInt ·.ttl))) with ⟨blanks, hPad, hBlanks⟩
    have hCell :
        ttlCell records r =
          (if 0 < r.ttl then Text.ofInt r.ttl else []) ++
            (blanks ++ "  ".toList) := by
      unfold ttlCell
      rw [if_pos hAny]
      dsimp only
      rw [hPad, List.append_assoc]
    have hAll : ∀ c ∈ blanks ++ "  ".toList, c = ' ' := by
      intro c hHere
      rcases List.mem_append.mp hHere with hHere | hHere
      · exact hBlanks c hHere
      · exact (by decide : ∀ c ∈ "  ".toList, c = ' ') c hHere
    by_cases hZero : r.ttl = 0
    · refine ⟨blanks ++ "  ".toList, none, ?_, hAll, by simp,
        by rw [hZero]; rfl⟩
      rw [hCell, if_neg (by omega)]
      exact (List.append_nil _).symm
    · refine ⟨[], some (Text.ofNat n, blanks ++ "  ".toList), ?_,
        by simp, ?_, ?_⟩
      · rw [hCell, if_pos (by omega), hN]
        rfl
      · rintro t ⟨⟩
        exact ⟨⟨Text.ofNat_ne_nil n,
            fun c hc => Text.digit_of_mem_ofNat hc⟩,
          run_blanks (by simp) hAll⟩
      · rw [hN]
        exact congrArg (fun k : Nat => clamp64 k)
          (Text.digitsValue_ofNat n)
  · have hZero : r.ttl = 0 := by
      by_contra hSome
      apply hAny
      rw [List.any_eq_true]
      exact ⟨r, hMem, decide_eq_true (by omega)⟩
    refine ⟨[], none, ?_, by simp, by simp, by rw [hZero]; rfl⟩
    unfold ttlCell
    rw [if_neg hAny]
    rfl

theorem isSpace_of_space
    (c : Char)
    (hSpace : space c = true) :
    Text.isSpace c = true := by
  have hEach :
      ∀ c ∈ ['\t', '\n', '\x0c', '\r', ' '],
        Text.isSpace c = true := by decide
  exact hEach c (of_decide_eq_true hSpace)

/- What is read of a value that is not blank. -/
theorem exists_readValue
    {v : Text}
    (hSome : v.trimSpace ≠ []) :
    ∃ lead c more blanks comment,
      v = lead ++ c :: (more ++ (blanks ++ comment)) ∧
        (∀ d ∈ lead, space d = true) ∧ space c = false ∧
        (∀ d ∈ more.getLast?, space d = false) ∧ ';' ∉ more ∧
        (∀ d ∈ blanks, space d = true) ∧
        (comment = [] ∨ ∃ z, comment = ';' :: z) ∧
        (Text.trimSpace (c :: more) = v.trimSpace ↔
          ';' ∉ (v.dropWhile space).tail) := by
  rcases Text.exists_of_trimSpace_ne_nil hSome with
    ⟨d, hMem, hNot⟩
  have hOut : space d = false := by
    cases hSpace : space d with
    | false => rfl
    | true =>
        rw [isSpace_of_space d hSpace] at hNot
        cases hNot
  rcases Text.exists_first_out ⟨d, hMem, hOut⟩ with
    ⟨lead, c, t, rfl, hLead, hc⟩
  have hTail : ((lead ++ c :: t).dropWhile space).tail = t := by
    rw [List.dropWhile_append_of_pos hLead,
      List.dropWhile_cons_of_neg (by simp [hc])]
    rfl
  have hTaken :
      (t.takeWhile (· != ';')).rdropWhile space ++
          (t.takeWhile (· != ';')).rtakeWhile space =
        t.takeWhile (· != ';') :=
    List.rdropWhile_append_rtakeWhile
  have hFree : ';' ∉ t.takeWhile (· != ';') := by
    intro hHere
    have hOther := List.mem_takeWhile_imp hHere
    simp at hOther
  have hMore :
      ';' ∉ (t.takeWhile (· != ';')).rdropWhile space :=
    fun hHere => hFree
      ((List.rdropWhile_prefix _ _).subset hHere)
  refine ⟨lead, c, (t.takeWhile (· != ';')).rdropWhile space,
    (t.takeWhile (· != ';')).rtakeWhile space,
    t.dropWhile (· != ';'), ?_, hLead, hc, ?_, hMore, ?_, ?_, ?_⟩
  · rw [← List.append_assoc, hTaken,
      List.takeWhile_append_dropWhile]
  · intro d hHere
    have hSomeMore :
        (t.takeWhile (· != ';')).rdropWhile space ≠ [] := by
      intro hNone
      rw [hNone] at hHere
      cases hHere
    rw [List.getLast?_eq_getLast_of_ne_nil hSomeMore] at hHere
    cases hHere
    rw [← Bool.not_eq_true]
    exact List.rdropWhile_last_not _ _ hSomeMore
  · exact fun d hHere => List.mem_rtakeWhile_imp hHere
  · cases hRest : t.dropWhile (· != ';') with
    | nil => exact Or.inl rfl
    | cons e z =>
        have hHead :=
          List.head_dropWhile_not (· != ';')
            (by rw [hRest]; exact List.cons_ne_nil e z)
        simp only [hRest, List.head_cons] at hHead
        have hSign : e = ';' := by simpa using hHead
        exact Or.inr ⟨z, by rw [hSign]⟩
  · rw [hTail]
    constructor
    · intro hSame
      have hCount := congrArg (List.count ';') hSame
      rw [Text.count_trimSpace (by decide),
        Text.count_trimSpace (by decide), List.count_append,
        List.count_cons, List.count_cons,
        List.count_eq_zero.mpr hMore] at hCount
      rw [← List.count_eq_zero]
      omega
    · intro hNone
      have hAll : t.takeWhile (· != ';') = t := by
        rw [List.takeWhile_eq_self_iff]
        intro d hHere
        rw [bne_iff_ne]
        rintro rfl
        exact hNone hHere
      have hBlanks :
          ∀ d ∈ t.rtakeWhile space, Text.isSpace d = true :=
        fun d hHere =>
          isSpace_of_space d (List.mem_rtakeWhile_imp hHere)
      have hText :
          c :: t.rdropWhile space ++ t.rtakeWhile space =
            c :: t :=
        congrArg (c :: ·) List.rdropWhile_append_rtakeWhile
      rw [hAll, Text.trimSpace_append_left
        (fun d hHere => isSpace_of_space d (hLead d hHere)),
        ← hText, Text.trimSpace_append_right hBlanks]

/- The types of records are words of capital letters. -/
theorem recordTypes_letters :
    ∀ t ∈ recordTypes, Run letter t ∧ t.toUpper = t := by
  have hEach :
      ∀ t ∈ recordTypes, (t ≠ [] ∧ ∀ c ∈ t, letter c = true) ∧
        t.toUpper = t := by decide
  intro t hMem
  exact ⟨⟨(hEach t hMem).1.1, (hEach t hMem).1.2⟩,
    (hEach t hMem).2⟩

theorem count_pad
    {c : Char}
    (hOther : c ≠ ' ')
    (s : Text)
    (w : Nat) :
    (pad s w).count c = s.count c := by
  rcases pad_eq s w with ⟨blanks, hPad, hBlanks⟩
  have hNone : blanks.count c = 0 := by
    rw [List.count_eq_zero]
    intro hMem
    exact hOther (hBlanks c hMem)
  rw [hPad, List.count_append, hNone]
  rfl

/- The characters of the TTL column. -/
theorem mem_ttlCell
    {c : Char}
    (hMem : c ∈ ttlCell records r) :
    c ∈ (" -0123456789" : Text) := by
  have hInt :
      ∀ n : Int, ∀ c ∈ Text.ofInt n,
        c ∈ (" -0123456789" : Text) :=
    forall_mem_ofInt (by decide) (by decide)
  unfold ttlCell at hMem
  split at hMem
  · dsimp only at hMem
    rcases List.mem_append.mp hMem with hMem | hMem
    · rcases pad_eq (if 0 < r.ttl then Text.ofInt r.ttl else [])
          (width 0 ((records.filter (0 < ·.ttl)).map
            (Text.ofInt ·.ttl))) with ⟨blanks, hPad, hBlanks⟩
      rw [hPad] at hMem
      rcases List.mem_append.mp hMem with hMem | hMem
      · split at hMem
        · exact hInt _ c hMem
        · cases hMem
      · rw [hBlanks c hMem]
        decide
    · exact (by decide :
        ∀ c ∈ "  ".toList, c ∈ (" -0123456789" : Text)) c hMem
  · cases hMem

/- What a line has of another character than its columns. -/
theorem count_recordLine
    {c : Char}
    (hOther : c ∉ ("IN -0123456789" : Text))
    (records : List Record)
    (r : Record) :
    (recordLine records r).count c =
      r.owner.count c + r.type.toUpper.count c +
        r.value.count c := by
  have hBlank : c ≠ ' ' := by
    rintro rfl
    exact hOther (by decide)
  have hTwo : "  ".toList.count c = 0 := by
    rw [List.count_eq_zero]
    exact fun hMem => hOther
      ((by decide :
        ∀ d ∈ "  ".toList, d ∈ ("IN -0123456789" : Text)) c hMem)
  have hIn : "IN".toList.count c = 0 := by
    rw [List.count_eq_zero]
    exact fun hMem => hOther
      ((by decide :
        ∀ d ∈ "IN".toList, d ∈ ("IN -0123456789" : Text)) c hMem)
  have hCell : (ttlCell records r).count c = 0 := by
    rw [List.count_eq_zero]
    intro hMem
    exact hOther
      ((by decide :
        ∀ d ∈ (" -0123456789" : Text),
          d ∈ ("IN -0123456789" : Text)) c (mem_ttlCell hMem))
  unfold recordLine
  simp only [List.count_append, count_pad hBlank, hTwo, hIn,
    hCell]
  omega

theorem Accepted.owner
    (hAccepted : Accepted r) :
    r.owner = r.name := by
  apply if_neg
  intro hNone
  apply hAccepted.name
  rw [hNone]
  rfl

/- What the types of records do not have. -/
theorem count_type
    {c : Char}
    (hOther : letter c = false)
    {typ : Text}
    (hType : typ ∈ recordTypes) :
    typ.count c = 0 := by
  rw [List.count_eq_zero]
  intro hMem
  have hLetter := (recordTypes_letters typ hType).1.all c hMem
  rw [hOther] at hLetter
  cases hLetter

/- The line of an accepted record is one line. -/
theorem recordLine_single
    (hAccepted : Accepted r)
    (hType : r.type.toUpper ∈ recordTypes)
    (records : List Record) :
    '\n' ∉ recordLine records r := by
  have hName : r.name.count '\n' = 0 := by
    rw [List.count_eq_zero]
    exact fun hMem =>
      absurd (hAccepted.nameChars _ hMem) (by decide)
  have hValue : r.value.count '\n' = 0 := by
    rw [List.count_eq_zero]
    exact fun hMem =>
      absurd (hAccepted.valueChars _ hMem) (by decide)
  rw [← List.count_eq_zero, count_recordLine (by decide),
    hAccepted.owner, count_type (by decide) hType, hName,
    hValue]

end Dns

end Soteria

------------------------------------------------------------
-- Lines That Are Read as They Are Written
------------------------------------------------------------

namespace Soteria

namespace Dns

open Regex Regex.Pattern

variable {records : List Record}
variable {r : Record}

/- The record that is stored for one that is given. -/
def Record.stored (r : Record) : Record :=
  { r with
    type := r.type.toUpper
    value := r.value.trimSpace }

/- What the line of a record is read as. -/
theorem parse_recordLine
    (hAccepted : Accepted r)
    (hMem : r ∈ records)
    (hTTL : 0 ≤ r.ttl)
    (hType : r.type.toUpper ∈ recordTypes)
    (hName : ∀ c ∈ r.name, space c = false)
    (hBegins : Begins r.name) :
    ∃ value,
      parseRecord (recordLine records r) =
          some { r.stored with
            ttl := clamp64 r.ttl, value := value } ∧
        (value = r.value.trimSpace ↔
          ';' ∉ (r.value.dropWhile space).tail) := by
  rcases recordTypes_letters _ hType with ⟨hLetters, hUpper⟩
  rcases exists_readValue hAccepted.value with
    ⟨lead, c, more, blanks, comment, hValue, hLead, hc, hMoreEnd,
      hMoreSign, hBlanks, hComment, hIff⟩
  rcases ttlCell_eq hMem hTTL with
    ⟨front, ttl, hCell, hFront, hColumn, hReadTTL⟩
  rcases pad_eq r.owner (width 1 (records.map Record.owner))
    with ⟨nameBlanks, hNamePad, hNameBlanks⟩
  rcases pad_eq r.type.toUpper
      (width 1 (records.map Record.type)) with
    ⟨typeBlanks, hTypePad, hTypeBlanks⟩
  have hSomeName : r.name ≠ [] := by
    intro hNone
    apply hAccepted.name
    rw [hNone]
    rfl
  have hOwner : r.owner = r.name := if_neg hSomeName
  have hValueLine : '\n' ∉ r.value := fun hHere =>
    absurd (hAccepted.valueChars _ hHere) (by decide)
  have hNameRun : Run nonSpace r.name :=
    ⟨hSomeName, fun d hd => by
      rw [nonSpace, hName d hd]
      rfl⟩
  have hTwo : ∀ c ∈ "  ".toList, c = ' ' := by decide
  have hFrontRun :
      Run space (nameBlanks ++ ("  ".toList ++ front)) := by
    apply run_blanks (by simp)
    intro d hd
    rcases List.mem_append.mp hd with hd | hd
    · exact hNameBlanks d hd
    · rcases List.mem_append.mp hd with hd | hd
      · exact hTwo d hd
      · exact hFront d hd
  have hTypeRun :
      Run space (typeBlanks ++ ("  ".toList ++ lead)) := by
    refine ⟨by simp, fun d hd => ?_⟩
    rcases List.mem_append.mp hd with hd | hd
    · rw [hTypeBlanks d hd]
      rfl
    · rcases List.mem_append.mp hd with hd | hd
      · rw [hTwo d hd]
        rfl
      · exact hLead d hd
  let l : RecordLine :=
    { name := r.name
      blanks := nameBlanks ++ ("  ".toList ++ front)
      ttl := ttl
      blanksIn := "  "
      type := r.type.toUpper
      blanksType := typeBlanks ++ ("  ".toList ++ lead)
      first := c
      more := more
      blanksEnd := blanks
      comment := comment
      nameRun := hNameRun
      blanksRun := hFrontRun
      ttlRun := hColumn
      inRun := run_blanks (by decide) hTwo
      typeRun := hLetters
      blanksTypeRun := hTypeRun
      firstOut := hc
      moreEnd := hMoreEnd
      moreSign := hMoreSign
      moreLine := by
        intro hHere
        apply hValueLine
        rw [hValue]
        simp [hHere]
      endRun := hBlanks
      commentSign := by
        rcases hComment with hNone | ⟨z, hComment⟩
        · exact Or.inl hNone
        · refine Or.inr ⟨z, hComment, fun hHere => ?_⟩
          apply hValueLine
          rw [hValue, hComment]
          simp [hHere] }
  have hText : l.text = recordLine records r := by
    unfold recordLine
    rw [hNamePad, hTypePad, hCell, hOwner, hValue]
    simp [RecordLine.text, l]
  have hParsed :=
    l.parse ⟨hAccepted.name, hBegins.2⟩ (by
      show r.type.toUpper.toUpper ∈ recordTypes
      rw [hUpper]
      exact hType)
  refine ⟨Text.trimSpace (c :: more), ?_, hIff⟩
  rw [← hText, hParsed]
  show some (Record.mk r.name r.type.toUpper.toUpper ttl.value
      (Text.trimSpace (c :: more))) =
    some (Record.mk r.name r.type.toUpper (clamp64 r.ttl) _)
  rw [hUpper, hReadTTL]

/-
  A record that is read back as it was given, types in
  capital letters and values trimmed.
-/
structure Storable (r : Record) : Prop where
  type : r.type.toUpper ∈ recordTypes
  ttl : r.ttl < 0x8000000000000000
  name : ∀ c ∈ r.name, space c = false
  noComment : r.name.trimSpace.hasPrefix ";" = false
  noDirective : r.name.trimSpace.hasPrefix "$" = false
  value : ';' ∉ (r.value.dropWhile space).tail

/- The line of an accepted record is read as it if it can be. -/
theorem parse_recordLine_iff
    (hAccepted : Accepted r)
    (hMem : r ∈ records)
    (hTTL : 0 ≤ r.ttl) :
    parseRecord (recordLine records r) = some r.stored ↔
      Storable r := by
  have hStart :
      ∃ rest, recordLine records r = r.name ++ rest := by
    rcases pad_eq r.owner (width 1 (records.map Record.owner))
      with ⟨blanks, hPad, -⟩
    have hSomeName : r.name ≠ [] := by
      intro hNone
      apply hAccepted.name
      rw [hNone]
      rfl
    have hOwner : r.owner = r.name := if_neg hSomeName
    unfold recordLine
    rw [hPad, hOwner, List.append_assoc]
    exact ⟨_, rfl⟩
  constructor
  · intro hRead
    rcases parseRecord_some hRead with
      ⟨hType, hName, hSign, hDollar, -⟩
    rcases hStart with ⟨rest, hLine⟩
    rw [hLine] at hSign hDollar
    have hComment : r.name.trimSpace.hasPrefix ";" = false :=
      (Text.hasPrefix_trimSpace_append hAccepted.name ';'
        rest).symm.trans hSign
    have hDirective : r.name.trimSpace.hasPrefix "$" = false :=
      (Text.hasPrefix_trimSpace_append hAccepted.name '$'
        rest).symm.trans hDollar
    rcases parse_recordLine hAccepted hMem hTTL hType hName
        ⟨hAccepted.name, hComment, hDirective⟩ with
      ⟨value, hParsed, hIff⟩
    rw [hRead] at hParsed
    have hValue : r.value.trimSpace = value :=
      congrArg Record.value (Option.some.inj hParsed)
    have hFits : clamp64 r.ttl = r.ttl :=
      (congrArg Record.ttl (Option.some.inj hParsed)).symm
    exact ⟨hType, (clamp64_eq_self_iff.mp hFits).2, hName,
      hComment, hDirective, hIff.mp hValue.symm⟩
  · intro hHere
    rcases parse_recordLine hAccepted hMem hTTL hHere.type
        hHere.name ⟨hAccepted.name, hHere.noComment,
          hHere.noDirective⟩ with ⟨value, hParsed, hIff⟩
    have hFits : clamp64 r.ttl = r.ttl :=
      clamp64_eq_self_iff.mpr
        ⟨Int.le_trans (by decide) hTTL, hHere.ttl⟩
    rw [hParsed, hIff.mpr hHere.value, hFits]
    rfl

end Dns

end Soteria
