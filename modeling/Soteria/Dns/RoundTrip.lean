import Mathlib.Algebra.GroupWithZero.Nat
import Soteria.Dns.RecordLines

/-
  Which lists of records are stored without a loss: what is
  cut out of a file as its SOA, and what is read from the
  lines behind its header.

  Key definitions include:
    * `parseLines`, `recordLines`
    * `parseLines_replaced_iff`
    * `parseRecords_header`
    * `ReadBack`, `records_stored_iff`
-/

------------------------------------------------------------
-- Texts of Lines
------------------------------------------------------------

namespace Soteria

namespace Dns

open Regex Regex.Pattern

variable {records : List Record}
variable {r : Record}

/- The records of the lines of a text. -/
def parseLines (text : Text) : List Record :=
  (text.splitOn '\n').filterMap parseRecord

theorem parseLines_append
    (text rest : Text) :
    parseLines (text ++ '\n' :: rest) =
      parseLines text ++ parseLines rest := by
  unfold parseLines
  rw [List.splitOn_append_cons_self, List.filterMap_append]

theorem parseLines_single
    {line : Text}
    (hLine : '\n' ∉ line) :
    parseLines line = (parseRecord line).toList := by
  unfold parseLines
  rw [List.splitOn_eq_singleton hLine]
  cases hRead : parseRecord line with
  | none =>
      rw [List.filterMap_cons_none hRead]
      rfl
  | some found =>
      rw [List.filterMap_cons_some hRead]
      rfl

/- The lines of some records, as they are written. -/
def recordLines (records : List Record) : Text :=
  records.flatMap (renderRecord records)

/- The parentheses that a record has. -/
def Record.opened (r : Record) : Nat :=
  r.name.count '(' + r.value.count '('

theorem sum_count_lines
    {c : Char}
    (hOther : c ≠ '\n')
    (text : Text) :
    ((text.splitOn '\n').map (List.count c)).sum =
      text.count c := by
  induction text with
  | nil => rfl
  | cons d text ih =>
      rcases List.exists_cons_of_ne_nil
          (List.splitOn_ne_nil '\n' text) with
        ⟨part, parts, hParts⟩
      rw [hParts, List.map_cons, List.sum_cons] at ih
      rw [List.splitOn_cons_eq_if_modifyHead, hParts]
      split
      · rename_i hLine
        rw [beq_iff_eq] at hLine
        rw [List.map_cons, List.map_cons, List.sum_cons,
          List.sum_cons, ih, List.count_cons, hLine,
          if_neg (by simpa using hOther.symm)]
        exact Nat.zero_add _
      · rw [List.modifyHead_cons, List.map_cons, List.sum_cons,
          List.count_cons, List.count_cons]
        omega

/- No more is read than there is in the lines. -/
theorem opened_parseLines (text : Text) :
    ((parseLines text).map Record.opened).sum ≤
      text.count '(' := by
  have hEach :
      ∀ lines : List Text,
        ((lines.filterMap parseRecord).map Record.opened).sum ≤
          (lines.map (List.count '(')).sum := by
    intro lines
    induction lines with
    | nil => exact Nat.le_refl 0
    | cons line lines ih =>
        cases hRead : parseRecord line with
        | none =>
            rw [List.filterMap_cons_none hRead, List.map_cons,
              List.sum_cons]
            omega
        | some found =>
            have hHere := (parseRecord_some hRead).2.2.2.2
            rw [List.filterMap_cons_some hRead, List.map_cons,
              List.map_cons, List.sum_cons, List.sum_cons]
            unfold Record.opened at ih ⊢
            omega
  rw [← sum_count_lines (by decide) text]
  exact hEach _

/- The parentheses of a line are those of its record. -/
theorem count_opened
    (hAccepted : Accepted r)
    (hType : r.type.toUpper ∈ recordTypes)
    (records : List Record) :
    (recordLine records r).count '(' = r.opened := by
  rw [count_recordLine (by decide), hAccepted.owner,
    count_type (by decide) hType]
  rfl

/- The records whose lines are shown. -/
theorem parseLines_shown
    {shown : List Record}
    (hSingle : ∀ r ∈ shown, '\n' ∉ recordLine records r) :
    parseLines (shown.flatMap (renderRecord records)) =
      shown.filterMap fun r =>
        parseRecord (recordLine records r) := by
  induction shown with
  | nil => rfl
  | cons r shown ih =>
      have hRest :=
        ih fun s hs => hSingle s (List.mem_cons_of_mem _ hs)
      rw [List.flatMap_cons, renderRecord_eq, List.append_assoc,
        List.singleton_append, parseLines_append,
        parseLines_single (hSingle r (List.mem_cons_self ..)),
        hRest, List.filterMap_cons]
      cases parseRecord (recordLine records r) with
      | none => rfl
      | some found => rfl

/- What the lines have of a character. -/
theorem count_shown
    {c : Char}
    (hOther : c ≠ '\n')
    (shown : List Record) :
    (shown.flatMap (renderRecord records)).count c =
      (shown.map fun r =>
        (recordLine records r).count c).sum := by
  have hLine : List.count c ['\n'] = 0 := by
    rw [List.count_eq_zero, List.mem_singleton]
    exact hOther
  induction shown with
  | nil => rfl
  | cons r shown ih =>
      rw [List.flatMap_cons, renderRecord_eq, List.count_append,
        List.count_append, hLine, ih, List.map_cons,
        List.sum_cons]
      rfl

/- There is a line for each record. -/
theorem count_lines
    {shown : List Record}
    (hSingle : ∀ r ∈ shown, '\n' ∉ recordLine records r) :
    (shown.flatMap (renderRecord records)).count '\n' =
      shown.length := by
  induction shown with
  | nil => rfl
  | cons r shown ih =>
      have hRest :=
        ih fun s hs => hSingle s (List.mem_cons_of_mem _ hs)
      have hHere :=
        List.count_eq_zero.mpr
          (hSingle r (List.mem_cons_self ..))
      rw [List.flatMap_cons, renderRecord_eq, List.count_append,
        List.count_append, hHere, hRest, List.length_cons]
      exact Nat.add_comm _ _

end Dns

end Soteria

------------------------------------------------------------
-- SOAs among Records
------------------------------------------------------------

namespace Soteria

namespace Dns

open Regex Regex.Pattern

variable {prev : Option Char}
variable {records : List Record}
variable {r : Record}

/- The SOA of a text has a parenthesis. -/
theorem takes_soaRe
    {prev : Option Char}
    {rest text : Text}
    {groups : List (Nat × Text)}
    (hTakes : soaRe.Takes prev rest text groups) :
    ∃ word blanks ns blanks' admin blanks'' inside,
      text = word ++ (blanks ++ (ns ++ (blanks' ++ (admin ++
          (blanks'' ++ '(' :: inside))))) ∧
        word.map Text.foldChar = "soa" ∧
          Run space blanks ∧ Run nonSpace ns ∧
            Run space blanks' ∧ Run nonSpace admin ∧
              (∀ c ∈ blanks'', space c = true) ∧
                groups.lookup 1 = some ns ∧
                  groups.lookup 2 = some admin := by
  rcases hTakes with
    ⟨word, _, _, _, hWord, ⟨blanks, _, _, _, hBlanks, ⟨ns, _, _,
      _, hNS, ⟨blanks', _, _, _, hBlanks', ⟨admin, _, _, _,
      hAdmin, ⟨blanks'', _, _, _, hBlanks'', ⟨sign, inside, _, _,
      hSign, -, rfl, rfl⟩, rfl, rfl⟩, rfl, rfl⟩, rfl, rfl⟩, rfl,
      rfl⟩, rfl, rfl⟩, rfl, rfl⟩
  rcases takes_litFold hWord with ⟨hFold, rfl⟩
  rcases takes_plus.mp hBlanks with ⟨hSome, hAll, rfl⟩
  rcases hNS with ⟨_, hNS, rfl⟩
  rcases takes_plus.mp hNS with ⟨hNSSome, hNSAll, rfl⟩
  rcases takes_plus.mp hBlanks' with ⟨hSome', hAll', rfl⟩
  rcases hAdmin with ⟨_, hAdmin, rfl⟩
  rcases takes_plus.mp hAdmin with ⟨hAdminSome, hAdminAll, rfl⟩
  rcases takes_lit.mp hSign with ⟨rfl, rfl⟩
  exact ⟨word, blanks, ns, blanks', admin, blanks'', inside, rfl,
    hFold, ⟨hSome, hAll⟩, ⟨hNSSome, hNSAll⟩, ⟨hSome', hAll'⟩,
    ⟨hAdminSome, hAdminAll⟩, hBlanks''.1, rfl, rfl⟩

/- What is left of the lines when each SOA is replaced. -/
theorem count_replaced
    {pieces : List (Char ⊕ Match)}
    (hTakes :
      ∀ m, .inr m ∈ pieces →
        ∃ before, soaRe.Takes before m.rest m.text m.groups) :
    (pieces.flatMap (Sum.elim (fun c => [c])
        fun _ => "SOA".toList)).count '(' +
        (pieces.filterMap Sum.getRight?).length ≤
      (pieces.flatMap pieceText).count '(' := by
  induction pieces with
  | nil => exact Nat.le_refl 0
  | cons piece pieces ih =>
      have hRest :=
        ih fun m hm => hTakes m (List.mem_cons_of_mem _ hm)
      rw [List.flatMap_cons, List.flatMap_cons,
        List.count_append, List.count_append]
      cases piece with
      | inl c =>
          rw [List.filterMap_cons_none rfl]
          have hSame :
              pieceText (.inl c) = [c] := rfl
          rw [hSame]
          show List.count '(' [c] + _ + _ ≤ _
          omega
      | inr m =>
          have hMatches :
              (Sum.inr m :: pieces).filterMap Sum.getRight? =
                m :: pieces.filterMap Sum.getRight? :=
            rfl
          rw [hMatches, List.length_cons]
          have hOpen : 0 < m.text.count '(' := by
            rcases hTakes m (List.mem_cons_self ..) with
              ⟨before, hHere⟩
            rcases takes_soaRe hHere with
              ⟨word, blanks, ns, blanks', admin, blanks'',
                inside, hText, -⟩
            rw [hText, List.count_pos_iff]
            simp
          have hSame : pieceText (.inr m) = m.text := rfl
          have hNone : List.count '(' "SOA".toList = 0 := by
            decide
          rw [hSame]
          show List.count '(' "SOA".toList + _ + _ ≤ _
          rw [hNone]
          omega

theorem exists_soaCuts (text : Text) :
    ∃ cuts, Cuts soaRe none text cuts := by
  apply exists_cuts
  intro prev input m hFirst hNone
  rcases takes_soaRe hFirst.takes with
    ⟨word, _, _, _, _, _, _, hText, hWord, -⟩
  rw [hNone] at hText
  have hLength := congrArg List.length hWord
  have hTotal := congrArg List.length hText
  simp at hLength hTotal

/- Without matches the text stays. -/
theorem replaced_none
    {cuts : List (Char ⊕ Match)}
    (hNone : cuts.filterMap Sum.getRight? = [])
    (f : Text → Text) :
    cuts.flatMap (Sum.elim (fun c => [c]) fun m => f m.text) =
      cuts.flatMap pieceText := by
  induction cuts with
  | nil => rfl
  | cons piece cuts ih =>
      cases piece with
      | inl c =>
          rw [List.filterMap_cons_none rfl] at hNone
          rw [List.flatMap_cons, List.flatMap_cons, ih hNone]
          rfl
      | inr m => cases hNone

/-
  The records of a list are read back as they were given if
  each of them can be, and if no text that looks like an SOA
  is cut out of them. A text that is cut out has one more
  parenthesis than what it is replaced by.
-/
theorem parseLines_replaced_iff
    (hAccepted : ∀ r ∈ records, Accepted r)
    (hTTL : ∀ r ∈ records, 0 ≤ r.ttl) :
    parseLines
        (soaRe.replaceAll (fun _ => "SOA")
          (recordLines records)) =
          records.map Record.stored ↔
      (∀ r ∈ records, Storable r) ∧
        soaRe.findAll (recordLines records) = [] := by
  rcases exists_soaCuts (recordLines records) with ⟨cuts, hCuts⟩
  have hText :
      recordLines records = cuts.flatMap pieceText :=
    hCuts.input_eq
  have hEach :
      (∀ r ∈ records, r.type.toUpper ∈ recordTypes) →
        (parseLines (recordLines records) =
            records.map Record.stored ↔
          ∀ r ∈ records, Storable r) := by
    intro hTypes
    unfold recordLines
    rw [parseLines_shown fun r hMem =>
        recordLine_single (hAccepted r hMem) (hTypes r hMem) _,
      List.filterMap_eq_map_iff_forall_eq_some]
    exact forall₂_congr fun r hMem =>
      parse_recordLine_iff (hAccepted r hMem) hMem
        (hTTL r hMem)
  rw [hCuts.replaceAll, hCuts.findAll]
  constructor
  · intro hRead
    have hTypes : ∀ r ∈ records, r.type.toUpper ∈ recordTypes := by
      intro r hMem
      have hStored := List.mem_map_of_mem (f := Record.stored) hMem
      rw [← hRead] at hStored
      rcases List.mem_filterMap.mp hStored with
        ⟨line, -, hLine⟩
      exact (parseRecord_some hLine).1
    have hOpened := opened_parseLines
      (cuts.flatMap (Sum.elim (fun c => [c])
        fun _ => "SOA".toList))
    have hCount :=
      count_replaced fun m hMem => hCuts.takes hMem
    have hLines :
        (recordLines records).count '(' =
          (records.map fun r =>
            (recordLine records r).count '(').sum :=
      count_shown (by decide) records
    have hSame :
        (records.map fun r =>
            (recordLine records r).count '(') =
          (records.map Record.stored).map Record.opened := by
      rw [List.map_map]
      apply List.map_congr_left
      intro r hMem
      rw [count_opened (hAccepted r hMem) (hTypes r hMem)]
      show _ = r.name.count '(' + r.value.trimSpace.count '('
      rw [Text.count_trimSpace (by decide)]
      rfl
    have hNone : cuts.filterMap Sum.getRight? = [] := by
      rw [← List.length_eq_zero_iff]
      rw [hRead, ← hSame, ← hLines] at hOpened
      rw [← hText] at hCount
      omega
    refine ⟨(hEach hTypes).mp ?_, hNone⟩
    rw [replaced_none hNone fun _ => "SOA".toList, ← hText]
      at hRead
    exact hRead
  · rintro ⟨hStorable, hNone⟩
    rw [replaced_none hNone fun _ => "SOA".toList, ← hText]
    exact (hEach fun r hMem => (hStorable r hMem).type).mpr
      hStorable

end Dns

end Soteria

------------------------------------------------------------
-- Headers without Records
------------------------------------------------------------

namespace Soteria

namespace Dns

open Regex Regex.Pattern

variable {prev : Option Char}
variable {z : Zone}

/- No SOA begins with other letters. -/
theorem soaRe_none
    {input : Text}
    (hOther :
      (input.take 3).map Text.foldChar ≠ "soa") :
    soaRe.run prev input = [] := by
  apply List.eq_nil_iff_forall_not_mem.mpr
  intro m hMem
  rcases mem_run_iff.mp hMem with ⟨hInput, hTakes⟩
  rcases takes_soaRe hTakes with
    ⟨word, blanks, ns, blanks', admin, blanks'', inside, hText,
      hWord, -⟩
  have hLength : word.length = 3 := by
    rw [← List.length_map (f := Text.foldChar), hWord]
    rfl
  apply hOther
  rw [hInput, hText, List.append_assoc,
    List.take_append_of_le_length (Nat.le_of_eq hLength.symm),
    List.take_of_length_le (Nat.le_of_eq hLength), hWord]

/- A text that has no word `SOA`, whatever follows it. -/
def clearOfSOA : Text → Bool
| [] => true
| c :: gap =>
    !(((c :: gap).take 3).map Text.foldChar).isPrefixOf
        "soa".toList &&
      clearOfSOA gap

theorem soaRe_skips_clear
    {gap : Text}
    (hClear : clearOfSOA gap = true)
    (rest : Text) :
    Skips soaRe prev gap rest := by
  induction gap generalizing prev with
  | nil => trivial
  | cons c gap ih =>
      rw [clearOfSOA, Bool.and_eq_true, Bool.not_eq_true'] at hClear
      refine ⟨soaRe_none ?_, ih hClear.2⟩
      intro hFold
      have hPrefix :
          ((c :: gap).take 3).map Text.foldChar <+:
            "soa".toList := by
        have hWhole :
            ((c :: (gap ++ rest)).take 3).map Text.foldChar =
              "soa".toList := hFold
        rw [← hWhole, ← List.cons_append]
        apply List.IsPrefix.map
        rw [List.take_append]
        exact List.prefix_append _ _
      rw [List.isPrefixOf_iff_prefix.mpr hPrefix] at hClear
      cases hClear.1

/- A word and a comment behind it have no parenthesis. -/
theorem no_parenthesis
    {admin blanks word inside more : Text}
    (hAdmin : ∀ c ∈ admin, space c = false)
    (hBlanks : ∀ c ∈ blanks, space c = true)
    (hWord : ∀ c ∈ word, space c = false ∧ c ≠ '(')
    (hSame :
      admin ++ (blanks ++ '(' :: inside) =
        word ++ ' ' :: ';' :: more) :
    False := by
  have hBehind :
      ∀ blanks : Text, (∀ c ∈ blanks, space c = true) →
        blanks ++ '(' :: inside ≠ ' ' :: ';' :: more := by
    intro blanks hBlanks hHere
    cases blanks with
    | nil => cases hHere
    | cons c blanks =>
        cases blanks with
        | nil => cases hHere
        | cons d blanks =>
            cases hHere
            exact absurd (hBlanks ';' (by simp)) (by decide)
  rcases List.append_eq_append_iff.mp hSame with
    ⟨z, rfl, hHere⟩ | ⟨z, rfl, hHere⟩
  · cases z with
    | nil => exact hBehind blanks hBlanks hHere
    | cons c z =>
        rw [List.cons_append] at hHere
        have hInWord := hWord c (by simp)
        cases blanks with
        | nil =>
            cases hHere
            exact hInWord.2 rfl
        | cons d blanks =>
            have hSpace := hBlanks d (List.mem_cons_self ..)
            rw [(List.cons.inj hHere).1, hInWord.1] at hSpace
            cases hSpace
  · cases z with
    | nil => exact hBehind blanks hBlanks hHere.symm
    | cons c z =>
        rw [List.cons_append] at hHere
        have hSpace := hAdmin c (by simp)
        rw [← (List.cons.inj hHere).1] at hSpace
        cases hSpace

/- A number is a word. -/
theorem mem_ofInt
    {n : Int} :
    ∀ c ∈ Text.ofInt n, space c = false ∧ c ≠ '(' :=
  forall_mem_ofInt (by decide) (by decide) n

theorem head_append_ofInt
    (n : Int)
    (rest : Text) :
    ∀ c ∈ (Text.ofInt n ++ rest).head?, space c = false := by
  have hSome : Text.ofInt n ≠ [] := by
    cases n with
    | ofNat n => exact Text.ofNat_ne_nil n
    | negSucc n => exact List.cons_ne_nil _ _
  exact Bare.head_out ⟨hSome, fun c hc => (mem_ofInt c hc).1⟩ rest

/- An SOA without its fields is none. -/
theorem soaRe_empty
    (serial : Int)
    (rest : Text) :
    soaRe.run prev
      ("SOA   (".toList ++ (serialText serial ++ rest)) =
        [] := by
  apply List.eq_nil_iff_forall_not_mem.mpr
  intro m hMem
  rcases mem_run_iff.mp hMem with ⟨hInput, hTakes⟩
  rcases takes_soaRe hTakes with
    ⟨word, blanks, ns, blanks', admin, blanks'', inside, hText,
      hWord, hBlanks, hNS, hBlanks', hAdmin, hBlanks'', -⟩
  have hLength : word.length = 3 := by
    rw [← List.length_map (f := Text.foldChar), hWord]
    rfl
  have hSerial :
      serialText serial ++ rest =
        "\n                ".toList ++ (Text.ofInt serial ++
          (' ' :: ';' ::
            (" Serial (managed by soteria-agent".toList ++
              rest))) := by
    unfold serialText
    simp only [List.append_assoc]
    rfl
  have hName :
      "SOA   (".toList =
        "SOA".toList ++ ("   ".toList ++ ['(']) := rfl
  rw [hText, hSerial, hName] at hInput
  simp only [List.append_assoc] at hInput
  have hBehind := (List.append_inj hInput hLength.symm).2
  have hAfter :=
    (run_unique (p := space) (by decide) hBlanks.all
      (head_out rfl _) (hNS.out space_of_nonSpace _) hBehind).2
  have hInner :=
    (run_unique (p := nonSpace) (by decide) hNS.all
      (by rintro c ⟨⟩; rfl)
      (hBlanks'.out nonSpace_out _) hAfter).2
  have hLast :=
    (run_unique (p := space) (by decide) hBlanks'.all
      (head_append_ofInt _ _) (hAdmin.out space_of_nonSpace _)
      hInner).2
  exact no_parenthesis
    (fun c hc => space_of_nonSpace c (hAdmin.all c hc)) hBlanks''
    mem_ofInt hLast.symm

/- The line of the default TTL is no record. -/
theorem parseLines_ttl (n : Int) :
    parseLines ("$TTL " ++ Text.ofInt n) = [] := by
  have hLine : '\n' ∉ "$TTL ".toList ++ Text.ofInt n := by
    rw [List.mem_append, not_or]
    refine ⟨by decide, fun hMem => ?_⟩
    exact absurd (mem_ofInt '\n' hMem).1 (by decide)
  have hDollar :
      (Text.trimSpace ("$TTL ".toList ++ Text.ofInt n)).hasPrefix
        "$" = true :=
    (Text.hasPrefix_trimSpace_append (s := "$TTL ") (by decide)
      '$' (Text.ofInt n)).trans (by decide)
  have hNone :
      parseRecord ("$TTL ".toList ++ Text.ofInt n) = none := by
    unfold parseRecord
    dsimp only
    rw [hDollar]
    simp
  have hLines := parseLines_single hLine
  rw [hNone] at hLines
  exact hLines

/- The lines of the timers. -/
def timerLines : Text :=
  "                3600       ; Refresh\n" ++
    "                1800       ; Retry\n".toList ++
    "                604800     ; Expire\n".toList ++
    "                300 )      ; Negative cache TTL\n".toList

theorem parseLines_timers : parseLines timerLines = [] := by
  unfold timerLines
  repeat rw [String.toList_ofList]
  decide +kernel

theorem parseLines_headerTail
    (text rest : Text) :
    parseLines (text ++ (headerTail ++ rest)) =
      parseLines text ++ parseLines rest := by
  have hTail :
      headerTail = '\n' :: (timerLines ++ ['\n']) := by
    unfold headerTail timerLines
    repeat rw [String.toList_ofList]
    rfl
  rw [hTail, List.cons_append, parseLines_append,
    List.append_assoc, List.singleton_append, parseLines_append,
    parseLines_timers]
  rfl

/- The characters of a cut are copied. -/
theorem flatMap_inl
    (f : Match → Text)
    (gap : Text)
    (cuts : List (Char ⊕ Match)) :
    (gap.map Sum.inl ++ cuts).flatMap
        (Sum.elim (fun c => [c]) f) =
      gap ++ cuts.flatMap (Sum.elim (fun c => [c]) f) := by
  induction gap with
  | nil => rfl
  | cons c gap ih =>
      rw [List.map_cons, List.cons_append, List.flatMap_cons,
        ih]
      rfl

/- The text of a header in front of its SOA. -/
def headerLead (z : Zone) : Text :=
  "$TTL " ++ Text.ofInt z.writtenTTL ++
    "\n@       IN  ".toList

theorem soaRe_skips_lead (rest : Text) :
    Skips soaRe none (headerLead z) rest := by
  refine soaRe_skips ?_ _
  unfold headerLead
  intro c hMem
  rcases List.mem_append.mp hMem with hMem | hMem
  · rcases List.mem_append.mp hMem with hMem | hMem
    · exact (by decide :
        ∀ c ∈ "$TTL ".toList, Text.foldChar c ≠ 's') c hMem
    · exact forall_mem_ofInt
        (p := fun c => Text.foldChar c ≠ 's') (by decide)
        (by decide) _ c hMem
  · exact (by decide :
      ∀ c ∈ "\n@       IN  ".toList,
        Text.foldChar c ≠ 's') c hMem

theorem parseLines_lead
    {line : Text}
    (hLine : parseLines ("@       IN  ".toList ++ line) = []) :
    parseLines (headerLead z ++ line) = [] := by
  have hText :
      headerLead z ++ line =
        ("$TTL ".toList ++ Text.ofInt z.writtenTTL) ++
          '\n' :: ("@       IN  ".toList ++ line) := by
    unfold headerLead
    simp only [List.append_assoc]
    rfl
  rw [hText, parseLines_append, hLine]
  exact congrArg (· ++ []) (parseLines_ttl _)

/- The header with its fields is cut out as a whole. -/
theorem replaced_header
    (hNS : Bare z.primaryNS)
    (hAdmin : Bare z.admin)
    (rest : Text) :
    soaRe.replaceAll (fun _ => "SOA") (renderHeader z ++ rest) =
      headerLead z ++ "SOA".toList ++
        (headerTail ++
          soaRe.replaceAll (fun _ => "SOA") rest) := by
  have hInside : ')' ∉ serialText z.serial := by
    unfold serialText
    rw [List.mem_append, List.mem_append, not_or, not_or]
    refine ⟨⟨by decide, fun hMem => ?_⟩, by decide⟩
    exact forall_mem_ofInt (p := (· ≠ ')')) (by decide)
      (by decide) z.serial _ hMem rfl
  rcases @soaRe_first (lastOf none (headerLead z)) _ _ _ hNS
      hAdmin hInside (headerTail ++ rest) with ⟨text, hFirst⟩
  rcases exists_soaCuts rest with ⟨cuts, hCuts⟩
  have hSome : text ≠ [] := by
    rintro rfl
    rcases takes_soaRe hFirst.takes with
      ⟨word, _, _, _, _, _, _, hText, hWord, -⟩
    have hLength := congrArg List.length hWord
    have hTotal := congrArg List.length hText
    simp at hLength hTotal
  have hText :
      renderHeader z ++ rest =
        headerLead z ++ ("SOA".toList ++ ([' '] ++
          (z.primaryNS ++ ([' '] ++ (z.admin ++ ([' '] ++
            (['('] ++ (serialText z.serial ++ ([')'] ++
              (headerTail ++ rest)))))))))) :=
    renderHeader_eq z rest
  have hWhole :=
    Cuts.of_skips (soaRe_skips_lead (z := z) _)
      (.of_first hFirst hSome
        (.of_skips (soaRe_skips_clear (by decide +kernel) rest)
          (hCuts.elsewhere (by decide))))
  rw [hText, Cuts.replaceAll hWhole, hCuts.replaceAll,
    flatMap_inl, List.flatMap_cons, flatMap_inl,
    List.append_assoc]
  rfl

/- Nothing is cut out of a header without its fields. -/
theorem replaced_emptyHeader
    (hNS : z.primaryNS = [])
    (hAdmin : z.admin = [])
    (rest : Text) :
    soaRe.replaceAll (fun _ => "SOA") (renderHeader z ++ rest) =
      headerLead z ++ "SOA   (".toList ++
        (serialText z.serial ++ [')'] ++ (headerTail ++
          soaRe.replaceAll (fun _ => "SOA") rest)) := by
  rcases exists_soaCuts rest with ⟨cuts, hCuts⟩
  have hName :
      "SOA   (".toList ++ "\n                ".toList =
        'S' :: "OA   (\n                ".toList := rfl
  have hClose :
      " ; Serial (managed by soteria-agent)".toList =
        " ; Serial (managed by soteria-agent".toList ++
          [')'] := rfl
  have hHere :
      "SOA".toList ++ ([' '] ++ ([] ++ ([' '] ++ ([] ++
          ([' '] ++ ['('])))) ) = "SOA   (".toList := rfl
  have hText :
      renderHeader z ++ rest =
        headerLead z ++ ("SOA   (".toList ++
          (serialText z.serial ++ ([')'] ++ headerTail))) ++
            rest := by
    rw [renderHeader_eq, hNS, hAdmin, ← hHere]
    unfold headerLead
    simp only [List.append_assoc]
  have hParts :
      "SOA   (".toList ++ (serialText z.serial ++ ([')'] ++
          headerTail)) =
        'S' :: (("OA   (\n                ".toList ++
          Text.ofInt z.serial) ++
            (" ; Serial (managed by soteria-agent)".toList ++
              headerTail)) := by
    rw [hClose]
    unfold serialText
    simp only [← List.append_assoc]
    rw [hName]
    simp only [List.cons_append]
  have hSkips :
      Skips soaRe none
        (headerLead z ++ ("SOA   (".toList ++
          (serialText z.serial ++ ([')'] ++ headerTail))))
        rest := by
    rw [skips_append]
    refine ⟨soaRe_skips_lead _, ?_⟩
    have hEmpty :
        soaRe.run (lastOf none (headerLead z)) _ = [] :=
      soaRe_empty z.serial ([')'] ++ (headerTail ++ rest))
    rw [hParts]
    refine ⟨?_, skips_append.mpr ⟨soaRe_skips ?_ _,
      soaRe_skips_clear (by decide +kernel) rest⟩⟩
    · rw [← List.cons_append, ← hParts]
      simpa only [List.append_assoc] using hEmpty
    · intro c hMem
      rcases List.mem_append.mp hMem with hMem | hMem
      · exact (by decide :
          ∀ c ∈ "OA   (\n                ".toList,
            Text.foldChar c ≠ 's') c hMem
      · exact forall_mem_ofInt
          (p := fun c => Text.foldChar c ≠ 's') (by decide)
          (by decide) _ c hMem
  have hWhole :=
    Cuts.of_skips hSkips (hCuts.elsewhere (by decide))
  rw [hText, Cuts.replaceAll hWhole, hCuts.replaceAll,
    flatMap_inl]
  simp only [List.append_assoc]

/- The fields of an SOA that is written. -/
def Fielded (z : Zone) : Prop :=
  (Bare z.primaryNS ∧ Bare z.admin) ∨
    (z.primaryNS = [] ∧ z.admin = [])

/- A zone that is read has both fields or none. -/
theorem parseZone_fielded (name content : Text) :
    Fielded (parseZone name content) := by
  unfold Fielded parseZone
  cases hFind : soaRe.find content with
  | none => exact Or.inr ⟨rfl, rfl⟩
  | some m =>
      rcases takes_of_findFrom hFind with ⟨gap, -, hTakes⟩
      rcases takes_soaRe hTakes with
        ⟨word, blanks, ns, blanks', admin, blanks'', inside, -, -,
          -, hNS, -, hAdmin, -, hFirst, hSecond⟩
      have hOne : m.group 1 = ns := by
        rw [Match.group, hFirst]
        rfl
      have hTwo : m.group 2 = admin := by
        rw [Match.group, hSecond]
        rfl
      refine Or.inl ⟨?_, ?_⟩
      · show Bare (m.group 1)
        rw [hOne]
        exact hNS.bare
      · show Bare (m.group 2)
        rw [hTwo]
        exact hAdmin.bare

theorem parseZone_records (name content : Text) :
    (parseZone name content).records = parseRecords content :=
  rfl

/- The records of a file are those behind its header. -/
theorem parseRecords_header
    (hFielded : Fielded z)
    (rest : Text) :
    parseRecords (renderHeader z ++ rest) =
      parseLines (soaRe.replaceAll (fun _ => "SOA") rest) := by
  change parseLines
    (soaRe.replaceAll (fun _ => "SOA")
      (renderHeader z ++ rest)) = _
  rcases hFielded with ⟨hNS, hAdmin⟩ | ⟨hNS, hAdmin⟩
  · have hLead :
        parseLines (headerLead z ++ "SOA".toList) = [] :=
      parseLines_lead (by decide +kernel)
    rw [replaced_header hNS hAdmin, parseLines_headerTail, hLead,
      List.nil_append]
  · have hBlanks :
        "\n                ".toList =
          '\n' :: ' ' :: "               ".toList := rfl
    have hName :
        parseLines
          ("@       IN  ".toList ++ "SOA   (".toList) = [] := by
      decide +kernel
    have hSerial :
        '\n' ∉ "               ".toList ++
          (Text.ofInt z.serial ++
            (" ; Serial (managed by soteria-agent".toList ++
              [')'])) := by
      simp only [List.mem_append, not_or]
      refine ⟨by decide, fun hMem => ?_, by decide⟩
      exact absurd (mem_ofInt _ hMem).1 (by decide)
    have hBlank : '\n' ≠ ' ' := by decide
    have hLine :=
      parseLines_single
        (List.not_mem_cons_of_ne_of_not_mem hBlank hSerial)
    rw [parseRecord_blank hSerial] at hLine
    have hLead :
        parseLines
          (headerLead z ++ ("SOA   (".toList ++
            (serialText z.serial ++ [')']))) = [] := by
      apply parseLines_lead
      unfold serialText
      rw [hBlanks, ← List.append_assoc]
      simp only [List.append_assoc, List.cons_append]
      rw [← List.append_assoc, parseLines_append, hName, hLine]
      rfl
    have hText :
        headerLead z ++ "SOA   (".toList ++
            (serialText z.serial ++ [')'] ++ (headerTail ++
              soaRe.replaceAll (fun _ => "SOA") rest)) =
          (headerLead z ++ ("SOA   (".toList ++
            (serialText z.serial ++ [')']))) ++ (headerTail ++
              soaRe.replaceAll (fun _ => "SOA") rest) := by
      simp only [List.append_assoc]
    rw [replaced_emptyHeader hNS hAdmin, hText,
      parseLines_headerTail, hLead, List.nil_append]

end Dns

end Soteria

------------------------------------------------------------
-- Records That Are Stored
------------------------------------------------------------

namespace Soteria

namespace Dns

namespace BindProvider

open Regex Regex.Pattern

variable {b : BindProvider}
variable {e : Surroundings}
variable {disk disk' : Disk}
variable {name path old : Text}
variable {records : List Record}

/-
  The zone stays registered to its file when this is written:
  neither it nor its temporary file is `named.conf.local`, or
  it is and what is written registers the zone there again.
-/
def StaysRegistered
    (b : BindProvider)
    (name path content : Text) : Prop :=
  (Path.clean path ≠ Path.clean b.namedLocal ∧
      Path.clean (tmpOf path) ≠ Path.clean b.namedLocal) ∨
    (Path.clean path = Path.clean b.namedLocal ∧
      ∃ bindFile,
        fileOf (zoneEntries content) name = some bindFile ∧
          b.agentPath bindFile = path)

theorem registered_written_iff
    {content : Text}
    (hRegistered : Registered b disk name path old) :
    Registered b
        ((disk.remove (tmpOf path)).write path content) name path
        content ↔
      StaysRegistered b name path content := by
  by_cases hSame : Path.clean path = Path.clean b.namedLocal
  · have hConf :
        ((disk.remove (tmpOf path)).write path content).read
          b.namedLocal = some content := by
      rw [Disk.read_congr _ hSame.symm, Disk.read_write]
    constructor
    · intro hAgain
      rcases hAgain.registered with
        ⟨conf, bindFile, hRead, hFile, hPath⟩
      rw [hConf] at hRead
      cases hRead
      exact Or.inr ⟨hSame, bindFile, hFile, hPath⟩
    · rintro (hOther | ⟨-, bindFile, hFile, hPath⟩)
      · exact absurd hSame hOther.1
      · exact ⟨⟨content, bindFile, hConf, hFile, hPath⟩,
          Disk.read_write _ _ _⟩
  · by_cases hTmp :
        Path.clean (tmpOf path) = Path.clean b.namedLocal
    · have hConf :
          ((disk.remove (tmpOf path)).write path content).read
            b.namedLocal = none := by
        rw [Disk.read_write_of_ne _ _ (Ne.symm hSame),
          Disk.read_congr _ hTmp.symm, Disk.read_remove]
      constructor
      · intro hAgain
        rcases hAgain.registered with
          ⟨conf, bindFile, hRead, -⟩
        rw [hConf] at hRead
        cases hRead
      · rintro (hOther | hOther)
        · exact absurd hTmp hOther.2
        · exact absurd hOther.1 hSame
    · have hConf :
          ((disk.remove (tmpOf path)).write path content).read
            b.namedLocal = disk.read b.namedLocal := by
        rw [Disk.read_write_of_ne _ _ (Ne.symm hSame),
          Disk.read_remove_of_ne _ (Ne.symm hTmp)]
      constructor
      · exact fun _ => Or.inl ⟨hSame, hTmp⟩
      · intro _
        rcases hRegistered.registered with
          ⟨conf, bindFile, hRead, hFile, hPath⟩
        rw [← hConf] at hRead
        exact ⟨⟨conf, bindFile, hRead, hFile, hPath⟩,
          Disk.read_write _ _ _⟩

/-
  The records are read back in order from the file of the
  zone, which has one line for each of them behind its header.
-/
def ReadBack
    (b : BindProvider)
    (name path : Text)
    (header : Zone)
    (records : List Record)
    (disk : Disk) : Prop :=
  ∃ z lines,
    Registered b disk name path (renderHeader header ++ lines) ∧
      lines.count '\n' = records.length ∧
        b.readZone (.calm 0) name disk = .ok z ∧
          z.records = records.map Record.stored

/- A registered zone is read if nothing fails. -/
theorem readZone_registered
    {content : Text}
    (hRegistered : Registered b disk name path content) :
    b.readZone (.calm 0) name disk =
      .ok (parseZone name content) := by
  rcases hRegistered.registered with
    ⟨conf, bindFile, hConf, hFile, hPath⟩
  have hContent := hRegistered.content
  rw [← hPath] at hContent
  unfold readZone zoneFiles parseZoneFile readFile
  simp only [Surroundings.calm, hConf, Except.map, hFile,
    hContent]

/-
  A list of records is stored as it was given if and only if
  the zone stays registered to its file, each record can be
  read back from its line, and no text of the lines looks
  like an SOA.
-/
theorem records_stored_iff
    (hRegistered : Registered b disk name path old)
    (hTTL : ∀ r ∈ records, 0 ≤ r.ttl)
    (hOk :
      b.replaceRecords e name records disk = (.ok (), disk')) :
    ReadBack b name path (replaced e name old records) records
        disk' ↔
      StaysRegistered b name path
          (renderZone (replaced e name old records)) ∧
        (∀ r ∈ records, Storable r) ∧
          soaRe.findAll (recordLines records) = [] := by
  rcases replaceRecords_ok hOk with
    ⟨hValid, path', old', hOther, rfl⟩
  rcases registered_unique hOther hRegistered with ⟨rfl, rfl⟩
  have hAccepted : ∀ r ∈ records, Accepted r := fun r hMem =>
    validateRecord_eq_none.mp
      (validateRecords_eq_none.mp hValid r hMem)
  have hFielded : Fielded (replaced e name old' records) :=
    parseZone_fielded name old'
  have hRendered :
      renderZone (replaced e name old' records) =
        renderHeader (replaced e name old' records) ++
          recordLines records := rfl
  have hRecords :
      (parseZone name
        (renderZone (replaced e name old' records))).records =
          parseLines (soaRe.replaceAll (fun _ => "SOA")
            (recordLines records)) := by
    rw [hRendered, parseZone_records,
      parseRecords_header hFielded]
  have hIff := parseLines_replaced_iff hAccepted hTTL
  rw [← hRecords] at hIff
  rw [← registered_written_iff hRegistered]
  constructor
  · rintro ⟨z, lines, hAgain, -, hRead, hSame⟩
    have hContent := hAgain.content
    rw [Disk.read_write] at hContent
    rw [← Option.some.inj hContent] at hAgain
    refine ⟨hAgain, hIff.mp ?_⟩
    rw [readZone_registered hAgain] at hRead
    cases hRead
    exact hSame
  · rintro ⟨hAgain, hAll⟩
    refine ⟨_, recordLines records, hAgain, ?_,
      readZone_registered hAgain, hIff.mpr hAll⟩
    exact count_lines fun r hMem =>
      recordLine_single (hAccepted r hMem) (hAll.1 r hMem).type _

/- A list of one record is stored in a zone that was made. -/
theorem records_stored_new :
    ReadBack strayProvider "new" "/zones/db.new"
      (replaced (Surroundings.calm 2025010100) "new" newZoneFile
        [wwwRecord])
      [wwwRecord] (labDiskChanged "new") := by
  have hOk :
      strayProvider.replaceRecords
          (Surroundings.calm 2025010100) "new" [wwwRecord]
          (labDiskWith "new") =
        (.ok (), labDiskChanged "new") :=
    eq_ok_of_isSome _ (by decide +kernel)
  have hStorable : Storable wwwRecord :=
    { type := by decide
      ttl := by decide
      name := by decide
      noComment := by decide
      noDirective := by decide
      value := by decide }
  apply (records_stored_iff newZoneFile_registered (by decide)
    hOk).mpr
  refine ⟨Or.inl ⟨by decide +kernel, by decide +kernel⟩, ?_,
    by decide +kernel⟩
  intro r hMem
  cases List.mem_singleton.mp hMem
  exact hStorable

/- A policy for mail, as it is published in a zone. -/
def dmarcRecord : Record :=
  ⟨"_dmarc", "TXT", 0, "\"v=DMARC1; p=none\""⟩

/- What is left of the disk when it is written. -/
def dmarcDisk : Disk :=
  (strayProvider.replaceRecords (Surroundings.calm 2026010100)
    "new" [dmarcRecord] (labDiskWith "new")).2

/- The value of an accepted record is cut at its semicolon. -/
theorem value_truncated :
    Registered strayProvider (labDiskWith "new") "new"
        "/zones/db.new" newZoneFile ∧
      validateRecords [dmarcRecord] = none ∧
      strayProvider.replaceRecords
          (Surroundings.calm 2026010100) "new" [dmarcRecord]
          (labDiskWith "new") = (.ok (), dmarcDisk) ∧
      (strayProvider.readZone (Surroundings.calm 0) "new"
          dmarcDisk).toOption.map Zone.records =
        some [⟨"_dmarc", "TXT", 0, "\"v=DMARC1"⟩] ∧
      ¬ ReadBack strayProvider "new" "/zones/db.new"
          (replaced (Surroundings.calm 2026010100) "new"
            newZoneFile [dmarcRecord])
          [dmarcRecord] dmarcDisk := by
  have hRead :
      (strayProvider.readZone (Surroundings.calm 0) "new"
          dmarcDisk).toOption.map Zone.records =
        some [⟨"_dmarc", "TXT", 0, "\"v=DMARC1"⟩] := by
    decide +kernel
  refine ⟨newZoneFile_registered, by decide,
    eq_ok_of_isSome _ (by decide +kernel), hRead, ?_⟩
  rintro ⟨z, lines, -, -, hZone, hRecords⟩
  rw [hZone] at hRead
  have hSame := Option.some.inj hRead
  rw [hRecords] at hSame
  exact absurd hSame (by decide)

end BindProvider

end Dns

end Soteria
