import Soteria.Foundation.Matches
import Soteria.Foundation.Words
import Soteria.Tacconfig.Settings

/-
  The LDAP file as it is read back.

  No value of the file has a double quote, so the quotes of
  the file are those around the values. A variable is read
  from its own line, or from behind an earlier value that
  ends in the start of such a line: then the text up to the
  next quote is read, which is the start of the line behind
  that value.

  Key definitions include:
    * `AssignsKey`, `EndsKey`
    * `mavisEntries`
    * `readEntries`, `mavisValue_render`
    * `shadow`, `ownValue`
-/

------------------------------------------------------------
-- The Start of a Line
------------------------------------------------------------

namespace Soteria

namespace Tacconfig

open Regex (Pattern startsLine)

/- `setenv KEY =`, with any white space. -/
def setenvStart (key : Text) : Pattern :=
  .all [blanks, .lit "setenv", .plus Regex.space, .lit key,
    equals]

/- White space only. -/
def Blank (s : Text) : Prop :=
  ∀ c ∈ s, Regex.space c = true

/- The text is the start of a line that assigns the variable. -/
def AssignsKey (key y : Text) : Prop :=
  ∃ a b c d,
    Blank a ∧ Blank b ∧ b ≠ [] ∧ Blank c ∧ Blank d ∧
      y = a ++ ("setenv" ++ (b ++ (key ++ (c ++ ("=" ++ d)))))

/- The text ends in the start of such a line. -/
def EndsKey (key : Text) (prev : Option Char) (s : Text) :
    Prop :=
  ∃ x y,
    s = x ++ y ∧ startsLine (x.getLast?.or prev) ∧
      AssignsKey key y

/- A key of the file. -/
structure SetenvKey (key : Text) : Prop where
  nonempty : key ≠ []
  plain : ∀ c ∈ key, Regex.space c = false ∧ c ≠ '=' ∧ c ≠ '"'

theorem takes_equals
    {prev : Option Char}
    {rest text : Text}
    {groups : List (Nat × Text)} :
    equals.Takes prev rest text groups ↔
      ∃ c d, Blank c ∧ Blank d ∧ text = c ++ ("=" ++ d) ∧
        groups = [] := by
  constructor
  · rintro ⟨c, _, _, _, ⟨hc, rfl⟩,
      ⟨_, _, _, _, hSign, ⟨d, _, _, _, ⟨hd, rfl⟩, ⟨rfl, rfl⟩,
        rfl, rfl⟩, rfl, rfl⟩, rfl, rfl⟩
    rcases Pattern.takes_lit.mp hSign with ⟨rfl, rfl⟩
    exact ⟨c, d, hc, hd, by simp, rfl⟩
  · rintro ⟨c, d, hc, hd, rfl, rfl⟩
    refine ⟨c, "=" ++ d, [], [], ⟨hc, rfl⟩, ?_, rfl, rfl⟩
    refine ⟨"=", d, [], [], Pattern.takes_lit.mpr ⟨rfl, rfl⟩,
      ?_, rfl, rfl⟩
    exact ⟨d, [], [], [], ⟨hd, rfl⟩, ⟨rfl, rfl⟩, by simp, rfl⟩

theorem takes_setenvStart
    {key : Text}
    {prev : Option Char}
    {rest text : Text}
    {groups : List (Nat × Text)} :
    (setenvStart key).Takes prev rest text groups ↔
      AssignsKey key text ∧ groups = [] := by
  constructor
  · rintro ⟨a, _, _, _, ⟨ha, rfl⟩,
      ⟨_, _, _, _, hSetenv, ⟨b, _, _, _, hb, ⟨_, _, _, _, hKey,
        ⟨_, _, _, _, hEquals, ⟨rfl, rfl⟩, rfl, rfl⟩, rfl, rfl⟩,
        rfl, rfl⟩, rfl, rfl⟩, rfl, rfl⟩
    rcases Pattern.takes_lit.mp hSetenv with ⟨rfl, rfl⟩
    rcases Pattern.takes_plus.mp hb with ⟨hSome, hBlank, rfl⟩
    rcases Pattern.takes_lit.mp hKey with ⟨rfl, rfl⟩
    rcases takes_equals.mp hEquals with ⟨c, d, hc, hd, rfl, rfl⟩
    exact ⟨⟨a, b, c, d, ha, hBlank, hSome, hc, hd, by simp⟩, rfl⟩
  · rintro ⟨⟨a, b, c, d, ha, hBlank, hSome, hc, hd, rfl⟩, rfl⟩
    refine ⟨a, _, [], [], ⟨ha, rfl⟩, ?_, rfl, rfl⟩
    refine ⟨"setenv", _, [], [],
      Pattern.takes_lit.mpr ⟨rfl, rfl⟩, ?_, rfl, rfl⟩
    refine ⟨b, _, [], [],
      Pattern.takes_plus.mpr ⟨hSome, hBlank, rfl⟩, ?_, rfl, rfl⟩
    refine ⟨key, _, [], [], Pattern.takes_lit.mpr ⟨rfl, rfl⟩,
      ?_, rfl, rfl⟩
    exact ⟨_, [], [], [],
      takes_equals.mpr ⟨c, d, hc, hd, rfl, rfl⟩, ⟨rfl, rfl⟩,
      by simp, rfl⟩

/- A match is the start of a line and a value in quotes. -/
theorem takes_mavisSetenv
    {key : Text}
    {prev : Option Char}
    {rest text : Text}
    {groups : List (Nat × Text)} :
    (mavisSetenv key).Takes prev rest text groups ↔
      startsLine prev ∧
        ∃ y v, AssignsKey key y ∧ '"' ∉ v ∧
          text = y ++ '"' :: (v ++ "\"") ∧
            groups = [(1, v)] := by
  constructor
  · -- one part of the pattern after the other
    rintro ⟨_, _, _, _, ⟨hStart, rfl, rfl⟩, hTakes, hText,
      hGroups⟩
    rcases hTakes with ⟨a, _, _, _, ⟨ha, _⟩, hTakes, _, _⟩
    rcases hTakes with ⟨_, _, _, _, hSetenv, hTakes, _, _⟩
    rcases hTakes with ⟨b, _, _, _, hb, hTakes, _, _⟩
    rcases hTakes with ⟨_, _, _, _, hKey, hTakes, _, _⟩
    rcases hTakes with ⟨_, _, _, _, hEquals, hTakes, _, _⟩
    rcases hTakes with ⟨_, _, _, _, hOpen, hTakes, _, _⟩
    rcases hTakes with
      ⟨v, _, _, _, ⟨_, ⟨hv, _⟩, _⟩, hTakes, _, _⟩
    rcases hTakes with ⟨_, _, _, _, hClose, ⟨_, _⟩, _, _⟩
    rcases Pattern.takes_lit.mp hSetenv with ⟨_, _⟩
    rcases Pattern.takes_plus.mp hb with ⟨hSome, hBlank, _⟩
    rcases Pattern.takes_lit.mp hKey with ⟨_, _⟩
    rcases takes_equals.mp hEquals with ⟨c, d, hc, hd, _, _⟩
    rcases Pattern.takes_lit.mp hOpen with ⟨_, _⟩
    rcases Pattern.takes_lit.mp hClose with ⟨_, _⟩
    refine ⟨hStart, _, v,
      ⟨a, b, c, d, ha, hBlank, hSome, hc, hd, rfl⟩, ?_, ?_, ?_⟩
    · intro hMem
      simpa using hv _ hMem
    · simp [*]
    · simp [*]
  · rintro ⟨hStart, y, v,
      ⟨a, b, c, d, ha, hBlank, hSome, hc, hd, rfl⟩, hv, rfl, rfl⟩
    have hValue : ∀ c ∈ v, (c != '"') = true := by
      intro c hc
      rw [bne_iff_ne]
      rintro rfl
      exact hv hc
    refine ⟨[], _, [], _, ⟨hStart, rfl, rfl⟩, ?_, rfl, rfl⟩
    refine ⟨a,
      "setenv" ++ (b ++ (key ++ (c ++ ("=" ++ d) ++
        '"' :: (v ++ "\"")))),
      [], _, ⟨ha, rfl⟩, ?_, by simp, rfl⟩
    refine ⟨"setenv", _, [], _,
      Pattern.takes_lit.mpr ⟨rfl, rfl⟩, ?_, rfl, rfl⟩
    refine ⟨b, _, [], _,
      Pattern.takes_plus.mpr ⟨hSome, hBlank, rfl⟩, ?_, rfl, rfl⟩
    refine ⟨key, _, [], _, Pattern.takes_lit.mpr ⟨rfl, rfl⟩,
      ?_, rfl, rfl⟩
    refine ⟨c ++ ("=" ++ d), _, [], _,
      takes_equals.mpr ⟨c, d, hc, hd, rfl, rfl⟩, ?_, rfl,
      rfl⟩
    refine ⟨"\"", _, [], _, Pattern.takes_lit.mpr ⟨rfl, rfl⟩,
      ?_, rfl, rfl⟩
    refine ⟨v, _, [(1, v)], _, ⟨[], ⟨hValue, rfl⟩, rfl⟩, ?_,
      rfl, rfl⟩
    exact ⟨"\"", [], [], [], Pattern.takes_lit.mpr ⟨rfl, rfl⟩,
      ⟨rfl, rfl⟩, rfl, rfl⟩

end Tacconfig

end Soteria

------------------------------------------------------------
-- Values between Quotes
------------------------------------------------------------

namespace Soteria

namespace Tacconfig

open Regex (Pattern startsLine)

/- The value of the first match from a position on. -/
def valueFrom (key : Text) (prev : Option Char) (s : Text) :
    Option Text :=
  ((mavisSetenv key).findFrom prev s).map fun m => m.group 1

theorem quote_notMem_assigns
    {key y : Text}
    (hKey : SetenvKey key)
    (hAssigns : AssignsKey key y) :
    '"' ∉ y := by
  rcases hAssigns with ⟨a, b, c, d, ha, hb, _, hc, hd, rfl⟩
  have hSpace : Regex.space '"' = false := by decide
  have hBlank : ∀ s, Blank s → '"' ∉ s := by
    intro s hs hMem
    rw [hs _ hMem] at hSpace
    cases hSpace
  have hSetenv : '"' ∉ "setenv".toList := by decide
  have hSign : '"' ∉ "=".toList := by decide
  have hOwn : '"' ∉ key := fun hMem =>
    (hKey.plain _ hMem).2.2 rfl
  simp only [List.mem_append, not_or]
  exact ⟨hBlank a ha, hSetenv, hBlank b hb, hOwn, hBlank c hc,
    hSign, hBlank d hd⟩

theorem not_assigns_nil {key : Text} : ¬AssignsKey key [] := by
  rintro ⟨a, b, c, d, _, _, _, _, _, hNil⟩
  simp at hNil

/- A match in front of a quote takes the text up to it. -/
theorem run_before_quote
    {key y s : Text}
    {prev : Option Char}
    {m : Regex.Match}
    (hKey : SetenvKey key)
    (hQuote : '"' ∉ y)
    (hMem : m ∈ (mavisSetenv key).run prev (y ++ '"' :: s)) :
    startsLine prev ∧ AssignsKey key y ∧
      ∃ v, '"' ∉ v ∧ m.group 1 = v ∧
        s = v ++ '"' :: m.rest := by
  rcases Pattern.mem_run_iff.mp hMem with ⟨hInput, hTakes⟩
  rcases takes_mavisSetenv.mp hTakes with
    ⟨hStart, y', v, hAssigns, hv, hText, hGroups⟩
  have hOwn := quote_notMem_assigns hKey hAssigns
  rw [hText, List.append_assoc, List.cons_append,
    List.append_assoc] at hInput
  rcases Text.cut_unique hQuote hOwn hInput with ⟨rfl, rfl⟩
  refine ⟨hStart, hAssigns, v, hv, ?_, rfl⟩
  unfold Regex.Match.group
  rw [hGroups]
  rfl

/- In front of a quoted value, the start of a line reads it. -/
theorem valueFrom_assigned
    {key y v rest : Text}
    {prev : Option Char}
    (hKey : SetenvKey key)
    (hQuote : '"' ∉ y)
    (hValue : '"' ∉ v)
    (hEnds : EndsKey key prev y) :
    valueFrom key prev (y ++ '"' :: (v ++ '"' :: rest)) =
      some v := by
  induction y generalizing prev with
  | nil =>
      rcases hEnds with ⟨x, y, hNil, _, hAssigns⟩
      rcases List.append_eq_nil_iff.mp hNil.symm with ⟨_, rfl⟩
      exact (not_assigns_nil hAssigns).elim
  | cons c y ih =>
      cases hRun :
          (mavisSetenv key).run prev
            (c :: y ++ '"' :: (v ++ '"' :: rest)) with
      | cons m others =>
          have hMem :
              m ∈ (mavisSetenv key).run prev
                (c :: y ++ '"' :: (v ++ '"' :: rest)) := by
            rw [hRun]
            exact List.mem_cons_self ..
          rcases run_before_quote hKey hQuote hMem with
            ⟨_, _, v', hv', hGroup, hRest⟩
          rcases Text.cut_unique hValue hv' hRest with
            ⟨rfl, _⟩
          have hHead :
              ((mavisSetenv key).run prev
                (c :: y ++ '"' :: (v ++ '"' :: rest))).head? =
                some m := by
            rw [hRun]
            rfl
          unfold valueFrom
          rw [Pattern.findFrom_here hHead]
          exact congrArg some hGroup
      | nil =>
          have hLater : EndsKey key (some c) y := by
            rcases hEnds with ⟨x, z, hSplit, hStart, hAssigns⟩
            cases x with
            | nil =>
                have hHere : z = c :: y := hSplit.symm
                subst hHere
                have hMatch :
                    (⟨c :: y ++ '"' :: (v ++ "\""), rest,
                      [(1, v)]⟩ : Regex.Match) ∈
                      (mavisSetenv key).run prev
                        (c :: y ++ '"' :: (v ++ '"' :: rest)) := by
                  apply Pattern.mem_run_iff.mpr
                  refine ⟨by simp, ?_⟩
                  apply takes_mavisSetenv.mpr
                  exact ⟨hStart, c :: y, v, hAssigns, hValue, rfl,
                    rfl⟩
                rw [hRun] at hMatch
                cases hMatch
            | cons d x =>
                cases hSplit
                refine ⟨x, z, rfl, ?_, hAssigns⟩
                cases x with
                | nil => exact hStart
                | cons e x =>
                    rw [List.getLast?_cons_cons] at hStart
                    rw [List.getLast?_eq_some_getLast
                      (List.cons_ne_nil e x)] at hStart ⊢
                    exact hStart
          rw [List.cons_append] at hRun
          unfold valueFrom
          rw [List.cons_append, Pattern.findFrom_later hRun]
          have hQuoteLater : '"' ∉ y :=
            fun hMem => hQuote (List.mem_cons_of_mem _ hMem)
          exact ih hQuoteLater hLater

/- Where no such line starts, nothing is read up to the quote. -/
theorem valueFrom_skip
    {key y s : Text}
    {prev : Option Char}
    (hKey : SetenvKey key)
    (hQuote : '"' ∉ y)
    (hEnds : ¬EndsKey key prev y) :
    valueFrom key prev (y ++ '"' :: s) =
      valueFrom key (some '"') s := by
  induction y generalizing prev with
  | nil =>
      have hNone :
          (mavisSetenv key).run prev ('"' :: s) = [] := by
        apply List.eq_nil_iff_forall_not_mem.mpr
        intro m hMem
        have hEmpty : '"' ∉ ([] : Text) := List.not_mem_nil
        rcases run_before_quote hKey hEmpty hMem with
          ⟨_, hAssigns, _⟩
        exact not_assigns_nil hAssigns
      unfold valueFrom
      rw [List.nil_append, Pattern.findFrom_later hNone]
  | cons c y ih =>
      have hNone :
          (mavisSetenv key).run prev (c :: (y ++ '"' :: s)) =
            [] := by
        apply List.eq_nil_iff_forall_not_mem.mpr
        intro m hMem
        rcases run_before_quote hKey hQuote hMem with
          ⟨hStart, hAssigns, _⟩
        exact hEnds ⟨[], c :: y, rfl, hStart, hAssigns⟩
      have hLater : ¬EndsKey key (some c) y := by
        rintro ⟨x, z, rfl, hStart, hAssigns⟩
        refine hEnds ⟨c :: x, z, rfl, ?_, hAssigns⟩
        cases x with
        | nil => exact hStart
        | cons e x =>
            rw [List.getLast?_cons_cons]
            rw [List.getLast?_eq_some_getLast
              (List.cons_ne_nil e x)] at hStart ⊢
            exact hStart
      have hQuoteLater : '"' ∉ y :=
        fun hMem => hQuote (List.mem_cons_of_mem _ hMem)
      have hFirst :
          valueFrom key prev (c :: y ++ '"' :: s) =
            valueFrom key (some c) (y ++ '"' :: s) := by
        unfold valueFrom
        rw [List.cons_append, Pattern.findFrom_later hNone]
      rw [hFirst, ih hQuoteLater hLater]

/- There is no value without two quotes. -/
theorem valueFrom_none
    {key s : Text}
    {prev : Option Char}
    (hCount : s.count '"' < 2) :
    valueFrom key prev s = none := by
  have hNone :
      ∀ prev s, s.count '"' < 2 →
        (mavisSetenv key).run prev s = [] := by
    intro prev s hCount
    apply List.eq_nil_iff_forall_not_mem.mpr
    intro m hMem
    rcases Pattern.mem_run_iff.mp hMem with ⟨hInput, hTakes⟩
    rcases takes_mavisSetenv.mp hTakes with
      ⟨_, y, v, _, _, hText, _⟩
    have hTwo : 2 ≤ s.count '"' := by
      have hClose : List.count '"' "\"".toList = 1 := rfl
      rw [hInput, hText, List.count_append, List.count_append,
        List.count_cons_self, List.count_append, hClose]
      omega
    omega
  unfold valueFrom
  induction s generalizing prev with
  | nil =>
      rw [Pattern.findFrom, hNone prev [] hCount]
      rfl
  | cons c s ih =>
      rw [Pattern.findFrom_later (hNone prev (c :: s) hCount)]
      apply ih
      exact lt_of_le_of_lt List.count_le_count_cons hCount

end Tacconfig

end Soteria

------------------------------------------------------------
-- The Lines of the File
------------------------------------------------------------

namespace Soteria

namespace Tacconfig

open Regex (Pattern startsLine)

instance : DecidablePred SetenvKey := fun key =>
  decidable_of_iff
    (key ≠ [] ∧
      ∀ c ∈ key, Regex.space c = false ∧ c ≠ '=' ∧ c ≠ '"')
    ⟨fun h => ⟨h.1, h.2⟩, fun h => ⟨h.nonempty, h.plain⟩⟩

instance : DecidablePred Blank := fun s =>
  Text.decidableForallMem s _

/- The key, in front of the white space. -/
def nameKey (name : Text) : Text :=
  name.takeWhile fun c => !Regex.space c

def namePad (name : Text) : Text :=
  name.dropWhile fun c => !Regex.space c

/- A variable of the file: its name as it is padded. -/
structure SetenvEntry where
  name : Text
  value : Text
  keyPlain : SetenvKey (nameKey name)
  padBlank : Blank (namePad name)

namespace SetenvEntry

def key (e : SetenvEntry) : Text :=
  nameKey e.name

def line (e : SetenvEntry) : Text :=
  setenvLine e.name e.value

/- What is in front of the value on its line. -/
def start (e : SetenvEntry) : Text :=
  "    setenv " ++ e.name ++ "= "

/- The value without its quotes. -/
def stored (e : SetenvEntry) : Text :=
  e.value.replaceChar '"' []

theorem line_eq (e : SetenvEntry) :
    e.line = e.start ++ '"' :: (e.stored ++ "\"\n") := by
  have hOpen : "= \"".toList = "= " ++ ['"'] := rfl
  unfold line setenvLine start stored
  rw [hOpen]
  simp

theorem start_eq (e : SetenvEntry) :
    e.start =
      "    setenv" ++
        ([' '] ++
          (e.key ++ (namePad e.name ++ (['='] ++ [' '])))) := by
  have hSetenv : "    setenv ".toList = "    setenv" ++ [' '] :=
    rfl
  have hSign : "= ".toList = ['='] ++ [' '] := rfl
  have hName : e.key ++ namePad e.name = e.name :=
    List.takeWhile_append_dropWhile
  unfold start
  rw [hSetenv, hSign, ← List.append_assoc e.key, hName]
  simp only [List.append_assoc]

end SetenvEntry

/- The value ends in the start of a line for the key. -/
def endsInKey (key v : Text) : Bool :=
  v.tails.any fun t =>
    t.head? == some '\n' && (setenvStart key).wholly t.tail

/- What is between a value and the next one, if there is one. -/
def startBehind : List SetenvEntry → Text
| [] => []
| next :: _ => "\n" ++ next.start

/-
  What is read for a key: its value, or the start of the line
  behind an earlier value that ends in a line for the key.
-/
def readEntries (key : Text) : List SetenvEntry → Text
| [] => []
| e :: rest =>
    if e.key = key then e.stored
    else if endsInKey key e.stored = true then startBehind rest
    else readEntries key rest

theorem endsInKey_iff {key v : Text} :
    endsInKey key v = true ↔ EndsKey key (some '"') v := by
  unfold endsInKey
  rw [List.any_eq_true]
  constructor
  · rintro ⟨t, ht, hBoth⟩
    rcases Bool.and_eq_true_iff.mp hBoth with ⟨hHead, hWholly⟩
    rcases (List.mem_tails _ _).mp ht with ⟨x, rfl⟩
    rcases Pattern.wholly_iff.mp hWholly with ⟨groups, hTakes⟩
    have hAssigns := (takes_setenvStart.mp hTakes).1
    cases t with
    | nil => cases hHead
    | cons c y =>
        have hLine : c = '\n' := by simpa using hHead
        subst hLine
        refine ⟨x ++ "\n", y, by simp, Or.inr ?_, hAssigns⟩
        simp
  · rintro ⟨x, y, rfl, hStart, hAssigns⟩
    rcases List.eq_nil_or_concat x with rfl | ⟨z, c, rfl⟩
    · rcases hStart with hNone | hLine
      · cases hNone
      · exact absurd hLine (by decide)
    · have hLine : c = '\n' := by
        rcases hStart with hNone | hLine
        · simp at hNone
        · simpa using hLine
      subst hLine
      refine ⟨'\n' :: y, (List.mem_tails _ _).mpr ⟨z, by simp⟩, ?_⟩
      apply Bool.and_eq_true_iff.mpr
      refine ⟨rfl, Pattern.wholly_iff.mpr ⟨[], ?_⟩⟩
      exact takes_setenvStart.mpr ⟨hAssigns, rfl⟩

/- The last word in front of the last `=`. -/
def lastKey (t : Text) : Text :=
  ((((t.reverse.dropWhile Regex.space).drop 1).dropWhile
    Regex.space).takeWhile fun c => !Regex.space c).reverse

theorem lastKey_eq
    {lead key c d : Text}
    {blank : Char}
    (hKey : SetenvKey key)
    (hBlank : Regex.space blank = true)
    (hc : Blank c)
    (hd : Blank d) :
    lastKey (lead ++ blank :: (key ++ (c ++ ("=" ++ d)))) =
      key := by
  have hReverse :
      (lead ++ blank :: (key ++ (c ++ ("=" ++ d)))).reverse =
        d.reverse ++ ('=' :: (c.reverse ++
          (key.reverse ++ blank :: lead.reverse))) := by
    simp
  have hd' : ∀ x ∈ d.reverse, Regex.space x = true :=
    fun x hx => hd x (List.mem_reverse.mp hx)
  have hc' : ∀ x ∈ c.reverse, Regex.space x = true :=
    fun x hx => hc x (List.mem_reverse.mp hx)
  have hPlain :
      ∀ x ∈ key.reverse, (!Regex.space x) = true := by
    intro x hx
    rw [(hKey.plain x (List.mem_reverse.mp hx)).1]
    rfl
  have hSign : Regex.space '=' = false := by decide
  unfold lastKey
  rw [hReverse, List.dropWhile_append_of_pos hd',
    List.dropWhile_cons_of_neg (by simp [hSign]),
    List.drop_one, List.tail_cons,
    List.dropWhile_append_of_pos hc']
  have hSome : key.reverse ≠ [] := by
    simpa using hKey.nonempty
  rcases List.exists_cons_of_ne_nil hSome with ⟨x, xs, hCons⟩
  have hx : Regex.space x = false := by
    have hMem : x ∈ key.reverse := by
      rw [hCons]
      exact List.mem_cons_self ..
    simpa using hPlain x hMem
  have hDrop :
      (key.reverse ++ blank :: lead.reverse).dropWhile
          Regex.space =
        key.reverse ++ blank :: lead.reverse := by
    rw [hCons, List.cons_append,
      List.dropWhile_cons_of_neg (by simp [hx])]
  rw [hDrop, List.takeWhile_append_of_pos hPlain,
    List.takeWhile_cons_of_neg (by simp [hBlank]),
    List.append_nil, List.reverse_reverse]

/- The start of a line is one for its own key only. -/
theorem endsKey_start
    {key gap : Text}
    {prev : Option Char}
    {e : SetenvEntry}
    (hKey : SetenvKey key)
    (hStart : startsLine (gap.getLast?.or prev)) :
    EndsKey key prev (gap ++ e.start) ↔ e.key = key := by
  have hSpace : Regex.space ' ' = true := by decide
  have hEnd : Blank [' '] := by decide
  have hOwn : lastKey (gap ++ e.start) = e.key := by
    rw [e.start_eq, ← List.append_assoc]
    exact lastKey_eq e.keyPlain hSpace e.padBlank hEnd
  constructor
  · rintro ⟨x, y, hSplit, _, a, b, c, d, _, hb, hSome, hc, hd,
      rfl⟩
    rcases List.eq_nil_or_concat b with rfl | ⟨b', blank, rfl⟩
    · exact (hSome rfl).elim
    have hBlank : Regex.space blank = true :=
      hb blank (by simp)
    have hText :
        x ++ (a ++ ("setenv" ++ (b' ++ [blank] ++
            (key ++ (c ++ ("=" ++ d)))))) =
          x ++ a ++ "setenv" ++ b' ++
            blank :: (key ++ (c ++ ("=" ++ d))) := by
      simp
    rw [hSplit, List.concat_eq_append, hText,
      lastKey_eq hKey hBlank hc hd] at hOwn
    exact hOwn.symm
  · rintro rfl
    refine ⟨gap, e.start, rfl, hStart, "    ", [' '],
      namePad e.name, [' '], by decide, hEnd, by decide,
      e.padBlank, hEnd, ?_⟩
    have hSetenv : "    setenv".toList = "    " ++ "setenv" :=
      rfl
    rw [e.start_eq, hSetenv, List.append_assoc]
    rfl

end Tacconfig

end Soteria

------------------------------------------------------------
-- Reading the File
------------------------------------------------------------

namespace Soteria

namespace Tacconfig

open Regex (Pattern startsLine)

theorem quote_notMem_stored (v : Text) :
    '"' ∉ v.replaceChar '"' [] := by
  intro hMem
  rcases List.mem_flatMap.mp hMem with ⟨c, _, hc⟩
  split at hc
  · cases hc
  · rename_i hOther
    exact hOther (List.mem_singleton.mp hc).symm

/- A text without quotes is stored as it is. -/
theorem stored_eq_iff {v : Text} :
    v.replaceChar '"' [] = v ↔ '"' ∉ v := by
  constructor
  · intro hSame
    rw [← hSame]
    exact quote_notMem_stored v
  · intro hQuote
    induction v with
    | nil => rfl
    | cons c v ih =>
        have hFirst : c ≠ '"' := by
          rintro rfl
          exact hQuote (List.mem_cons_self ..)
        have hRest :=
          ih fun h => hQuote (List.mem_cons_of_mem _ h)
        unfold Text.replaceChar at hRest ⊢
        rw [List.flatMap_cons, if_neg hFirst, hRest]
        rfl

theorem SetenvEntry.quote_notMem_start (e : SetenvEntry) :
    '"' ∉ e.start := by
  have hSpace : Regex.space '"' = false := by decide
  have hName : '"' ∉ e.name := by
    intro hMem
    have hSplit : e.key ++ namePad e.name = e.name :=
      List.takeWhile_append_dropWhile
    rw [← hSplit] at hMem
    rcases List.mem_append.mp hMem with hMem | hMem
    · exact (e.keyPlain.plain _ hMem).2.2 rfl
    · rw [e.padBlank _ hMem] at hSpace
      cases hSpace
  have hSetenv : '"' ∉ "    setenv ".toList := by decide
  have hSign : '"' ∉ "= ".toList := by decide
  unfold start
  simp only [List.mem_append, not_or]
  exact ⟨⟨hSetenv, hName⟩, hSign⟩

/- What is read behind a gap and some lines of the file. -/
theorem valueFrom_entries
    {key gap tail : Text}
    {prev : Option Char}
    (hKey : SetenvKey key)
    (entries : List SetenvEntry)
    (hGap : '"' ∉ gap)
    (hStart : startsLine (gap.getLast?.or prev))
    (hTail : '"' ∉ tail) :
    (valueFrom key prev
        (gap ++ (entries.flatMap SetenvEntry.line ++
          tail))).getD [] =
      readEntries key entries := by
  induction entries generalizing gap prev with
  | nil =>
      have hCount :
          (gap ++ (([] : List SetenvEntry).flatMap
            SetenvEntry.line ++ tail)).count '"' < 2 := by
        rw [List.flatMap_nil, List.nil_append,
          List.count_append, List.count_eq_zero.mpr hGap,
          List.count_eq_zero.mpr hTail]
        decide
      rw [valueFrom_none hCount]
      rfl
  | cons e rest ih =>
      have hFront : '"' ∉ gap ++ e.start := by
        rw [List.mem_append, not_or]
        exact ⟨hGap, e.quote_notMem_start⟩
      have hStored : '"' ∉ e.stored :=
        quote_notMem_stored e.value
      have hText :
          gap ++ ((e :: rest).flatMap SetenvEntry.line ++
              tail) =
            (gap ++ e.start) ++ '"' :: (e.stored ++
              '"' :: ("\n" ++ (rest.flatMap
                SetenvEntry.line ++ tail))) := by
        simp [SetenvEntry.line_eq]
      rw [hText, readEntries]
      by_cases hOwn : e.key = key
      · rw [if_pos hOwn, valueFrom_assigned hKey hFront hStored
          ((endsKey_start hKey hStart).mpr hOwn)]
        rfl
      · rw [if_neg hOwn, valueFrom_skip hKey hFront
          fun hEnds => hOwn ((endsKey_start hKey hStart).mp hEnds)]
        have hLine :
            startsLine ("\n".toList.getLast?.or (some '"')) :=
          Or.inr rfl
        by_cases hEnds : endsInKey key e.stored = true
        · rw [if_pos hEnds]
          cases rest with
          | nil =>
              have hCount :
                  (e.stored ++ '"' :: ("\n" ++
                    (([] : List SetenvEntry).flatMap
                      SetenvEntry.line ++ tail))).count '"' <
                    2 := by
                have hNewline : List.count '"' "\n".toList = 0 :=
                  rfl
                rw [List.count_append,
                  List.count_eq_zero.mpr hStored,
                  List.count_cons_self, List.count_append,
                  hNewline, List.flatMap_nil, List.nil_append,
                  List.count_eq_zero.mpr hTail]
                decide
              rw [valueFrom_none hCount]
              rfl
          | cons next rest =>
              have hNext : '"' ∉ "\n" ++ next.start := by
                rw [List.mem_append, not_or]
                exact ⟨by decide, next.quote_notMem_start⟩
              have hBehind :
                  e.stored ++ '"' :: ("\n" ++
                      ((next :: rest).flatMap
                        SetenvEntry.line ++ tail)) =
                    e.stored ++ '"' :: (("\n" ++ next.start) ++
                      '"' :: (next.stored ++ "\"\n" ++
                        (rest.flatMap SetenvEntry.line ++
                          tail))) := by
                simp [SetenvEntry.line_eq]
              rw [hBehind, valueFrom_assigned hKey hStored hNext
                (endsInKey_iff.mp hEnds)]
              rfl
        · rw [if_neg hEnds, valueFrom_skip hKey hStored
            fun h => hEnds (endsInKey_iff.mpr h)]
          have hNewline : '"' ∉ "\n".toList := by decide
          exact ih hNewline hLine

/- The variables of the file, in order. -/
def mavisEntries
    (certs : LdapCerts)
    (s : ServerSettings) : List SetenvEntry :=
  let mode := s.ldapTLSMode.trimSpace.toLower
  [⟨"LDAP_SERVER_TYPE ", s.ldapServerType, by decide,
      by decide⟩,
    ⟨"LDAP_HOSTS       ", mavisHosts s.ldapHosts mode,
      by decide, by decide⟩,
    ⟨"LDAP_USER        ", s.ldapUser, by decide, by decide⟩,
    ⟨"LDAP_PASSWD      ", s.ldapPassword, by decide,
      by decide⟩,
    ⟨"LDAP_BASE        ", s.ldapBase, by decide, by decide⟩,
    ⟨"LDAP_SCOPE       ", "sub", by decide, by decide⟩] ++
  ((if s.ldapFilter = [] then []
    else
      [⟨"LDAP_FILTER      ", s.ldapFilter, by decide,
        by decide⟩]) ++
  ([⟨"LDAP_BASE_GROUP   ", s.ldapBaseGroup, by decide,
      by decide⟩,
    ⟨"LDAP_SCOPE_GROUP  ", "sub", by decide, by decide⟩] ++
  ((if s.ldapFilterGroup = [] then []
    else
      [⟨"LDAP_FILTER_GROUP ", s.ldapFilterGroup, by decide,
        by decide⟩]) ++
  ([⟨"LDAP_CONNECT_TIMEOUT ",
      if s.ldapConnectTimeout = [] then "5"
      else s.ldapConnectTimeout, by decide, by decide⟩] ++
  ((if s.ldapTacMember = [] then []
    else
      [⟨"LDAP_TACMEMBER    ", s.ldapTacMember, by decide,
        by decide⟩]) ++
  ((if mode = "starttls" then
      [⟨"USE_STARTTLS     ", "1", by decide, by decide⟩]
    else []) ++
  (if mode = "ldaps" ∨ mode = "starttls" then
    [⟨"TLS_OPTIONS      ",
      mavisTLSOptions certs s.ldapTLSVerify, by decide,
      by decide⟩]
  else [])))))))

/- What is in front of the variables. -/
def mavisLead : Text :=
  banner "03-mavis.cfg" "MAVIS authentication backend (LDAP)" ++
    "# Authorization cache for performance improvement\n" ++
    "mavis module = tacinfo_cache \x7b\n" ++
    "    directory = /tmp/tacinfo\n" ++
    "\x7d\n\nmavis module = external \x7b\n"

/- What is behind them. -/
def mavisTail : Text :=
  ("\n    exec = /usr/local/lib/mavis/mavis_tacplus-ng_ldap.pl\n" :
      Text) ++
    "\x7d\n\nlogin backend = mavis\nuser backend  = mavis\n" ++
    "pap backend   = mavis\n\ncache timeout       = 86400\n" ++
    "mavis cache timeout = 86400\n"

/- The file is these lines, between two fixed texts. -/
theorem renderMavis_eq
    (certs : LdapCerts)
    (s : ServerSettings) :
    renderMavis certs s =
      mavisLead ++ ((mavisEntries certs s).flatMap
        SetenvEntry.line ++ mavisTail) := by
  have hLines :
      ∀ (c : Prop) [Decidable c] (xs ys : List SetenvEntry),
        (if c then xs else ys).flatMap SetenvEntry.line =
          if c then xs.flatMap SetenvEntry.line
          else ys.flatMap SetenvEntry.line := by
    intro c _ xs ys
    split <;> rfl
  unfold renderMavis mavisEntries setenvOptional
  simp only [List.flatMap_append, hLines, List.flatMap_cons,
    List.flatMap_nil, List.append_nil, SetenvEntry.line]
  unfold mavisLead mavisTail
  simp only [List.append_assoc]

theorem quote_notMem_lead : '"' ∉ mavisLead := by
  unfold mavisLead banner commentLine
  -- decoding the literals would take the kernel seconds
  repeat rw [String.toList_ofList]
  decide +kernel

theorem quote_notMem_tail : '"' ∉ mavisTail := by
  unfold mavisTail
  repeat rw [String.toList_ofList]
  decide +kernel

/- The lead is whole lines. -/
theorem lead_startsLine :
    startsLine (mavisLead.getLast?.or none) := by
  right
  have hEnd :
      ("\x7d\n\nmavis module = external \x7b\n" : Text).getLast? =
        some '\n' := by
    decide
  unfold mavisLead
  rw [List.getLast?_append, hEnd]
  rfl

/- A variable of the file is read from its entries. -/
theorem mavisValue_render
    {key : Text}
    (hKey : SetenvKey key)
    (certs : LdapCerts)
    (s : ServerSettings) :
    mavisValue (renderMavis certs s) key =
      readEntries key (mavisEntries certs s) := by
  rw [renderMavis_eq]
  exact valueFrom_entries hKey (mavisEntries certs s)
    quote_notMem_lead lead_startsLine quote_notMem_tail

end Tacconfig

end Soteria

------------------------------------------------------------
-- A Variable's Own Line
------------------------------------------------------------

namespace Soteria

namespace Tacconfig

/-
  What is read in place of a variable's own value: the start
  of the line behind the first value in front of its line
  that ends in a line for the same variable.
-/
def shadow (key : Text) : List SetenvEntry → Option Text
| [] => none
| e :: rest =>
    if e.key = key then none
    else if endsInKey key e.stored = true then
      some (startBehind rest)
    else shadow key rest

/- The value on the variable's own line, if it has one. -/
def ownValue (key : Text) (entries : List SetenvEntry) : Text :=
  ((entries.find? fun e => e.key == key).map
    SetenvEntry.stored).getD []

theorem readEntries_eq
    (key : Text)
    (entries : List SetenvEntry) :
    readEntries key entries =
      (shadow key entries).getD (ownValue key entries) := by
  induction entries with
  | nil => rfl
  | cons e rest ih =>
      unfold readEntries shadow ownValue
      by_cases hOwn : e.key = key
      · rw [if_pos hOwn, if_pos hOwn,
          List.find?_cons_of_pos (by simpa using hOwn)]
        rfl
      · rw [if_neg hOwn, if_neg hOwn,
          List.find?_cons_of_neg (by simpa using hOwn)]
        by_cases hEnds : endsInKey key e.stored = true
        · rw [if_pos hEnds, if_pos hEnds]
          rfl
        · rw [if_neg hEnds, if_neg hEnds]
          exact ih

/- An entry for another variable is passed over. -/
theorem find?_optional
    {key : Text}
    {c : Prop}
    [Decidable c]
    {xs ys : List SetenvEntry}
    (hFirst : xs.find? (fun e => e.key == key) = none)
    (hSecond : ys.find? (fun e => e.key == key) = none) :
    (if c then xs else ys).find? (fun e => e.key == key) =
      none := by
  split
  · exact hFirst
  · exact hSecond

/- The variable is on a line behind these. -/
theorem ownValue_behind
    {key : Text}
    {xs ys : List SetenvEntry}
    (hOther : xs.find? (fun e => e.key == key) = none) :
    ownValue key (xs ++ ys) = ownValue key ys := by
  unfold ownValue
  rw [List.find?_append, hOther, Option.none_or]

/- No line is for the variable. -/
theorem ownValue_missing
    {key : Text}
    {xs : List SetenvEntry}
    (hOther : xs.find? (fun e => e.key == key) = none) :
    ownValue key xs = [] := by
  unfold ownValue
  rw [hOther]
  rfl

/- Every variable of the file, empty where its line is left out. -/
def mavisSettings
    (certs : LdapCerts)
    (s : ServerSettings) : List (Text × Text) :=
  let mode := s.ldapTLSMode.trimSpace.toLower
  [("LDAP_SERVER_TYPE", s.ldapServerType),
    ("LDAP_HOSTS", mavisHosts s.ldapHosts mode),
    ("LDAP_USER", s.ldapUser),
    ("LDAP_PASSWD", s.ldapPassword),
    ("LDAP_BASE", s.ldapBase),
    ("LDAP_BASE_GROUP", s.ldapBaseGroup),
    ("LDAP_FILTER", s.ldapFilter),
    ("LDAP_FILTER_GROUP", s.ldapFilterGroup),
    ("LDAP_CONNECT_TIMEOUT",
      if s.ldapConnectTimeout = [] then "5"
      else s.ldapConnectTimeout),
    ("LDAP_TACMEMBER", s.ldapTacMember),
    ("USE_STARTTLS", if mode = "starttls" then "1" else []),
    ("TLS_OPTIONS",
      if mode = "ldaps" ∨ mode = "starttls" then
        mavisTLSOptions certs s.ldapTLSVerify
      else [])]

/- On its own line a variable is without its quotes. -/
theorem ownValue_setting
    {certs : LdapCerts}
    {s : ServerSettings}
    {a : Text × Text}
    (ha : a ∈ mavisSettings certs s) :
    ownValue a.1 (mavisEntries certs s) =
      a.2.replaceChar '"' [] := by
  simp only [mavisSettings, List.mem_cons, List.not_mem_nil,
    or_false] at ha
  unfold mavisEntries
  dsimp only
  rcases ha with rfl | rfl | rfl | rfl | rfl | rfl | rfl | rfl |
    rfl | rfl | rfl | rfl
  · rfl
  · rfl
  · rfl
  · rfl
  · rfl
  · rw [ownValue_behind rfl,
      ownValue_behind (find?_optional rfl rfl)]
    rfl
  · rw [ownValue_behind rfl]
    by_cases hFilter : s.ldapFilter = []
    · rw [if_pos hFilter, List.nil_append, ownValue_behind rfl,
        ownValue_behind (find?_optional rfl rfl),
        ownValue_behind rfl,
        ownValue_behind (find?_optional rfl rfl),
        ownValue_behind (find?_optional rfl rfl),
        ownValue_missing (find?_optional rfl rfl), hFilter]
      rfl
    · rw [if_neg hFilter]
      rfl
  · rw [ownValue_behind rfl,
      ownValue_behind (find?_optional rfl rfl),
      ownValue_behind rfl]
    by_cases hFilter : s.ldapFilterGroup = []
    · rw [if_pos hFilter, List.nil_append, ownValue_behind rfl,
        ownValue_behind (find?_optional rfl rfl),
        ownValue_behind (find?_optional rfl rfl),
        ownValue_missing (find?_optional rfl rfl), hFilter]
      rfl
    · rw [if_neg hFilter]
      rfl
  · rw [ownValue_behind rfl,
      ownValue_behind (find?_optional rfl rfl),
      ownValue_behind rfl,
      ownValue_behind (find?_optional rfl rfl)]
    rfl
  · rw [ownValue_behind rfl,
      ownValue_behind (find?_optional rfl rfl),
      ownValue_behind rfl,
      ownValue_behind (find?_optional rfl rfl),
      ownValue_behind rfl]
    by_cases hMember : s.ldapTacMember = []
    · rw [if_pos hMember, List.nil_append,
        ownValue_behind (find?_optional rfl rfl),
        ownValue_missing (find?_optional rfl rfl), hMember]
      rfl
    · rw [if_neg hMember]
      rfl
  · rw [ownValue_behind rfl,
      ownValue_behind (find?_optional rfl rfl),
      ownValue_behind rfl,
      ownValue_behind (find?_optional rfl rfl),
      ownValue_behind rfl,
      ownValue_behind (find?_optional rfl rfl)]
    by_cases hMode :
        s.ldapTLSMode.trimSpace.toLower = "starttls"
    · rw [if_pos hMode, if_pos hMode]
      rfl
    · rw [if_neg hMode, if_neg hMode, List.nil_append,
        ownValue_missing (find?_optional rfl rfl)]
      rfl
  · rw [ownValue_behind rfl,
      ownValue_behind (find?_optional rfl rfl),
      ownValue_behind rfl,
      ownValue_behind (find?_optional rfl rfl),
      ownValue_behind rfl,
      ownValue_behind (find?_optional rfl rfl),
      ownValue_behind (find?_optional rfl rfl)]
    by_cases hMode :
        s.ldapTLSMode.trimSpace.toLower = "ldaps" ∨
          s.ldapTLSMode.trimSpace.toLower = "starttls"
    · rw [if_pos hMode, if_pos hMode]
      rfl
    · rw [if_neg hMode, if_neg hMode]
      rfl

end Tacconfig

end Soteria
