import Soteria.Foundation.Occurrences
import Soteria.Foundation.Words

/-
  `named.conf.local`: the zones that are registered in it,
  and the text without one of them.

  Key definitions include:
    * `zoneBlockRe`, `zoneEntries`, `fileOf`
    * `zoneBlock`, `withoutZone`
-/

------------------------------------------------------------
-- Registered Zones
------------------------------------------------------------

namespace Soteria

namespace Dns

open Regex Regex.Pattern

/- Any character, a newline included. -/
def anyChar (_ : Char) : Bool :=
  true

/- `"([^"]+)"`. -/
def quotedGroup (index : Nat) : List Pattern :=
  [lit "\"", group index (plus (· != '"')), lit "\""]

/-
  `(?s)zone\s+"([^"]+)"\s*\{.*?file\s+"([^"]+)"\s*;.*?\}\s*;`.
-/
def zoneBlockRe : Pattern :=
  all ([lit "zone", plus space] ++ quotedGroup 1 ++
    [many true space, lit "\x7b", many false anyChar,
      lit "file", plus space] ++ quotedGroup 2 ++
    [many true space, lit ";", many false anyChar,
      lit "\x7d", many true space, lit ";"])

/- The zones with their files, in order. -/
def zoneEntries (conf : Text) : List (Text × Text) :=
  (zoneBlockRe.findAll conf).map fun m =>
    (m.group 1, m.group 2)

/- The file of a zone; a later statement replaces one before. -/
def fileOf
    (entries : List (Text × Text))
    (name : Text) : Option Text :=
  entries.reverse.lookup name

end Dns

end Soteria

------------------------------------------------------------
-- Adding and Removing
------------------------------------------------------------

namespace Soteria

namespace Dns

open Regex Regex.Pattern

/- The statement that is appended for a new zone. -/
def zoneBlock (name bindFile : Text) : Text :=
  "\nzone \"" ++ name ++ "\" \x7b\n".toList ++
    "    type master;\n    file \"".toList ++ bindFile ++
    "\";\n\x7d;\n".toList

/- A statement, unless it is one of this zone. -/
def keepBlock (name block : Text) : Text :=
  match zoneBlockRe.find block with
  | some m => if m.group 1 = name then [] else block
  | none => block

/- The text without the statements of a zone. -/
def withoutZone (name conf : Text) : Text :=
  zoneBlockRe.replaceAll (keepBlock name) conf

end Dns

end Soteria

------------------------------------------------------------
-- Single Statements
------------------------------------------------------------

namespace Soteria

namespace Dns

open Regex Regex.Pattern

variable {prev : Option Char}
variable {rest text : Text}
variable {groups : List (Nat × Text)}

theorem takes_quotedGroup
    {index : Nat}
    {more : List Pattern}
    (hTakes :
      (all (quotedGroup index ++ more)).Takes prev rest text
        groups) :
    ∃ name before after later,
      text = '"' :: name ++ '"' :: after ∧
        name ≠ [] ∧ '"' ∉ name ∧
          (all more).Takes before rest after later ∧
            groups = (index, name) :: later := by
  rcases hTakes with
    ⟨_, _, _, _, hOpen, ⟨name, _, _, _, ⟨_, hName, rfl⟩,
      ⟨_, after, _, later, hClose, hMore, rfl, rfl⟩, rfl, rfl⟩,
      rfl, rfl⟩
  rcases takes_lit.mp hOpen with ⟨rfl, rfl⟩
  rcases takes_lit.mp hClose with ⟨rfl, rfl⟩
  rcases takes_plus.mp hName with ⟨hSome, hFree, rfl⟩
  refine ⟨name, _, after, later, rfl, hSome, ?_, hMore, rfl⟩
  intro hMem
  exact absurd (hFree _ hMem) (by decide)

/- A zone statement starts with its name in quotes. -/
theorem takes_zoneBlock
    (hTakes : zoneBlockRe.Takes prev rest text groups) :
    ∃ blanks name after later,
      text = "zone".toList ++ blanks ++ '"' :: name ++
          '"' :: after ∧
        '"' ∉ blanks ∧ '"' ∉ name ∧
          groups = (1, name) :: later := by
  unfold zoneBlockRe at hTakes
  rw [List.append_assoc, List.append_assoc] at hTakes
  rcases hTakes with
    ⟨_, _, _, _, hZone, ⟨blanks, _, _, _, hBlanks, hName, rfl,
      rfl⟩, rfl, rfl⟩
  rcases takes_lit.mp hZone with ⟨rfl, rfl⟩
  rcases takes_plus.mp hBlanks with ⟨-, hSpaces, rfl⟩
  rcases takes_quotedGroup hName with
    ⟨name, _, after, later, rfl, -, hFree, -, rfl⟩
  refine ⟨blanks, name, after, later, ?_, ?_, hFree, rfl⟩
  · simp
  · intro hMem
    exact absurd (hSpaces _ hMem) (by decide)

/- The name in the first quotes is the same in every match. -/
theorem zoneBlock_name_unique
    {prev' : Option Char}
    {rest' text' more more' : Text}
    {groups' : List (Nat × Text)}
    (hTakes : zoneBlockRe.Takes prev rest text groups)
    (hTakes' : zoneBlockRe.Takes prev' rest' text' groups')
    (hSame : text ++ more = text' ++ more') :
    groups.lookup 1 = groups'.lookup 1 := by
  rcases takes_zoneBlock hTakes with
    ⟨blanks, name, after, later, rfl, hBlanks, hName, rfl⟩
  rcases takes_zoneBlock hTakes' with
    ⟨blanks', name', after', later', rfl, hBlanks', hName',
      rfl⟩
  simp only [List.append_assoc, List.cons_append,
    List.append_cancel_left_eq] at hSame
  have hOpened := Text.cut_unique hBlanks hBlanks' hSame
  have hClosed := Text.cut_unique hName hName' hOpened.2
  rw [hClosed.1]
  rfl

theorem zoneBlock_ne_nil
    (hTakes : zoneBlockRe.Takes prev rest text groups) :
    2 ≤ text.length := by
  rcases takes_zoneBlock hTakes with
    ⟨blanks, name, after, later, rfl, -⟩
  simp

/- A statement is dropped if it has the name. -/
theorem keepBlock_eq
    {m : Match}
    (hTakes : zoneBlockRe.Takes prev m.rest m.text m.groups)
    (name : Text) :
    keepBlock name m.text =
      if m.group 1 = name then [] else m.text := by
  have hSome : m.text ≠ [] := by
    intro hNone
    have hLong := zoneBlock_ne_nil hTakes
    rw [hNone] at hLong
    simp at hLong
  rcases find_of_takes (by decide) hSome hTakes with
    ⟨n, hFind, hText, hAgain⟩
  have hName : n.group 1 = m.group 1 := by
    have hSame : n.text ++ n.rest = m.text ++ [] := by
      rw [List.append_nil, ← hText]
    unfold Match.group
    rw [zoneBlock_name_unique hAgain hTakes hSame]
  unfold keepBlock
  rw [hFind]
  simp only [hName]

/- Every text has a cut into statements and other text. -/
theorem exists_zoneCuts (conf : Text) :
    ∃ cuts, Cuts zoneBlockRe none conf cuts := by
  apply exists_cuts
  intro prev input m hFirst hNone
  have hLong := zoneBlock_ne_nil hFirst.takes
  rw [hNone] at hLong
  simp at hLong

theorem mem_of_lookup
    {entries : List (Text × Text)}
    {name file : Text}
    (hFound : entries.lookup name = some file) :
    (name, file) ∈ entries := by
  rcases List.lookup_eq_some_iff.mp hFound with
    ⟨front, back, rfl, -⟩
  simp

/- A registered name is that of a statement. -/
theorem exists_statement
    {conf name file : Text}
    {cuts : List (Char ⊕ Match)}
    (hCuts : Cuts zoneBlockRe none conf cuts)
    (hFile : fileOf (zoneEntries conf) name = some file) :
    ∃ m, .inr m ∈ cuts ∧ m.group 1 = name := by
  unfold fileOf zoneEntries at hFile
  have hMem := mem_of_lookup hFile
  rw [List.mem_reverse, hCuts.findAll] at hMem
  rcases List.mem_map.mp hMem with ⟨m, hFound, hEntry⟩
  rcases List.mem_filterMap.mp hFound with
    ⟨piece, hPiece, hRight⟩
  cases piece with
  | inl c => cases hRight
  | inr n =>
      cases hRight
      exact ⟨m, hPiece, congrArg Prod.fst hEntry⟩

/- Without a registered zone the text is shorter. -/
theorem length_withoutZone
    {conf name file : Text}
    (hFile : fileOf (zoneEntries conf) name = some file) :
    (withoutZone name conf).length + 2 ≤ conf.length := by
  rcases exists_zoneCuts conf with ⟨cuts, hCuts⟩
  rcases exists_statement hCuts hFile with ⟨m, hMem, hName⟩
  have hInput := congrArg List.length hCuts.input_eq
  have hOutput :=
    congrArg List.length (hCuts.replaceAll (keepBlock name))
  rcases List.append_of_mem hMem with ⟨front, back, rfl⟩
  have hKept :
      ∀ pieces : List (Char ⊕ Match),
        (∀ n, .inr n ∈ pieces →
          (keepBlock name n.text).length ≤ n.text.length) →
          (pieces.flatMap (Sum.elim (fun c => [c])
              fun n => keepBlock name n.text)).length ≤
            (pieces.flatMap (Sum.elim (fun c => [c])
              Match.text)).length := by
    intro pieces hPieces
    induction pieces with
    | nil => simp
    | cons piece pieces ih =>
        have hRest :=
          ih fun n hn => hPieces n (List.mem_cons_of_mem _ hn)
        rw [List.flatMap_cons, List.flatMap_cons,
          List.length_append, List.length_append]
        cases piece with
        | inl c => exact Nat.add_le_add_left hRest _
        | inr n =>
            exact Nat.add_le_add
              (hPieces n (List.mem_cons_self ..)) hRest
  have hEach :
      ∀ n, .inr n ∈ front ++ .inr m :: back →
        (keepBlock name n.text).length ≤ n.text.length := by
    intro n hn
    rcases hCuts.takes hn with ⟨before, hTakes⟩
    rw [keepBlock_eq hTakes]
    split
    · exact Nat.zero_le _
    · exact Nat.le_refl _
  rcases hCuts.takes hMem with ⟨before, hTakes⟩
  have hLong := zoneBlock_ne_nil hTakes
  have hDropped : keepBlock name m.text = [] := by
    rw [keepBlock_eq hTakes, if_pos hName]
  have hFront := hKept front fun n hn =>
    hEach n (List.mem_append_left _ hn)
  have hBack := hKept back fun n hn =>
    hEach n (List.mem_append_right _ (List.mem_cons_of_mem _ hn))
  change (withoutZone name conf).length = _ at hOutput
  simp only [List.flatMap_append, List.flatMap_cons,
    List.length_append, Sum.elim_inr, hDropped,
    List.length_nil] at hInput hOutput
  omega

end Dns

end Soteria
