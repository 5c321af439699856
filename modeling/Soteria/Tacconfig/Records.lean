import Soteria.Tacconfig.Confined
import Soteria.Tacconfig.Layout

/-
  Files of blocks, one below the other.

  An entry is a block with a remark and assignments. A file
  of entries is parsed to the node of each, and the
  annotation of an entry is found on its lines.

  Key definitions include:
    * `Entry`, `Entry.node`, `Entry.remarks`
    * `Spells`, `Spells.annotated`
    * `LaysAssigns`, `lays_entry`
    * `remarkFor`, `assignUnlessEmpty`, `valueOf`
-/

------------------------------------------------------------
-- Entries of a File
------------------------------------------------------------

namespace Soteria

namespace Tacconfig

/- A block as it is written: a remark and assignments. -/
structure Entry where
  kind : Text
  label : Text
  remark : Text
  assigns : List (Text × Text)

/- Assignments on consecutive lines. -/
def assignNodes : Nat → List (Text × Text) → List Node
| _, [] => []
| line, (name, value) :: rest =>
    .assign name value line line :: assignNodes (line + 1) rest

/- The line of its first assignment, after that of its name. -/
def Entry.first (e : Entry) : Nat :=
  if e.remark = [] then 1 else 2

def Entry.last (e : Entry) (line : Nat) : Nat :=
  line + e.first + e.assigns.length

/- The lines of the block, with the empty one behind it. -/
def Entry.height (e : Entry) : Nat :=
  e.first + e.assigns.length + 2

def Entry.node (e : Entry) (line : Nat) : Node :=
  .block e.kind e.label (assignNodes (line + e.first) e.assigns)
    line (e.last line)

def Entry.remarks (e : Entry) (line : Nat) : List Comment :=
  if e.remark = [] then [] else [⟨e.remark, line + 1⟩]

/- Entries one below the other, with their first lines. -/
def located : Nat → List Entry → List (Nat × Entry)
| _, [] => []
| line, e :: rest => (line, e) :: located (line + e.height) rest

def nodesOf (entries : List (Nat × Entry)) : List Node :=
  entries.map fun p => p.2.node p.1

def remarksOf (entries : List (Nat × Entry)) : List Comment :=
  entries.flatMap fun p => p.2.remarks p.1

/- The text is these entries, one below the other. -/
def Spells (s : Text) (entries : List Entry) : Prop :=
  ∃ height,
    Lays s height (fun line => nodesOf (located line entries))
      (fun line => remarksOf (located line entries))

theorem Spells.nil : Spells [] [] :=
  ⟨0, Lays.nil⟩

theorem Spells.cons
    {a s : Text}
    {e : Entry}
    {entries : List Entry}
    (hEntry :
      Lays a e.height (fun line => [e.node line]) e.remarks)
    (hRest : Spells s entries) :
    Spells (a ++ s) (e :: entries) := by
  rcases hRest with ⟨height, hRest⟩
  exact ⟨_, hEntry.append hRest⟩

theorem Spells.flatMap
    {α : Type}
    {f : α → Text}
    {g : α → Entry}
    {as : List α}
    {s : Text}
    {entries : List Entry}
    (hEach :
      ∀ a ∈ as,
        Lays (f a) (g a).height (fun line => [(g a).node line])
          (g a).remarks)
    (hRest : Spells s entries) :
    Spells (as.flatMap f ++ s) (as.map g ++ entries) := by
  induction as with
  | nil => exact hRest
  | cons a rest ih =>
      have hOthers :=
        ih fun b hb => hEach b (List.mem_cons_of_mem _ hb)
      rw [List.flatMap_cons, List.append_assoc]
      exact Spells.cons (hEach a (List.mem_cons_self ..)) hOthers

/- The text is lines of comments, without nodes. -/
def OnlyRemarks (s : Text) (height : Nat) : Prop :=
  ∃ remarks,
    Lays s height (fun _ => []) remarks ∧
      ∀ line, ∀ c ∈ remarks line, c.line < line + height

theorem OnlyRemarks.append
    {a b : Text}
    {height height' : Nat}
    (hFirst : OnlyRemarks a height)
    (hSecond : OnlyRemarks b height') :
    OnlyRemarks (a ++ b) (height + height') := by
  rcases hFirst with ⟨remarks, hLays, hLines⟩
  rcases hSecond with ⟨remarks', hLays', hLines'⟩
  refine ⟨_, hLays.append hLays', ?_⟩
  intro line c hc
  rcases List.mem_append.mp hc with hc | hc
  · have hLine := hLines line c hc
    omega
  · have hLine := hLines' (line + height) c hc
    omega

theorem onlyRemarks_commentLine
    {s : Text}
    (hLine : '\n' ∉ s)
    (hTrimmed : s.trimSpace = s) :
    OnlyRemarks (commentLine s) 1 := by
  refine ⟨_, Lays.remark indent_nil hLine hTrimmed, ?_⟩
  intro line c hc
  rw [List.mem_singleton.mp hc]
  exact Nat.lt_succ_self line

/- A line with a literal. -/
theorem onlyRemarks_literal
    {s : Text}
    (hLine : '\n' ∉ s)
    (hTrimmed : s.trimSpace = s) :
    OnlyRemarks (commentLine (String.ofList s).toList) 1 := by
  rw [String.toList_ofList]
  exact onlyRemarks_commentLine hLine hTrimmed

/- The banner is lines of comments. -/
theorem onlyRemarks_banner
    {file title : Text}
    (hLine : '\n' ∉ file ++ " - " ++ title)
    (hTrimmed :
      (file ++ " - " ++ title).trimSpace =
        file ++ " - " ++ title) :
    OnlyRemarks (banner file title) 8 := by
  have hRule : OnlyRemarks (commentLine (Text.repeated "=" 77)) 1 :=
    onlyRemarks_commentLine (by decide) (by decide)
  have hName := onlyRemarks_commentLine hLine hTrimmed
  have hCompany :
      OnlyRemarks
        (commentLine "Company:    Pathfinder Insights") 1 :=
    onlyRemarks_literal (by decide) (by decide)
  have hProject :
      OnlyRemarks
        (commentLine
          "Project:    Soteria AAA Infrastructure") 1 :=
    onlyRemarks_literal (by decide) (by decide)
  have hManaged :
      OnlyRemarks
        (commentLine
          "Managed by: soteria-agent - manual edits are overwritten on the next commit")
        1 :=
    onlyRemarks_literal (by decide) (by decide)
  have hBlank : OnlyRemarks "\n" 1 :=
    ⟨_, Lays.blank, fun _ c hc => by cases hc⟩
  exact (((((((hRule.append hName).append hRule).append
    hCompany).append hProject).append hManaged).append
      hRule).append hBlank)

/- A file of entries is parsed to their nodes. -/
theorem Spells.parse
    {head s : Text}
    {height : Nat}
    {entries : List Entry}
    (hHead : OnlyRemarks head height)
    (hSpells : Spells s entries) :
    ∃ lead : List Comment,
      (∀ c ∈ lead, c.line < 1 + height) ∧
        Tacconfig.parse (head ++ s) =
          .ok (nodesOf (located (1 + height) entries),
            lead ++
              remarksOf (located (1 + height) entries)) := by
  rcases hHead with ⟨remarks, hLays, hLines⟩
  rcases hSpells with ⟨height', hEntries⟩
  exact ⟨remarks 1, hLines 1, (hLays.append hEntries).parse⟩

end Tacconfig

end Soteria

------------------------------------------------------------
-- Blocks as Entries
------------------------------------------------------------

namespace Soteria

namespace Tacconfig

/- The text is these assignments, one a line. -/
def LaysAssigns
    (s : Text)
    (assigns : List (Text × Text)) : Prop :=
  Lays s assigns.length (fun line => assignNodes line assigns)
    (fun _ => [])

theorem LaysAssigns.nil : LaysAssigns [] [] :=
  Lays.nil

theorem assignNodes_append
    (line : Nat)
    (assigns more : List (Text × Text)) :
    assignNodes line (assigns ++ more) =
      assignNodes line assigns ++
        assignNodes (line + assigns.length) more := by
  induction assigns generalizing line with
  | nil => rfl
  | cons pair rest ih =>
      have hLine :
          line + 1 + rest.length =
            line + (pair :: rest).length := by
        rw [List.length_cons]
        omega
      rw [List.cons_append, assignNodes, ih, hLine]
      rfl

theorem LaysAssigns.append
    {a b : Text}
    {assigns more : List (Text × Text)}
    (hFirst : LaysAssigns a assigns)
    (hSecond : LaysAssigns b more) :
    LaysAssigns (a ++ b) (assigns ++ more) := by
  have hAll := Lays.append hFirst hSecond
  unfold LaysAssigns
  simp only [assignNodes_append, List.length_append]
  exact hAll

/- The text is read as one value, as it is. -/
def ValueLine (s : Text) : Prop :=
  ∃ toks, Exact s toks ∧ (∀ t ∈ toks, t.isValue = true) ∧
    lineOf toks = s

theorem PlainWord.valueLine
    {s : Text}
    (hWord : PlainWord s) :
    ValueLine s :=
  ⟨_, hWord.exact, by simp [Token.isValue, Token.isText],
    lineOf_single _⟩

theorem Closed.valueLine
    {s : Text}
    (hClosed : Closed s) :
    ValueLine ("\"" ++ s ++ "\"") :=
  ⟨_, hClosed.exact, by simp [Token.isValue, Token.isText],
    lineOf_single _⟩

/- Two values, one behind the other. -/
theorem ValueLine.gap
    {a b : Text}
    (hFirst : ValueLine a)
    (hSecond : ValueLine b)
    (hNonempty : a ≠ [])
    (hMore : b ≠ []) :
    ValueLine (a ++ " " ++ b) := by
  rcases hFirst with ⟨toks, hExact, hToks, hLine⟩
  rcases hSecond with ⟨more, hExact', hMoreToks, hMoreLine⟩
  have hSome : toks ≠ [] := by
    rintro rfl
    exact hNonempty hLine.symm
  have hSome' : more ≠ [] := by
    rintro rfl
    exact hMore hMoreLine.symm
  refine ⟨toks ++ more,
    hExact.gap hExact' indent_blank (by simp), ?_, ?_⟩
  · intro t ht
    rcases List.mem_append.mp ht with ht | ht
    · exact hToks t ht
    · exact hMoreToks t ht
  · rw [lineOf_append hSome hSome', hLine, hMoreLine]

/- An assignment to a name of some words. -/
theorem LaysAssigns.line
    {lead pad value : Text}
    {first : Token}
    {words : List Token}
    (hLead : Exact lead (first :: words))
    (hFirst : first.isText = true)
    (hIf : first.text ≠ "if")
    (hWords : ∀ t ∈ words, t.isText = true)
    (hPad : Indent pad)
    (hNonempty : pad ≠ [])
    (hValue : ValueLine value) :
    LaysAssigns ("    " ++ (lead ++ pad ++ "= " ++ value) ++ "\n")
      [(lineOf (first :: words), value)] := by
  rcases hValue with ⟨toks, hExact, hToks, hLine⟩
  have hAll :=
    Lays.assign indent_four hLead hPad hNonempty hExact hFirst
      hIf hWords hToks
  rw [hLine] at hAll
  exact hAll

/- An assignment to one word. -/
theorem LaysAssigns.word
    {name pad value : Text}
    (hName : PlainWord name)
    (hIf : name ≠ "if")
    (hPad : Indent pad)
    (hNonempty : pad ≠ [])
    (hValue : ValueLine value) :
    LaysAssigns ("    " ++ (name ++ pad ++ "= " ++ value) ++ "\n")
      [(name, value)] := by
  have hAll :=
    LaysAssigns.line hName.exact rfl hIf (by simp) hPad hNonempty
      hValue
  rw [lineOf_single] at hAll
  exact hAll

/- An assignment to two words. -/
theorem LaysAssigns.twoWords
    {name more pad value : Text}
    (hName : PlainWord name)
    (hIf : name ≠ "if")
    (hMore : PlainWord more)
    (hPad : Indent pad)
    (hNonempty : pad ≠ [])
    (hValue : ValueLine value) :
    LaysAssigns
      ("    " ++ (name ++ " " ++ more ++ pad ++ "= " ++ value) ++
        "\n")
      [(name ++ " " ++ more, value)] := by
  have hLead :=
    hName.exact.gap hMore.exact indent_blank (by simp)
  have hAll :=
    LaysAssigns.line hLead rfl hIf (by simp [Token.isText]) hPad
      hNonempty hValue
  simp only [List.append_eq, List.nil_append, lineOf_cons_cons,
    lineOf_single] at hAll
  exact hAll

/- A block with its remark, and the empty line behind it. -/
theorem lays_entry
    {head kind remark body : Text}
    {words : List Token}
    {assigns : List (Text × Text)}
    (hHead : Heading head kind words)
    (hExact : Exact head (⟨.word, kind, 0⟩ :: words))
    (hLine : '\n' ∉ remark)
    (hTrimmed : remark.trimSpace = remark)
    (hBody : LaysAssigns body assigns) :
    Lays
      (head ++ " \x7b\n" ++
        (renderField "    # " remark ++ body) ++ "\x7d\n" ++
          "\n")
      (Entry.height ⟨kind, lineOf words, remark, assigns⟩)
      (fun line =>
        [Entry.node ⟨kind, lineOf words, remark, assigns⟩ line])
      (Entry.remarks ⟨kind, lineOf words, remark, assigns⟩) := by
  by_cases hEmpty : remark = []
  · subst hEmpty
    have hAll :=
      (Lays.block hHead hExact hBody).append Lays.blank
    have hHeight :
        Entry.height ⟨kind, lineOf words, [], assigns⟩ =
          assigns.length + 2 + 1 := by
      simp [Entry.height, Entry.first]
      omega
    rw [hHeight]
    have hNode :
        ∀ line,
          Entry.node ⟨kind, lineOf words, [], assigns⟩ line =
            .block kind (lineOf words)
              (assignNodes (line + 1) assigns) line
              (line + assigns.length + 1) := by
      intro line
      simp [Entry.node, Entry.first, Entry.last]
      omega
    simp only [hNode]
    exact hAll
  · have hLead : ("    # " : Text) = "    " ++ "# " := rfl
    have hRemark := Lays.remark indent_four hLine hTrimmed
    have hInner := hRemark.append hBody
    have hAll :=
      (Lays.block hHead hExact hInner).append Lays.blank
    have hHeight :
        Entry.height ⟨kind, lineOf words, remark, assigns⟩ =
          1 + assigns.length + 2 + 1 := by
      simp [Entry.height, Entry.first, hEmpty]
      omega
    have hNode :
        ∀ line,
          Entry.node ⟨kind, lineOf words, remark, assigns⟩ line =
            .block kind (lineOf words)
              (assignNodes (line + 1 + 1) assigns) line
              (line + (1 + assigns.length) + 1) := by
      intro line
      simp [Entry.node, Entry.first, Entry.last, hEmpty]
      omega
    have hRemarks :
        Entry.remarks ⟨kind, lineOf words, remark, assigns⟩ =
          fun line => [⟨remark, line + 1⟩] := by
      funext line
      simp [Entry.remarks, hEmpty]
    rw [hHeight, hRemarks]
    simp only [hNode]
    unfold renderField
    rw [if_neg hEmpty, hLead]
    simp only [List.append_assoc] at hAll ⊢
    exact hAll

end Tacconfig

end Soteria

------------------------------------------------------------
-- Annotations
------------------------------------------------------------

namespace Soteria

namespace Tacconfig

/- What an entry is annotated with for a key. -/
def Entry.noted (e : Entry) (key : Text) : Text :=
  let lead : Text := "@" ++ key ++ " "
  if e.remark.hasPrefix lead = true then
    (e.remark.trimPrefix lead).trimSpace
  else []

/- The comment is on one of these lines. -/
def Comment.within (first last : Nat) (c : Comment) : Bool :=
  first ≤ c.line && (last == 0 || c.line ≤ last)

theorem le_of_mem_located
    {line l : Nat}
    {e : Entry}
    {entries : List Entry}
    (hMem : (l, e) ∈ located line entries) :
    line ≤ l := by
  induction entries generalizing line with
  | nil => cases hMem
  | cons d rest ih =>
      rcases List.mem_cons.mp hMem with hEq | hMem
      · cases hEq
        exact le_rfl
      · have hLater := ih hMem
        omega

theorem Entry.first_pos (e : Entry) : 1 ≤ e.first := by
  unfold Entry.first
  split <;> omega

theorem Entry.line_of_remark
    {e : Entry}
    {line : Nat}
    {c : Comment}
    (hc : c ∈ e.remarks line) :
    c.line = line + 1 := by
  unfold Entry.remarks at hc
  split at hc
  · cases hc
  · rw [List.mem_singleton.mp hc]

theorem line_of_mem_remarksOf
    {line : Nat}
    {entries : List Entry}
    {c : Comment}
    (hc : c ∈ remarksOf (located line entries)) :
    line < c.line := by
  rcases List.mem_flatMap.mp hc with ⟨⟨l, e⟩, hMem, hRemark⟩
  have hLater := le_of_mem_located hMem
  have hLine := Entry.line_of_remark hRemark
  omega

/- On the lines of an entry there are its remarks only. -/
theorem filter_within
    {lead : List Comment}
    {line l : Nat}
    {e : Entry}
    {entries : List Entry}
    (hLead : ∀ c ∈ lead, c.line < line)
    (hMem : (l, e) ∈ located line entries) :
    (lead ++ remarksOf (located line entries)).filter
        (Comment.within l (e.last l)) =
      e.remarks l := by
  induction entries generalizing line lead with
  | nil => cases hMem
  | cons d rest ih =>
      have hSplit :
          remarksOf (located line (d :: rest)) =
            d.remarks line ++
              remarksOf (located (line + d.height) rest) := rfl
      rcases List.mem_cons.mp hMem with hEq | hLater
      · cases hEq
        have hFront :
            lead.filter (Comment.within l (e.last l)) = [] := by
          rw [List.filter_eq_nil_iff]
          intro c hc hWithin
          have hLine := hLead c hc
          simp only [Comment.within, Bool.and_eq_true,
            decide_eq_true_eq] at hWithin
          omega
        have hOwn :
            (e.remarks l).filter
                (Comment.within l (e.last l)) =
              e.remarks l := by
          rw [List.filter_eq_self]
          intro c hc
          have hLine := Entry.line_of_remark hc
          have hFirst := e.first_pos
          have hLast : c.line ≤ e.last l := by
            unfold Entry.last
            omega
          simp [Comment.within, hLast]
          omega
        have hBehind :
            (remarksOf (located (l + e.height) rest)).filter
                (Comment.within l (e.last l)) =
              [] := by
          rw [List.filter_eq_nil_iff]
          intro c hc hWithin
          have hLine := line_of_mem_remarksOf hc
          have hFirst := e.first_pos
          have hLast :
              e.last l = 0 ∨ c.line ≤ e.last l := by
            simpa [Comment.within] using
              (Bool.and_eq_true_iff.mp hWithin).2
          unfold Entry.last at hLast
          unfold Entry.height at hLine
          omega
        rw [hSplit, List.filter_append, List.filter_append,
          hFront, hOwn, hBehind]
        simp
      · have hFront :
            ∀ c ∈ lead ++ d.remarks line,
              c.line < line + d.height := by
          intro c hc
          rcases List.mem_append.mp hc with hc | hc
          · have hLine := hLead c hc
            omega
          · have hLine := Entry.line_of_remark hc
            unfold Entry.height
            omega
        rw [hSplit, ← List.append_assoc]
        exact ih hFront hLater

/- The annotation of an entry is found on its lines. -/
theorem annotation_located
    {lead : List Comment}
    {line l : Nat}
    {e : Entry}
    {entries : List Entry}
    (hLead : ∀ c ∈ lead, c.line < line)
    (hMem : (l, e) ∈ located line entries)
    (key : Text) :
    annotation (lead ++ remarksOf (located line entries)) l
        (e.last l) key =
      e.noted key := by
  have hOwn := filter_within hLead hMem
  generalize lead ++ remarksOf (located line entries) = comments
    at hOwn
  have hFind :
      comments.find? (fun c =>
          l ≤ c.line &&
            (e.last l == 0 || c.line ≤ e.last l) &&
            c.text.hasPrefix ("@" ++ key ++ " ")) =
        (e.remarks l).find? fun c =>
          c.text.hasPrefix ("@" ++ key ++ " ") := by
    rw [← hOwn, List.find?_filter]
    congr 1
    funext c
    rw [Bool.eq_iff_iff]
    simp [Comment.within]
  unfold annotation Entry.noted
  simp only [hFind]
  unfold Entry.remarks
  by_cases hEmpty : e.remark = []
  · have hNone :
        Text.hasPrefix [] ("@" ++ key ++ " ") = false := rfl
    rw [if_pos hEmpty, List.find?_nil, hEmpty, hNone]
    rfl
  · rw [if_neg hEmpty, List.find?_singleton]
    split
    · rename_i c hSome
      split at hSome
      · rename_i hPrefix
        cases hSome
        rw [if_pos hPrefix]
      · cases hSome
    · rename_i hNone
      split at hNone
      · cases hNone
      · rename_i hPrefix
        rw [if_neg hPrefix]

/- A file of entries: their nodes, with their annotations. -/
theorem Spells.annotated
    {head s : Text}
    {height : Nat}
    {entries : List Entry}
    (hHead : OnlyRemarks head height)
    (hSpells : Spells s entries) :
    ∃ comments,
      Tacconfig.parse (head ++ s) =
          .ok (nodesOf (located (1 + height) entries),
            comments) ∧
        ∀ l e, (l, e) ∈ located (1 + height) entries →
          ∀ key,
            annotation comments l (e.last l) key =
              e.noted key := by
  rcases hSpells.parse hHead with ⟨lead, hLead, hParse⟩
  exact ⟨_, hParse, fun _ _ hMem key =>
    annotation_located hLead hMem key⟩

end Tacconfig

end Soteria

------------------------------------------------------------
-- Fields of an Entry
------------------------------------------------------------

namespace Soteria

namespace Tacconfig

/- The remark of an annotation; an empty one has none. -/
def remarkFor (key text : Text) : Text :=
  if text = [] then [] else "@" ++ key ++ " " ++ text

/- One assignment, unless the value is empty. -/
def assignUnlessEmpty
    (name value : Text) : List (Text × Text) :=
  if value = [] then [] else [(name, value)]

/- One trimmed line. -/
structure TrimmedLine (s : Text) : Prop where
  oneLine : '\n' ∉ s
  trimmed : s.trimSpace = s

/- A trimmed text stays so behind a character. -/
theorem trimSpace_behind
    {text : Text}
    {c : Char}
    (hc : Text.isSpace c = false)
    (lead : Text)
    (hNonempty : text ≠ [])
    (hTrimmed : text.trimSpace = text) :
    Text.trimSpace (c :: lead ++ text) = c :: lead ++ text := by
  have hEnd :
      ∀ (s : Text) (hs : s ≠ []),
        s = (text.dropWhile Text.isSpace).rdropWhile
            Text.isSpace →
          ¬ Text.isSpace (s.getLast hs) = true := by
    rintro s hs rfl
    exact List.rdropWhile_last_not _ _ hs
  have hLast := hEnd text hNonempty hTrimmed.symm
  have hHead :
      (c :: lead ++ text).dropWhile Text.isSpace =
        c :: lead ++ text := by
    rw [List.cons_append,
      List.dropWhile_cons_of_neg (by simp [hc])]
  unfold Text.trimSpace
  rw [hHead, List.rdropWhile_eq_self_iff]
  intro hAll
  rwa [List.getLast_append_of_ne_nil hAll hNonempty]

theorem TrimmedLine.remarkFor
    {text : Text}
    (hText : TrimmedLine text)
    (key : Text)
    (hKey : '\n' ∉ key) :
    TrimmedLine (remarkFor key text) := by
  unfold Tacconfig.remarkFor
  by_cases hEmpty : text = []
  · rw [if_pos hEmpty]
    exact ⟨by simp, rfl⟩
  · rw [if_neg hEmpty]
    refine ⟨?_, ?_⟩
    · intro hMem
      simp only [List.mem_append] at hMem
      rcases hMem with ((hMem | hMem) | hMem) | hMem
      · exact absurd hMem (by decide)
      · exact hKey hMem
      · exact absurd hMem (by decide)
      · exact hText.oneLine hMem
    · have hSpace : Text.isSpace '@' = false := by decide
      exact trimSpace_behind hSpace (key ++ " ") hEmpty
        hText.trimmed

/- The line of an annotation is that of its remark. -/
theorem renderField_remark (key text : Text) :
    renderField ("    # " ++ ("@" ++ key ++ " ")) text =
      renderField "    # " (remarkFor key text) := by
  unfold renderField remarkFor
  by_cases hEmpty : text = []
  · rw [if_pos hEmpty, if_pos hEmpty]
    rfl
  · have hNonempty : ("@" ++ key ++ " " ++ text : Text) ≠ [] := by
      simp
    rw [if_neg hEmpty, if_neg hEmpty, if_neg hNonempty]
    simp only [List.append_assoc]

theorem laysAssigns_unlessEmpty
    {name pad value : Text}
    (hName : PlainWord name)
    (hIf : name ≠ "if")
    (hPad : Indent pad)
    (hNonempty : pad ≠ [])
    (hValue : value = [] ∨ PlainWord value) :
    LaysAssigns (renderField ("    " ++ name ++ pad ++ "= ") value)
      (assignUnlessEmpty name value) := by
  unfold renderField assignUnlessEmpty
  by_cases hEmpty : value = []
  · rw [if_pos hEmpty, if_pos hEmpty]
    exact LaysAssigns.nil
  · rw [if_neg hEmpty, if_neg hEmpty]
    have hAll :=
      LaysAssigns.word hName hIf hPad hNonempty
        (hValue.resolve_left hEmpty).valueLine
    simpa only [List.append_assoc] using hAll

/- The value of the first assignment to a name. -/
def valueOf (key : Text) : List (Text × Text) → Text
| [] => []
| (name, value) :: rest =>
    if name = key then value else valueOf key rest

theorem assignValue_assignNodes
    (key : Text)
    (line : Nat)
    (assigns : List (Text × Text)) :
    assignValue key (assignNodes line assigns) =
      valueOf key assigns := by
  induction assigns generalizing line with
  | nil => rfl
  | cons pair rest ih =>
      rw [assignNodes, assignValue, ih]
      rfl

/- Its remark gives an entry back what it is annotated with. -/
theorem annotation_remarkFor
    {e : Entry}
    {key text : Text}
    (hRemark : e.remark = remarkFor key text)
    (hTrimmed : text.trimSpace = text) :
    e.noted key = text := by
  unfold Entry.noted
  rw [hRemark]
  unfold remarkFor
  by_cases hEmpty : text = []
  · rw [if_pos hEmpty, hEmpty]
    rfl
  · have hPrefix :
        Text.hasPrefix ("@" ++ key ++ " " ++ text)
          ("@" ++ key ++ " ") = true :=
      List.isPrefixOf_iff_prefix.mpr (List.prefix_append _ _)
    have hTrim :
        Text.trimPrefix ("@" ++ key ++ " " ++ text)
          ("@" ++ key ++ " ") = text := by
      unfold Text.trimPrefix
      rw [if_pos hPrefix]
      exact List.drop_left
    rw [if_neg hEmpty, if_pos hPrefix, hTrim, hTrimmed]

/- The key between its quotes. -/
theorem stripQuotes_inQuotes (key : Text) :
    stripQuotes (inQuotes key) = key := by
  have hSpace : Text.isSpace '"' = false := by decide
  have hTrimmed : (inQuotes key).trimSpace = inQuotes key :=
    trimSpace_behind hSpace key (by simp) rfl
  have hPrefix : (inQuotes key).hasPrefix "\"" = true :=
    List.isPrefixOf_iff_prefix.mpr ⟨key ++ "\"", rfl⟩
  have hSuffix : (inQuotes key).hasSuffix "\"" = true :=
    List.isSuffixOf_iff_suffix.mpr ⟨"\"" ++ key, rfl⟩
  have hLength : 2 ≤ (inQuotes key).length := by
    simp [inQuotes]
  have hInner : ((inQuotes key).drop 1).dropLast = key := by
    show (key ++ "\"" : Text).dropLast = key
    exact List.dropLast_concat
  unfold stripQuotes
  simp only [hTrimmed, hPrefix, hSuffix, hInner, hLength,
    decide_true, Bool.and_self, if_true]

theorem valueOf_unlessEmpty
    (name value : Text)
    (more : List (Text × Text))
    (hMore : valueOf name more = []) :
    valueOf name (assignUnlessEmpty name value ++ more) =
      value := by
  unfold assignUnlessEmpty
  by_cases hEmpty : value = []
  · rw [if_pos hEmpty, List.nil_append, hMore, hEmpty]
  · rw [if_neg hEmpty]
    exact if_pos rfl

theorem valueOf_other
    {name key : Text}
    (hOther : name ≠ key)
    (value : Text)
    (more : List (Text × Text)) :
    valueOf key (assignUnlessEmpty name value ++ more) =
      valueOf key more := by
  unfold assignUnlessEmpty
  by_cases hEmpty : value = []
  · rw [if_pos hEmpty]
    rfl
  · rw [if_neg hEmpty]
    exact if_neg hOther

end Tacconfig

end Soteria

------------------------------------------------------------
-- Entries Read Again
------------------------------------------------------------

namespace Soteria

namespace Tacconfig

theorem located_append
    (line : Nat)
    (entries more : List Entry) :
    ∃ line',
      located line (entries ++ more) =
        located line entries ++ located line' more := by
  induction entries generalizing line with
  | nil => exact ⟨line, rfl⟩
  | cons e rest ih =>
      rcases ih (line + e.height) with ⟨line', hLocated⟩
      refine ⟨line', ?_⟩
      rw [List.cons_append, located, hLocated]
      rfl

/- What is read of each entry is read of all of them. -/
theorem map_nodesOf
    {α β : Type}
    {g : α → Entry}
    {f : Node → β}
    {r : α → β}
    {as : List α}
    {line : Nat}
    (hEach :
      ∀ a ∈ as, ∀ l, (l, g a) ∈ located line (as.map g) →
        f ((g a).node l) = r a) :
    (nodesOf (located line (as.map g))).map f = as.map r := by
  induction as generalizing line with
  | nil => rfl
  | cons a rest ih =>
      have hHead :=
        hEach a (List.mem_cons_self ..) line
          (List.mem_cons_self ..)
      have hRest :
          (nodesOf (located (line + (g a).height)
              (rest.map g))).map f =
            rest.map r :=
        ih fun b hb l hl =>
          hEach b (List.mem_cons_of_mem _ hb) l
            (List.mem_cons_of_mem _ hl)
      show f ((g a).node line) ::
        (nodesOf (located (line + (g a).height)
          (rest.map g))).map f = _
      rw [hHead, hRest]
      rfl

theorem filterMap_of_map
    {α β : Type}
    {f : α → Option β}
    {xs : List α}
    {ys : List β}
    (hMap : xs.map f = ys.map some) :
    xs.filterMap f = ys := by
  have hAll := List.filterMap_map (f := f) (g := id) (l := xs)
  rw [Function.id_comp] at hAll
  rw [← hAll, hMap, List.filterMap_map, Function.id_comp]
  exact List.filterMap_some

theorem forall_nodesOf
    {α : Type}
    {g : α → Entry}
    {p : Node → Prop}
    {as : List α}
    (hEach : ∀ a ∈ as, ∀ line, p ((g a).node line))
    (line : Nat) :
    ∀ n ∈ nodesOf (located line (as.map g)), p n := by
  induction as generalizing line with
  | nil =>
      intro n hn
      cases hn
  | cons a rest ih =>
      have hRest :=
        ih (fun b hb => hEach b (List.mem_cons_of_mem _ hb))
          (line + (g a).height)
      intro n hn
      rcases List.mem_cons.mp hn with hEq | hn
      · rw [hEq]
        exact hEach a (List.mem_cons_self ..) line
      · exact hRest n hn

end Tacconfig

end Soteria
