import Mathlib.Data.List.Forall2
import Soteria.Tacconfig.Devices
import Soteria.Tacconfig.Reads

/-
  Texts that are pasted into a line of a config source.

  A text that does not end inside a string lexes in front of
  a newline as it does on its own. A value is confined to its
  line if all its tokens are value tokens on that line; a
  remark in a comment is confined to it if what follows its
  first newline has no tokens.

  Key definitions include:
    * `endsOpen`, `lexAt_newline`
    * `ValueField`, `RemarkField`
    * `Pasted`, `Hidden`, `Labels`
    * `Reads.assignTo`, `Reads.remark`, `Reads.blockText`
-/

------------------------------------------------------------
-- Lexing in Front of a Newline
------------------------------------------------------------

namespace Soteria

namespace Tacconfig

/-
  The rounds of the lexer up to a string without its closing
  quote.
-/
def openFrom : Nat → Text → Bool
| 0, _ => false
| _ + 1, [] => false
| fuel + 1, c :: rest =>
    (c == '"' && (stringBody rest).1 == rest) ||
      openFrom fuel (lexStep 0 c rest).2.2

/- The text ends inside a string. -/
def endsOpen (s : Text) : Bool :=
  openFrom s.length s

/- What a round reads, as read on another line. -/
def Piece.onLine (line : Nat) : Piece → Piece
| .blank => .blank
| .comment c => .comment { c with line := line }
| .token t => .token (t.onLine line)

/- A map of a choice is a choice of what it maps to. -/
theorem map_ite
    {α β : Type}
    (g : α → β)
    {p p' : Prop}
    [Decidable p]
    [Decidable p']
    {a b : α}
    {a' b' : β}
    (hSame : p' ↔ p)
    (hThen : p → a' = g a)
    (hElse : b' = g b) :
    (if p' then a' else b') = g (if p then a else b) := by
  by_cases hp : p
  · rw [if_pos hp, if_pos (hSame.mpr hp), hThen hp]
  · rw [if_neg hp, if_neg (hSame.not.mpr hp), hElse]

/- A round does the same on every line. -/
theorem lexStep_line
    (line : Nat)
    (c : Char)
    (rest : Text) :
    lexStep line c rest =
      ((lexStep 0 c rest).1.onLine line,
        line + (lexStep 0 c rest).2.1,
        (lexStep 0 c rest).2.2) := by
  let move : Piece × Nat × Text → Piece × Nat × Text :=
    fun r => (r.1.onLine line, line + r.2.1, r.2.2)
  show lexStep line c rest = move (lexStep 0 c rest)
  unfold lexStep
  iterate 11 refine map_ite move Iff.rfl (fun _ => rfl) ?_
  rfl

theorem takeWhile_before
    {p : Char → Bool}
    {c : Char}
    (hc : p c = false)
    (s more : Text) :
    (s ++ c :: more).takeWhile p = s.takeWhile p := by
  induction s with
  | nil => simp [hc]
  | cons d s ih =>
      rw [List.cons_append, List.takeWhile_cons,
        List.takeWhile_cons, ih]

theorem dropWhile_before
    {p : Char → Bool}
    {c : Char}
    (hc : p c = false)
    (s more : Text) :
    (s ++ c :: more).dropWhile p =
      s.dropWhile p ++ c :: more := by
  induction s with
  | nil => simp [hc]
  | cons d s ih =>
      rw [List.cons_append, List.dropWhile_cons,
        List.dropWhile_cons, ih]
      split <;> rfl

/- A string that is closed ends at the same quote. -/
theorem stringBody_before
    {s : Text}
    (hOpen : (stringBody s).1 ≠ s)
    (more : Text) :
    stringBody (s ++ more) =
      ((stringBody s).1, (stringBody s).2 ++ more) := by
  rcases stringBody_cases s with ⟨hClosed, hText⟩ | ⟨hText, _⟩
  · have hMore :=
      congrArg (fun text => stringBody (text ++ more)) hText
    simp only [List.append_assoc, List.cons_append] at hMore
    rw [hMore, hClosed]
  · exact (hOpen hText.symm).elim

/-
  A round in front of a character that ends any token reads
  the same, a comment in front of a newline.
-/
theorem lexStep_before
    {c e : Char}
    {rest : Text}
    (hDelimiter : delimiter e = true)
    (hNotEquals : e ≠ '=')
    (hComment : c = '#' → e = '\n')
    (hOpen : c = '"' → (stringBody rest).1 ≠ rest)
    (line : Nat)
    (more : Text) :
    lexStep line c (rest ++ e :: more) =
      ((lexStep line c rest).1, (lexStep line c rest).2.1,
        (lexStep line c rest).2.2 ++ e :: more) := by
  have hHead :
      ∀ d : Char, e ≠ d →
        ((rest ++ e :: more).head? = some d ↔
          rest.head? = some d) := by
    intro d hd
    cases rest with
    | nil => simpa using hd
    | cons f rest => rfl
  have hTake :
      ∀ d, rest.head? = some d →
        (rest ++ e :: more).take 1 = rest.take 1 ∧
          (rest ++ e :: more).tail =
            rest.tail ++ e :: more := by
    intro d hd
    cases rest with
    | nil => cases hd
    | cons f rest => exact ⟨rfl, rfl⟩
  have hNotTilde : e ≠ '~' := by
    rintro rfl
    cases hDelimiter
  have hEnds : (!delimiter e) = false := by
    rw [hDelimiter]
    rfl
  let extend : Piece × Nat × Text → Piece × Nat × Text :=
    fun r => (r.1, r.2.1, r.2.2 ++ e :: more)
  show _ = extend (lexStep line c rest)
  have hEquals := hHead '=' hNotEquals
  have hTilde := hHead '~' hNotTilde
  unfold lexStep
  refine map_ite extend Iff.rfl (fun _ => rfl) ?_
  refine map_ite extend Iff.rfl (fun _ => rfl) ?_
  refine map_ite extend Iff.rfl (fun hHash => ?_) ?_
  · rw [hComment hHash, takeWhile_before (by simp),
      dropWhile_before (by simp)]
    simp only [extend, hComment hHash]
  refine map_ite extend Iff.rfl (fun hQuote => ?_) ?_
  · rw [stringBody_before (hOpen hQuote)]
  iterate 4 refine map_ite extend Iff.rfl (fun _ => rfl) ?_
  refine map_ite extend (by rw [hEquals, hTilde])
    (fun hOperator => ?_) ?_
  · rcases hOperator.2 with hNext | hNext
    · rw [(hTake _ hNext).1, (hTake _ hNext).2]
    · rw [(hTake _ hNext).1, (hTake _ hNext).2]
  refine map_ite extend Iff.rfl (fun _ => rfl) ?_
  refine map_ite extend (by rw [hEquals]) (fun hBang => ?_) ?_
  · rw [(hTake _ hBang.2).1, (hTake _ hBang.2).2]
  · rw [takeWhile_before hEnds, dropWhile_before hEnds]

/- The token, that many lines further down. -/
def Token.down (lines : Nat) (t : Token) : Token :=
  t.onLine (lines + t.line)

theorem Token.down_down (lines more : Nat) (t : Token) :
    (t.down more).down lines = t.down (lines + more) := by
  simp only [Token.down, Token.onLine, Nat.add_assoc]

/- The token of a round, if it reads one. -/
def Piece.tokens : Piece → List Token
| .token t => [t.onLine 0]
| _ => []

theorem add_onLine_tokens
    (lexed : Lexed)
    (p : Piece)
    (line : Nat) :
    (lexed.add (p.onLine line)).tokens =
      p.tokens.map (Token.down line) ++ lexed.tokens := by
  cases p with
  | blank => rfl
  | comment c => rfl
  | token t => rfl

theorem lexStep_kinds
    (line : Nat)
    (c : Char)
    (rest : Text) :
    ∀ t ∈ (lexStep line c rest).1.tokens, t.kind ≠ .eof := by
  intro t ht
  cases hPiece : (lexStep line c rest).1 with
  | blank => simp [hPiece, Piece.tokens] at ht
  | comment comment => simp [hPiece, Piece.tokens] at ht
  | token u =>
      rw [hPiece, Piece.tokens, List.mem_singleton] at ht
      subst ht
      rcases lexStep_sound hPiece with hToken | ⟨hKind, _⟩
      · exact hToken.kind_ne_eof
      · intro hEof
        have hSame : u.kind = .eof := hEof
        rw [hKind] at hSame
        cases hSame

/-
  The tokens of a text, with their lines counted from its
  first one, and how many newlines it counts. Unless it ends
  inside a string it lexes to the same in front of a newline.
-/
theorem lexAt_parts
    {fuel : Nat}
    {s : Text}
    (hFuel : s.length ≤ fuel) :
    ∃ (toks : List Token) (lines : Nat),
      (∀ t ∈ toks, t.kind ≠ .eof) ∧
        (∀ line,
          (lexAt line s).tokens =
            toks.map (Token.down line) ++
              [⟨.eof, "", line + lines⟩]) ∧
        (openFrom fuel s = false → ∀ line more,
          (lexAt line (s ++ '\n' :: more)).tokens =
            toks.map (Token.down line) ++
              (lexAt (line + lines + 1) more).tokens) ∧
        (openFrom fuel s = true → toks ≠ []) := by
  induction fuel generalizing s with
  | zero =>
      have hNil : s = [] := List.length_eq_zero_iff.mp (by omega)
      subst hNil
      refine ⟨[], 0, by simp, fun line => rfl, ?_, by
        simp [openFrom]⟩
      intro _ line more
      show (lexAt line ('\n' :: more)).tokens = _
      rw [lexAt_cons]
      rfl
  | succ fuel ih =>
      cases s with
      | nil =>
          refine ⟨[], 0, by simp, fun line => rfl, ?_, by
            simp [openFrom]⟩
          intro _ line more
          show (lexAt line ('\n' :: more)).tokens = _
          rw [lexAt_cons]
          rfl
      | cons c rest =>
          have hSuffix := (lexStep_suffix 0 c rest).length_le
          simp only [List.length_cons] at hFuel
          rcases ih (le_trans hSuffix (by omega)) with
            ⟨toks, lines, hKinds, hTokens, hNewline, hOpen⟩
          refine ⟨(lexStep 0 c rest).1.tokens ++
              toks.map (Token.down (lexStep 0 c rest).2.1),
            (lexStep 0 c rest).2.1 + lines, ?_, ?_, ?_, ?_⟩
          · intro t ht
            rcases List.mem_append.mp ht with ht | ht
            · exact lexStep_kinds 0 c rest t ht
            · rcases List.mem_map.mp ht with ⟨u, hu, rfl⟩
              exact hKinds u hu
          · intro line
            rw [lexAt_cons, lexStep_line, add_onLine_tokens,
              hTokens]
            simp [Token.down_down, Function.comp_def,
              Nat.add_assoc]
          · intro hEnds line more
            simp only [openFrom, Bool.or_eq_false_iff,
              Bool.and_eq_false_iff, beq_eq_false_iff_ne]
              at hEnds
            have hClosed :
                c = '"' → (stringBody rest).1 ≠ rest := by
              intro hc
              rcases hEnds.1 with hOther | hBody
              · exact (hOther hc).elim
              · exact hBody
            rw [List.cons_append, lexAt_cons,
              lexStep_before rfl (by decide) (fun _ => rfl)
                hClosed, lexStep_line, add_onLine_tokens,
              hNewline hEnds.2]
            simp [Token.down_down, Function.comp_def,
              Nat.add_assoc]
          · intro hEnds
            simp only [openFrom, Bool.or_eq_true,
              Bool.and_eq_true, beq_iff_eq] at hEnds
            rcases hEnds with ⟨rfl, _⟩ | hEnds
            · exact List.cons_ne_nil _ _
            · simp [hOpen hEnds]

end Tacconfig

end Soteria

------------------------------------------------------------
-- Values and Remarks
------------------------------------------------------------

namespace Soteria

namespace Tacconfig

/-
  The text keeps to the line it is pasted into as a value: it
  closes its strings and has value tokens only, all of them
  on its first line.
-/
structure ValueField (s : Text) : Prop where
  closed : endsOpen s = false
  tokens : ∀ t ∈ (lex s).tokens,
    t.kind = .eof ∨ (t.isValue = true ∧ t.line = 1)

/-
  The text keeps to the comment it is pasted into: what
  follows its first newline has no tokens.
-/
def RemarkField (s : Text) : Prop :=
  ∀ t ∈ (lex (s.dropWhile (· != '\n'))).tokens, t.kind = .eof

instance (s : Text) : Decidable (ValueField s) :=
  decidable_of_iff
    (endsOpen s = false ∧ ∀ t ∈ (lex s).tokens,
      t.kind = .eof ∨ (t.isValue = true ∧ t.line = 1))
    ⟨fun h => ⟨h.1, h.2⟩, fun h => ⟨h.1, h.2⟩⟩

instance (s : Text) : Decidable (RemarkField s) :=
  inferInstanceAs (Decidable (∀ t ∈ _, _))

theorem pasted_of_tokens
    {s : Text}
    {toks : List Token}
    {n : Nat}
    (hTokens : ∀ line more,
      (lexAt line (s ++ '\n' :: more)).tokens =
        toks.map (Token.onLine line) ++
          (lexAt (line + n + 1) more).tokens) :
    Pasted s toks := by
  refine ⟨n, fun line rest => ?_⟩
  have hText :
      (s ++ "\n" : Text) ++ rest = s ++ '\n' :: rest := by
    simp
  have hBlanks := numbered_blanks (line + 1) n []
  rw [List.append_nil] at hBlanks
  rw [hText, hTokens, numbered, hBlanks, numbered,
    List.append_nil, List.length_cons, List.length_replicate]
  rfl

/- Such a value lexes to value tokens on its line. -/
theorem ValueField.pasted
    {s : Text}
    (hField : ValueField s) :
    ∃ toks : List Token,
      Pasted s toks ∧ ∀ t ∈ toks, t.isValue = true := by
  rcases lexAt_parts (le_refl s.length) with
    ⟨toks, lines, hKinds, hTokens, hNewline, _⟩
  have hAll :
      ∀ t ∈ toks, t.isValue = true ∧ t.line = 0 := by
    intro t ht
    have hMem : t.down 1 ∈ (lex s).tokens := by
      show _ ∈ (lexAt 1 s).tokens
      rw [hTokens]
      exact List.mem_append_left _ (List.mem_map_of_mem ht)
    rcases hField.tokens _ hMem with hEof | ⟨hValue, hLine⟩
    · exact (hKinds t ht hEof).elim
    · have hFirst : 1 + t.line = 1 := hLine
      exact ⟨hValue, by omega⟩
  refine ⟨toks, pasted_of_tokens (n := lines) ?_,
    fun t ht => (hAll t ht).1⟩
  intro line more
  rw [hNewline hField.closed]
  congr 1
  refine List.map_congr_left fun t ht => ?_
  rw [Token.down, (hAll t ht).2, Nat.add_zero]

/- A text without tokens is lines without tokens. -/
theorem lexesLines_silent
    {s : Text}
    {line : Nat}
    (hSilent : ∀ t ∈ (lexAt line s).tokens, t.kind = .eof) :
    ∃ n, LexesLines (s ++ "\n") (List.replicate (n + 1) []) := by
  rcases lexAt_parts (le_refl s.length) with
    ⟨toks, lines, hKinds, hTokens, hNewline, hOpen⟩
  have hNil : toks = [] := by
    rw [List.eq_nil_iff_forall_not_mem]
    intro t ht
    refine hKinds t ht (hSilent (t.down line) ?_)
    rw [hTokens]
    exact List.mem_append_left _ (List.mem_map_of_mem ht)
  have hClosed : openFrom s.length s = false := by
    rw [Bool.eq_false_iff]
    exact fun hEnds => hOpen hEnds hNil
  subst hNil
  have hPasted : Pasted s [] :=
    pasted_of_tokens fun line more =>
      hNewline hClosed line more
  rcases hPasted with ⟨n, hLines⟩
  exact ⟨n, hLines⟩

/- Such a remark is lines without tokens, in its comment. -/
theorem RemarkField.lexesLines
    {lead s : Text}
    (hField : RemarkField s)
    (hLead : ∀ c ∈ lead, c ≠ '\n') :
    ∃ n,
      LexesLines ("#" ++ (lead ++ s) ++ "\n")
        (List.replicate (n + 1) []) := by
  have hSplit := List.takeWhile_append_dropWhile
    (p := (· != '\n')) (l := s)
  have hFirst :
      ∀ c ∈ lead ++ s.takeWhile (· != '\n'), c ≠ '\n' := by
    intro c hc
    rcases List.mem_append.mp hc with hc | hc
    · exact hLead c hc
    · simpa using List.mem_takeWhile_imp hc
  have hComment := lexesLines_comment hFirst
  cases hRest : s.dropWhile (· != '\n') with
  | nil =>
      rw [hRest, List.append_nil] at hSplit
      rw [hSplit] at hComment
      exact ⟨0, hComment⟩
  | cons c rest =>
      have hc : c = '\n' := by
        have hHead := List.head?_dropWhile_not (· != '\n') s
        rw [hRest] at hHead
        simpa using hHead
      subst hc
      have hNewline :
          lexStep 1 '\n' rest = (.blank, 2, rest) := rfl
      have hSilent :
          ∀ t ∈ (lexAt 2 rest).tokens, t.kind = .eof := by
        intro t ht
        refine hField t ?_
        rw [hRest]
        show t ∈ (lexAt 1 ('\n' :: rest)).tokens
        rw [lexAt_cons, hNewline]
        exact ht
      rcases lexesLines_silent hSilent with ⟨n, hLines⟩
      have hAll := hComment.append hLines
      refine ⟨n + 1, ?_⟩
      have hText :
          (("#" ++ (lead ++ s.takeWhile (· != '\n')) ++ "\n") ++
              (rest ++ "\n") : Text) =
            "#" ++ (lead ++ s) ++ "\n" := by
        rw [hRest] at hSplit
        conv_rhs => rw [← hSplit]
        simp
      rw [hText] at hAll
      exact hAll

end Tacconfig

end Soteria

------------------------------------------------------------
-- Texts That Yield Nodes
------------------------------------------------------------

namespace Soteria

namespace Tacconfig

/-
  In front of any text that reads as nodes, the text adds one
  node for each of the given things.
-/
def Yields
    {ι : Type}
    (R : ι → Node → Prop)
    (s : Text)
    (xs : List ι) : Prop :=
  ∀ (rest : Text) (P : List Node → Prop),
    Reads rest P →
      Reads (s ++ rest) fun nodes => ∃ ns more,
        nodes = ns ++ more ∧ List.Forall₂ R xs ns ∧ P more

variable {ι : Type}
variable {R : ι → Node → Prop}

theorem Yields.append
    {a b : Text}
    {xs ys : List ι}
    (hFirst : Yields R a xs)
    (hSecond : Yields R b ys) :
    Yields R (a ++ b) (xs ++ ys) := by
  intro rest P hRest
  have hAll := hFirst _ _ (hSecond rest P hRest)
  rw [← List.append_assoc] at hAll
  refine hAll.mono fun nodes hNodes => ?_
  rcases hNodes with
    ⟨ns, _, rfl, hxs, ⟨ms, more, rfl, hys, hMore⟩⟩
  exact ⟨ns ++ ms, more, by rw [List.append_assoc],
    List.rel_append hxs hys, hMore⟩

/- Lines without tokens yield no nodes. -/
theorem Yields.lines
    {s : Text}
    {n : Nat}
    (hLines : LexesLines s (List.replicate n [])) :
    Yields R s [] := by
  intro rest P hRest
  refine (Reads.skipAll hLines hRest).mono fun nodes hNodes => ?_
  exact ⟨[], nodes, rfl, .nil, hNodes⟩

theorem Yields.nil : Yields R [] [] :=
  Yields.lines (n := 0) lexesLines_nil

theorem Yields.blank : Yields R "\n" [] :=
  Yields.lines (n := 1) lexesLines_blank

theorem yields_banner
    (file title : Text)
    (hNames : ∀ c ∈ file ++ " - " ++ title, c ≠ '\n') :
    Yields R (banner file title) [] := by
  intro rest P hRest
  have hAll := banner_skip file title hNames hRest
  refine hAll.mono fun nodes hNodes => ?_
  exact ⟨[], nodes, rfl, .nil, hNodes⟩

theorem Yields.flatMap
    {α : Type}
    {f : α → Text}
    {g : α → ι}
    {as : List α}
    (hEach : ∀ a ∈ as, Yields R (f a) [g a]) :
    Yields R (as.flatMap f) (as.map g) := by
  induction as with
  | nil => exact Yields.nil
  | cons a rest ih =>
      have hRest :=
        ih fun b hb => hEach b (List.mem_cons_of_mem _ hb)
      exact (hEach a (List.mem_cons_self ..)).append hRest

/- What reads as one thing reads as a coarser one. -/
theorem Yields.map
    {κ : Type}
    {S : κ → Node → Prop}
    {f : ι → κ}
    {s : Text}
    {xs : List ι}
    (hYields : Yields R s xs)
    (hEach : ∀ x ∈ xs, ∀ n, R x n → S (f x) n) :
    Yields S s (xs.map f) := by
  intro rest P hRest
  refine (hYields rest P hRest).mono fun nodes hNodes => ?_
  rcases hNodes with ⟨ns, more, hSplit, hxs, hMore⟩
  refine ⟨ns, more, hSplit, ?_, hMore⟩
  clear hSplit hYields
  induction hxs with
  | nil => exact .nil
  | @cons x n xs ns hFirst _ ih =>
      have hRest :
          ∀ y ∈ xs, ∀ n, R y n → S (f y) n :=
        fun y hy => hEach y (List.mem_cons_of_mem _ hy)
      exact .cons
        (hEach x (List.mem_cons_self ..) n hFirst) (ih hRest)

/- A whole file is parsed to its nodes. -/
theorem Yields.parse
    {s : Text}
    {xs : List ι}
    (hYields : Yields R s xs) :
    ∃ nodes comments,
      Tacconfig.parse s = .ok (nodes, comments) ∧
        List.Forall₂ R xs nodes := by
  have hReads := hYields _ _ ReadsNext.nil.reads
  rw [List.append_nil] at hReads
  rcases hReads.parse with ⟨nodes, comments, hParse, hNodes⟩
  rcases hNodes with ⟨ns, _, rfl, hForall, rfl⟩
  rw [List.append_nil] at hParse
  exact ⟨ns, comments, hParse, hForall⟩

end Tacconfig

end Soteria

------------------------------------------------------------
-- Blocks of Assignments
------------------------------------------------------------

namespace Soteria

namespace Tacconfig

variable {ι : Type}
variable {R : ι → Node → Prop}

/- The node assigns the value to the name. -/
def Sets (pair : Text × Text) (n : Node) : Prop :=
  ∃ line, n = .assign pair.1 pair.2 line line

/- A block: its kind, its label and its assignments. -/
structure Block where
  kind : Text
  label : Text
  assigns : List (Text × Text)

/- The node is that block and holds nothing else. -/
def Block.Is (b : Block) (n : Node) : Prop :=
  ∃ children startLine endLine,
    n = .block b.kind b.label children startLine endLine ∧
      List.Forall₂ Sets b.assigns children

/- The node assigns something to the attribute. -/
def Assigns (attr : Text) (n : Node) : Prop :=
  ∃ value line, n = .assign attr value line line

/- A block: its kind, its label and what it assigns to. -/
structure BlockShape where
  kind : Text
  label : Text
  attrs : List Text

/- The node is that block and holds nothing else. -/
def BlockShape.Shows (shape : BlockShape) (n : Node) : Prop :=
  ∃ children startLine endLine,
    n =
      .block shape.kind shape.label children startLine
        endLine ∧
      List.Forall₂ Assigns shape.attrs children

/- The block without the values. -/
def Block.shape (b : Block) : BlockShape where
  kind := b.kind
  label := b.label
  attrs := b.assigns.map Prod.fst

theorem Sets.assigns
    {pair : Text × Text}
    {n : Node}
    (hSets : Sets pair n) :
    Assigns pair.1 n := by
  rcases hSets with ⟨line, hNode⟩
  exact ⟨pair.2, line, hNode⟩

theorem Block.Is.shows
    {b : Block}
    {n : Node}
    (hIs : b.Is n) :
    b.shape.Shows n := by
  rcases hIs with
    ⟨children, startLine, endLine, hNode, hAssigns⟩
  refine ⟨children, startLine, endLine, hNode, ?_⟩
  show List.Forall₂ Assigns (b.assigns.map Prod.fst) children
  rw [List.forall₂_map_left_iff]
  exact hAssigns.imp fun pair n => Sets.assigns

/- A comment line with a remark. -/
theorem yields_remark
    {lead s : Text}
    (hRemark : RemarkField s)
    (hLead : ∀ c ∈ lead, c ≠ '\n') :
    Yields R (renderField ("    #" ++ lead) s) [] := by
  unfold renderField
  split
  · exact Yields.nil
  · rcases hRemark.lexesLines hLead with ⟨n, hLines⟩
    have hIndent : Splits "    " [] := indent_four.splits
    have hAll := hIndent.append_lines hLines
    have hText :
        ("    #" ++ lead ++ s ++ "\n" : Text) =
          "    " ++ ("#" ++ (lead ++ s) ++ "\n") := by
      simp
    rw [hText]
    exact Yields.lines (n := n + 1) hAll

/- A line that assigns a value to some words. -/
theorem yields_sets
    {lead value : Text}
    {first : Token}
    {words toks : List Token}
    (hLead :
      Splits lead (first :: words ++ [⟨.equals, "=", 0⟩]))
    (hFirst : first.isText = true)
    (hIf : first.text ≠ "if")
    (hWords : ∀ t ∈ words, t.isText = true)
    (hValue : Pasted value toks)
    (hToks : ∀ t ∈ toks, t.isValue = true) :
    Yields Sets (lead ++ value ++ "\n")
      [(lineOf (first :: words), lineOf toks)] := by
  intro rest P hRest
  have hAll :=
    Reads.assignTo hLead hFirst hIf hWords hValue hToks hRest
  refine hAll.mono fun nodes hNodes => ?_
  rcases hNodes with ⟨more, line, rfl, hMore⟩
  exact ⟨[_], more, rfl, .cons ⟨line, rfl⟩ .nil, hMore⟩

/- A block on lines of its own. -/
theorem Yields.block
    {κ : Type}
    {S : κ → Node → Prop}
    {head kind body : Text}
    {words : List Token}
    {xs : List ι}
    {y : κ}
    (hHead : Heading head kind words)
    (hBody : Yields R body xs)
    (hNode :
      ∀ children startLine endLine,
        List.Forall₂ R xs children →
          S y
            (.block kind (lineOf words) children startLine
              endLine)) :
    Yields S (head ++ " \x7b\n" ++ body ++ "\x7d\n") [y] := by
  intro rest P hRest
  have hInner := hBody _ _ ReadsNext.nil.reads
  rw [List.append_nil] at hInner
  have hAll :=
    (ReadsNext.block indent_nil hHead hInner hRest).reads
  have hOpen : (" \x7b\n" : Text) = " \x7b" ++ "\n" := rfl
  have hClose : ("\x7d\n" : Text) = "\x7d" ++ "\n" := rfl
  rw [hOpen, hClose]
  simp only [List.append_assoc, List.nil_append] at hAll ⊢
  refine hAll.mono fun nodes hNodes => ?_
  rcases hNodes with
    ⟨children, more, first, last, rfl,
      ⟨cs, none, rfl, hChildren, rfl⟩, hMore⟩
  rw [List.append_nil]
  exact ⟨[_], more, rfl,
    .cons (hNode cs first last hChildren) .nil, hMore⟩

theorem yields_block
    {head kind body : Text}
    {words : List Token}
    {attrs : List Text}
    (hHead : Heading head kind words)
    (hBody : Yields Assigns body attrs) :
    Yields BlockShape.Shows
      (head ++ " \x7b\n" ++ body ++ "\x7d\n")
      [⟨kind, lineOf words, attrs⟩] :=
  hBody.block hHead fun children startLine endLine hAll =>
    ⟨children, startLine, endLine, rfl, hAll⟩

/- The same with the values. -/
theorem yields_setBlock
    {head kind body : Text}
    {words : List Token}
    {assigns : List (Text × Text)}
    (hHead : Heading head kind words)
    (hBody : Yields Sets body assigns) :
    Yields Block.Is
      (head ++ " \x7b\n" ++ body ++ "\x7d\n")
      [⟨kind, lineOf words, assigns⟩] :=
  hBody.block hHead fun children startLine endLine hAll =>
    ⟨children, startLine, endLine, rfl, hAll⟩

/- A block that opens and closes on one line. -/
theorem yields_emptyBlock
    {head kind pad : Text}
    {words : List Token}
    (hHead : Heading head kind words)
    (hPad : Indent pad) :
    Yields BlockShape.Shows (head ++ pad ++ " \x7b \x7d\n")
      [⟨kind, lineOf words, []⟩] := by
  have hGap : Splits (pad ++ " ") [] :=
    hPad.splits.append splits_blank
  have hStops : Stops (pad ++ " ") := by
    intro c hc
    have hBlank : c = ' ' := by
      cases pad with
      | nil => exact (Option.some.inj hc).symm
      | cons d pad =>
          have hd := hPad d (List.mem_cons_self ..)
          have hEq : d = c := Option.some.inj hc
          rw [← hEq, hd]
    simp [hBlank]
  have hFirst :=
    (hHead.lexes.append_splits hGap (by simp) hStops).append
      ((splits_lbrace 0).append
        (splits_blank.append (splits_rbrace 0)))
  have hText :
      (head ++ pad ++ " \x7b \x7d\n" : Text) =
        ([] : Text) ++ (head ++ (pad ++ " ") ++ "\x7b \x7d") ++
          "\n" := by
    simp
  intro rest P hRest
  rw [hText]
  have hAll :=
    Reads.stmt (R := BlockShape.Shows ⟨kind, lineOf words, []⟩)
      indent_nil hFirst.lexesTo
      (fun line after _ => by
        have hEnd :
            Parses
              (.stmts true (rbraceToken.onLine line :: after) []
                line after) :=
          .rbrace rfl
        have hBlock := parses_block line hHead hEnd
        refine ⟨_, ⟨[], line, line, rfl, .nil⟩, ?_⟩
        simpa [lbraceToken, rbraceToken] using hBlock)
      hRest
  refine hAll.mono fun nodes hNodes => ?_
  rcases hNodes with ⟨n, more, rfl, hNode, hMore⟩
  exact ⟨[n], more, rfl, .cons hNode .nil, hMore⟩

end Tacconfig

end Soteria
