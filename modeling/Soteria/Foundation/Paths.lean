import Soteria.Foundation.Words

/-
  Slash-separated paths with the operations of Go's
  `path/filepath` package, which work on the text of a path
  and never look at a file system.

  Key definitions include:
    * `Path.clean`, `Path.join`, `Path.base`
    * `Path.Plain`, `Path.child`
    * `Path.clean_clean`, `Path.join_plain`
-/

------------------------------------------------------------
-- Cleaning and Joining
------------------------------------------------------------

namespace Path

/-
  The elements of a path that are kept, the last one first,
  after one more; `..` takes an element back.
-/
def keep
    (rooted : Bool)
    (kept : List Text)
    (e : Text) : List Text :=
  if e = [] ∨ e = ['.'] then kept
  else if e = ['.', '.'] then
    match kept with
    | [] => if rooted then [] else [e]
    | last :: before =>
        if last = ['.', '.'] then e :: kept else before
  else e :: kept

/- The elements of the cleaned path. -/
def elements (p : Text) : List Text :=
  ((p.splitOn '/').foldl
    (keep (p.hasPrefix ['/'])) []).reverse

/- A path of these elements. -/
def render (rooted : Bool) (es : List Text) : Text :=
  if rooted then '/' :: Text.join es ['/']
  else if es = [] then ['.']
  else Text.join es ['/']

/- `filepath.Clean`. -/
def clean (p : Text) : Text :=
  render (p.hasPrefix ['/']) (elements p)

/- `filepath.Join` of two elements. -/
def join (p q : Text) : Text :=
  if p ≠ [] then clean (p ++ '/' :: q)
  else if q ≠ [] then clean q
  else []

/- `filepath.Base`. -/
def base (p : Text) : Text :=
  if p = [] then ['.']
  else
    let name := (p.rdropWhile (· == '/')).rtakeWhile (· != '/')
    if name = [] then ['/'] else name

end Path

------------------------------------------------------------
-- Kept Elements
------------------------------------------------------------

namespace Path

/-
  Elements a scan can have kept, the last one first: `..`
  comes before all others, and only in a path that is not
  rooted.
-/
def Kept (rooted : Bool) : List Text → Prop
| [] => True
| e :: before =>
    (e ≠ [] ∧ e ≠ ['.'] ∧ '/' ∉ e) ∧
      (e = ['.', '.'] →
        rooted = false ∧ ∀ d ∈ before, d = ['.', '.']) ∧
        Kept rooted before

variable {rooted : Bool}
variable {kept : List Text}

theorem Kept.of_append
    {later : List Text}
    (hKept : Kept rooted (later ++ kept)) :
    Kept rooted kept := by
  induction later with
  | nil => exact hKept
  | cons e later ih => exact ih hKept.2.2

theorem Kept.plain
    (hKept : Kept rooted kept)
    {e : Text}
    (hMem : e ∈ kept) :
    e ≠ [] ∧ e ≠ ['.'] ∧ '/' ∉ e := by
  induction kept with
  | nil => cases hMem
  | cons d kept ih =>
      rcases List.mem_cons.mp hMem with rfl | hMem
      · exact hKept.1
      · exact ih hKept.2.2 hMem

theorem Kept.keep
    (hKept : Kept rooted kept)
    {e : Text}
    (hSingle : '/' ∉ e) :
    Kept rooted (keep rooted kept e) := by
  unfold Path.keep
  by_cases hSkip : e = [] ∨ e = ['.']
  · rw [if_pos hSkip]
    exact hKept
  · rw [if_neg hSkip]
    have hPlain : e ≠ [] ∧ e ≠ ['.'] ∧ '/' ∉ e :=
      ⟨fun h => hSkip (Or.inl h),
        fun h => hSkip (Or.inr h), hSingle⟩
    by_cases hUp : e = ['.', '.']
    · rw [if_pos hUp]
      cases kept with
      | nil =>
          cases rooted with
          | true => exact trivial
          | false =>
              exact ⟨hPlain, fun _ => ⟨rfl, by simp⟩, trivial⟩
      | cons last before =>
          by_cases hLast : last = ['.', '.']
          · simp only [if_pos hLast]
            rcases hKept.2.1 hLast with ⟨hFree, hAll⟩
            refine ⟨hPlain, fun _ => ⟨hFree, ?_⟩, hKept⟩
            intro d hd
            rcases List.mem_cons.mp hd with rfl | hd
            · exact hLast
            · exact hAll d hd
          · simp only [if_neg hLast]
            exact hKept.2.2
    · rw [if_neg hUp]
      exact ⟨hPlain, fun h => absurd h hUp, hKept⟩

theorem Kept.foldl
    {es : List Text}
    (hKept : Kept rooted kept)
    (hSingle : ∀ e ∈ es, '/' ∉ e) :
    Kept rooted (es.foldl (Path.keep rooted) kept) := by
  induction es generalizing kept with
  | nil => exact hKept
  | cons e es ih =>
      refine ih (hKept.keep ?_) fun d hd => ?_
      · exact hSingle e (List.mem_cons_self ..)
      · exact hSingle d (List.mem_cons_of_mem _ hd)

/- An element that may follow the others is kept. -/
theorem Kept.keep_self
    {e : Text}
    (hKept : Kept rooted (e :: kept)) :
    Path.keep rooted kept e = e :: kept := by
  rcases hKept with ⟨⟨hSome, hHere, _⟩, hUps, _⟩
  have hSkip : ¬ (e = [] ∨ e = ['.']) := by
    rintro (h | h)
    · exact hSome h
    · exact hHere h
  unfold Path.keep
  rw [if_neg hSkip]
  by_cases hUp : e = ['.', '.']
  · rw [if_pos hUp]
    rcases hUps hUp with ⟨hFree, hBefore⟩
    cases kept with
    | nil => simp [hFree]
    | cons last before =>
        simp only [if_pos (hBefore last (List.mem_cons_self ..))]
  · rw [if_neg hUp]

theorem Kept.foldl_self
    {es : List Text}
    (hKept : Kept rooted (es.reverse ++ kept)) :
    es.foldl (Path.keep rooted) kept = es.reverse ++ kept := by
  induction es generalizing kept with
  | nil => rfl
  | cons e es ih =>
      have hAll : Kept rooted (es.reverse ++ e :: kept) := by
        simpa using hKept
      rw [List.foldl_cons, hAll.of_append.keep_self, ih hAll]
      simp

/- The length of a path of these elements, and one more. -/
def size : List Text → Nat
| [] => 0
| e :: es => e.length + 1 + size es

@[simp] theorem size_cons (e : Text) (es : List Text) :
    size (e :: es) = e.length + 1 + size es := rfl

theorem size_append (es fs : List Text) :
    size (es ++ fs) = size es + size fs := by
  induction es with
  | nil => exact (Nat.zero_add _).symm
  | cons e es ih =>
      rw [List.cons_append, size_cons, size_cons, ih]
      omega

theorem size_reverse (es : List Text) :
    size es.reverse = size es := by
  induction es with
  | nil => rfl
  | cons e es ih =>
      rw [List.reverse_cons, size_append, ih, size_cons,
        Nat.add_comm]
      rfl

theorem size_keep
    (rooted : Bool)
    (kept : List Text)
    (e : Text) :
    size (keep rooted kept e) ≤ size kept + (e.length + 1) := by
  unfold keep
  by_cases hSkip : e = [] ∨ e = ['.']
  · rw [if_pos hSkip]
    omega
  · rw [if_neg hSkip]
    by_cases hUp : e = ['.', '.']
    · rw [if_pos hUp]
      cases kept with
      | nil =>
          cases rooted with
          | true => simp [size]
          | false => simp [size]
      | cons last before =>
          by_cases hLast : last = ['.', '.']
          · simp only [if_pos hLast, size_cons]
            omega
          · simp only [if_neg hLast, size_cons]
            omega
    · rw [if_neg hUp, size_cons]
      omega

theorem size_foldl
    (rooted : Bool)
    (kept es : List Text) :
    size (es.foldl (keep rooted) kept) ≤
      size kept + size es := by
  induction es generalizing kept with
  | nil => simp [size]
  | cons e es ih =>
      have hStep := size_keep rooted kept e
      have hRest := ih (keep rooted kept e)
      rw [List.foldl_cons, size_cons]
      omega

end Path

------------------------------------------------------------
-- Cleaned Paths
------------------------------------------------------------

namespace Path

/- No piece of a split text holds the separator. -/
theorem not_mem_of_mem_splitOn
    {s part : Text}
    {c : Char}
    (hMem : part ∈ s.splitOn c) :
    c ∉ part := by
  induction s generalizing part with
  | nil =>
      rw [List.splitOn_nil, List.mem_singleton] at hMem
      subst hMem
      simp
  | cons d s ih =>
      rw [List.splitOn_cons_eq_if_modifyHead] at hMem
      by_cases hSame : d = c
      · rw [if_pos (by simp [hSame])] at hMem
        rcases List.mem_cons.mp hMem with rfl | hMem
        · simp
        · exact ih hMem
      · rw [if_neg (by simp [hSame])] at hMem
        rcases List.exists_cons_of_ne_nil
            (List.splitOn_ne_nil c s) with
          ⟨first, rest, hSplit⟩
        rw [hSplit] at hMem ih
        rcases List.mem_cons.mp hMem with rfl | hMem
        · have hFirst : c ∉ first :=
            ih (List.mem_cons_self ..)
          simp [Ne.symm hSame, hFirst]
        · exact ih (List.mem_cons_of_mem _ hMem)

theorem join_concat
    {es : List Text}
    (hSome : es ≠ [])
    (e : Text) :
    Text.join (es ++ [e]) ['/'] =
      Text.join es ['/'] ++ '/' :: e := by
  unfold Text.join
  induction es with
  | nil => exact absurd rfl hSome
  | cons d es ih =>
      by_cases hLast : es = []
      · subst hLast
        simp [List.intercalate_cons_cons]
      · rw [List.cons_append,
          List.intercalate_cons_of_ne_nil (by simp),
          ih hLast, List.intercalate_cons_of_ne_nil hLast]
        simp

theorem length_join
    {es : List Text}
    (hSome : es ≠ []) :
    (Text.join es ['/']).length + 1 = size es := by
  unfold Text.join
  induction es with
  | nil => exact absurd rfl hSome
  | cons d es ih =>
      by_cases hLast : es = []
      · subst hLast
        simp [size]
      · have hRest := ih hLast
        rw [List.intercalate_cons_of_ne_nil hLast, size_cons]
        simp only [List.length_append, List.length_singleton]
        omega

variable {rooted : Bool}
variable {es : List Text}

theorem kept_elements (p : Text) :
    Kept (p.hasPrefix ['/']) (elements p).reverse := by
  unfold elements
  rw [List.reverse_reverse]
  refine Kept.foldl (show Kept _ [] from trivial)
    fun e hMem => ?_
  exact not_mem_of_mem_splitOn hMem

/- The first character of a path without a root. -/
theorem hasPrefix_render
    (hKept : Kept rooted es.reverse) :
    (render rooted es).hasPrefix ['/'] = rooted := by
  cases rooted with
  | true => simp [render, Text.hasPrefix]
  | false =>
      cases es with
      | nil => rfl
      | cons e es =>
          rcases hKept.plain (e := e) (by simp) with
            ⟨hSome, _, hSingle⟩
          rcases List.exists_cons_of_ne_nil hSome with
            ⟨c, e, rfl⟩
          have hFirst : c ≠ '/' := by
            rintro rfl
            exact hSingle (List.mem_cons_self ..)
          rcases Text.prefix_join (c :: e) es ['/'] with
            ⟨rest, hStart⟩
          rw [render, if_neg (by simp), if_neg (by simp),
            ← hStart]
          have hNot : ('/' == c) = false := by
            simp [Ne.symm hFirst]
          simp [Text.hasPrefix, List.isPrefixOf, hNot]

theorem splitOn_join
    (hKept : Kept rooted es.reverse)
    (hSome : es ≠ []) :
    (Text.join es ['/']).splitOn '/' = es := by
  refine List.splitOn_intercalate '/' (fun e hMem => ?_) hSome
  exact (hKept.plain (List.mem_reverse.mpr hMem)).2.2

/- What is kept is read back from the path. -/
theorem elements_render
    (hKept : Kept rooted es.reverse) :
    elements (render rooted es) = es := by
  have hAgain :
      es.foldl (keep rooted) [] = es.reverse := by
    have hFold :
        es.foldl (keep rooted) [] = es.reverse ++ [] :=
      Kept.foldl_self (by simpa using hKept)
    simpa using hFold
  have hEmpty : keep rooted [] [] = [] := by simp [keep]
  have hHere : keep rooted [] ['.'] = [] := by simp [keep]
  unfold elements
  rw [hasPrefix_render hKept]
  cases rooted with
  | true =>
      simp only [render, if_true]
      rw [List.splitOn_cons_eq_if_modifyHead,
        if_pos (by simp), List.foldl_cons, hEmpty]
      by_cases hNone : es = []
      · subst hNone
        simp [Text.join, hEmpty]
      · rw [splitOn_join hKept hNone, hAgain,
          List.reverse_reverse]
  | false =>
      by_cases hNone : es = []
      · subst hNone
        rw [render, if_neg (by simp), if_pos rfl,
          List.splitOn_eq_singleton (by simp),
          List.foldl_cons, hHere]
        rfl
      · rw [render, if_neg (by simp), if_neg hNone,
          splitOn_join hKept hNone, hAgain,
          List.reverse_reverse]

/- `filepath.Clean` changes nothing the second time. -/
@[simp] theorem clean_clean (p : Text) :
    clean (clean p) = clean p := by
  have hKept := kept_elements p
  show render ((render _ (elements p)).hasPrefix ['/'])
      (elements (render _ (elements p))) = _
  rw [hasPrefix_render hKept, elements_render hKept]
  rfl

theorem clean_ne_nil (p : Text) : clean p ≠ [] := by
  unfold clean render
  split
  · simp
  · split
    · simp
    · rename_i hSome
      intro hNil
      have hLength := length_join hSome
      rw [hNil] at hLength
      rcases List.exists_cons_of_ne_nil hSome with
        ⟨e, es, hList⟩
      have hPlain := (kept_elements p).plain (e := e)
        (by simp [hList])
      have hLong : 0 < e.length :=
        List.length_pos_of_ne_nil hPlain.1
      rw [hList, size_cons] at hLength
      simp only [List.length_nil] at hLength
      omega

/- Cleaning does not make a path longer. -/
theorem length_clean
    {p : Text}
    (hSome : p ≠ []) :
    (clean p).length ≤ p.length := by
  have hZero : size [] = 0 := rfl
  have hText :
      (Text.join (p.splitOn '/') ['/']) = p :=
    List.intercalate_splitOn '/'
  have hSplit := length_join (List.splitOn_ne_nil '/' p)
  rw [hText] at hSplit
  have hReverse :
      size (elements p) =
        size ((p.splitOn '/').foldl
          (keep (p.hasPrefix ['/'])) []) := by
    rw [elements, size_reverse]
  have hPositive : 0 < p.length :=
    List.length_pos_of_ne_nil hSome
  unfold clean render
  by_cases hRooted : p.hasPrefix ['/'] = true
  · rw [if_pos hRooted]
    rcases List.isPrefixOf_iff_prefix.mp hRooted with
      ⟨rest, rfl⟩
    have hEmpty : keep true [] [] = [] := by simp [keep]
    have hSplitOn :
        (['/'] ++ rest).splitOn '/' = [] :: rest.splitOn '/' := by
      rw [List.singleton_append,
        List.splitOn_cons_eq_if_modifyHead, if_pos (by simp)]
    rw [hRooted, hSplitOn, List.foldl_cons, hEmpty] at hReverse
    rw [hSplitOn, size_cons] at hSplit
    have hSize :=
      size_foldl true [] (rest.splitOn '/')
    by_cases hNone : elements (['/'] ++ rest) = []
    · rw [hNone]
      simp [Text.join]
    · have hLength := length_join hNone
      simp only [List.length_append, List.length_cons,
        List.length_nil] at *
      omega
  · rw [if_neg hRooted]
    by_cases hNone : elements p = []
    · rw [if_pos hNone]
      exact hPositive
    · rw [if_neg hNone]
      have hLength := length_join hNone
      have hSize :=
        size_foldl (p.hasPrefix ['/']) []
          (p.splitOn '/')
      omega

end Path

------------------------------------------------------------
-- Children of Directories
------------------------------------------------------------

namespace Path

/- One element of a path, and neither `.` nor `..`. -/
structure Plain (name : Text) : Prop where
  some : name ≠ []
  single : '/' ∉ name
  notHere : name ≠ ['.']
  notUp : name ≠ ['.', '.']

/- A plain element behind the directory with this path. -/
def child (parent name : Text) : Text :=
  if parent = ['.'] then name
  else if parent = ['/'] then '/' :: name
  else parent ++ '/' :: name

variable {rooted : Bool}
variable {es : List Text}
variable {name : Text}

theorem Plain.keep
    (hPlain : Plain name)
    (kept : List Text) :
    Path.keep rooted kept name = name :: kept := by
  have hSkip : ¬ (name = [] ∨ name = ['.']) := by
    rintro (h | h)
    · exact hPlain.some h
    · exact hPlain.notHere h
  unfold Path.keep
  rw [if_neg hSkip, if_neg hPlain.notUp]

theorem join_ne_dots
    (hKept : Kept rooted es.reverse)
    (hSome : es ≠ []) :
    Text.join es ['/'] ≠ [] ∧ Text.join es ['/'] ≠ ['.'] ∧
      Text.join es ['/'] ≠ ['/'] := by
  have hSplit := splitOn_join hKept hSome
  have hParts :
      ∀ e ∈ (Text.join es ['/']).splitOn '/',
        e ≠ [] ∧ e ≠ ['.'] := by
    intro e hMem
    rw [hSplit] at hMem
    have hPlain := hKept.plain (List.mem_reverse.mpr hMem)
    exact ⟨hPlain.1, hPlain.2.1⟩
  refine ⟨fun h => ?_, fun h => ?_, fun h => ?_⟩
  · rw [h] at hParts
    exact (hParts [] (by simp)).1 rfl
  · rw [h, List.splitOn_eq_singleton (by simp)] at hParts
    exact (hParts ['.'] (by simp)).2 rfl
  · rw [h, List.splitOn_cons_eq_if_modifyHead,
      if_pos (by simp)] at hParts
    exact (hParts [] (by simp)).1 rfl

theorem render_concat
    (hKept : Kept rooted es.reverse)
    (name : Text) :
    render rooted (es ++ [name]) =
      child (render rooted es) name := by
  by_cases hNone : es = []
  · subst hNone
    cases rooted with
    | true => simp [render, child, Text.join]
    | false => simp [render, child, Text.join]
  · rcases join_ne_dots hKept hNone with ⟨hSome, hHere, hRoot⟩
    cases rooted with
    | true => simp [render, child, join_concat hNone, hSome]
    | false =>
        simp [render, child, join_concat hNone, hNone, hHere,
          hRoot]

theorem hasPrefix_append
    {p : Text}
    (hSome : p ≠ [])
    (q : Text) :
    (p ++ q).hasPrefix ['/'] = p.hasPrefix ['/'] := by
  rcases List.exists_cons_of_ne_nil hSome with ⟨c, p, rfl⟩
  simp [Text.hasPrefix, List.isPrefixOf]

/- A plain element is kept behind any path. -/
theorem clean_append
    {p : Text}
    (hSome : p ≠ [])
    (hPlain : Plain name) :
    clean (p ++ '/' :: name) = child (clean p) name := by
  have hElements :
      elements (p ++ '/' :: name) = elements p ++ [name] := by
    unfold elements
    rw [hasPrefix_append hSome, List.splitOn_append_cons_self,
      List.splitOn_eq_singleton hPlain.single,
      List.foldl_append, List.foldl_cons, List.foldl_nil,
      hPlain.keep, List.reverse_cons]
  unfold clean
  rw [hElements, hasPrefix_append hSome]
  exact render_concat (kept_elements p) name

theorem clean_plain (hPlain : Plain name) :
    clean name = name := by
  have hFree : name.hasPrefix ['/'] = false := by
    cases name with
    | nil => rfl
    | cons c rest =>
        have hFirst : ('/' == c) = false := by
          rw [beq_eq_false_iff_ne]
          rintro rfl
          exact hPlain.single (List.mem_cons_self ..)
        simp [Text.hasPrefix, List.isPrefixOf, hFirst]
  unfold clean elements
  rw [hFree, List.splitOn_eq_singleton hPlain.single,
    List.foldl_cons, List.foldl_nil, hPlain.keep]
  simp [render, Text.join]

/- `filepath.Join` with a plain element. -/
theorem join_plain
    (p : Text)
    (hPlain : Plain name) :
    join p name = child (clean p) name := by
  unfold join
  by_cases hSome : p = []
  · subst hSome
    have hHere : clean [] = ['.'] := by decide
    rw [if_neg (by simp), if_pos hPlain.some,
      clean_plain hPlain, hHere]
    rfl
  · rw [if_pos hSome, clean_append hSome hPlain]

/- A plain element after at most one slash. -/
theorem child_eq
    (p name : Text) :
    ∃ lead, child p name = lead ++ name ∧
      (lead = [] ∨ ∃ front, lead = front ++ ['/']) := by
  unfold child
  split
  · exact ⟨[], rfl, Or.inl rfl⟩
  · split
    · exact ⟨['/'], rfl, Or.inr ⟨[], rfl⟩⟩
    · exact ⟨p ++ ['/'], by simp, Or.inr ⟨p, rfl⟩⟩

theorem Plain.split_last
    (hPlain : Plain name) :
    ∃ front c, name = front ++ [c] ∧ c ≠ '/' := by
  rcases List.eq_nil_or_concat name with hNil | ⟨front, c, hName⟩
  · exact absurd hNil hPlain.some
  · refine ⟨front, c, by simpa using hName, ?_⟩
    rintro rfl
    refine hPlain.single ?_
    rw [hName]
    simp

theorem rdropWhile_child
    (hPlain : Plain name)
    (lead : Text) :
    (lead ++ name).rdropWhile (· == '/') = lead ++ name := by
  rcases hPlain.split_last with ⟨front, c, rfl, hLast⟩
  rw [← List.append_assoc]
  exact List.rdropWhile_concat_neg _ _ _ (by simpa using hLast)

/- The file name of a child. -/
theorem base_child
    (p : Text)
    (hPlain : Plain name) :
    base (child p name) = name := by
  rcases child_eq p name with ⟨lead, hChild, hLead⟩
  have hTake :
      (lead ++ name).rtakeWhile (· != '/') = name := by
    have hAll : ∀ c ∈ name, (c != '/') = true := by
      intro c hMem
      rw [bne_iff_ne]
      rintro rfl
      exact hPlain.single hMem
    rw [List.rtakeWhile, List.reverse_append,
      List.takeWhile_append_of_pos
        (by simpa using hAll)]
    rcases hLead with rfl | ⟨front, rfl⟩
    · simp
    · simp
  have hSome : lead ++ name ≠ [] := by
    simp [hPlain.some]
  unfold base
  rw [hChild, if_neg hSome, rdropWhile_child hPlain, hTake,
    if_neg hPlain.some]

end Path

------------------------------------------------------------
-- Moving to Another Directory
------------------------------------------------------------

namespace Path

variable {name : Text}

theorem clean_rooted (hPlain : Plain name) :
    clean ('/' :: name) = '/' :: name := by
  have hKeep :
      keep true (keep true [] []) name = [name] := by
    rw [hPlain.keep]
    rfl
  have hRoot : Text.hasPrefix ('/' :: name) ['/'] = true := by
    simp [Text.hasPrefix, List.isPrefixOf]
  unfold clean elements
  rw [hRoot, List.splitOn_cons_eq_if_modifyHead,
    if_pos (by simp), List.splitOn_eq_singleton hPlain.single,
    List.foldl_cons, List.foldl_cons, hKeep]
  simp [render, Text.join]

/-
  What is behind a directory in the path of one of its
  children, when the directory is written any way that its
  cleaned form starts with.
-/
theorem rest_of_child
    {p rest : Text}
    (hSome : p ≠ [])
    (hStarts : ∀ u, u ≠ [] → u <+: name → Plain u)
    (hChild : child (clean p) name = p ++ rest) :
    rest = name ∨ rest = '/' :: name := by
  unfold child at hChild
  by_cases hHere : clean p = ['.']
  · rw [if_pos hHere] at hChild
    have hPlain := hStarts p hSome ⟨rest, hChild.symm⟩
    rw [clean_plain hPlain] at hHere
    exact absurd hHere hPlain.notHere
  · rw [if_neg hHere] at hChild
    by_cases hRoot : clean p = ['/']
    · rw [if_pos hRoot] at hChild
      rcases List.exists_cons_of_ne_nil hSome with ⟨c, u, rfl⟩
      rw [List.cons_append, List.cons.injEq] at hChild
      rcases hChild with ⟨rfl, hRest⟩
      by_cases hNone : u = []
      · subst hNone
        exact Or.inl hRest.symm
      · have hPlain := hStarts u hNone ⟨rest, hRest.symm⟩
        rw [clean_rooted hPlain] at hRoot
        exact absurd (List.cons.inj hRoot).2 hNone
    · rw [if_neg hRoot] at hChild
      rcases List.append_eq_append_iff.mp hChild with
        ⟨t, hPath, hRest⟩ | ⟨t, hPath, hRest⟩
      · cases t with
        | nil => exact Or.inr hRest.symm
        | cons c u =>
            rw [List.cons_append, List.cons.injEq] at hRest
            rcases hRest with ⟨rfl, hRest⟩
            by_cases hNone : u = []
            · subst hNone
              exact Or.inl hRest.symm
            · have hPlain := hStarts u hNone ⟨rest, hRest.symm⟩
              have hLong := congrArg clean hPath
              rw [clean_append (clean_ne_nil p) hPlain,
                clean_clean, child, if_neg hHere,
                if_neg hRoot] at hLong
              have hLength := congrArg List.length hLong
              simp at hLength
      · have hShort := length_clean hSome
        rw [hPath, List.length_append] at hShort
        have hNone : t = [] := by
          rw [← List.length_eq_zero_iff]
          omega
        subst hNone
        exact Or.inr hRest

theorem join_slash
    {p : Text}
    (hSome : p ≠ []) :
    join p ('/' :: name) = join p name := by
  have hSlash :
      ('/' :: name).splitOn '/' = [] :: name.splitOn '/' := by
    rw [List.splitOn_cons_eq_if_modifyHead, if_pos (by simp)]
  have hElements :
      elements (p ++ '/' :: '/' :: name) =
        elements (p ++ '/' :: name) := by
    unfold elements
    rw [hasPrefix_append hSome, hasPrefix_append hSome,
      List.splitOn_append_cons_self,
      List.splitOn_append_cons_self, hSlash, List.foldl_append,
      List.foldl_append, List.foldl_cons]
    rfl
  unfold join clean
  rw [if_pos hSome, if_pos hSome, hElements,
    hasPrefix_append hSome, hasPrefix_append hSome]

end Path

------------------------------------------------------------
-- Longer Names
------------------------------------------------------------

namespace Path

theorem elements_clean (p : Text) :
    elements (clean p) = elements p :=
  elements_render (kept_elements p)

/- What follows a path goes to its last element. -/
theorem splitOn_append_free
    (p : Text)
    {t : Text}
    (hFree : '/' ∉ t) :
    ∃ front last, p.splitOn '/' = front ++ [last] ∧
      (p ++ t).splitOn '/' = front ++ [last ++ t] := by
  rcases List.eq_nil_or_concat (p.splitOn '/') with
    hNone | ⟨front, last, hParts⟩
  · exact absurd hNone (List.splitOn_ne_nil '/' p)
  · rw [List.concat_eq_append] at hParts
    refine ⟨front, last, hParts, ?_⟩
    have hSingle :
        ∀ part ∈ front ++ [last ++ t], '/' ∉ part := by
      intro part hMem
      rcases List.mem_append.mp hMem with hFront | hLast
      · apply not_mem_of_mem_splitOn (s := p)
        rw [hParts]
        exact List.mem_append_left _ hFront
      · have hPart : '/' ∉ last := by
          apply not_mem_of_mem_splitOn (s := p)
          rw [hParts]
          simp
        rw [List.mem_singleton.mp hLast, List.mem_append]
        rintro (h | h)
        · exact hPart h
        · exact hFree h
    have hText : p = Text.join (front ++ [last]) ['/'] := by
      rw [← hParts]
      exact (List.intercalate_splitOn '/').symm
    have hLonger :
        p ++ t = Text.join (front ++ [last ++ t]) ['/'] := by
      by_cases hNone : front = []
      · subst hNone
        simpa [Text.join] using congrArg (· ++ t) hText
      · rw [join_concat hNone] at hText ⊢
        rw [hText]
        simp
    rw [hLonger]
    exact List.splitOn_intercalate '/' hSingle (by simp)

/- A longer last element is another element. -/
theorem keep_ne
    {rooted : Bool}
    {last t : Text}
    (hLong : 3 ≤ t.length)
    (kept : List Text) :
    keep rooted kept (last ++ t) ≠ keep rooted kept last := by
  have hOther : ∀ e : Text, e.length ≤ 2 → last ++ t ≠ e := by
    rintro e hShort rfl
    rw [List.length_append] at hShort
    omega
  have hLonger : last ++ t ≠ last := by
    intro hSame
    have hLength := congrArg List.length hSame
    rw [List.length_append] at hLength
    omega
  have hKept :
      keep rooted kept (last ++ t) = (last ++ t) :: kept := by
    unfold keep
    rw [if_neg, if_neg (hOther _ (by simp))]
    rintro (h | h)
    · exact hOther _ (by simp) h
    · exact hOther _ (by simp) h
  rw [hKept]
  unfold keep
  split
  · exact fun h => absurd (congrArg List.length h) (by simp)
  · split
    · rename_i hUp
      cases kept with
      | nil =>
          cases rooted with
          | true => simp
          | false => simpa using hLonger
      | cons e before =>
          simp only
          split
          · simpa using hLonger
          · intro h
            have hLength := congrArg List.length h
            simp only [List.length_cons] at hLength
            omega
    · simpa using hLonger

/- A path with a suffix is another path. -/
theorem clean_append_ne
    {p t : Text}
    (hFree : '/' ∉ t)
    (hLong : 3 ≤ t.length) :
    clean (p ++ t) ≠ clean p := by
  intro hSame
  have hElements := congrArg elements hSame
  rw [elements_clean, elements_clean] at hElements
  rcases splitOn_append_free p hFree with
    ⟨front, last, hParts, hLonger⟩
  have hRoot :
      (p ++ t).hasPrefix ['/'] = p.hasPrefix ['/'] := by
    by_cases hNone : p = []
    · subst hNone
      cases t with
      | nil => rfl
      | cons c t =>
          have hFirst : ('/' == c) = false := by
            apply beq_false_of_ne
            rintro rfl
            exact hFree (List.mem_cons_self ..)
          simp [Text.hasPrefix, List.isPrefixOf, hFirst]
    · exact hasPrefix_append hNone t
  unfold elements at hElements
  rw [List.reverse_inj, hRoot, hParts, hLonger,
    List.foldl_append, List.foldl_append] at hElements
  exact keep_ne hLong _ hElements

end Path

------------------------------------------------------------
-- Characters
------------------------------------------------------------

namespace Path

theorem mem_foldl_keep
    {rooted : Bool}
    {kept es : List Text}
    {e : Text}
    (hMem : e ∈ es.foldl (keep rooted) kept) :
    e ∈ kept ∨ e ∈ es := by
  induction es generalizing kept with
  | nil => exact Or.inl hMem
  | cons d es ih =>
      have hStep : ∀ x ∈ keep rooted kept d, x ∈ d :: kept := by
        intro x hx
        unfold keep at hx
        split at hx
        · exact List.mem_cons_of_mem _ hx
        · split at hx
          · split at hx
            · split at hx
              · cases hx
              · exact List.mem_singleton.mp hx ▸
                  List.mem_cons_self ..
            · split at hx
              · exact hx
              · exact List.mem_cons_of_mem _
                  (List.mem_cons_of_mem _ hx)
          · exact hx
      rcases ih hMem with hKept | hLater
      · rcases List.mem_cons.mp (hStep e hKept) with rfl | hOld
        · exact Or.inr (List.mem_cons_self ..)
        · exact Or.inl hOld
      · exact Or.inr (List.mem_cons_of_mem _ hLater)

/- A cleaned path has no other characters. -/
theorem mem_clean
    {p : Text}
    {c : Char}
    (hMem : c ∈ clean p) :
    c ∈ p ∨ c = '.' ∨ c = '/' := by
  have hPart : ∀ e ∈ elements p, c ∈ e → c ∈ p := by
    intro e he hc
    unfold elements at he
    rcases mem_foldl_keep (List.mem_reverse.mp he) with hNo | hIn
    · cases hNo
    · have hJoin : Text.join (p.splitOn '/') ['/'] = p :=
        List.intercalate_splitOn '/'
      rw [← hJoin]
      exact Text.mem_joined_of_mem hIn hc
  have hJoined :
      c ∈ Text.join (elements p) ['/'] →
        c ∈ p ∨ c = '.' ∨ c = '/' := by
    intro hc
    rcases Text.mem_joined hc with hSlash | ⟨e, he, hc⟩
    · exact Or.inr (Or.inr hSlash)
    · exact Or.inl (hPart e he hc)
  unfold clean render at hMem
  split at hMem
  · rcases List.mem_cons.mp hMem with hSlash | hc
    · exact Or.inr (Or.inr hSlash)
    · exact hJoined hc
  · split at hMem
    · exact Or.inr (Or.inl (List.mem_singleton.mp hMem))
    · exact hJoined hMem

theorem mem_child
    {p name : Text}
    {c : Char}
    (hMem : c ∈ child (clean p) name) :
    c ∈ p ∨ c ∈ name ∨ c = '.' ∨ c = '/' := by
  unfold child at hMem
  split at hMem
  · exact Or.inr (Or.inl hMem)
  · split at hMem
    · rcases List.mem_cons.mp hMem with hSlash | hName
      · exact Or.inr (Or.inr (Or.inr hSlash))
      · exact Or.inr (Or.inl hName)
    · rcases List.mem_append.mp hMem with hLead | hRest
      · rcases mem_clean hLead with hp | hOther
        · exact Or.inl hp
        · exact Or.inr (Or.inr hOther)
      · rcases List.mem_cons.mp hRest with hSlash | hName
        · exact Or.inr (Or.inr (Or.inr hSlash))
        · exact Or.inr (Or.inl hName)

end Path
