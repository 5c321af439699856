import Mathlib.Data.List.Count
import Mathlib.Data.List.Basic

/-
  Authorization replies.

  A NAS sends attributes, mandatory ones with `=` and optional
  ones with `*`; the daemon has mandatory ones, optional ones
  and ones to add. What comes out is told as additions to what
  the NAS sent where nothing was replaced, and as the whole
  list otherwise.

  Key definitions include:
    * `TacPlus.lookupAttrval`, `TacPlus.lookupAttr`
    * `TacPlus.mergeArg`, `TacPlus.doAuthor`
    * `TacPlus.AuthorReply.effective`
-/

------------------------------------------------------------
-- Attributes
------------------------------------------------------------

namespace Soteria

namespace TacPlus

/- An attribute with its separator and value. -/
abbrev Attr := List Char

/- `is_separator` -/
def isSeparator (c : Char) : Bool :=
  c == '=' || c == '*'

/- `strcmp_a`, whether it returns 0: the same up to the
   separator, whichever it is. -/
def strcmpA : Attr → Attr → Bool
| [], [] => true
| [], _ :: _ => false
| _ :: _, [] => false
| a :: as, b :: bs =>
    if a = b ∨ (isSeparator a = true ∧ isSeparator b = true) then
      if isSeparator a then true else strcmpA as bs
    else false

/- `strcspn` of the separators. -/
def nameLength (a : Attr) : Nat :=
  (a.takeWhile fun c => !isSeparator c).length

/- The characters of an attribute's name. -/
def name (a : Attr) : Attr :=
  a.take (nameLength a)

/- Whether the first separator of a pair is `=`. -/
def mandatory (a : Attr) : Bool :=
  a[nameLength a]? == some '='

/- Pairs that are always passed through unchanged. -/
def passedThrough (na : Attr) : Bool :=
  strcmpA na "service=".toList || strcmpA na "protocol=".toList ||
    strcmpA na "cmd=".toList

/- `lookup_attrval`; `none` entries are NULL. -/
def lookupAttrval (attrs : List (Option Attr)) (na : Attr) :
    Option Attr :=
  (attrs.find? fun a => a == some na).join

/- Whether an attribute of the daemon has the name of the
   NAS's. -/
def sameName (na a : Attr) : Bool :=
  nameLength na < a.length &&
    (a[nameLength na]?.any isSeparator) &&
    na.take (nameLength na) == a.take (nameLength na)

/- `lookup_attr` -/
def lookupAttr (attrs : List (Option Attr)) (na : Attr) :
    Option Attr :=
  if nameLength na = na.length then none
  else (attrs.find? fun a => a.any (sameName na)).join

/- `clear_attrval` -/
def clearAttrval :
    List (Option Attr) → Attr → List (Option Attr)
| [], _ => []
| a :: rest, na =>
    if a = some na then none :: rest
    else a :: clearAttrval rest na

end TacPlus

end Soteria

------------------------------------------------------------
-- Merging
------------------------------------------------------------

namespace Soteria

namespace TacPlus

/- What the scripts left in the session: the attributes of the
   daemon and whether the default is to permit. -/
structure AttrSet where
  attrsM : List Attr
  attrsO : List Attr
  attrsA : List Attr
  dfltPermit : Bool

/- The output so far and the number of pairs replaced or
   deleted. -/
structure Merge where
  out : List Attr
  replaced : Nat

/- Adds a pair to the output. -/
def Merge.push (s : Merge) (a : Attr) : Merge :=
  { s with out := s.out ++ [a] }

/- One turn of the loop over the pairs of the NAS in
   `do_author`; `none` is a reply of failure. The letters are
   those of its reports. -/
def mergeArg (d : AttrSet) (s : Merge) (na : Attr) :
    Option Merge :=
  let attrsM := d.attrsM.map some
  let attrsO := d.attrsO.map some
  if passedThrough na then some (s.push na)
  else if mandatory na then
    match lookupAttrval attrsM na with
    | some da => some (s.push da)  -- a
    | none =>
        match lookupAttr attrsO na with
        | some _ => some (s.push na)  -- b
        | none =>
            if d.dfltPermit then some (s.push na)  -- d
            else none  -- c
  else
    -- e, f, g, h
    match (lookupAttrval attrsM na).or
        ((lookupAttr attrsM na).or
          ((lookupAttrval attrsO na).or
            (lookupAttr attrsO na))) with
    | some da =>
        some { s.push da with replaced := s.replaced + 1 }
    | none =>
        if d.dfltPermit then some (s.push na)  -- j
        else some { s with replaced := s.replaced + 1 }  -- i

/- The loop. -/
def mergeArgs (d : AttrSet) : Merge → List Attr → Option Merge
| s, [] => some s
| s, na :: rest =>
    match mergeArg d s na with
    | some s' => mergeArgs d s' rest
    | none => none

/- The pairs of a list that are not cleared. -/
def remaining
    (attrs : List (Option Attr)) (out : List Attr) : List Attr :=
  (out.foldl clearAttrval attrs).filterMap id

inductive AuthorReply where
  | fail
  | passAdd (args : List Attr)
  | passRepl (args : List Attr)
deriving DecidableEq

/- The end of `do_author`, after the request was permitted. -/
def doAuthor (d : AttrSet) (inArgs : List Attr) : AuthorReply :=
  match mergeArgs d ⟨[], 0⟩ inArgs with
  | none => .fail
  | some s =>
      let k := remaining (d.attrsM.map some) s.out
      let l := remaining (d.attrsA.map some) (s.out ++ k)
      let out := s.out ++ k ++ l
      if s.replaced ≠ 0 then .passRepl out
      else if k.length + l.length ≠ 0 then
        .passAdd (out.drop inArgs.length)
      else .passAdd []

/- The pairs that are in force at the NAS after the reply. -/
def AuthorReply.effective
    (reply : AuthorReply) (inArgs : List Attr) :
    Option (List Attr) :=
  match reply with
  | .fail => none
  | .passAdd args => some (inArgs ++ args)
  | .passRepl args => some args

end TacPlus

end Soteria

------------------------------------------------------------
-- Looking Up and Clearing
------------------------------------------------------------

namespace Soteria

namespace TacPlus

theorem lookupAttrval_some
    {attrs : List Attr} {na da : Attr}
    (h : lookupAttrval (attrs.map some) na = some da) :
    da = na ∧ na ∈ attrs := by
  rw [lookupAttrval] at h
  rcases Option.join_eq_some_iff.mp h with hFind
  have hMem := List.mem_of_find?_eq_some hFind
  have hEq := List.find?_some hFind
  rw [beq_iff_eq] at hEq
  obtain rfl := Option.some.inj hEq
  refine ⟨rfl, ?_⟩
  simpa using hMem

theorem lookupAttrval_none
    {attrs : List Attr} {na : Attr}
    (h : lookupAttrval (attrs.map some) na = none) :
    na ∉ attrs := by
  intro hMem
  rw [lookupAttrval] at h
  cases hFind : (attrs.map some).find? fun a => a == some na with
  | none =>
      rw [List.find?_eq_none] at hFind
      exact hFind (some na) (List.mem_map_of_mem hMem) (by simp)
  | some a =>
      have hEq := List.find?_some hFind
      rw [beq_iff_eq] at hEq
      rw [hFind, hEq] at h
      cases h

theorem lookupAttr_some
    {attrs : List Attr} {na da : Attr}
    (h : lookupAttr (attrs.map some) na = some da) :
    da ∈ attrs ∧ sameName na da = true := by
  rw [lookupAttr] at h
  split at h
  · cases h
  · have hFind := Option.join_eq_some_iff.mp h
    have hMem := List.mem_of_find?_eq_some hFind
    have hSame := List.find?_some hFind
    exact ⟨by simpa using hMem, by simpa using hSame⟩

theorem lookupAttr_none
    {attrs : List Attr} {na : Attr}
    (h : lookupAttr (attrs.map some) na = none)
    (hName : nameLength na ≠ na.length) :
    ∀ a ∈ attrs, sameName na a = false := by
  intro a ha
  rw [lookupAttr, if_neg hName] at h
  cases hFind : (attrs.map some).find?
      fun a => a.any (sameName na) with
  | none =>
      rw [List.find?_eq_none] at hFind
      have hNot := hFind (some a) (List.mem_map_of_mem ha)
      simpa using hNot
  | some a' =>
      have hMem := List.mem_of_find?_eq_some hFind
      rw [hFind] at h
      rcases List.mem_map.mp hMem with ⟨a'', -, rfl⟩
      cases h

/- Clearing takes the first occurrence out. -/
theorem clearAttrval_filterMap
    (attrs : List (Option Attr)) (na : Attr) :
    (clearAttrval attrs na).filterMap id =
      (attrs.filterMap id).erase na := by
  induction attrs with
  | nil => rfl
  | cons a rest ih =>
      rw [clearAttrval]
      cases a with
      | none => simpa using ih
      | some a =>
          by_cases hEq : a = na
          · simp [hEq]
          · have hNot : ¬ (some a = some na) := by
              simpa using hEq
            have hTail : (a :: rest.filterMap id).erase na =
                a :: (rest.filterMap id).erase na :=
              List.erase_cons_tail (by simpa using hEq)
            rw [if_neg hNot]
            exact (congrArg (a :: ·) ih).trans hTail.symm

/- What is not cleared is the difference of the lists. -/
theorem remaining_eq_diff (attrs out : List Attr) :
    remaining (attrs.map some) out = attrs.diff out := by
  have h : ∀ l : List (Option Attr),
      (out.foldl clearAttrval l).filterMap id =
        (l.filterMap id).diff out := by
    induction out with
    | nil => intro l; simp
    | cons na out ih =>
        intro l
        rw [List.foldl_cons, ih, clearAttrval_filterMap,
          List.diff_cons]
  rw [remaining, h]
  simp

end TacPlus

end Soteria

------------------------------------------------------------
-- What One Pair Adds
------------------------------------------------------------

namespace Soteria

namespace TacPlus

variable {d : AttrSet}

/- The mandatory pair is one the daemon does not take. -/
def Refused (d : AttrSet) (na : Attr) : Prop :=
  passedThrough na = false ∧ mandatory na = true ∧
    d.dfltPermit = false ∧ na ∉ d.attrsM ∧
    ∀ a ∈ d.attrsO, sameName na a = false

/- A pair that may be kept as it is. -/
def Allowed (d : AttrSet) (na : Attr) : Prop :=
  passedThrough na = true ∨ d.dfltPermit = true ∨
    na ∈ d.attrsM ∨ ∃ a ∈ d.attrsO, sameName na a = true

/- What is done with a pair of the NAS: what it adds to the
   output, and whether that counts as a replacement. -/
inductive Merged (d : AttrSet) (na : Attr) :
    List Attr → Nat → Prop
  | kept (hAllowed : Allowed d na) : Merged d na [na] 0
  | replaced {da : Attr}
      (hOptional : mandatory na = false)
      (hFrom : da ∈ d.attrsM ∨ da ∈ d.attrsO)
      (hName : da = na ∨ sameName na da = true) :
      Merged d na [da] 1
  | deleted
      (hOptional : mandatory na = false)
      (hDflt : d.dfltPermit = false) :
      Merged d na [] 1

theorem Allowed.not_refused
    {na : Attr} (h : Allowed d na) :
    ¬ Refused d na := by
  rintro ⟨hPass, -, hDflt, hMand, hOpt⟩
  rcases h with h | h | h | ⟨a, ha, h⟩
  · rw [hPass] at h
    cases h
  · rw [hDflt] at h
    cases h
  · exact hMand h
  · rw [hOpt a ha] at h
    cases h

theorem Merged.not_refused
    {na : Attr} {added : List Attr} {n : Nat}
    (h : Merged d na added n) :
    ¬ Refused d na := by
  cases h with
  | kept hAllowed => exact hAllowed.not_refused
  | replaced hOptional _ _ =>
      rintro ⟨-, hMand, -⟩
      rw [hOptional] at hMand
      cases hMand
  | deleted hOptional _ =>
      rintro ⟨-, hMand, -⟩
      rw [hOptional] at hMand
      cases hMand

theorem mandatory_nameLength
    {na : Attr} (h : mandatory na = true) :
    nameLength na ≠ na.length := by
  intro hEq
  rw [mandatory, hEq, List.getElem?_eq_none (Nat.le_refl _)] at h
  cases h

/- The pair of the daemon an optional pair is replaced with. -/
def replacement (d : AttrSet) (na : Attr) : Option Attr :=
  (lookupAttrval (d.attrsM.map some) na).or
    ((lookupAttr (d.attrsM.map some) na).or
      ((lookupAttrval (d.attrsO.map some) na).or
        (lookupAttr (d.attrsO.map some) na)))

theorem replacement_some
    {na da : Attr} (h : replacement d na = some da) :
    (da ∈ d.attrsM ∨ da ∈ d.attrsO) ∧
      (da = na ∨ sameName na da = true) := by
  rw [replacement] at h
  rcases Option.or_eq_some_iff.mp h with h | ⟨-, h⟩
  · rcases lookupAttrval_some h with ⟨rfl, hMem⟩
    exact ⟨Or.inl hMem, Or.inl rfl⟩
  rcases Option.or_eq_some_iff.mp h with h | ⟨-, h⟩
  · rcases lookupAttr_some h with ⟨hMem, hName⟩
    exact ⟨Or.inl hMem, Or.inr hName⟩
  rcases Option.or_eq_some_iff.mp h with h | ⟨-, h⟩
  · rcases lookupAttrval_some h with ⟨rfl, hMem⟩
    exact ⟨Or.inr hMem, Or.inl rfl⟩
  · rcases lookupAttr_some h with ⟨hMem, hName⟩
    exact ⟨Or.inr hMem, Or.inr hName⟩

section Turn

variable {d : AttrSet} {na : Attr}

/- A mandatory pair is refused or kept. -/
theorem mergeArg_mandatory
    (s : Merge) (hPass : passedThrough na = false)
    (hMand : mandatory na = true) :
    (mergeArg d s na = none ∧ Refused d na) ∨
    ∃ added n, Merged d na added n ∧
      mergeArg d s na =
        some ⟨s.out ++ added, s.replaced + n⟩ := by
  cases hVal : lookupAttrval (d.attrsM.map some) na with
  | some da =>
      rcases lookupAttrval_some hVal with ⟨rfl, hMem⟩
      exact Or.inr ⟨[da], 0,
        .kept (Or.inr (Or.inr (Or.inl hMem))), by
          simp [mergeArg, hPass, hMand, hVal, Merge.push]⟩
  | none =>
      cases hAttr : lookupAttr (d.attrsO.map some) na with
      | some da =>
          rcases lookupAttr_some hAttr with ⟨hMem, hName⟩
          exact Or.inr ⟨[na], 0,
            .kept (Or.inr (Or.inr (Or.inr
              ⟨da, hMem, hName⟩))), by
            simp [mergeArg, hPass, hMand, hVal, hAttr,
              Merge.push]⟩
      | none =>
          cases hDflt : d.dfltPermit with
          | true =>
              exact Or.inr ⟨[na], 0,
                .kept (Or.inr (Or.inl hDflt)), by
                simp [mergeArg, hPass, hMand, hVal, hAttr,
                  hDflt, Merge.push]⟩
          | false =>
              refine Or.inl ⟨by simp [mergeArg, hPass, hMand,
                hVal, hAttr, hDflt], hPass, hMand, hDflt,
                lookupAttrval_none hVal, ?_⟩
              exact lookupAttr_none hAttr
                (mandatory_nameLength hMand)

/- An optional pair is replaced, kept or deleted. -/
theorem mergeArg_optional
    (s : Merge) (hPass : passedThrough na = false)
    (hMand : mandatory na = false) :
    ∃ added n, Merged d na added n ∧
      mergeArg d s na =
        some ⟨s.out ++ added, s.replaced + n⟩ := by
  have hStep : mergeArg d s na =
      match replacement d na with
      | some da =>
          some { s.push da with replaced := s.replaced + 1 }
      | none =>
          if d.dfltPermit then some (s.push na)
          else some { s with replaced := s.replaced + 1 } := by
    simp [mergeArg, hPass, hMand, replacement]
  cases hRepl : replacement d na with
  | some da =>
      rcases replacement_some hRepl with ⟨hFrom, hName⟩
      exact ⟨[da], 1, .replaced hMand hFrom hName, by
        rw [hStep, hRepl]
        rfl⟩
  | none =>
      cases hDflt : d.dfltPermit with
      | true =>
          exact ⟨[na], 0, .kept (Or.inr (Or.inl hDflt)), by
            rw [hStep, hRepl]
            simp [hDflt, Merge.push]⟩
      | false =>
          exact ⟨[], 1, .deleted hMand hDflt, by
            rw [hStep, hRepl]
            simp [hDflt]⟩

end Turn

/- A turn of the loop refuses the pair or merges it. -/
theorem mergeArg_cases (d : AttrSet) (s : Merge) (na : Attr) :
    (mergeArg d s na = none ∧ Refused d na) ∨
    ∃ added n, Merged d na added n ∧
      mergeArg d s na =
        some ⟨s.out ++ added, s.replaced + n⟩ := by
  by_cases hPass : passedThrough na = true
  · exact Or.inr ⟨[na], 0, .kept (Or.inl hPass), by
      simp [mergeArg, hPass, Merge.push]⟩
  · rw [Bool.not_eq_true] at hPass
    by_cases hMand : mandatory na = true
    · exact mergeArg_mandatory s hPass hMand
    · rw [Bool.not_eq_true] at hMand
      exact Or.inr (mergeArg_optional s hPass hMand)

/- The pairs of a request, one after another. -/
inductive MergedAll (d : AttrSet) :
    List Attr → List Attr → Nat → Prop
  | nil : MergedAll d [] [] 0
  | cons {na : Attr} {nas added out : List Attr} {n k : Nat}
      (hFirst : Merged d na added n)
      (hRest : MergedAll d nas out k) :
      MergedAll d (na :: nas) (added ++ out) (n + k)

/- The loop fails at a refused pair, and merges all pairs where
   there is none. -/
theorem mergeArgs_cases (d : AttrSet) (s : Merge)
    (nas : List Attr) :
    (mergeArgs d s nas = none ∧ ∃ na ∈ nas, Refused d na) ∨
    ∃ added n, MergedAll d nas added n ∧
      mergeArgs d s nas =
        some ⟨s.out ++ added, s.replaced + n⟩ := by
  induction nas generalizing s with
  | nil => exact Or.inr ⟨[], 0, .nil, by simp [mergeArgs]⟩
  | cons na nas ih =>
      rcases mergeArg_cases d s na with
        ⟨hNone, hRef⟩ | ⟨added, n, hMerged, hStep⟩
      · exact Or.inl ⟨by rw [mergeArgs, hNone],
          na, List.mem_cons_self, hRef⟩
      · rw [mergeArgs, hStep]
        rcases ih ⟨s.out ++ added, s.replaced + n⟩ with
          ⟨hNone, na', hMem, hRef⟩ | ⟨out, k, hAll, hRest⟩
        · exact Or.inl ⟨hNone, na',
            List.mem_cons_of_mem na hMem, hRef⟩
        · refine Or.inr ⟨added ++ out, n + k,
            .cons hMerged hAll, ?_⟩
          simp only [hRest, List.append_assoc, Nat.add_assoc]

theorem MergedAll.not_refused
    {nas out : List Attr} {n : Nat}
    (h : MergedAll d nas out n) :
    ∀ na ∈ nas, ¬ Refused d na := by
  induction h with
  | nil => exact nofun
  | cons hFirst hRest ih =>
      intro na' hMem
      rcases List.mem_cons.mp hMem with rfl | hMem
      · exact hFirst.not_refused
      · exact ih na' hMem

/- Where nothing was replaced, all pairs were kept. -/
theorem MergedAll.unchanged
    {nas out : List Attr} {n : Nat}
    (h : MergedAll d nas out n) (hn : n = 0) :
    out = nas := by
  induction h with
  | nil => rfl
  | cons hFirst hRest ih =>
      cases hFirst with
      | kept _ => rw [ih (by omega)]; rfl
      | replaced _ _ _ => omega
      | deleted _ _ => omega

theorem MergedAll.length_le
    {nas out : List Attr} {n : Nat}
    (h : MergedAll d nas out n) :
    out.length ≤ nas.length := by
  induction h with
  | nil => exact Nat.le_refl _
  | cons hFirst hRest ih =>
      rw [List.length_append, List.length_cons]
      cases hFirst <;> simp only [List.length_singleton,
        List.length_nil] <;> omega

/- A mandatory pair is always kept. -/
theorem MergedAll.mandatory_mem
    {nas out : List Attr} {n : Nat}
    (h : MergedAll d nas out n) {na : Attr}
    (hMem : na ∈ nas) (hMand : mandatory na = true) :
    na ∈ out := by
  induction h with
  | nil => cases hMem
  | cons hFirst hRest ih =>
      rcases List.mem_cons.mp hMem with rfl | hMem
      · cases hFirst with
        | kept _ => exact List.mem_cons_self
        | replaced hOptional _ _ =>
            rw [hOptional] at hMand
            cases hMand
        | deleted hOptional _ =>
            rw [hOptional] at hMand
            cases hMand
      · exact List.mem_append_right _ (ih hMem)

/- A pair of the output is one of the request that may be kept,
   or one of the daemon's. -/
theorem MergedAll.source
    {nas out : List Attr} {n : Nat}
    (h : MergedAll d nas out n) {a : Attr} (hMem : a ∈ out) :
    (a ∈ nas ∧ Allowed d a) ∨ a ∈ d.attrsM ∨ a ∈ d.attrsO := by
  induction h with
  | nil => cases hMem
  | cons hFirst hRest ih =>
      rcases List.mem_append.mp hMem with hHere | hLater
      · cases hFirst with
        | kept hAllowed =>
            rw [List.mem_singleton] at hHere
            rw [hHere]
            exact Or.inl ⟨List.mem_cons_self, hAllowed⟩
        | replaced _ hFrom _ =>
            rw [List.mem_singleton] at hHere
            rw [hHere]
            exact Or.inr hFrom
        | deleted _ _ => cases hHere
      · rcases ih hLater with ⟨hIn, hAllowed⟩ | hFrom
        · exact Or.inl ⟨List.mem_cons_of_mem _ hIn, hAllowed⟩
        · exact Or.inr hFrom

end TacPlus

end Soteria

------------------------------------------------------------
-- What Is in Force After a Reply
------------------------------------------------------------

namespace Soteria

namespace TacPlus

/- The pairs in force, from the merged ones. -/
def completed (d : AttrSet) (out : List Attr) : List Attr :=
  let k := d.attrsM.diff out
  out ++ k ++ d.attrsA.diff (out ++ k)

/- The reply fails at a refused pair; otherwise the NAS ends up
   with the merged pairs, completed, whether it was told
   additions or the whole list. -/
theorem doAuthor_effective (d : AttrSet) (nas : List Attr) :
    ((doAuthor d nas).effective nas = none ∧
      ∃ na ∈ nas, Refused d na) ∨
    ∃ out n, MergedAll d nas out n ∧
      (doAuthor d nas).effective nas =
        some (completed d out) := by
  rcases mergeArgs_cases d ⟨[], 0⟩ nas with
    ⟨hNone, hRef⟩ | ⟨out, n, hAll, hSome⟩
  · refine Or.inl ⟨?_, hRef⟩
    rw [doAuthor, hNone]
    rfl
  · refine Or.inr ⟨out, n, hAll, ?_⟩
    rw [doAuthor, hSome]
    simp only [List.nil_append, Nat.zero_add, remaining_eq_diff]
    by_cases hn : n = 0
    · obtain rfl := hAll.unchanged hn
      rw [if_neg (by simpa using hn)]
      by_cases hNew : (d.attrsM.diff out).length +
          (d.attrsA.diff (out ++ d.attrsM.diff out)).length = 0
      · rw [if_neg (by simpa using hNew)]
        have hK : d.attrsM.diff out = [] :=
          List.eq_nil_of_length_eq_zero (by omega)
        have hL : d.attrsA.diff (out ++ d.attrsM.diff out) = [] :=
          List.eq_nil_of_length_eq_zero (by omega)
        have hDone : completed d out =
            out ++ d.attrsM.diff out ++
              d.attrsA.diff (out ++ d.attrsM.diff out) := rfl
        rw [hDone, hL, hK]
        simp [AuthorReply.effective]
      · rw [if_pos hNew, AuthorReply.effective, completed,
          List.append_assoc, List.drop_left]
    · rw [if_pos hn]
      rfl

/- Every pair the daemon requires or adds is in force after a
   reply that is no failure, as often as it is configured. -/
theorem doAuthor_complete
    (d : AttrSet) (nas : List Attr) :
    ∀ result, (doAuthor d nas).effective nas = some result →
      (∀ a, d.attrsM.count a ≤ result.count a) ∧
      (∀ a, d.attrsA.count a ≤ result.count a) ∧
      (∀ na ∈ nas, mandatory na = true → na ∈ result) ∧
      result.length ≤
        nas.length + d.attrsM.length + d.attrsA.length := by
  intro result hResult
  rcases doAuthor_effective d nas with
    ⟨hNone, -⟩ | ⟨out, n, hAll, hSome⟩
  · rw [hNone] at hResult
    cases hResult
  · rw [hSome] at hResult
    obtain rfl := Option.some.inj hResult
    refine ⟨fun a => ?_, fun a => ?_, fun na hMem hMand => ?_, ?_⟩
    · simp only [completed, List.count_append, List.count_diff]
      omega
    · simp only [completed, List.count_append, List.count_diff]
      omega
    · simp only [completed, List.append_assoc]
      exact List.mem_append_left _ (hAll.mandatory_mem hMem hMand)
    · have hOut := hAll.length_le
      have hK := (List.diff_sublist d.attrsM out).length_le
      have hL := (List.diff_sublist d.attrsA
        (out ++ d.attrsM.diff out)).length_le
      simp only [completed, List.length_append]
      omega

/- A shell that is given a privilege level and a timeout. -/
def shellAttrs : AttrSet where
  attrsM := ["priv-lvl=15".toList]
  attrsO := []
  attrsA := ["timeout*30".toList]
  dfltPermit := false

theorem doAuthor_complete_shell :
    let nas := ["service=shell".toList, "cmd*".toList]
    let result := ["service=shell".toList, "cmd*".toList,
      "priv-lvl=15".toList, "timeout*30".toList]
    (doAuthor shellAttrs nas).effective nas = some result ∧
      ∀ a, shellAttrs.attrsM.count a ≤ result.count a := by
  intro nas result
  have hReply : (doAuthor shellAttrs nas).effective nas =
      some result := by decide
  exact ⟨hReply,
    (doAuthor_complete shellAttrs nas result hReply).1⟩

/- A reply is a failure exactly when a mandatory pair is refused,
   and nothing else is in force after it than pairs of the
   daemon and pairs of the NAS that may be kept. -/
theorem doAuthor_sound (d : AttrSet) (nas : List Attr) :
    ((doAuthor d nas).effective nas = none ↔
      ∃ na ∈ nas, Refused d na) ∧
    ∀ result, (doAuthor d nas).effective nas = some result →
      ∀ a ∈ result,
        (a ∈ nas ∧ Allowed d a) ∨ a ∈ d.attrsM ∨
          a ∈ d.attrsO ∨ a ∈ d.attrsA := by
  rcases doAuthor_effective d nas with
    ⟨hNone, hRef⟩ | ⟨out, n, hAll, hSome⟩
  · refine ⟨⟨fun _ => hRef, fun _ => hNone⟩, ?_⟩
    intro result hResult
    rw [hNone] at hResult
    cases hResult
  · refine ⟨⟨fun hNone => ?_, ?_⟩, ?_⟩
    · rw [hSome] at hNone
      cases hNone
    · rintro ⟨na, hMem, hRef⟩
      exact absurd hRef (hAll.not_refused na hMem)
    · intro result hResult a ha
      rw [hSome] at hResult
      obtain rfl := Option.some.inj hResult
      simp only [completed, List.append_assoc,
        List.mem_append] at ha
      rcases ha with ha | ha | ha
      · rcases hAll.source ha with h | h | h
        · exact Or.inl h
        · exact Or.inr (Or.inl h)
        · exact Or.inr (Or.inr (Or.inl h))
      · exact Or.inr (Or.inl
          ((List.diff_sublist d.attrsM out).subset ha))
      · exact Or.inr (Or.inr (Or.inr
          ((List.diff_sublist d.attrsA _).subset ha)))

end TacPlus

end Soteria
