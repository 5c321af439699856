import Mathlib.Algebra.GroupWithZero.Nat
import Soteria.TacPlus.Packets

/-
  The bodies of requests.

  The body of an authorization or accounting request starts
  with fixed fields, the last four of them lengths and a count
  of arguments; the length of every argument and then the texts
  follow. The check before a body is processed adds the lengths
  up and stops where they reach the end of the body.

  Key definitions include:
    * `TacPlus.Memory`
    * `TacPlus.argPakLooksBogus`, `TacPlus.authenPakLooksBogus`
    * `TacPlus.readFields`, `TacPlus.encodeBody`
    * `TacPlus.authenTexts`
-/

------------------------------------------------------------
-- Reading a Body
------------------------------------------------------------

namespace Soteria

namespace TacPlus

/- What is found at an offset of a body: the body, and after it
   whatever the memory has there. -/
def bodyAt (data : List UInt8) (beyond : Nat → UInt8) (i : Nat) :
    UInt8 :=
  (data[i]?).getD (beyond (i - data.length))

abbrev Memory := Nat → UInt8

/- The number at an offset. -/
def numAt (mem : Memory) (i : Nat) : Nat :=
  (mem i).toNat

/- The bytes of a field. -/
def fieldAt (mem : Memory) (start len : Nat) : List UInt8 :=
  (List.range len).map fun j => mem (start + j)

/- The lengths of the arguments. -/
def argLens (fixed : Nat) (mem : Memory) : List Nat :=
  (List.range (numAt mem (fixed - 1))).map
    fun i => numAt mem (fixed + i)

/- The length of a body up to its arguments. -/
def headLen (fixed : Nat) (mem : Memory) : Nat :=
  fixed + numAt mem (fixed - 4) + numAt mem (fixed - 3) +
    numAt mem (fixed - 2) + numAt mem (fixed - 1)

/- The loop over the argument lengths: whether all of them were
   counted, and the length counted. -/
def scanArgs (datalength : Nat) :
    List Nat → Nat → Bool × Nat
| [], len => (true, len)
| l :: rest, len =>
    if len < datalength then scanArgs datalength rest (len + l)
    else (false, len)

/- The body of `author_pak_looks_bogus` and
   `accounting_pak_looks_bogus`, for the size of the fixed
   fields. -/
def argPakLooksBogus
    (fixed : Nat) (compat : Bool)
    (datalength : Nat) (mem : Memory) :
    Bool :=
  let (all, len) :=
    scanArgs datalength (argLens fixed mem) (headLen fixed mem)
  if !all || compat then len > datalength
  else len ≠ datalength

/- `TAC_AUTHOR_REQ_FIXED_FIELDS_SIZE` -/
def authorFixed : Nat := 8

/- `TAC_ACCT_REQ_FIXED_FIELDS_SIZE` -/
def acctFixed : Nat := 9

/- `author_pak_looks_bogus` -/
def authorPakLooksBogus
    (compat : Bool) (data : List UInt8)
    (beyond : Nat → UInt8) :
    Bool :=
  argPakLooksBogus authorFixed compat data.length
    (bodyAt data beyond)

/- `accounting_pak_looks_bogus` -/
def accountingPakLooksBogus
    (compat : Bool) (data : List UInt8)
    (beyond : Nat → UInt8) :
    Bool :=
  argPakLooksBogus acctFixed compat data.length
    (bodyAt data beyond)

/- The fields of a request as `author` and `accounting` read
   them. -/
structure Fields where
  username : List UInt8
  port : List UInt8
  nacAddr : List UInt8
  args : List (List UInt8)
deriving DecidableEq

/- The arguments, one after another. -/
def readArgs (mem : Memory) : Nat → List Nat → List (List UInt8)
| _, [] => []
| start, l :: rest =>
    fieldAt mem start l :: readArgs mem (start + l) rest

def readFields (fixed : Nat) (mem : Memory) : Fields :=
  let p := fixed + numAt mem (fixed - 1)
  let userLen := numAt mem (fixed - 4)
  let portLen := numAt mem (fixed - 3)
  let remAddrLen := numAt mem (fixed - 2)
  { username := fieldAt mem p userLen
    port := fieldAt mem (p + userLen) portLen
    nacAddr := fieldAt mem (p + userLen + portLen) remAddrLen
    args := readArgs mem (headLen fixed mem) (argLens fixed mem) }

/- The body a NAS writes for a request: the first fixed fields
   are its own. -/
def encodeBody (front : List UInt8) (f : Fields) : List UInt8 :=
  front ++
    [UInt8.ofNat f.username.length, UInt8.ofNat f.port.length,
      UInt8.ofNat f.nacAddr.length, UInt8.ofNat f.args.length] ++
    f.args.map (fun a => UInt8.ofNat a.length) ++
    f.username ++ f.port ++ f.nacAddr ++ f.args.flatten

/- A number of two bytes in network order, as `ntohs` has it. -/
def shortAt (mem : Memory) (i : Nat) : Nat :=
  256 * numAt mem i + numAt mem (i + 1)

/- `TAC_AUTHEN_START_FIXED_FIELDS_SIZE` -/
def authenStartFixed : Nat := 8

/- `TAC_AUTHEN_CONT_FIXED_FIELDS_SIZE` -/
def authenContFixed : Nat := 5

/- `authen_pak_looks_bogus` -/
def authenPakLooksBogus
    (compat : Bool) (seqNo : UInt8) (data : List UInt8)
    (beyond : Nat → UInt8) :
    Bool :=
  let mem := bodyAt data beyond
  let len :=
    if seqNo = 1 then
      authenStartFixed + numAt mem 4 + numAt mem 5 +
        numAt mem 6 + numAt mem 7
    else authenContFixed + shortAt mem 0 + shortAt mem 2
  if compat then len > data.length else len ≠ data.length

end TacPlus

end Soteria

------------------------------------------------------------
-- Adding Up the Lengths
------------------------------------------------------------

namespace Soteria

namespace TacPlus

/- Where the loop stops: at the end of the arguments or of the
   body, and no sooner. -/
theorem scanArgs_spec (n : Nat) (lens : List Nat) (len : Nat) :
    ∃ k ≤ lens.length,
      scanArgs n lens len =
        (decide (k = lens.length), len + (lens.take k).sum) ∧
      (∀ j < k, len + (lens.take j).sum < n) ∧
      (k < lens.length → n ≤ len + (lens.take k).sum) := by
  induction lens generalizing len with
  | nil => exact ⟨0, Nat.le_refl _, rfl, nofun, nofun⟩
  | cons l rest ih =>
      rw [scanArgs]
      by_cases hLt : len < n
      · rcases ih (len + l) with ⟨k, hk, hScan, hBelow, hStop⟩
        refine ⟨k + 1, by simpa using hk, ?_, ?_, ?_⟩
        · rw [if_pos hLt, hScan]
          simp [Nat.add_assoc]
        · intro j hj
          cases j with
          | zero => simpa using hLt
          | succ j =>
              have h := hBelow j (by omega)
              simp only [List.take_succ_cons, List.sum_cons]
              omega
        · intro hMore
          have h := hStop (by simpa using hMore)
          simp only [List.take_succ_cons, List.sum_cons]
          omega
      · refine ⟨0, Nat.zero_le _, ?_, nofun, fun _ => ?_⟩
        · rw [if_neg hLt]
          simp
        · simpa using Nat.not_lt.mp hLt

theorem sum_take_le
    (lens : List Nat) {i j : Nat} (hij : i ≤ j) :
    (lens.take i).sum ≤ (lens.take j).sum := by
  have hSplit : lens.take j =
      lens.take i ++ (lens.take j).drop i := by
    have h := (List.take_append_drop i (lens.take j)).symm
    rwa [List.take_take, Nat.min_eq_left hij] at h
  rw [hSplit, List.sum_append]
  omega

/- A body is taken exactly when its lengths add up to its own at
   some argument, or, for a host known to announce too long
   bodies, to no more than its own. -/
theorem argPak_accepted_iff
    (fixed : Nat) (compat : Bool) (n : Nat) (mem : Memory) :
    argPakLooksBogus fixed compat n mem = false ↔
      (compat = true ∧
        headLen fixed mem + (argLens fixed mem).sum ≤ n) ∨
      ∃ k ≤ (argLens fixed mem).length,
        headLen fixed mem + ((argLens fixed mem).take k).sum =
          n := by
  rcases scanArgs_spec n (argLens fixed mem) (headLen fixed mem)
    with ⟨k, hk, hScan, hBelow, hStop⟩
  have hTotal : (argLens fixed mem).take
      (argLens fixed mem).length = argLens fixed mem :=
    List.take_length
  have hMono := fun j (hj : k ≤ j) =>
    sum_take_le (argLens fixed mem) hj
  -- the argument the lengths reach the end at is the last one
  -- counted
  have hReach : (∃ j ≤ (argLens fixed mem).length,
      headLen fixed mem + ((argLens fixed mem).take j).sum = n) →
      headLen fixed mem + ((argLens fixed mem).take k).sum ≤ n ∧
        (k = (argLens fixed mem).length →
          headLen fixed mem +
            ((argLens fixed mem).take k).sum = n) := by
    rintro ⟨j, hj, hSum⟩
    have hkj : k ≤ j := by
      by_contra hNot
      have h := hBelow j (by omega)
      omega
    have h := hMono j hkj
    refine ⟨by omega, fun hEnd => ?_⟩
    obtain rfl : j = k := by omega
    exact hSum
  rw [argPakLooksBogus, hScan]
  by_cases hEnd : k = (argLens fixed mem).length
  · rw [decide_eq_true hEnd]
    rw [hEnd, hTotal] at hReach ⊢
    cases compat with
    | true =>
        simp only [Bool.not_true, Bool.false_or, if_true,
          decide_eq_false_iff_not, Nat.not_lt, true_and]
        constructor
        · exact Or.inl
        · rintro (h | h)
          · exact h
          · exact (hReach h).1
    | false =>
        simp only [Bool.not_true, Bool.or_self,
          Bool.false_eq_true, if_false, false_and, false_or,
          decide_eq_false_iff_not, not_not]
        constructor
        · intro h
          exact ⟨_, Nat.le_refl _, by rw [hTotal]; exact h⟩
        · intro h
          exact (hReach h).2 rfl
  · have hLt : k < (argLens fixed mem).length := by omega
    have hGe := hStop hLt
    rw [decide_eq_false hEnd]
    simp only [Bool.not_false, Bool.true_or, if_true,
      decide_eq_false_iff_not, Nat.not_lt]
    constructor
    · intro h
      exact Or.inr ⟨k, hk, by omega⟩
    · rintro (⟨-, h⟩ | h)
      · have hLe := hMono _ hk
        rw [hTotal] at hLe
        omega
      · exact (hReach h).1

end TacPlus

end Soteria

------------------------------------------------------------
-- Inside the Body
------------------------------------------------------------

namespace Soteria

namespace TacPlus

variable {data : List UInt8} (beyond beyond' : Nat → UInt8)

theorem bodyAt_inside {i : Nat} (h : i < data.length) :
    bodyAt data beyond i = data[i] := by
  rw [bodyAt, List.getElem?_eq_getElem h, Option.getD_some]

theorem numAt_inside {i : Nat} (h : i < data.length) :
    numAt (bodyAt data beyond) i =
      numAt (bodyAt data beyond') i := by
  rw [numAt, numAt, bodyAt_inside _ h, bodyAt_inside _ h]

/- A field inside of the body is a part of it. -/
theorem fieldAt_inside
    {start len : Nat} (h : start + len ≤ data.length) :
    fieldAt (bodyAt data beyond) start len =
      (data.drop start).take len := by
  apply List.ext_getElem
  · simp only [fieldAt, List.length_map, List.length_range,
      List.length_take, List.length_drop]
    omega
  · intro i hLeft _
    have hi : i < len := by
      simpa [fieldAt] using hLeft
    simp only [fieldAt, List.getElem_map, List.getElem_range,
      List.getElem_take, List.getElem_drop]
    exact bodyAt_inside beyond (by omega)

theorem length_fieldAt (mem : Memory) (start len : Nat) :
    (fieldAt mem start len).length = len := by
  simp [fieldAt]

/- What is read has the lengths that were announced. -/
theorem map_length_readArgs
    (mem : Memory) (lens : List Nat) (start : Nat) :
    (readArgs mem start lens).map List.length = lens := by
  induction lens generalizing start with
  | nil => rfl
  | cons l rest ih =>
      rw [readArgs, List.map_cons, length_fieldAt, ih]

theorem length_readArgs
    (mem : Memory) (lens : List Nat) (start : Nat) :
    (readArgs mem start lens).length = lens.length := by
  rw [← List.length_map, map_length_readArgs]

theorem headLen_inside
    {fixed : Nat} (hFixed : 4 ≤ fixed)
    (h : fixed ≤ data.length) :
    headLen fixed (bodyAt data beyond) =
      headLen fixed (bodyAt data beyond') := by
  have hNum := fun i (hi : i < fixed) =>
    numAt_inside beyond beyond' (i := i)
      (Nat.lt_of_lt_of_le hi h)
  simp only [headLen]
  rw [hNum (fixed - 4) (by omega), hNum (fixed - 3) (by omega),
    hNum (fixed - 2) (by omega), hNum (fixed - 1) (by omega)]

theorem argLens_inside
    {fixed : Nat} (hFixed : 4 ≤ fixed)
    (h : headLen fixed (bodyAt data beyond) ≤ data.length) :
    argLens fixed (bodyAt data beyond) =
      argLens fixed (bodyAt data beyond') := by
  rw [headLen] at h
  have hCount : numAt (bodyAt data beyond) (fixed - 1) =
      numAt (bodyAt data beyond') (fixed - 1) :=
    numAt_inside beyond beyond' (by omega)
  rw [argLens, argLens, hCount]
  apply List.map_congr_left
  intro i hi
  rw [List.mem_range] at hi
  exact numAt_inside beyond beyond' (by omega)

theorem argPak_long
    {fixed n : Nat} {mem : Memory} (compat : Bool)
    (h : n < headLen fixed mem) :
    argPakLooksBogus fixed compat n mem = true := by
  cases hBogus : argPakLooksBogus fixed compat n mem with
  | true => rfl
  | false =>
      rcases (argPak_accepted_iff fixed compat n mem).mp hBogus
        with ⟨-, hLe⟩ | ⟨k, -, hEq⟩
      · omega
      · omega

/- Whether a body is taken does not depend on what the memory
   has after it. -/
theorem argPak_beyond
    {fixed : Nat} (hFixed : 4 ≤ fixed) (compat : Bool) :
    argPakLooksBogus fixed compat data.length
        (bodyAt data beyond) =
      argPakLooksBogus fixed compat data.length
        (bodyAt data beyond') := by
  have hShort : ∀ mem, data.length < fixed →
      data.length < headLen fixed mem := by
    intro mem h
    rw [headLen]
    omega
  by_cases hLong : fixed ≤ data.length
  · have hHead := headLen_inside beyond beyond' hFixed hLong
    by_cases hFits :
        headLen fixed (bodyAt data beyond) ≤ data.length
    · rw [argPakLooksBogus, argPakLooksBogus, ← hHead,
        argLens_inside beyond beyond' hFixed hFits]
    · rw [argPak_long compat (by omega),
        argPak_long compat (by omega)]
  · rw [argPak_long compat (hShort _ (by omega)),
      argPak_long compat (hShort _ (by omega))]

theorem authenPak_beyond (compat : Bool) (seqNo : UInt8) :
    authenPakLooksBogus compat seqNo data beyond =
      authenPakLooksBogus compat seqNo data beyond' := by
  have hNum := fun i (hi : i < data.length) =>
    numAt_inside beyond beyond' hi
  simp only [authenPakLooksBogus, authenStartFixed,
    authenContFixed, shortAt]
  by_cases hStart : seqNo = 1
  · simp only [if_pos hStart]
    by_cases hLong : 8 ≤ data.length
    · rw [hNum 4 (by omega), hNum 5 (by omega),
        hNum 6 (by omega), hNum 7 (by omega)]
    · cases compat <;> simp <;> omega
  · simp only [if_neg hStart]
    by_cases hLong : 5 ≤ data.length
    · rw [hNum 0 (by omega), hNum (0 + 1) (by omega),
        hNum 2 (by omega), hNum (2 + 1) (by omega)]
    · cases compat <;> simp <;> omega

theorem readArgs_inside
    (lens : List Nat) (start : Nat)
    (h : start + lens.sum ≤ data.length) :
    (readArgs (bodyAt data beyond) start lens).flatten =
      (data.drop start).take lens.sum ∧
    readArgs (bodyAt data beyond) start lens =
      readArgs (bodyAt data beyond') start lens := by
  induction lens generalizing start with
  | nil => simp [readArgs]
  | cons l rest ih =>
      rw [List.sum_cons] at h
      have hRest := ih (start + l) (by omega)
      have hField : ∀ beyond, fieldAt (bodyAt data beyond) start
          l = (data.drop start).take l :=
        fun beyond => fieldAt_inside beyond (by omega)
      constructor
      · rw [readArgs, List.flatten_cons, hRest.1, hField,
          List.sum_cons, List.take_add, List.drop_drop]
      · rw [readArgs, readArgs, hRest.2, hField, hField]

end TacPlus

end Soteria

------------------------------------------------------------
-- Writing and Reading a Body
------------------------------------------------------------

namespace Soteria

namespace TacPlus

variable {data : List UInt8} (beyond beyond' : Nat → UInt8)

/- The length that a body announces. -/
def announced (fixed : Nat) (mem : Memory) : Nat :=
  headLen fixed mem + (argLens fixed mem).sum

/- Whether every length of a request fits its field. -/
def Fields.Sized (f : Fields) : Prop :=
  f.username.length < 256 ∧ f.port.length < 256 ∧
    f.nacAddr.length < 256 ∧ f.args.length < 256 ∧
    ∀ a ∈ f.args, a.length < 256

theorem fieldAt_append
    {before field after : List UInt8}
    (h : data = before ++ (field ++ after)) :
    fieldAt (bodyAt data beyond) before.length field.length =
      field := by
  rw [fieldAt_inside _ (by simp [h]), h, List.drop_left,
    List.take_left]

theorem numAt_append
    {before after : List UInt8} (mid : List UInt8) {b : UInt8}
    {i : Nat} (h : data = before ++ (mid ++ (b :: after)))
    (hi : i = before.length + mid.length) :
    numAt (bodyAt data beyond) i = b.toNat := by
  rw [numAt, bodyAt, h, ← List.append_assoc,
    List.getElem?_append_right (by simp [hi]),
    List.length_append, hi, Nat.sub_self]
  rfl

theorem toNat_ofNat_length
    {α : Type} {xs : List α} (h : xs.length < 256) :
    (UInt8.ofNat xs.length).toNat = xs.length := by
  rw [UInt8.toNat_ofNat']
  exact Nat.mod_eq_of_lt h

theorem readArgs_append
    (args : List (List UInt8)) (before after : List UInt8)
    (h : data = before ++ (args.flatten ++ after)) :
    readArgs (bodyAt data beyond) before.length
      (args.map List.length) = args := by
  induction args generalizing before with
  | nil => rfl
  | cons a rest ih =>
      rw [List.flatten_cons, List.append_assoc] at h
      rw [List.map_cons, readArgs, fieldAt_append beyond h,
        ← List.length_append]
      rw [ih (before ++ a) (by rw [h, List.append_assoc])]

/- The lengths that are read from a body a NAS wrote. -/
theorem encodeBody_lengths
    (front : List UInt8) {f : Fields} (hSized : f.Sized)
    {fixed : Nat} (hFixed : fixed = front.length + 4) :
    let mem := bodyAt (encodeBody front f) beyond
    numAt mem (fixed - 4) = f.username.length ∧
      numAt mem (fixed - 3) = f.port.length ∧
      numAt mem (fixed - 2) = f.nacAddr.length ∧
      numAt mem (fixed - 1) = f.args.length ∧
      argLens fixed mem = f.args.map List.length := by
  rcases hSized with ⟨hUser, hPort, hAddr, hCount, hArgs⟩
  have hData : encodeBody front f = front ++
      (UInt8.ofNat f.username.length ::
        UInt8.ofNat f.port.length ::
        UInt8.ofNat f.nacAddr.length ::
        UInt8.ofNat f.args.length ::
        (f.args.map (fun a => UInt8.ofNat a.length) ++
          (f.username ++ (f.port ++
            (f.nacAddr ++ f.args.flatten))))) := by
    simp [encodeBody, List.append_assoc]
  generalize encodeBody front f = data at hData ⊢
  intro mem
  have hLast : numAt mem (fixed - 1) = f.args.length := by
    have h := numAt_append beyond
      [UInt8.ofNat f.username.length,
        UInt8.ofNat f.port.length,
        UInt8.ofNat f.nacAddr.length]
      hData (i := fixed - 1) (by simp [hFixed])
    rw [h, toNat_ofNat_length hCount]
  refine ⟨?_, ?_, ?_, hLast, ?_⟩
  · have h := numAt_append beyond [] hData
      (i := fixed - 4) (by simp [hFixed])
    rw [h, toNat_ofNat_length hUser]
  · have h := numAt_append beyond
      [UInt8.ofNat f.username.length]
      hData (i := fixed - 3) (by simp [hFixed])
    rw [h, toNat_ofNat_length hPort]
  · have h := numAt_append beyond
      [UInt8.ofNat f.username.length,
        UInt8.ofNat f.port.length]
      hData (i := fixed - 2) (by simp [hFixed])
    rw [h, toNat_ofNat_length hAddr]
  · rw [argLens, hLast]
    apply List.ext_getElem
    · simp
    · intro i hLeft hRight
      have hi : i < f.args.length := by simpa using hRight
      have hByte : data[fixed + i]? =
          some (UInt8.ofNat f.args[i].length) := by
        rw [hData, List.getElem?_append_right (by omega)]
        have hIndex : fixed + i - front.length =
            i + 1 + 1 + 1 + 1 := by omega
        rw [hIndex, List.getElem?_cons_succ,
          List.getElem?_cons_succ, List.getElem?_cons_succ,
          List.getElem?_cons_succ,
          List.getElem?_append_left (by simpa using hi),
          List.getElem?_map, List.getElem?_eq_getElem hi]
        rfl
      simp only [List.getElem_map, List.getElem_range, numAt,
        mem, bodyAt, hByte, Option.getD_some]
      exact toNat_ofNat_length (hArgs _ (List.getElem_mem hi))

theorem length_encodeBody (front : List UInt8) (f : Fields) :
    (encodeBody front f).length =
      front.length + 4 + f.username.length + f.port.length +
        f.nacAddr.length + f.args.length +
        (f.args.map List.length).sum := by
  simp only [encodeBody, List.length_append, List.length_cons,
    List.length_nil, List.length_map, List.length_flatten]
  omega

/- What a NAS writes announces its own length. -/
theorem announced_encodeBody
    (front : List UInt8) {f : Fields} (hSized : f.Sized)
    {fixed : Nat} (hFixed : fixed = front.length + 4) :
    announced fixed (bodyAt (encodeBody front f) beyond) =
      (encodeBody front f).length := by
  rcases encodeBody_lengths beyond front hSized hFixed with
    ⟨hUser, hPort, hAddr, hCount, hArgs⟩
  rw [announced, headLen, hUser, hPort, hAddr, hCount, hArgs,
    length_encodeBody]
  omega

/- What a NAS writes is read as it was meant. -/
theorem readFields_encodeBody
    (front : List UInt8) {f : Fields} (hSized : f.Sized)
    {fixed : Nat} (hFixed : fixed = front.length + 4) :
    readFields fixed (bodyAt (encodeBody front f) beyond) =
      f := by
  rcases encodeBody_lengths beyond front hSized hFixed with
    ⟨hUser, hPort, hAddr, hCount, hArgs⟩
  let front' : List UInt8 := front ++
    [UInt8.ofNat f.username.length, UInt8.ofNat f.port.length,
      UInt8.ofNat f.nacAddr.length, UInt8.ofNat f.args.length] ++
    f.args.map (fun a => UInt8.ofNat a.length)
  have hFront : front'.length = fixed + f.args.length := by
    simp only [front', List.length_append, List.length_cons,
      List.length_nil, List.length_map]
    omega
  have hData : encodeBody front f = front' ++
      (f.username ++ (f.port ++ (f.nacAddr ++
        f.args.flatten))) := by
    simp [encodeBody, front', List.append_assoc]
  rw [readFields, hUser, hPort, hAddr, hCount, hArgs]
  have hStart : headLen fixed
      (bodyAt (encodeBody front f) beyond) =
      (front' ++ f.username ++ f.port ++ f.nacAddr).length := by
    rw [headLen, hUser, hPort, hAddr, hCount]
    simp only [List.length_append, hFront]
    omega
  have hName := fieldAt_append beyond hData
  have hPortAt := fieldAt_append beyond
    (show encodeBody front f = (front' ++ f.username) ++
      (f.port ++ (f.nacAddr ++ f.args.flatten)) by
        rw [hData]; simp)
  have hAddrAt := fieldAt_append beyond
    (show encodeBody front f = (front' ++ f.username ++ f.port) ++
      (f.nacAddr ++ f.args.flatten) by
        rw [hData]; simp)
  have hArgsAt := readArgs_append beyond f.args
    (front' ++ f.username ++ f.port ++ f.nacAddr) []
    (show encodeBody front f = _ by rw [hData]; simp)
  simp only [List.length_append,
    hFront] at hName hPortAt hAddrAt
  rw [hStart, hArgsAt, hName, hPortAt, hAddrAt]

/- A body that announces no more than itself is what a NAS
   writes for the fields that are read from it. -/
theorem encodeBody_readFields
    {fixed : Nat} (hFixed : 4 ≤ fixed)
    (h : announced fixed (bodyAt data beyond) = data.length) :
    encodeBody (data.take (fixed - 4))
      (readFields fixed (bodyAt data beyond)) = data := by
  generalize hMem : bodyAt data beyond = mem at h ⊢
  have hField : ∀ start len, start + len ≤ data.length →
      fieldAt mem start len = (data.drop start).take len := by
    intro start len hIn
    rw [← hMem]
    exact fieldAt_inside beyond hIn
  rw [announced, headLen] at h
  have hBytes : [mem (fixed - 4), mem (fixed - 3),
      mem (fixed - 2), mem (fixed - 1)] =
      (data.drop (fixed - 4)).take 4 := by
    rw [← hField (fixed - 4) 4 (by omega)]
    have h1 : fixed - 4 + 1 = fixed - 3 := by omega
    have h2 : fixed - 4 + 2 = fixed - 2 := by omega
    have h3 : fixed - 4 + 3 = fixed - 1 := by omega
    simp only [fieldAt, List.range_succ, List.range_zero,
      List.nil_append, List.cons_append, List.map_cons,
      List.map_nil, Nat.add_zero, h1, h2, h3]
  have hLens : ((readArgs mem (headLen fixed mem)
      (argLens fixed mem)).map
        fun a => UInt8.ofNat a.length) =
      (data.drop fixed).take (numAt mem (fixed - 1)) := by
    rw [← hField fixed _ (by omega)]
    have hMap := congrArg (List.map UInt8.ofNat)
      (map_length_readArgs mem (argLens fixed mem)
        (headLen fixed mem))
    rw [List.map_map] at hMap
    refine Eq.trans hMap ?_
    rw [argLens, List.map_map]
    apply List.map_congr_left
    intro i _
    exact UInt8.ofNat_toNat
  have hCount : (readArgs mem (headLen fixed mem)
      (argLens fixed mem)).length = numAt mem (fixed - 1) := by
    have hLength := congrArg List.length hLens
    simp only [List.length_map, List.length_take,
      List.length_drop] at hLength
    omega
  have hText := (readArgs_inside beyond beyond
    (argLens fixed mem) (headLen fixed mem)
    (show _ ≤ data.length by rw [headLen]; omega)).1
  rw [hMem] at hText
  have hEnd : (data.drop (headLen fixed mem)).take
      (argLens fixed mem).sum =
      data.drop (headLen fixed mem) := by
    apply List.take_of_length_le
    rw [List.length_drop, headLen]
    omega
  rw [hEnd] at hText
  have hOfNat : ∀ i, UInt8.ofNat (numAt mem i) = mem i :=
    fun i => UInt8.ofNat_toNat
  simp only [encodeBody, readFields, length_fieldAt, hOfNat,
    hCount, hLens, hText, hBytes]
  rw [hField _ _ (by omega), hField _ _ (by omega),
    hField _ _ (by omega)]
  have h4 : fixed - 4 + 4 = fixed := by omega
  rw [← List.take_add, h4, ← List.take_add, ← List.take_add,
    ← List.take_add, ← List.take_add]
  have hHead : fixed + numAt mem (fixed - 1) +
      numAt mem (fixed - 4) + numAt mem (fixed - 3) +
      numAt mem (fixed - 2) = headLen fixed mem := by
    rw [headLen]
    omega
  rw [hHead, List.take_append_drop]

end TacPlus

end Soteria

------------------------------------------------------------
-- Requests with Arguments
------------------------------------------------------------

namespace Soteria

namespace TacPlus

/- The requests that carry arguments. -/
inductive ArgRequest where
| author
| accounting
deriving DecidableEq

def ArgRequest.fixed : ArgRequest → Nat
| author => authorFixed
| accounting => acctFixed

def ArgRequest.looksBogus :
    ArgRequest → Bool → List UInt8 → (Nat → UInt8) → Bool
| author => authorPakLooksBogus
| accounting => accountingPakLooksBogus

theorem ArgRequest.four_le_fixed (r : ArgRequest) :
    4 ≤ r.fixed := by
  cases r <;> decide

theorem ArgRequest.looksBogus_eq
    (r : ArgRequest) (compat : Bool) (data : List UInt8)
    (beyond : Nat → UInt8) :
    r.looksBogus compat data beyond =
      argPakLooksBogus r.fixed compat data.length
        (bodyAt data beyond) := by
  cases r <;> rfl

/- The arguments past the end of the body are read from what the
   memory has there. -/
theorem readArgs_outside
    {data : List UInt8} (beyond : Nat → UInt8)
    (lens : List Nat) (start : Nat) :
    (readArgs (bodyAt data beyond) (data.length + start)
      lens).flatten = fieldAt beyond start lens.sum := by
  induction lens generalizing start with
  | nil => simp [readArgs, fieldAt]
  | cons l rest ih =>
      have hField : fieldAt (bodyAt data beyond)
          (data.length + start) l = fieldAt beyond start l := by
        apply List.map_congr_left
        intro j _
        rw [bodyAt, List.getElem?_eq_none (by omega),
          Option.getD_none]
        exact congrArg beyond (by omega)
      have hSplit : fieldAt beyond start (l + rest.sum) =
          fieldAt beyond start l ++
            fieldAt beyond (start + l) rest.sum := by
        simp only [fieldAt, List.range_add, List.map_append,
          List.map_map, Function.comp_def, Nat.add_assoc]
      rw [readArgs, List.flatten_cons, hField, Nat.add_assoc,
        ih, List.sum_cons, hSplit]

theorem readArgs_take
    (mem : Memory) (k : Nat) (lens : List Nat) (start : Nat) :
    (readArgs mem start lens).take k =
        readArgs mem start (lens.take k) ∧
      (readArgs mem start lens).drop k =
        readArgs mem (start + (lens.take k).sum)
          (lens.drop k) := by
  induction lens generalizing start k with
  | nil => simp [readArgs]
  | cons l rest ih =>
      cases k with
      | zero => simp [readArgs]
      | succ k =>
          rcases ih k (start + l) with ⟨hTake, hDrop⟩
          simp only [readArgs, List.take_succ_cons,
            List.drop_succ_cons, List.sum_cons, hTake, hDrop,
            Nat.add_assoc, and_self]

/- The bodies that are taken and announce no more than they
   have are the ones a NAS writes for a request, and they are
   read as that request. -/
theorem ArgRequest.roundTrip
    (r : ArgRequest) (data : List UInt8)
    (beyond : Nat → UInt8) :
    (r.looksBogus false data beyond = false ∧
        announced r.fixed (bodyAt data beyond) ≤ data.length ↔
      ∃ front f, front.length = r.fixed - 4 ∧ f.Sized ∧
        data = encodeBody front f) ∧
      ∀ front f, front.length = r.fixed - 4 → f.Sized →
        data = encodeBody front f →
        readFields r.fixed (bodyAt data beyond) = f := by
  have hFixed := r.four_le_fixed
  refine ⟨⟨?_, ?_⟩, ?_⟩
  · rintro ⟨hTaken, hLe⟩
    rw [r.looksBogus_eq, argPak_accepted_iff] at hTaken
    have hExact : announced r.fixed (bodyAt data beyond) =
        data.length := by
      rcases hTaken with ⟨hFalse, -⟩ | ⟨k, hk, hSum⟩
      · cases hFalse
      · have h := sum_take_le
          (argLens r.fixed (bodyAt data beyond)) hk
        rw [List.take_length] at h
        rw [announced] at hLe ⊢
        omega
    refine ⟨data.take (r.fixed - 4),
      readFields r.fixed (bodyAt data beyond), ?_, ?_,
      (encodeBody_readFields beyond hFixed hExact).symm⟩
    · rw [List.length_take]
      rw [announced, headLen] at hExact
      omega
    · have hByte : ∀ i, numAt (bodyAt data beyond) i < 256 :=
        fun i => (bodyAt data beyond i).toNat_lt
      simp only [Fields.Sized, readFields, length_fieldAt,
        length_readArgs]
      refine ⟨hByte _, hByte _, hByte _, ?_, fun a ha => ?_⟩
      · rw [argLens, List.length_map, List.length_range]
        exact hByte _
      · have hLength := List.mem_map_of_mem (f := List.length) ha
        rw [map_length_readArgs] at hLength
        rcases List.mem_map.mp hLength with ⟨i, -, hEq⟩
        rw [← hEq]
        exact hByte _
  · rintro ⟨front, f, hFront, hSized, rfl⟩
    have hSize : r.fixed = front.length + 4 := by omega
    have hExact := announced_encodeBody beyond front hSized hSize
    refine ⟨?_, Nat.le_of_eq hExact⟩
    rw [r.looksBogus_eq, argPak_accepted_iff]
    refine Or.inr ⟨_, Nat.le_refl _, ?_⟩
    rw [List.take_length]
    exact hExact
  · rintro front f hFront hSized rfl
    exact readFields_encodeBody beyond front hSized (by omega)

/- The texts before the arguments are inside of a taken body. -/
theorem readFields_head
    {data : List UInt8} (beyond beyond' : Nat → UInt8)
    {fixed : Nat} (hFixed : 4 ≤ fixed)
    (h : headLen fixed (bodyAt data beyond) ≤ data.length) :
    let f := readFields fixed (bodyAt data beyond)
    let f' := readFields fixed (bodyAt data beyond')
    f'.username = f.username ∧ f'.port = f.port ∧
      f'.nacAddr = f.nacAddr := by
  rw [headLen] at h
  have hNum : ∀ i < fixed, numAt (bodyAt data beyond') i =
      numAt (bodyAt data beyond) i :=
    fun i hi => numAt_inside beyond' beyond (by omega)
  have hField : ∀ start len, start + len ≤ data.length →
      fieldAt (bodyAt data beyond') start len =
        fieldAt (bodyAt data beyond) start len := by
    intro start len hIn
    rw [fieldAt_inside beyond' hIn, fieldAt_inside beyond hIn]
  simp only [readFields, hNum (fixed - 4) (by omega),
    hNum (fixed - 3) (by omega), hNum (fixed - 2) (by omega),
    hNum (fixed - 1) (by omega)]
  exact ⟨hField _ _ (by omega), hField _ _ (by omega),
    hField _ _ (by omega)⟩

/- Where a taken body announces more than it has, the texts of
   the first arguments fill it and those of the others are what
   the memory has after it. -/
theorem ArgRequest.taken
    (r : ArgRequest) (data : List UInt8)
    (beyond : Nat → UInt8)
    (hTaken : r.looksBogus false data beyond = false) :
    let mem := bodyAt data beyond
    let f := readFields r.fixed mem
    (∀ beyond', r.looksBogus false data beyond' = false ∧
      let f' := readFields r.fixed (bodyAt data beyond')
      f'.username = f.username ∧ f'.port = f.port ∧
        f'.nacAddr = f.nacAddr) ∧
      ∃ k ≤ f.args.length,
        (f.args.take k).flatten =
          data.drop (headLen r.fixed mem) ∧
        (f.args.drop k).flatten =
          fieldAt beyond 0
            (announced r.fixed mem - data.length) := by
  intro mem f
  have hFixed := r.four_le_fixed
  have hBeyond : ∀ beyond',
      r.looksBogus false data beyond' = false := by
    intro beyond'
    rw [r.looksBogus_eq] at hTaken ⊢
    rw [argPak_beyond beyond' beyond hFixed, hTaken]
  rw [r.looksBogus_eq, argPak_accepted_iff] at hTaken
  rcases hTaken with ⟨hFalse, -⟩ | ⟨k, hk, hSum⟩
  · cases hFalse
  · change headLen r.fixed mem +
      ((argLens r.fixed mem).take k).sum = data.length at hSum
    rcases readArgs_take mem k (argLens r.fixed mem)
      (headLen r.fixed mem) with ⟨hTake, hDrop⟩
    have hTotal : ((argLens r.fixed mem).take k).sum +
        ((argLens r.fixed mem).drop k).sum =
        (argLens r.fixed mem).sum := by
      rw [← List.sum_append, List.take_append_drop]
    refine ⟨fun beyond' => ⟨hBeyond beyond',
      readFields_head beyond beyond' hFixed
        (show headLen r.fixed mem ≤ data.length by omega)⟩,
      k, ?_, ?_, ?_⟩
    · change k ≤ (readArgs mem _ _).length
      rw [length_readArgs]
      exact hk
    · change ((readArgs mem _ _).take k).flatten = _
      rw [hTake, (readArgs_inside beyond beyond _ _
        (Nat.le_of_eq hSum)).1]
      apply List.take_of_length_le
      rw [List.length_drop]
      omega
    · change ((readArgs mem _ _).drop k).flatten = _
      rw [hDrop, hSum, ← Nat.add_zero data.length,
        readArgs_outside, announced]
      exact congrArg (fieldAt beyond 0) (by omega)

/- A body of fixed fields and the length of an only argument,
   without its text. -/
theorem ArgRequest.taken_short :
    authorPakLooksBogus false [0, 0, 0, 0, 0, 0, 0, 1, 3]
        (fun _ => 65) = false ∧
      (readFields authorFixed
        (bodyAt [0, 0, 0, 0, 0, 0, 0, 1, 3]
          fun _ => 65)).args = [[65, 65, 65]] ∧
      ∃ k ≤ 1, ([[65, 65, 65]].drop k).flatten =
        fieldAt (fun _ => 65) 0 3 := by
  refine ⟨by decide, by decide, ?_⟩
  rcases (ArgRequest.taken .author
    [0, 0, 0, 0, 0, 0, 0, 1, 3] (fun _ => 65)
    (by decide)).2 with ⟨k, hk, -, hDrop⟩
  exact ⟨k, hk, hDrop⟩

end TacPlus

end Soteria

------------------------------------------------------------
-- Authentication
------------------------------------------------------------

namespace Soteria

namespace TacPlus

def authenFixed (seqNo : UInt8) : Nat :=
  if seqNo = 1 then authenStartFixed else authenContFixed

/- The lengths in the fixed fields: of the user name, the port,
   the address and the data of a START, and of the message and
   the data of a CONTINUE. -/
def authenLens (seqNo : UInt8) (mem : Memory) : List Nat :=
  if seqNo = 1 then
    [numAt mem 4, numAt mem 5, numAt mem 6, numAt mem 7]
  else [shortAt mem 0, shortAt mem 2]

/- The texts of a body where `authen` reads them. An ASCII login
   makes nothing of the data of its START. -/
def authenTexts (seqNo : UInt8) (mem : Memory) :
    List (List UInt8) :=
  readArgs mem (authenFixed seqNo) (authenLens seqNo mem)

variable {data : List UInt8} (beyond beyond' : Nat → UInt8)

theorem authenPak_eq (compat : Bool) (seqNo : UInt8) :
    authenPakLooksBogus compat seqNo data beyond =
      let len := authenFixed seqNo +
        (authenLens seqNo (bodyAt data beyond)).sum
      if compat then decide (len > data.length)
      else decide (len ≠ data.length) := by
  rw [authenPakLooksBogus, authenFixed, authenLens]
  by_cases hStart : seqNo = 1
  · simp [hStart, Nat.add_assoc]
  · simp [hStart, Nat.add_assoc]

theorem authenLens_inside
    {seqNo : UInt8} (h : authenFixed seqNo ≤ data.length) :
    authenLens seqNo (bodyAt data beyond) =
      authenLens seqNo (bodyAt data beyond') := by
  have hNum := fun i (hi : i < data.length) =>
    numAt_inside beyond beyond' hi
  rw [authenFixed] at h
  rw [authenLens, authenLens]
  by_cases hStart : seqNo = 1
  · rw [if_pos hStart, authenStartFixed] at h
    rw [if_pos hStart, if_pos hStart, hNum 4 (by omega),
      hNum 5 (by omega), hNum 6 (by omega), hNum 7 (by omega)]
  · rw [if_neg hStart, authenContFixed] at h
    rw [if_neg hStart, if_neg hStart, shortAt, shortAt, shortAt,
      shortAt, hNum 0 (by omega), hNum (0 + 1) (by omega),
      hNum 2 (by omega), hNum (2 + 1) (by omega)]

/- The texts of an authentication body that is taken are in the
   body, and are all of it but for a host known to announce too
   long bodies. -/
theorem authenTexts_taken
    (compat : Bool) (seqNo : UInt8) (data : List UInt8)
    (beyond : Nat → UInt8)
    (hTaken :
      authenPakLooksBogus compat seqNo data beyond = false) :
    let texts := authenTexts seqNo (bodyAt data beyond)
    (∀ beyond',
      authenPakLooksBogus compat seqNo data beyond' = false ∧
      authenTexts seqNo (bodyAt data beyond') = texts) ∧
    texts.flatten <+: data.drop (authenFixed seqNo) ∧
    (compat = false →
      texts.flatten = data.drop (authenFixed seqNo)) := by
  intro texts
  let sum := (authenLens seqNo (bodyAt data beyond)).sum
  have hSum : authenFixed seqNo + sum ≤ data.length ∧
      (compat = false →
        authenFixed seqNo + sum = data.length) := by
    rw [authenPak_eq] at hTaken
    cases compat with
    | true => exact ⟨by simpa using hTaken,
        fun h => absurd h.symm Bool.false_ne_true⟩
    | false =>
        have hEq : authenFixed seqNo + sum = data.length := by
          simpa using hTaken
        exact ⟨Nat.le_of_eq hEq, fun _ => hEq⟩
  have hTexts : texts.flatten =
      (data.drop (authenFixed seqNo)).take sum :=
    (readArgs_inside beyond beyond _ _ hSum.1).1
  refine ⟨fun beyond' => ⟨?_, ?_⟩, ?_, fun hExact => ?_⟩
  · rw [← hTaken]
    exact authenPak_beyond beyond' beyond compat seqNo
  · have hLens := authenLens_inside beyond' beyond
      (Nat.le_trans (Nat.le_add_right _ _) hSum.1)
    rw [authenTexts, hLens]
    exact (readArgs_inside beyond' beyond _ _ hSum.1).2
  · rw [hTexts]
    exact List.take_prefix _ _
  · rw [hTexts]
    apply List.take_of_length_le
    rw [List.length_drop]
    have hEq := hSum.2 hExact
    omega

theorem authenTexts_taken_start :
    let body := [1, 0, 1, 1, 1, 1, 0, 1, 97, 98, 99]
    authenTexts 1 (bodyAt body fun _ => 65) =
        [[97], [98], [], [99]] ∧
      (authenTexts 1 (bodyAt body fun _ => 65)).flatten =
        body.drop (authenFixed 1) := by
  intro body
  exact ⟨by decide, (authenTexts_taken false 1 body
    (fun _ => 65) (by decide)).2.2 rfl⟩

end TacPlus

end Soteria
