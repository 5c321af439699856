import Soteria.Foundation.Regex

/-
  Integers in decimal notation, as Go's `%d` writes them and
  `strconv` reads them.

  `parseInt` has no bound of its own: where `strconv` finds a
  number out of range, the caller rejects it or takes the
  bound that `strconv` returns with the error, `clamp64`.

  Key definitions include:
    * `Text.ofNat`, `Text.ofInt`
    * `Text.digitsValue`, `Text.parseInt`
    * `clamp64`, `wrap64`
    * `Text.parseInt_ofInt`, `Text.ofNat_digitsValue`
-/

------------------------------------------------------------
-- Writing and Reading
------------------------------------------------------------

namespace Text

/- The digits of a number. -/
def ofNat (n : Nat) : Text :=
  Nat.toDigits 10 n

/- The `%d` verb and `strconv.Itoa`. -/
def ofInt : Int → Text
| .ofNat n => ofNat n
| .negSucc n => '-' :: ofNat (n + 1)

/- The number with these digits. -/
def digitsValue (digits : Text) : Nat :=
  Nat.ofDigitChars 10 digits 0

/- `strconv.ParseInt` with base 10. -/
def parseInt (s : Text) : Option Int :=
  let digits :=
    if s.hasPrefix ['-'] || s.hasPrefix ['+'] then s.drop 1
    else s
  if digits = [] || !digits.all Regex.digit then none
  else if s.hasPrefix ['-'] then some (-(digitsValue digits))
  else some (digitsValue digits)

end Text

------------------------------------------------------------
-- Numbers of 64 Bits
------------------------------------------------------------

/- What a number out of range is read as. -/
def clamp64 (n : Int) : Int :=
  max (-0x8000000000000000) (min n 0x7fffffffffffffff)

/- What is left of a sum that is stored in an `int64`. -/
def wrap64 (n : Int) : Int :=
  Int.bmod n 0x10000000000000000

theorem clamp64_eq_self_iff
    {n : Int} :
    clamp64 n = n ↔
      -0x8000000000000000 ≤ n ∧ n < 0x8000000000000000 := by
  unfold clamp64
  omega

theorem wrap64_of_fits
    {n : Int}
    (hLow : -0x8000000000000000 ≤ n)
    (hHigh : n < 0x8000000000000000) :
    wrap64 n = n := by
  unfold wrap64
  rw [Int.bmod_eq_of_le]
  · omega
  · omega

/- What is stored fits. -/
theorem clamp64_wrap64 (n : Int) :
    clamp64 (wrap64 n) = wrap64 n := by
  have hPos : 0 < 0x10000000000000000 := by decide
  have hLow := Int.le_bmod (x := n) hPos
  have hHigh := Int.bmod_lt (x := n) hPos
  rw [clamp64_eq_self_iff]
  unfold wrap64
  omega

------------------------------------------------------------
-- Reading Back
------------------------------------------------------------

namespace Text

theorem ofNat_ne_nil (n : Nat) : ofNat n ≠ [] :=
  Nat.toDigits_ne_nil

theorem digit_of_mem_ofNat
    {n : Nat}
    {c : Char}
    (hMem : c ∈ ofNat n) :
    Regex.digit c = true := by
  have hDigit :=
    Nat.isDigit_of_mem_toDigits (by decide) (by decide) hMem
  simp only [Char.isDigit, Bool.and_eq_true,
    decide_eq_true_eq] at hDigit
  simp only [Regex.digit, Bool.and_eq_true, decide_eq_true_eq]
  exact hDigit

theorem isSpace_of_digit
    {c : Char}
    (hDigit : Regex.digit c = true) :
    isSpace c = false := by
  have hListed :
      ∀ d ∈ ['\t', '\n', '\x0b', '\x0c', '\r', ' ', '\x85',
        '\xa0', '\u1680', '\u2028', '\u2029', '\u202f',
        '\u205f', '\u3000'], Regex.digit d = false := by
    decide
  by_contra hSpace
  rw [Bool.not_eq_false] at hSpace
  unfold isSpace at hSpace
  rcases Bool.or_eq_true_iff.mp hSpace with hMem | hRange
  · rw [hListed c (of_decide_eq_true hMem)] at hDigit
    cases hDigit
  · simp only [Bool.and_eq_true, decide_eq_true_eq] at hRange
    simp only [Regex.digit, Bool.and_eq_true,
      decide_eq_true_eq] at hDigit
    have hLow : '\u2000' ≤ '9' :=
      Char.le_trans hRange.1 hDigit.2
    exact absurd hLow (by decide)

@[simp] theorem digitsValue_ofNat (n : Nat) :
    digitsValue (ofNat n) = n :=
  Nat.ofDigitChars_ten_toDigits

/- What `%d` writes is read as the number. -/
theorem parseInt_ofInt (n : Int) :
    parseInt (ofInt n) = some n := by
  have hAll : ∀ m, (ofNat m).all Regex.digit = true := by
    intro m
    rw [List.all_eq_true]
    exact fun c hMem => digit_of_mem_ofNat hMem
  cases n with
  | ofNat n =>
      rcases List.exists_cons_of_ne_nil (ofNat_ne_nil n) with
        ⟨c, rest, hDigits⟩
      have hFirst : Regex.digit c = true :=
        digit_of_mem_ofNat (n := n) (by simp [hDigits])
      have hSign :
          (ofNat n).hasPrefix ['-'] = false ∧
            (ofNat n).hasPrefix ['+'] = false := by
        have hSigns : c ≠ '-' ∧ c ≠ '+' := by
          constructor
          · rintro rfl
            exact absurd hFirst (by decide)
          · rintro rfl
            exact absurd hFirst (by decide)
        rw [hDigits]
        simp [hasPrefix, List.isPrefixOf, Ne.symm hSigns.1,
          Ne.symm hSigns.2]
      unfold parseInt ofInt
      simp only [hSign, Bool.or_false, Bool.false_eq_true,
        if_false, hAll, ofNat_ne_nil, digitsValue_ofNat]
      rfl
  | negSucc n =>
      have hSign :
          Text.hasPrefix ('-' :: ofNat (n + 1)) ['-'] = true := by
        simp [hasPrefix, List.isPrefixOf]
      unfold parseInt ofInt
      simp only [hSign, Bool.true_or, if_true,
        List.drop_succ_cons, List.drop_zero, hAll,
        ofNat_ne_nil, digitsValue_ofNat]
      rfl

end Text

------------------------------------------------------------
-- Canonical Digits
------------------------------------------------------------

namespace Text

/- A digit is the digit of its value. -/
theorem digitChar_of_digit
    {c : Char}
    (hDigit : Regex.digit c = true) :
    c.toNat - '0'.toNat < 10 ∧
      Nat.digitChar (c.toNat - '0'.toNat) = c := by
  simp only [Regex.digit, Bool.and_eq_true,
    decide_eq_true_eq, Char.le_def, UInt32.le_iff_toNat_le]
    at hDigit
  change 48 ≤ c.toNat ∧ c.toNat ≤ 57 at hDigit
  have hValue : c.toNat - '0'.toNat < 10 := by
    change c.toNat - 48 < 10
    omega
  refine ⟨hValue, ?_⟩
  apply Char.toNat_inj.mp
  rw [Nat.toNat_digitChar_of_lt_ten hValue]
  change 48 + (c.toNat - 48) = c.toNat
  omega

/-
  Digits are those of their value unless there is a zero in
  front of them.
-/
theorem ofNat_digitsValue
    {s : Text}
    (hDigits : ∀ c ∈ s, Regex.digit c = true)
    (hSome : s ≠ [])
    (hLead : s.head? = some '0' → s.length = 1) :
    ofNat (digitsValue s) = s := by
  induction s using List.reverseRecOn with
  | nil => exact absurd rfl hSome
  | append_singleton s c ih =>
      rcases digitChar_of_digit (hDigits c (by simp)) with
        ⟨hSmall, hChar⟩
      by_cases hFirst : s = []
      · subst hFirst
        change Nat.toDigits 10 (10 * 0 + _) = [c]
        rw [Nat.mul_zero, Nat.zero_add,
          Nat.toDigits_of_lt_base hSmall, hChar]
      · have hInit :
            ofNat (digitsValue s) = s := by
          apply ih
          · exact fun d hMem =>
              hDigits d (List.mem_append_left _ hMem)
          · exact hFirst
          · intro hZero
            have hLong := hLead (by
              rw [List.head?_append_of_ne_nil _ hFirst, hZero])
            rw [List.length_append, List.length_singleton]
              at hLong
            have hPos := List.length_pos_iff.mpr hFirst
            omega
        have hPos : 0 < digitsValue s := by
          apply Nat.pos_of_ne_zero
          intro hZero
          have hText : s = ['0'] := by
            rw [← hInit, hZero]
            rfl
          rw [hText] at hLead
          exact absurd (hLead rfl) (by simp)
        have hValue :
            digitsValue (s ++ [c]) =
              10 * digitsValue s + (c.toNat - '0'.toNat) := by
          unfold digitsValue
          rw [Nat.ofDigitChars_append, Nat.ofDigitChars_cons,
            Nat.ofDigitChars_nil]
        rw [hValue, ofNat,
          ← Nat.toDigits_append_toDigits (by decide) hPos
            hSmall,
          Nat.toDigits_of_lt_base hSmall, hChar]
        exact congrArg (· ++ [c]) hInit

end Text
