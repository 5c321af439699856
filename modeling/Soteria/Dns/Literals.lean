import Soteria.Foundation.Words
import Soteria.Dns.ReverseNames

/-
  The literals of addresses, and what is read as an address.

  Key definitions include:
    * `DottedQuad`
    * `HexGroup`, `Groups`, `IPv6Literal`
    * `literal_of_parseIPv6`, `small_of_parseAddr`
-/

------------------------------------------------------------
-- Literals
------------------------------------------------------------

namespace Soteria

namespace Dns

/- Four numbers up to 255 with dots between them. -/
def DottedQuad (s : Text) : Prop :=
  ∃ octets, Quad octets ∧ s = dotted octets

/- One to four hexadecimal digits. -/
structure HexGroup (g : Text) : Prop where
  some : g ≠ []
  short : g.length ≤ 4
  digits : ∀ c ∈ g, (hexValue c).isSome = true

/-
  So many groups with colons between them. A dotted quad may
  stand for the last two.
-/
inductive Groups (quads : Bool) : Nat → Text → Prop where
  | hex {g : Text} : HexGroup g → Groups quads 1 g
  | quad {s : Text} :
      quads = true → DottedQuad s → Groups quads 2 s
  | cons {g s : Text} {n : Nat} :
      HexGroup g → Groups quads n s →
        Groups quads (n + 1) (g ++ ':' :: s)

/- The groups on one side of a `::`, if there are any. -/
def Side (quads : Bool) (n : Nat) (s : Text) : Prop :=
  (n = 0 ∧ s = []) ∨ Groups quads n s

/- Eight groups, or fewer and a `::` for the others. -/
def IPv6Literal (s : Text) : Prop :=
  Groups true 8 s ∨
    ∃ n m left right, s = left ++ ':' :: ':' :: right ∧
      n + m ≤ 7 ∧ Side false n left ∧ Side true m right

theorem dottedQuad_of_parse
    {s : Text}
    {v4 : List Nat}
    (hParsed : parseIPv4Fields s = some v4) :
    DottedQuad s ∧ Quad v4 := by
  rcases parseIPv4Fields_eq_some.mp hParsed with
    ⟨hText, hQuad⟩
  exact ⟨⟨v4, hQuad, hText⟩, hQuad⟩

/- There is no colon in a dotted quad. -/
theorem DottedQuad.colon_not_mem
    {s : Text}
    (hQuad : DottedQuad s) :
    ':' ∉ s := by
  rcases hQuad with ⟨octets, -, rfl⟩
  intro hMem
  rcases Text.mem_joined hMem with hDot | ⟨w, hw, hColon⟩
  · exact absurd hDot (by decide)
  · rcases List.mem_map.mp hw with ⟨b, -, rfl⟩
    exact not_mem_ofNat (by decide) b hColon

end Dns

end Soteria

------------------------------------------------------------
-- The Groups That Are Read
------------------------------------------------------------

namespace Soteria

namespace Dns

theorem hexValue_lt
    {c : Char}
    {d : Nat}
    (hValue : hexValue c = some d) :
    d < 16 := by
  have hBound :
      ∀ a b : Char, (decide (a ≤ c) && decide (c ≤ b)) = true →
        a.toNat ≤ c.toNat ∧ c.toNat ≤ b.toNat := by
    intro a b hRange
    rw [Bool.and_eq_true, decide_eq_true_eq,
      decide_eq_true_eq] at hRange
    exact hRange
  unfold hexValue at hValue
  split at hValue
  · rename_i hRange
    have hDigit := (hBound _ _ hRange).2
    rw [← Option.some.inj hValue]
    have hNine : '9'.toNat = 57 := rfl
    have hZero : '0'.toNat = 48 := rfl
    omega
  · split at hValue
    · rename_i hRange
      have hLower := (hBound _ _ hRange).2
      rw [← Option.some.inj hValue]
      have hLast : 'f'.toNat = 102 := rfl
      have hFirst : 'a'.toNat = 97 := rfl
      omega
    · split at hValue
      · rename_i hRange
        have hUpper := (hBound _ _ hRange).2
        rw [← Option.some.inj hValue]
        have hLast : 'F'.toNat = 70 := rfl
        have hFirst : 'A'.toNat = 65 := rfl
        omega
      · cases hValue

/- Digits below sixteen make a number of so many digits. -/
theorem foldl_hex_lt
    {ds : List Nat}
    (hSmall : ∀ d ∈ ds, d < 16)
    (value : Nat) :
    ds.foldl (fun v d => 16 * v + d) value <
      (value + 1) * 16 ^ ds.length := by
  induction ds generalizing value with
  | nil => simp
  | cons d ds ih =>
      have hDigit := hSmall d (List.mem_cons_self ..)
      have hRest :=
        ih (fun e he => hSmall e (List.mem_cons_of_mem _ he))
          (16 * value + d)
      rw [List.foldl_cons, List.length_cons, Nat.pow_succ]
      refine lt_of_lt_of_le hRest ?_
      calc
        (16 * value + d + 1) * 16 ^ ds.length
            ≤ ((value + 1) * 16) * 16 ^ ds.length :=
          Nat.mul_le_mul_right _ (by omega)
        _ = (value + 1) * (16 ^ ds.length * 16) := by
          rw [Nat.mul_assoc, Nat.mul_comm 16]

/- A group that is read is one of a literal. -/
theorem hexGroup_of_parse
    {digits : Text}
    {value : Nat}
    (hDigits : ∀ c ∈ digits, (hexValue c).isSome = true)
    (hParsed : parseGroup digits = some value) :
    HexGroup digits ∧ value < 65536 := by
  unfold parseGroup at hParsed
  split at hParsed
  · cases hParsed
  · rename_i hShape
    simp only [Bool.or_eq_true, decide_eq_true_eq, not_or,
      not_lt] at hShape
    refine ⟨⟨hShape.1, hShape.2, hDigits⟩, ?_⟩
    have hSmall :
        ∀ d ∈ digits.filterMap hexValue, d < 16 := by
      intro d hd
      rcases List.mem_filterMap.mp hd with ⟨c, -, hValue⟩
      exact hexValue_lt hValue
    have hLess := foldl_hex_lt hSmall 0
    have hLength :
        (digits.filterMap hexValue).length ≤ 4 :=
      (List.length_filterMap_le ..).trans hShape.2
    rw [← Option.some.inj hParsed]
    calc
      _ < (0 + 1) * 16 ^ (digits.filterMap hexValue).length :=
        hLess
      _ ≤ 16 ^ 4 := by
        rw [Nat.zero_add, Nat.one_mul]
        exact Nat.pow_le_pow_right (by decide) hLength
      _ = 65536 := by decide

/- The two bytes of a group behind those before it. -/
def withGroup (bytes : List Nat) (value : Nat) : List Nat :=
  bytes ++ [value / 256, value % 256]

/- What the loop over the groups does with the next one. -/
inductive GroupRead
    (room : Nat)
    (bytes : List Nat)
    (ellipsis : Option Nat) :
    Text → List Nat × Option Nat × Text → Prop where
  | quad {s : Text} {v4 : List Nat} :
      0 < room → parseIPv4Fields s = some v4 →
        GroupRead room bytes ellipsis s
          (bytes ++ v4, ellipsis, [])
  | last {g : Text} {value : Nat} :
      HexGroup g → value < 65536 →
        GroupRead room bytes ellipsis g
          (withGroup bytes value, ellipsis, [])
  | lastEllipsis {g : Text} {value : Nat} :
      HexGroup g → value < 65536 → ellipsis = none →
        GroupRead room bytes ellipsis (g ++ [':', ':'])
          (withGroup bytes value,
            some (withGroup bytes value).length, [])
  | ellipsis {g rest : Text} {value : Nat}
      {result : List Nat × Option Nat × Text} :
      HexGroup g → value < 65536 → ellipsis = none →
        rest ≠ [] →
          parseGroups room (withGroup bytes value)
              (some (withGroup bytes value).length) rest =
            some result →
            GroupRead room bytes ellipsis
              (g ++ ':' :: ':' :: rest) result
  | next {g rest : Text} {value : Nat}
      {result : List Nat × Option Nat × Text} :
      HexGroup g → value < 65536 → rest ≠ [] →
        parseGroups room (withGroup bytes value) ellipsis rest =
            some result →
          GroupRead room bytes ellipsis (g ++ ':' :: rest)
            result

theorem parseGroups_cases
    {room : Nat}
    {bytes : List Nat}
    {ellipsis : Option Nat}
    {s : Text}
    {result : List Nat × Option Nat × Text}
    (hParsed :
      parseGroups (room + 1) bytes ellipsis s = some result) :
    GroupRead room bytes ellipsis s result := by
  unfold parseGroups at hParsed
  rcases List.takeWhile_prefix (l := s)
      fun c => (hexValue c).isSome with ⟨after, hText⟩
  have hDigits :
      ∀ c ∈ s.takeWhile (fun c => (hexValue c).isSome),
        (hexValue c).isSome = true :=
    fun c hc =>
      List.mem_takeWhile_imp (p := fun c => (hexValue c).isSome) hc
  generalize s.takeWhile (fun c => (hexValue c).isSome) = g
    at hParsed hText hDigits
  have hAfter : s.drop g.length = after := by
    rw [← hText, List.drop_left]
  dsimp only at hParsed
  rw [hAfter] at hParsed
  cases hGroup : parseGroup g with
  | none =>
      rw [hGroup] at hParsed
      cases hParsed
  | some value =>
      rcases hexGroup_of_parse hDigits hGroup with ⟨hHex, hValue⟩
      rw [hGroup] at hParsed
      subst hText
      split at hParsed
      · cases hParsed
      · split at hParsed
        · cases hParsed
        · split at hParsed
          · cases hParsed
          · rename_i hRoom
            rcases Option.map_eq_some_iff.mp hParsed with
              ⟨v4, hQuad, rfl⟩
            exact .quad (Nat.pos_of_ne_zero hRoom) hQuad
      · rename_i hSame
        cases hSame
        cases hParsed
        rw [List.append_nil]
        exact .last hHex hValue
      · cases hParsed
      · rename_i rest hSame
        cases hSame
        split at hParsed
        · cases hParsed
        · rename_i hOnce
          rw [Bool.not_eq_true, Option.isSome_eq_false_iff,
            Option.isNone_iff_eq_none] at hOnce
          split at hParsed
          · rename_i hEnd
            subst hEnd
            cases hParsed
            exact .lastEllipsis hHex hValue hOnce
          · rename_i hRest
            exact .ellipsis hHex hValue hOnce hRest hParsed
      · rename_i rest hLast hDouble hSame
        cases hSame
        refine .next hHex hValue ?_ hParsed
        rintro rfl
        exact hLast rfl
      · cases hParsed

@[simp] theorem length_withGroup
    (bytes : List Nat)
    (value : Nat) :
    (withGroup bytes value).length = bytes.length + 2 := by
  unfold withGroup
  rw [List.length_append]
  rfl

/-
  What a run of the loop has read to the end of a text: the
  groups of the text, or those on the two sides of a `::`.
-/
inductive GroupsRead
    (room : Nat)
    (bytes : List Nat)
    (s : Text) : Option Nat → List Nat → Option Nat → Prop where
  | plain {ellipsis : Option Nat} {n : Nat}
      {bytes' : List Nat} :
      n ≤ room → Groups true n s →
        bytes'.length = bytes.length + 2 * n →
          GroupsRead room bytes s ellipsis bytes' ellipsis
  | split {n m place : Nat} {left right : Text}
      {bytes' : List Nat} :
      s = left ++ ':' :: ':' :: right →
        Groups false n left → Side true m right →
          bytes'.length = bytes.length + 2 * (n + m) →
            GroupsRead room bytes s none bytes' (some place)

theorem groupsRead_of_parse
    {room : Nat}
    {bytes bytes' : List Nat}
    {ellipsis ellipsis' : Option Nat}
    {s : Text}
    (hSome : s ≠ [])
    (hParsed :
      parseGroups room bytes ellipsis s =
        some (bytes', ellipsis', [])) :
    GroupsRead room bytes s ellipsis bytes' ellipsis' := by
  induction room generalizing bytes ellipsis s with
  | zero =>
      rw [parseGroups] at hParsed
      cases hParsed
      exact absurd rfl hSome
  | succ room ih =>
      have hCases := parseGroups_cases hParsed
      generalize hResult : (bytes', ellipsis', ([] : Text)) =
        result at hCases
      cases hCases with
      | quad hRoom hV4 =>
          cases hResult
          rcases dottedQuad_of_parse hV4 with ⟨hQuad, hFour⟩
          refine .plain (n := 2) (by omega) (.quad rfl hQuad) ?_
          rw [List.length_append, hFour.four]
      | last hHex _ =>
          cases hResult
          exact .plain (n := 1) (by omega) (.hex hHex) (by simp)
      | lastEllipsis hHex _ hNone =>
          cases hResult
          subst hNone
          exact .split (n := 1) (m := 0) rfl (.hex hHex)
            (Or.inl ⟨rfl, rfl⟩) (by simp)
      | ellipsis hHex _ hNone hRest hMore =>
          subst hResult
          subst hNone
          generalize hPlace :
            some (withGroup bytes _).length = place at hMore
          cases ih hRest hMore with
          | plain hFew hGroups hLength =>
              rw [length_withGroup] at hLength
              subst hPlace
              exact .split (n := 1) rfl (.hex hHex)
                (Or.inr hGroups) (by omega)
          | split _ _ _ _ => cases hPlace
      | next hHex _ hRest hMore =>
          subst hResult
          cases ih hRest hMore with
          | plain hFew hGroups hLength =>
              rw [length_withGroup] at hLength
              exact .plain (by omega) (.cons hHex hGroups)
                (by omega)
          | split hText hLeft hRight hLength =>
              rw [length_withGroup] at hLength
              rw [hText]
              exact .split (by simp) (.cons hHex hLeft) hRight
                (by omega)

/- An address is whole, or it gets the zeros it lacks. -/
theorem expandEllipsis_cases
    {bytes : List Nat}
    {ellipsis : Option Nat}
    {ip : IP}
    (hExpanded : expandEllipsis bytes ellipsis = some ip) :
    (ellipsis = none ∧ 16 ≤ bytes.length ∧ ip = bytes) ∨
      ∃ place, ellipsis = some place ∧ bytes.length < 16 ∧
        ip = bytes.take place ++
          List.replicate (16 - bytes.length) 0 ++
            bytes.drop place := by
  cases ellipsis with
  | none =>
      simp only [expandEllipsis] at hExpanded
      split at hExpanded
      · cases hExpanded
      · rename_i hLong
        exact Or.inl ⟨rfl, not_lt.mp hLong,
          (Option.some.inj hExpanded).symm⟩
  | some place =>
      simp only [expandEllipsis] at hExpanded
      split at hExpanded
      · rename_i hShort
        exact Or.inr ⟨place, rfl, hShort,
          (Option.some.inj hExpanded).symm⟩
      · cases hExpanded

/- The start of an address, and the groups behind it. -/
theorem parseIPv6_cases
    {s : Text}
    {ip : IP}
    (hParsed : parseIPv6 s = some ip) :
    ∃ bytes ellipsis,
      expandEllipsis bytes ellipsis = some ip ∧
        ((s = [':', ':'] ∧ bytes = [] ∧ ellipsis = some 0) ∨
          (∃ rest, s = ':' :: ':' :: rest ∧ rest ≠ [] ∧
            parseGroups 8 [] (some 0) rest =
              some (bytes, ellipsis, [])) ∨
          parseGroups 8 [] none s =
            some (bytes, ellipsis, [])) := by
  unfold parseIPv6 at hParsed
  split at hParsed
  · cases hParsed
  · simp only at hParsed
    split at hParsed
    · rename_i bytes ellipsis hStart
      refine ⟨bytes, ellipsis, hParsed, ?_⟩
      split at hStart
      · cases hStart
        exact Or.inl ⟨rfl, rfl, rfl⟩
      · rename_i rest hMore _
        refine Or.inr (Or.inl ⟨rest, rfl, ?_, hStart⟩)
        rintro rfl
        exact hMore rfl
      · exact Or.inr (Or.inr hStart)
    · cases hParsed

/- What is read as an address with colons is a literal. -/
theorem literal_of_parseIPv6
    {s : Text}
    {ip : IP}
    (hSome : s ≠ [])
    (hParsed : parseIPv6 s = some ip) :
    IPv6Literal s := by
  rcases parseIPv6_cases hParsed with
    ⟨bytes, ellipsis, hExpanded, hStart⟩
  have hCount := expandEllipsis_cases hExpanded
  rcases hStart with
    ⟨rfl, -, -⟩ | ⟨rest, rfl, hRest, hGroups⟩ | hGroups
  · exact Or.inr ⟨0, 0, [], [], rfl, by decide,
      Or.inl ⟨rfl, rfl⟩, Or.inl ⟨rfl, rfl⟩⟩
  · cases groupsRead_of_parse hRest hGroups with
    | plain hFew hRight hLength =>
        rcases hCount with ⟨hNone, -⟩ | ⟨_, -, hShort, -⟩
        · cases hNone
        rw [hLength, List.length_nil] at hShort
        exact Or.inr ⟨0, _, [], rest, rfl, by omega,
          Or.inl ⟨rfl, rfl⟩, Or.inr hRight⟩
  · cases groupsRead_of_parse hSome hGroups with
    | @plain _ n _ hFew hAll hLength =>
        rcases hCount with ⟨-, hLong, -⟩ | ⟨_, hPlace, -⟩
        · rw [hLength, List.length_nil] at hLong
          have hEight : n = 8 := by omega
          rw [hEight] at hAll
          exact Or.inl hAll
        · cases hPlace
    | split hText hLeft hRight hLength =>
        rcases hCount with ⟨hNone, -⟩ | ⟨_, -, hShort, -⟩
        · cases hNone
        rw [hLength, List.length_nil] at hShort
        exact Or.inr ⟨_, _, _, _, hText, by omega, Or.inr hLeft,
          hRight⟩

end Dns

end Soteria

------------------------------------------------------------
-- The Bytes That Are Read
------------------------------------------------------------

namespace Soteria

namespace Dns

/- Every number is one of a byte. -/
def Small (bytes : List Nat) : Prop :=
  ∀ b ∈ bytes, b ≤ 255

variable {bytes bytes' : List Nat}
variable {s : Text}

theorem Small.append
    (hFirst : Small bytes)
    (hSecond : Small bytes') :
    Small (bytes ++ bytes') := by
  intro b hb
  rcases List.mem_append.mp hb with hb | hb
  · exact hFirst b hb
  · exact hSecond b hb

theorem Small.withGroup
    (hSmall : Small bytes)
    {value : Nat}
    (hValue : value < 65536) :
    Small (withGroup bytes value) := by
  apply hSmall.append
  intro b hb
  simp only [List.mem_cons, List.not_mem_nil, or_false] at hb
  rcases hb with rfl | rfl
  · omega
  · omega

theorem small_of_parseGroups
    {room : Nat}
    {ellipsis ellipsis' : Option Nat}
    {after : Text}
    (hSmall : Small bytes)
    (hParsed :
      parseGroups room bytes ellipsis s =
        some (bytes', ellipsis', after)) :
    Small bytes' := by
  induction room generalizing bytes ellipsis s with
  | zero =>
      rw [parseGroups] at hParsed
      cases hParsed
      exact hSmall
  | succ room ih =>
      have hCases := parseGroups_cases hParsed
      generalize hResult : (bytes', ellipsis', after) = result
        at hCases
      cases hCases with
      | quad _ hV4 =>
          cases hResult
          exact hSmall.append (dottedQuad_of_parse hV4).2.small
      | last _ hValue =>
          cases hResult
          exact hSmall.withGroup hValue
      | lastEllipsis _ hValue _ =>
          cases hResult
          exact hSmall.withGroup hValue
      | ellipsis _ hValue _ _ hMore =>
          subst hResult
          exact ih (hSmall.withGroup hValue) hMore
      | next _ hValue _ hMore =>
          subst hResult
          exact ih (hSmall.withGroup hValue) hMore

theorem small_of_parseIPv6
    {ip : IP}
    (hParsed : parseIPv6 s = some ip) :
    Small ip := by
  have hNone : Small [] := by
    intro b hb
    cases hb
  rcases parseIPv6_cases hParsed with
    ⟨bytes, ellipsis, hExpanded, hStart⟩
  have hBytes : Small bytes := by
    rcases hStart with
      ⟨-, rfl, -⟩ | ⟨rest, -, -, hGroups⟩ | hGroups
    · exact hNone
    · exact small_of_parseGroups hNone hGroups
    · exact small_of_parseGroups hNone hGroups
  rcases expandEllipsis_cases hExpanded with
    ⟨-, -, rfl⟩ | ⟨place, -, -, rfl⟩
  · exact hBytes
  · intro b hb
    rcases List.mem_append.mp hb with hb | hb
    · rcases List.mem_append.mp hb with hb | hb
      · exact hBytes b (List.mem_of_mem_take hb)
      · rw [(List.mem_replicate.mp hb).2]
        exact Nat.zero_le _
    · exact hBytes b (List.mem_of_mem_drop hb)

/- The bytes of an address that is read. -/
theorem small_of_parseAddr
    {ip : List Nat}
    (hParsed : parseAddr s = some ip) :
    Small ip := by
  unfold parseAddr at hParsed
  split at hParsed
  · exact (dottedQuad_of_parse hParsed).2.small
  · exact small_of_parseIPv6 hParsed
  · cases hParsed

end Dns

end Soteria
