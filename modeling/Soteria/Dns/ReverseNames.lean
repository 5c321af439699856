import Mathlib.Algebra.Group.Nat.Defs
import Soteria.Dns.Records

/-
  The names of reverse zones and of the addresses in them.

  Key definitions include:
    * `IPNet`, `parseCIDR`, `IPNet.contains`
    * `reverseZoneName`
    * `reverse_names_exact`
-/

------------------------------------------------------------
-- Networks
------------------------------------------------------------

namespace Soteria

namespace Dns

/- `netip.ParseAddr`: four bytes or sixteen. -/
def parseAddr (s : Text) : Option (List Nat) :=
  match s.find? fun c => c ∈ ['.', ':', '%'] with
  | some '.' => parseIPv4Fields s
  | some ':' => parseIPv6 s
  | _ => none

/- A network: its first address and the bits of its mask. -/
structure IPNet where
  ip : List Nat
  ones : Nat
deriving DecidableEq

/- The bytes with every bit behind the first `n` cleared. -/
def maskBytes : Nat → List Nat → List Nat
| _, [] => []
| n, b :: rest =>
    b / 2 ^ (8 - n) * 2 ^ (8 - n) :: maskBytes (n - 8) rest

/- `net.ParseCIDR`. -/
def parseCIDR (s : Text) : Option IPNet :=
  let addr := s.takeWhile (· ≠ '/')
  match s.drop addr.length, parseAddr addr with
  | _ :: mask, some bytes =>
      let ones := Text.digitsValue mask
      if mask = [] || !mask.all Regex.digit then none
      else if 8 * bytes.length < ones then none
      else some ⟨maskBytes ones bytes, ones⟩
  | _, _ => none

/- The address is in the network. -/
def IPNet.contains (net : IPNet) (ip : List Nat) : Bool :=
  maskBytes net.ones ip == net.ip

/- `To4`. -/
def to4 (ip : List Nat) : Option (List Nat) :=
  if ip.length = 4 then some ip
  else if ip.take 12 = mapped [] then some (ip.drop 12)
  else none

/- The bytes of the network that name its reverse zone. -/
def takenOctets (ones : Nat) : Option Nat :=
  if 24 ≤ ones then some 3
  else if 16 ≤ ones then some 2
  else if 8 ≤ ones then some 1
  else none

/- `ReverseZoneName`. -/
def reverseZoneName (cidr : Text) : Option Text := do
  let net ← parseCIDR cidr
  let octets ← to4 net.ip
  let n ← takenOctets net.ones
  let parts := (octets.take n).reverse.map Text.ofNat
  return Text.join parts "." ++ ".in-addr.arpa".toList

example :
    reverseZoneName "192.168.1.128/25" =
        some "1.168.192.in-addr.arpa".toList ∧
      reverseZoneName "10.0.0.0/4" = none := by
  decide

end Dns

end Soteria

------------------------------------------------------------
-- Dotted Quads
------------------------------------------------------------

namespace Soteria

namespace Dns

/- The four bytes of an IPv4 address. -/
structure Quad (octets : List Nat) : Prop where
  four : octets.length = 4
  small : ∀ b ∈ octets, b ≤ 255

/- The bytes with dots between them. -/
def dotted (octets : List Nat) : Text :=
  Text.join (octets.map Text.ofNat) "."

/- A byte has one spelling. -/
theorem parseOctet_eq_some
    {field : Text}
    {b : Nat} :
    parseOctet field = some b ↔
      field = Text.ofNat b ∧ b ≤ 255 := by
  constructor
  · intro hParsed
    unfold parseOctet at hParsed
    split at hParsed
    · cases hParsed
    · rename_i hDigits
      split at hParsed
      · cases hParsed
      · rename_i hLead
        split at hParsed
        · cases hParsed
        · rename_i hSmall
          have hValue := Option.some.inj hParsed
          simp only [Bool.or_eq_true, decide_eq_true_eq,
            Bool.not_eq_true', not_or, Bool.not_eq_false,
            List.all_eq_true] at hDigits
          simp only [Bool.and_eq_true, decide_eq_true_eq,
            not_and, not_not] at hLead
          refine ⟨?_, by omega⟩
          rw [← hValue]
          exact (Text.ofNat_digitsValue hDigits.2 hDigits.1
            hLead).symm
  · rintro ⟨rfl, hSmall⟩
    have hAll :
        ∀ n < 256, parseOctet (Text.ofNat n) = some n := by
      decide +kernel
    exact hAll b (by omega)

theorem mapM_parseOctet
    {fields : List Text}
    {octets : List Nat} :
    fields.mapM parseOctet = some octets ↔
      fields = octets.map Text.ofNat ∧
        ∀ b ∈ octets, b ≤ 255 := by
  induction fields generalizing octets with
  | nil =>
      rw [List.mapM_nil]
      cases octets with
      | nil => simp
      | cons b octets => simp
  | cons field fields ih =>
      rw [List.mapM_cons]
      cases octets with
      | nil => simp [Option.bind_eq_some_iff]
      | cons b octets =>
          simp [Option.bind_eq_some_iff, parseOctet_eq_some,
            ih]
          tauto

/- A byte is written without this character. -/
theorem not_mem_ofNat
    {c : Char}
    (hDigit : Regex.digit c = false)
    (n : Nat) :
    c ∉ Text.ofNat n := by
  intro hMem
  rw [Text.digit_of_mem_ofNat hMem] at hDigit
  cases hDigit

theorem splitOn_octets
    {octets : List Nat}
    (hSome : octets ≠ []) :
    (dotted octets).splitOn '.' = octets.map Text.ofNat := by
  refine List.splitOn_intercalate '.' (fun label hMem => ?_)
    (by simpa using hSome)
  rcases List.mem_map.mp hMem with ⟨n, -, rfl⟩
  exact not_mem_ofNat (by decide) n

/- The quads are what is read as one. -/
theorem parseIPv4Fields_eq_some
    {s : Text}
    {octets : List Nat} :
    parseIPv4Fields s = some octets ↔
      s = dotted octets ∧ Quad octets := by
  unfold parseIPv4Fields
  constructor
  · intro hParsed
    simp only at hParsed
    split at hParsed
    · cases hParsed
    · rename_i hFour
      rcases mapM_parseOctet.mp hParsed with
        ⟨hFields, hSmall⟩
      rw [not_not, hFields, List.length_map] at hFour
      refine ⟨?_, hFour, hSmall⟩
      have hJoined :
          List.intercalate ['.'] (s.splitOn '.') = s :=
        List.intercalate_splitOn '.'
      rw [hFields] at hJoined
      exact hJoined.symm
  · rintro ⟨rfl, hQuad⟩
    have hSome : octets ≠ [] := by
      intro hNone
      have hFour := hQuad.four
      rw [hNone] at hFour
      cases hFour
    rw [splitOn_octets hSome]
    rw [if_neg (by simp [hQuad.four])]
    exact mapM_parseOctet.mpr ⟨rfl, hQuad.small⟩

end Dns

end Soteria

------------------------------------------------------------
-- Masks
------------------------------------------------------------

namespace Soteria

namespace Dns

@[simp] theorem length_maskBytes
    (n : Nat)
    (bytes : List Nat) :
    (maskBytes n bytes).length = bytes.length := by
  induction bytes generalizing n with
  | nil => rfl
  | cons b bytes ih => rw [maskBytes, List.length_cons, ih,
      List.length_cons]

/- A mask keeps the bytes it covers. -/
theorem take_maskBytes
    {k n : Nat}
    (hCovered : 8 * k ≤ n)
    (bytes : List Nat) :
    (maskBytes n bytes).take k = bytes.take k := by
  induction bytes generalizing k n with
  | nil => rfl
  | cons b bytes ih =>
      cases k with
      | zero => rfl
      | succ k =>
          have hWhole : 8 - n = 0 := by omega
          have hRest :=
            ih (k := k) (n := n - 8) (by omega)
          rw [maskBytes, hWhole, Nat.pow_zero, Nat.div_one,
            Nat.mul_one, List.take_succ_cons, hRest,
            List.take_succ_cons]

/- A mask of whole bytes leaves zeros behind them. -/
theorem maskBytes_whole
    {bytes : List Nat}
    (hSmall : ∀ b ∈ bytes, b ≤ 255)
    (k : Nat) :
    maskBytes (8 * k) bytes =
      bytes.take k ++
        List.replicate (bytes.length - k) 0 := by
  induction bytes generalizing k with
  | nil => simp [maskBytes]
  | cons b bytes ih =>
      have hRest :=
        ih fun c hMem => hSmall c (List.mem_cons_of_mem _ hMem)
      cases k with
      | zero =>
          have hByte := hSmall b (List.mem_cons_self ..)
          have hZero : b / 2 ^ (8 - 8 * 0) = 0 :=
            Nat.div_eq_of_lt (by omega)
          have hTail := hRest 0
          rw [Nat.mul_zero, List.take_zero, List.nil_append,
            Nat.sub_zero] at hTail
          rw [maskBytes, hZero, Nat.zero_mul, Nat.zero_sub,
            hTail]
          rfl
      | succ k =>
          have hWhole : 8 - 8 * (k + 1) = 0 := by omega
          have hNext : 8 * (k + 1) - 8 = 8 * k := by omega
          rw [maskBytes, hWhole, hNext, hRest k, Nat.pow_zero,
            Nat.div_one, Nat.mul_one, List.take_succ_cons,
            List.length_cons, Nat.add_sub_add_right,
            List.cons_append]

/- A shorter mask forgets a longer one. -/
theorem maskBytes_maskBytes
    {m n : Nat}
    (hShorter : m ≤ n)
    (bytes : List Nat) :
    maskBytes m (maskBytes n bytes) = maskBytes m bytes := by
  induction bytes generalizing m n with
  | nil => rfl
  | cons b bytes ih =>
      have hRest := ih (m := m - 8) (n := n - 8) (by omega)
      have hPower :
          2 ^ (8 - m) =
            2 ^ (8 - n) * 2 ^ ((8 - m) - (8 - n)) := by
        rw [← Nat.pow_add]
        congr 1
        omega
      have hByte :
          b / 2 ^ (8 - n) * 2 ^ (8 - n) / 2 ^ (8 - m) =
            b / 2 ^ (8 - m) := by
        rw [hPower, ← Nat.div_div_eq_div_mul,
          Nat.mul_div_cancel _ (Nat.two_pow_pos _),
          Nat.div_div_eq_div_mul]
      rw [maskBytes, maskBytes, maskBytes, hByte, hRest]

theorem Quad.take
    {octets : List Nat}
    (hQuad : Quad octets)
    (k : Nat) :
    Quad (octets.take k ++
      List.replicate (octets.length - k) 0) where
  four := by
    have hFour := hQuad.four
    simp only [List.length_append, List.length_take,
      List.length_replicate]
    omega
  small := by
    intro b hMem
    rcases List.mem_append.mp hMem with hKept | hZero
    · exact hQuad.small b (List.mem_of_mem_take hKept)
    · rw [List.eq_of_mem_replicate hZero]
      exact Nat.zero_le _

end Dns

end Soteria

------------------------------------------------------------
-- Reading Networks
------------------------------------------------------------

namespace Soteria

namespace Dns

theorem mem_dotted
    {octets : List Nat}
    {c : Char}
    (hMem : c ∈ dotted octets) :
    c = '.' ∨ Regex.digit c = true := by
  have hParts :
      ∀ labels : List Text,
        (∀ label ∈ labels, ∀ d ∈ label,
          Regex.digit d = true) →
          ∀ d ∈ Text.join labels ".",
            d = '.' ∨ Regex.digit d = true := by
    intro labels hLabels d hd
    induction labels with
    | nil => cases hd
    | cons label labels ih =>
        by_cases hMore : labels = []
        · subst hMore
          rw [Text.join, List.intercalate_singleton] at hd
          exact Or.inr (hLabels label (by simp) d hd)
        · rw [Text.join,
            List.intercalate_cons_of_ne_nil hMore] at hd
          simp only [List.mem_append] at hd
          rcases hd with (hFirst | hDot) | hRest
          · exact Or.inr (hLabels label (by simp) d hFirst)
          · exact Or.inl (by simpa using hDot)
          · exact ih
              (fun l hl => hLabels l
                (List.mem_cons_of_mem _ hl)) hRest
  refine hParts _ (fun label hLabel d hd => ?_) c hMem
  rcases List.mem_map.mp hLabel with ⟨n, -, rfl⟩
  exact Text.digit_of_mem_ofNat hd

/- A quad is an address of four bytes. -/
theorem parseAddr_dotted
    {octets : List Nat}
    (hQuad : Quad octets) :
    parseAddr (dotted octets) = some octets := by
  have hParsed :
      parseIPv4Fields (dotted octets) = some octets :=
    parseIPv4Fields_eq_some.mpr ⟨rfl, hQuad⟩
  have hFirst :
      (dotted octets).find?
          (fun c => c ∈ ['.', ':', '%']) = some '.' := by
    cases hFound :
        (dotted octets).find?
          (fun c => c ∈ ['.', ':', '%']) with
    | none =>
        exfalso
        have hDots : '.' ∈ dotted octets := by
          rcases octets with
            - | ⟨a, - | ⟨b, rest⟩⟩
          · exact absurd hQuad.four (by simp)
          · exact absurd hQuad.four (by simp)
          · simp [dotted, Text.join]
        have hNone := List.find?_eq_none.mp hFound '.' hDots
        simp at hNone
    | some c =>
        have hMark := List.find?_some hFound
        rcases mem_dotted (List.mem_of_find?_eq_some hFound)
          with rfl | hDigit
        · rfl
        · exfalso
          simp only [decide_eq_true_eq, List.mem_cons,
            List.not_mem_nil, or_false] at hMark
          rcases hMark with rfl | rfl | rfl
          · exact absurd hDigit (by decide)
          · exact absurd hDigit (by decide)
          · exact absurd hDigit (by decide)
  rw [parseAddr, hFirst]
  exact hParsed

theorem parseCIDR_dotted
    {octets : List Nat}
    (hQuad : Quad octets)
    {n : Nat}
    (hOnes : n ≤ 32) :
    parseCIDR (dotted octets ++ '/' :: Text.ofNat n) =
      some ⟨maskBytes n octets, n⟩ := by
  have hFree : ∀ c ∈ dotted octets, c ≠ '/' := by
    rintro c hMem rfl
    rcases mem_dotted hMem with hDot | hDigit
    · exact absurd hDot (by decide)
    · exact absurd hDigit (by decide)
  have hAddr :
      (dotted octets ++ '/' :: Text.ofNat n).takeWhile
          (· ≠ '/') = dotted octets := by
    rw [List.takeWhile_append_of_pos (by simpa using hFree)]
    simp
  have hDigits : (Text.ofNat n).all Regex.digit = true := by
    rw [List.all_eq_true]
    exact fun c hMem => Text.digit_of_mem_ofNat hMem
  unfold parseCIDR
  simp only [hAddr, List.drop_left, parseAddr_dotted hQuad,
    Text.ofNat_ne_nil, hDigits, Text.digitsValue_ofNat,
    hQuad.four]
  rw [if_neg (by simp), if_neg (by omega)]

/- An address with colons has sixteen bytes or more. -/
theorem length_of_parseIPv6
    {s : Text}
    {ip : List Nat}
    (hParsed : parseIPv6 s = some ip) :
    16 ≤ ip.length := by
  unfold parseIPv6 at hParsed
  split at hParsed
  · cases hParsed
  · simp only at hParsed
    split at hParsed
    · rename_i bytes ellipsis hGroups
      clear hGroups
      cases ellipsis with
      | none =>
          unfold expandEllipsis at hParsed
          simp only at hParsed
          split at hParsed
          · cases hParsed
          · rename_i hLong
            rw [← Option.some.inj hParsed]
            omega
      | some place =>
          unfold expandEllipsis at hParsed
          simp only at hParsed
          split at hParsed
          · rename_i hShort
            rw [← Option.some.inj hParsed]
            simp only [List.length_append, List.length_take,
              List.length_replicate, List.length_drop]
            omega
          · cases hParsed
    · cases hParsed

/- A network of four bytes has the address of a quad. -/
theorem quad_of_parseCIDR
    {c : Text}
    {net : IPNet}
    (hParsed : parseCIDR c = some net)
    (hFour : net.ip.length = 4) :
    ∃ octets, Quad octets ∧
      net = ⟨maskBytes net.ones octets, net.ones⟩ := by
  unfold parseCIDR at hParsed
  simp only at hParsed
  split at hParsed
  · rename_i mask bytes hDrop hAddr
    split at hParsed
    · cases hParsed
    · split at hParsed
      · cases hParsed
      · have hNet := Option.some.inj hParsed
        subst hNet
        rw [length_maskBytes] at hFour
        refine ⟨bytes, ?_, rfl⟩
        unfold parseAddr at hAddr
        split at hAddr
        · exact (parseIPv4Fields_eq_some.mp hAddr).2
        · have hLong := length_of_parseIPv6 hAddr
          omega
        · cases hAddr
  · cases hParsed

end Dns

end Soteria

------------------------------------------------------------
-- Zone and Owner Names
------------------------------------------------------------

namespace Soteria

namespace Dns

/- The name of an address: its octets, the last one first. -/
def reverseName (octets : List Nat) : Text :=
  Text.join (octets.reverse.map Text.ofNat) "." ++
    ".in-addr.arpa".toList

/- What names the zone is one to three whole bytes. -/
theorem takenOctets_spec
    {ones : Nat}
    (hLong : 8 ≤ ones) :
    ∃ k, takenOctets ones = some k ∧ 8 * k ≤ ones ∧
      (1 ≤ k ∧ k ≤ 3) ∧ (ones ∈ [8, 16, 24] → 8 * k = ones) := by
  unfold takenOctets
  by_cases h24 : 24 ≤ ones
  · refine ⟨3, if_pos h24, by omega, by omega, ?_⟩
    intro hWhole
    simp only [List.mem_cons, List.not_mem_nil, or_false]
      at hWhole
    omega
  · by_cases h16 : 16 ≤ ones
    · refine ⟨2, ?_, by omega, by omega, ?_⟩
      · rw [if_neg h24, if_pos h16]
      · intro hWhole
        simp only [List.mem_cons, List.not_mem_nil, or_false]
          at hWhole
        omega
    · refine ⟨1, ?_, by omega, by omega, ?_⟩
      · rw [if_neg h24, if_neg h16, if_pos hLong]
      · intro hWhole
        simp only [List.mem_cons, List.not_mem_nil, or_false]
          at hWhole
        omega

theorem hasSuffix_append (s tail : Text) :
    (s ++ tail).hasSuffix tail = true :=
  List.isSuffixOf_iff_suffix.mpr (List.suffix_append s tail)

theorem trimSuffix_append (s tail : Text) :
    (s ++ tail).trimSuffix tail = s := by
  rw [Text.trimSuffix, if_pos (hasSuffix_append s tail)]
  simp

/- The labels of the name in front of its suffix. -/
theorem labels_reverseName
    {octets : List Nat}
    (hSome : octets ≠ []) :
    ((reverseName octets).trimSuffix
        ".in-addr.arpa").splitOn '.' =
      (octets.map Text.ofNat).reverse := by
  have hRev : octets.reverse ≠ [] := by simpa using hSome
  have hSplit := splitOn_octets hRev
  rw [List.map_reverse] at hSplit
  rw [reverseName, List.map_reverse, trimSuffix_append]
  rw [dotted, List.map_reverse] at hSplit
  exact hSplit

/- The network of a zone is written with its zeros. -/
theorem networkOf_reverseName
    {octets : List Nat}
    (hCount : 1 ≤ octets.length ∧ octets.length ≤ 3) :
    networkOf (reverseName octets) =
      dotted (octets ++
        List.replicate (4 - octets.length) 0) ++
        '/' :: Text.ofNat (8 * octets.length) := by
  have hSome : octets ≠ [] := by
    rintro rfl
    simp at hCount
  have hSuffix :
      (reverseName octets).hasSuffix ".in-addr.arpa" = true :=
    hasSuffix_append _ _
  unfold networkOf
  rw [hSuffix, labels_reverseName hSome, List.reverse_reverse]
  have hOnes :
      Text.ofNat 8 = "8" ∧ Text.ofNat 16 = "16" ∧
        Text.ofNat 24 = "24" ∧ Text.ofNat 0 = "0" := by
    decide
  rcases octets with - | ⟨a, - | ⟨b, - | ⟨c, rest⟩⟩⟩
  · exact absurd rfl hSome
  · simp [dotted, Text.join, List.replicate, hOnes]
  · simp [dotted, Text.join, List.replicate, hOnes]
  · have hNone : rest = [] := by
      apply List.eq_nil_of_length_eq_zero
      simp only [List.length_cons] at hCount
      omega
    subst hNone
    simp [dotted, Text.join, hOnes]

/- The owner of an address is its octets behind the zone's. -/
theorem ptrOwner_reverseName
    {octets : List Nat}
    (hQuad : Quad octets)
    {k : Nat}
    (hCount : 1 ≤ k ∧ k ≤ 3) :
    ptrOwner (dotted octets) (reverseName (octets.take k)) =
      dotted (octets.drop k).reverse := by
  have hFour := hQuad.four
  have hTaken : (octets.take k).length = k := by
    rw [List.length_take, hFour]
    omega
  have hSome : octets.take k ≠ [] := by
    intro hNone
    rw [hNone, List.length_nil] at hTaken
    omega
  have hWhole : octets ≠ [] := by
    intro hNone
    rw [hNone] at hFour
    cases hFour
  have hShorter :
      (reverseName (octets.take k)).trimSuffix
          ".in-addr.arpa" ≠ reverseName (octets.take k) := by
    intro hSame
    have hLength := congrArg List.length hSame
    rw [reverseName, trimSuffix_append, List.length_append]
      at hLength
    simp at hLength
  unfold ptrOwner
  simp only [labels_reverseName hSome, splitOn_octets hWhole]
  rw [if_neg hShorter, List.length_reverse, List.length_map,
    List.length_map, hTaken, hFour, if_neg (by
      simp only [ne_eq, not_true_eq_false, decide_false,
        Bool.false_or, Bool.or_eq_true, decide_eq_true_eq,
        not_or]
      omega), ← List.map_drop, ← List.map_reverse]
  rfl

/- A name is put together from its two parts. -/
theorem reverseName_append
    {zone host : List Nat}
    (hZone : zone ≠ [])
    (hHost : host ≠ []) :
    dotted host.reverse ++ '.' :: reverseName zone =
      reverseName (zone ++ host) := by
  have hJoin :
      ∀ xs ys : List Text, xs ≠ [] → ys ≠ [] →
        Text.join (xs ++ ys) "." =
          Text.join xs "." ++ '.' :: Text.join ys "." := by
    intro xs ys hXs hYs
    induction xs with
    | nil => exact absurd rfl hXs
    | cons x xs ih =>
        by_cases hMore : xs = []
        · subst hMore
          rw [List.singleton_append, Text.join,
            List.intercalate_cons_of_ne_nil hYs, Text.join,
            List.intercalate_singleton, Text.join]
          simp
        · have hRest := ih hMore
          unfold Text.join at hRest ⊢
          rw [List.cons_append,
            List.intercalate_cons_of_ne_nil
              (List.append_ne_nil_of_left_ne_nil hMore _),
            List.intercalate_cons_of_ne_nil hMore, hRest]
          simp
  rw [reverseName, reverseName, List.reverse_append,
    List.map_append, hJoin _ _ (by simpa using hHost)
      (by simpa using hZone), List.append_assoc,
    List.cons_append]
  rfl

end Dns

end Soteria

------------------------------------------------------------
-- Exactness
------------------------------------------------------------

namespace Soteria

namespace Dns

theorem reverseName_inj
    {left right : List Nat}
    (hLeft : left ≠ [])
    (hRight : right ≠ [])
    (hSame : reverseName left = reverseName right) :
    left = right := by
  have hLabels := labels_reverseName hLeft
  rw [hSame, labels_reverseName hRight, List.reverse_inj]
    at hLabels
  refine (List.map_injective_iff.mpr ?_ hLabels).symm
  intro m n hDigits
  rw [← Text.digitsValue_ofNat m, hDigits,
    Text.digitsValue_ofNat]

theorem Quad.ne_nil
    {octets : List Nat}
    (hQuad : Quad octets) :
    octets ≠ [] := by
  rintro rfl
  exact absurd hQuad.four (by simp)

/- The zone of a network is named by the bytes it takes. -/
theorem reverseZoneName_eq
    {c : Text}
    {octets : List Nat}
    {ones k : Nat}
    (hNet : parseCIDR c = some ⟨maskBytes ones octets, ones⟩)
    (hQuad : Quad octets)
    (hTaken : takenOctets ones = some k)
    (hCovered : 8 * k ≤ ones) :
    reverseZoneName c =
      some (reverseName (octets.take k)) := by
  have hFour :
      to4 (maskBytes ones octets) =
        some (maskBytes ones octets) :=
    if_pos (by rw [length_maskBytes, hQuad.four])
  unfold reverseZoneName
  simp only [hNet, hFour, hTaken, Option.bind_eq_bind,
    Option.bind_some, take_maskBytes hCovered]
  rfl

/- The zone stands for the bytes it takes. -/
theorem parseCIDR_networkOf
    {octets : List Nat}
    (hQuad : Quad octets)
    {k : Nat}
    (hCount : 1 ≤ k ∧ k ≤ 3) :
    parseCIDR (networkOf (reverseName (octets.take k))) =
      some ⟨maskBytes (8 * k) octets, 8 * k⟩ := by
  have hTaken : (octets.take k).length = k := by
    rw [List.length_take, hQuad.four]
    omega
  have hWhole := maskBytes_whole hQuad.small k
  have hZeros := hQuad.take k
  rw [hQuad.four] at hWhole hZeros
  rw [networkOf_reverseName (by rw [hTaken]; exact hCount),
    hTaken, parseCIDR_dotted hZeros (by omega), ← hWhole,
    maskBytes_maskBytes (Nat.le_refl _)]

/- An address of the zone completes the zone's name. -/
theorem ptrOwner_append
    {network octets : List Nat}
    (hQuad : Quad octets)
    {k : Nat}
    (hCount : 1 ≤ k ∧ k ≤ 3)
    (hIn : maskBytes (8 * k) octets =
      maskBytes (8 * k) network) :
    ptrOwner (dotted octets) (reverseName (network.take k)) ++
        '.' :: reverseName (network.take k) =
      reverseName octets := by
  have hZone : octets.take k = network.take k := by
    rw [← take_maskBytes (Nat.le_refl _) octets, hIn,
      take_maskBytes (Nat.le_refl _)]
  have hLengths :
      (octets.take k).length = k ∧
        (octets.drop k).length = 4 - k := by
    rw [List.length_take, List.length_drop, hQuad.four]
    omega
  rw [← hZone, ptrOwner_reverseName hQuad hCount,
    reverseName_append ?_ ?_, List.take_append_drop]
  · intro hNone
    rw [hNone, List.length_nil] at hLengths
    omega
  · intro hNone
    rw [hNone, List.length_nil] at hLengths
    omega

/-
  A network of a dotted quad with eight bits or more lies in
  the network of its reverse zone, and is that network where
  whole bytes are masked. The owner of an address of the zone
  completes the zone's name to the reverse name of the
  address, so two addresses have two owners.
-/
theorem reverse_names_exact
    {c : Text}
    {net : IPNet}
    (hNet : parseCIDR c = some net)
    (hFour : net.ip.length = 4)
    (hLong : 8 ≤ net.ones) :
    ∃ z covering,
      reverseZoneName c = some z ∧
        parseCIDR (networkOf z) = some covering ∧
          (∀ octets,
            net.contains octets = true →
              covering.contains octets = true) ∧
            (net.ones ∈ [8, 16, 24] → covering = net) ∧
              (∀ a octets,
                parseIPv4Fields a = some octets →
                  covering.contains octets = true →
                    ptrOwner a z ++ '.' :: z =
                      reverseName octets) ∧
                ∀ a b octetsA octetsB,
                  parseIPv4Fields a = some octetsA →
                    parseIPv4Fields b = some octetsB →
                      covering.contains octetsA = true →
                        covering.contains octetsB = true →
                          a ≠ b →
                            ptrOwner a z ≠ ptrOwner b z := by
  rcases quad_of_parseCIDR hNet hFour with
    ⟨network, hQuad, hParts⟩
  rcases takenOctets_spec hLong with
    ⟨k, hTaken, hCovered, hCount, hWhole⟩
  generalize net.ones = ones at *
  subst hParts
  have hOwner :
      ∀ a octets,
        parseIPv4Fields a = some octets →
          (IPNet.mk (maskBytes (8 * k) network)
              (8 * k)).contains octets = true →
            ptrOwner a (reverseName (network.take k)) ++
                '.' :: reverseName (network.take k) =
              reverseName octets := by
    intro a octets hParsed hIn
    rcases parseIPv4Fields_eq_some.mp hParsed with
      ⟨rfl, hOctets⟩
    exact ptrOwner_append hOctets hCount (eq_of_beq hIn)
  refine ⟨reverseName (network.take k),
    ⟨maskBytes (8 * k) network, 8 * k⟩,
    reverseZoneName_eq hNet hQuad hTaken hCovered,
    parseCIDR_networkOf hQuad hCount, ?_, ?_, hOwner, ?_⟩
  · intro octets hIn
    have hMasked : maskBytes ones octets =
        maskBytes ones network := eq_of_beq hIn
    apply beq_iff_eq.mpr
    change maskBytes (8 * k) octets =
      maskBytes (8 * k) network
    rw [← maskBytes_maskBytes hCovered, hMasked,
      maskBytes_maskBytes hCovered]
  · intro hBytes
    rw [hWhole hBytes]
  · intro a b octetsA octetsB hA hB hInA hInB hNe hSame
    have hNames := hOwner a octetsA hA hInA
    rw [hSame, hOwner b octetsB hB hInB] at hNames
    rcases parseIPv4Fields_eq_some.mp hA with ⟨rfl, hQuadA⟩
    rcases parseIPv4Fields_eq_some.mp hB with ⟨rfl, hQuadB⟩
    exact hNe (congrArg dotted
      (reverseName_inj hQuadB.ne_nil hQuadA.ne_nil
        hNames).symm)

theorem reverse_names_exact_lab :
    ∃ z covering,
      reverseZoneName "192.168.1.128/17" = some z ∧
        parseCIDR (networkOf z) = some covering ∧
          (∀ octets,
            (IPNet.mk [192, 168, 0, 0] 17).contains octets =
                true →
              covering.contains octets = true) ∧
            (17 ∈ [8, 16, 24] →
              covering = ⟨[192, 168, 0, 0], 17⟩) ∧
              (∀ a octets,
                parseIPv4Fields a = some octets →
                  covering.contains octets = true →
                    ptrOwner a z ++ '.' :: z =
                      reverseName octets) ∧
                ∀ a b octetsA octetsB,
                  parseIPv4Fields a = some octetsA →
                    parseIPv4Fields b = some octetsB →
                      covering.contains octetsA = true →
                        covering.contains octetsB = true →
                          a ≠ b →
                            ptrOwner a z ≠ ptrOwner b z :=
  @reverse_names_exact _ ⟨[192, 168, 0, 0], 17⟩
    (by decide) (by decide) (by decide)

end Dns

end Soteria
