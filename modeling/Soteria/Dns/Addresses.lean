import Soteria.Foundation.Decimal

/-
  IP addresses in text form, read the way `net.ParseIP` does.

  Key definitions include:
    * `IP`, `parseIP`, `IP.isV4`
-/

------------------------------------------------------------
-- Dotted Quads
------------------------------------------------------------

namespace Soteria

namespace Dns

/- The sixteen bytes of an address. -/
abbrev IP := List Nat

/-
  One field of a dotted quad: a number up to 255 without
  leading zeros.
-/
def parseOctet (field : Text) : Option Nat :=
  if field = [] || !field.all Regex.digit then none
  else if field.head? = some '0' && field.length ≠ 1 then none
  else if 255 < field.digitsValue then none
  else some field.digitsValue

/- The four bytes of a dotted quad. -/
def parseIPv4Fields (s : Text) : Option (List Nat) :=
  let fields := s.splitOn '.'
  if fields.length ≠ 4 then none else fields.mapM parseOctet

end Dns

end Soteria

------------------------------------------------------------
-- Colon-Separated Groups
------------------------------------------------------------

namespace Soteria

namespace Dns

/- The value of a hexadecimal digit. -/
def hexValue (c : Char) : Option Nat :=
  if Regex.digit c then some (c.toNat - '0'.toNat)
  else if 'a' ≤ c && c ≤ 'f' then
    some (c.toNat - 'a'.toNat + 10)
  else if 'A' ≤ c && c ≤ 'F' then
    some (c.toNat - 'A'.toNat + 10)
  else none

/- A group of at most four hexadecimal digits. -/
def parseGroup (digits : Text) : Option Nat :=
  if digits = [] || 4 < digits.length then none
  else
    some ((digits.filterMap hexValue).foldl
      (fun value d => 16 * value + d) 0)

/-
  The bytes read before the end of an IPv6 address, where
  `::` stood among them, and what the loop over the groups
  has not read; `room` is the number of groups to come.
-/
def parseGroups :
    Nat → List Nat → Option Nat → Text →
      Option (List Nat × Option Nat × Text)
| 0, bytes, ellipsis, s => some (bytes, ellipsis, s)
| room + 1, bytes, ellipsis, s =>
    let digits := s.takeWhile fun c => (hexValue c).isSome
    match parseGroup digits, s.drop digits.length with
    | none, _ => none
    | some _, '.' :: _ =>
        if ellipsis = none && bytes.length ≠ 12 then none
        else if room = 0 then none
        else
          (parseIPv4Fields s).map fun v4 =>
            (bytes ++ v4, ellipsis, [])
    | some value, [] =>
        some (bytes ++ [value / 256, value % 256], ellipsis, [])
    | some _, [':'] => none
    | some value, ':' :: ':' :: rest =>
        let bytes := bytes ++ [value / 256, value % 256]
        if ellipsis.isSome then none
        else if rest = [] then some (bytes, bytes.length, [])
        else parseGroups room bytes bytes.length rest
    | some value, ':' :: rest =>
        parseGroups room
          (bytes ++ [value / 256, value % 256]) ellipsis rest
    | some _, _ :: _ => none

/- The bytes with the zeros that `::` stands for. -/
def expandEllipsis (bytes : List Nat) : Option Nat → Option IP
| none => if bytes.length < 16 then none else some bytes
| some place =>
    if bytes.length < 16 then
      some (bytes.take place ++
        List.replicate (16 - bytes.length) 0 ++ bytes.drop place)
    else none

/- An address with colons; one with a zone is none. -/
def parseIPv6 (s : Text) : Option IP :=
  if s.contains ['%'] then none
  else
    let start : Option (List Nat × Option Nat × Text) :=
      match s with
      | [':', ':'] => some ([], some 0, [])
      | ':' :: ':' :: rest => parseGroups 8 [] (some 0) rest
      | s => parseGroups 8 [] none s
    match start with
    | some (bytes, ellipsis, []) =>
        expandEllipsis bytes ellipsis
    | _ => none

end Dns

end Soteria

------------------------------------------------------------
-- Addresses
------------------------------------------------------------

namespace Soteria

namespace Dns

/- The sixteen bytes a dotted quad stands for. -/
def mapped (v4 : List Nat) : IP :=
  List.replicate 10 0 ++ [255, 255] ++ v4

/- `net.ParseIP`. -/
def parseIP (s : Text) : Option IP :=
  match s.find? fun c => c ∈ ['.', ':', '%'] with
  | some '.' => (parseIPv4Fields s).map mapped
  | some ':' => parseIPv6 s
  | _ => none

/- `To4` of the address is an address. -/
def IP.isV4 (ip : IP) : Bool :=
  ip.take 12 == mapped []

example :
    (parseIP "192.168.1.160").map IP.isV4 = some true := by
  decide

example :
    (parseIP "2001:db8::1").map IP.isV4 = some false ∧
      (parseIP "::ffff:10.0.0.1").map IP.isV4 = some true ∧
        parseIP "10.0.0.01" = none := by
  decide

end Dns

end Soteria
