import Soteria.Dns.Records
import Soteria.Foundation.Occurrences

/-
  Zone files: how a zone is written, and what is read back
  from the text of a file.

  Key definitions include:
    * `soaRe`, `ttlRe`, `recordRe`
    * `parseZone`
    * `renderHeader`, `renderRecord`, `renderZone`
-/

------------------------------------------------------------
-- Reading
------------------------------------------------------------

namespace Soteria

namespace Dns

open Regex Regex.Pattern

/- `\S`. -/
def nonSpace (c : Char) : Bool :=
  !space c

/- `[A-Za-z]`. -/
def letter (c : Char) : Bool :=
  ('a' ≤ c && c ≤ 'z') || ('A' ≤ c && c ≤ 'Z')

/- `(?is)SOA\s+(\S+)\s+(\S+)\s*\(([^)]*)\)`. -/
def soaRe : Pattern :=
  all [litFold "SOA", plus space, group 1 (plus nonSpace),
    plus space, group 2 (plus nonSpace), many true space,
    lit "(", group 3 (many true (· != ')')), lit ")"]

/- `(?im)^\s*\$TTL\s+(\d+)`. -/
def ttlRe : Pattern :=
  all [lineStart, many true space, lit "$", litFold "TTL",
    plus space, group 1 (plus digit)]

/-
  `^(\S+)\s+(?:(\d+)\s+)?IN\s+([A-Za-z]+)\s+(.+?)\s*(?:;.*)?$`,
  which is matched against single lines.
-/
def recordRe : Pattern :=
  all [lineStart, group 1 (plus nonSpace), plus space,
    opt (seq (group 2 (plus digit)) (plus space)), lit "IN",
    plus space, group 3 (plus letter), plus space,
    group 4 (plusLazy dot), many true space,
    opt (seq (lit ";") (many true dot)), lineEnd]

/- The record of a line, if it has one. -/
def parseRecord (line : Text) : Option Record :=
  let trimmed := line.trimSpace
  if trimmed = [] || trimmed.hasPrefix ";" ||
      trimmed.hasPrefix "$" then none
  else
    match recordRe.find line with
    | none => none
    | some m =>
        let typ := (m.group 3).toUpper
        if typ = "SOA" || typ ∉ recordTypes then none
        else
          some
            { name := m.group 1
              type := typ
              ttl :=
                if m.group 2 ≠ [] then
                  clamp64 (m.group 2).digitsValue
                else 0
              value := (m.group 4).trimSpace }

/- The default TTL of a zone file. -/
def parseTTL (content : Text) : Int :=
  match ttlRe.find content with
  | some m => clamp64 (m.group 1).digitsValue
  | none => 3600

/- The first number behind the parenthesis of the SOA. -/
def parseSerial (m : Match) : Int :=
  match (m.group 3).fields with
  | first :: _ => clamp64 (first.parseInt.getD 0)
  | [] => 0

/- The records of a zone file, without the SOA block. -/
def parseRecords (content : Text) : List Record :=
  ((soaRe.replaceAll (fun _ => "SOA") content).splitOn
    '\n').filterMap parseRecord

/- `parseZoneFile`, of a file with this content. -/
def parseZone (name content : Text) : Zone where
  name := name
  kind := kindOf name
  network := networkOf name
  primaryNS :=
    match soaRe.find content with
    | some m => m.group 1
    | none => []
  admin :=
    match soaRe.find content with
    | some m => m.group 2
    | none => []
  serial :=
    match soaRe.find content with
    | some m => parseSerial m
    | none => 0
  ttl := parseTTL content
  records := parseRecords content

end Dns

end Soteria

------------------------------------------------------------
-- Writing
------------------------------------------------------------

namespace Soteria

namespace Dns

/- The owner that is written. -/
def Record.owner (r : Record) : Text :=
  if r.name = [] then "@" else r.name

/- `pad`. -/
def pad (s : Text) (w : Nat) : Text :=
  if s.byteLength < w then
    s ++ Text.repeated " " (w - s.byteLength)
  else s

/- The width of a column. -/
def width (least : Nat) (cells : List Text) : Nat :=
  (cells.map Text.byteLength).foldl max least

/- The TTL column, if some record has a TTL. -/
def ttlCell (records : List Record) (r : Record) : Text :=
  if records.any (0 < ·.ttl) then
    let cells :=
      (records.filter (0 < ·.ttl)).map (Text.ofInt ·.ttl)
    pad (if 0 < r.ttl then Text.ofInt r.ttl else [])
      (width 0 cells) ++ "  ".toList
  else []

/- The line of a record. -/
def renderRecord (records : List Record) (r : Record) :
    Text :=
  pad r.owner (width 1 (records.map Record.owner)) ++
    "  ".toList ++ ttlCell records r ++ "IN  ".toList ++
      pad r.type.toUpper (width 1 (records.map Record.type)) ++
        "  ".toList ++ r.value ++ "\n".toList

/- The default TTL that is written. -/
def Zone.writtenTTL (z : Zone) : Int :=
  if z.ttl = 0 then 3600 else z.ttl

/- The TTL line and the SOA block. -/
def renderHeader (z : Zone) : Text :=
  "$TTL " ++ Text.ofInt z.writtenTTL ++
    "\n@       IN  SOA ".toList ++ z.primaryNS ++ " ".toList ++
    z.admin ++ " (\n                ".toList ++
    Text.ofInt z.serial ++
    " ; Serial (managed by soteria-agent)\n".toList ++
    "                3600       ; Refresh\n".toList ++
    "                1800       ; Retry\n".toList ++
    "                604800     ; Expire\n".toList ++
    "                300 )      ; Negative cache TTL\n\n".toList

/- `renderZone`. -/
def renderZone (z : Zone) : Text :=
  renderHeader z ++
    z.records.flatMap (renderRecord z.records)

end Dns

end Soteria
