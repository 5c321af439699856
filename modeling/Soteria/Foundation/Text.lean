import Mathlib.Data.List.DropRight
import Mathlib.Data.List.Infix

/-
  Character lists with the operations of Go's `strings`
  package.

  A Go string is modelled by the list of its characters.
  Every text the agent handles is UTF-8 and every character
  it tests for is ASCII (white space apart), so scanning the
  bytes of a string and scanning its characters agree.

  Key definitions include:
    * `Text`
    * `Text.isSpace`
    * `Text.trimSpace`
    * `Text.hasPrefix`
    * `Text.trimPrefix`
    * `Text.join`
-/

------------------------------------------------------------
-- Texts
------------------------------------------------------------

/- The characters of a string, in order. -/
abbrev Text := List Char

/- String literals stand for the list of their characters. -/
instance : Coe String Text := ⟨String.toList⟩

/- Texts are compared as lists. -/
instance Text.lawfulBEq : LawfulBEq Text :=
  inferInstanceAs (LawfulBEq (List Char))

/-
  A property of every character of a text is decided along
  the text, not over all characters.
-/
instance Text.decidableForallMem
    (s : Text)
    (p : Char → Prop)
    [DecidablePred p] :
    Decidable (∀ c ∈ s, p c) :=
  List.decidableBAll p s

namespace Text

/- `strings.HasPrefix`. -/
def hasPrefix (s lead : Text) : Bool :=
  lead.isPrefixOf s

/- `strings.HasSuffix`. -/
def hasSuffix (s tail : Text) : Bool :=
  tail.isSuffixOf s

/- `strings.TrimPrefix`. -/
def trimPrefix (s lead : Text) : Text :=
  if s.hasPrefix lead then s.drop lead.length else s

/- `strings.TrimSuffix`. -/
def trimSuffix (s tail : Text) : Text :=
  if s.hasSuffix tail then
    s.take (s.length - tail.length)
  else s

/- `strings.Join`. -/
def join (parts : List Text) (separator : Text) : Text :=
  separator.intercalate parts

/- `strings.ContainsAny`. -/
def containsAny (s chars : Text) : Bool :=
  s.any (fun c => chars.contains c)

/- `strings.Repeat`. -/
def repeated (s : Text) (count : Nat) : Text :=
  (List.replicate count s).flatten

/- `unicode.IsSpace`. -/
def isSpace (c : Char) : Bool :=
  c ∈ ['\t', '\n', '\x0b', '\x0c', '\r', ' ', '\x85',
    '\xa0', '\u1680', '\u2028', '\u2029', '\u202f',
    '\u205f', '\u3000'] ||
    ('\u2000' ≤ c && c ≤ '\u200a')

/- `strings.TrimSpace`. -/
def trimSpace (s : Text) : Text :=
  (s.dropWhile isSpace).rdropWhile isSpace

/- One hexadecimal digit. -/
def hexDigit (n : Nat) : Char :=
  if n < 10 then Char.ofNat ('0'.toNat + n)
  else Char.ofNat ('a'.toNat + (n - 10))

/- The escape of one character in a quoted string. -/
def quotedChar (c : Char) : Text :=
  match c with
  | '"' => "\\\""
  | '\\' => "\\\\"
  | '\x07' => "\\a"
  | '\x08' => "\\b"
  | '\x0c' => "\\f"
  | '\n' => "\\n"
  | '\r' => "\\r"
  | '\t' => "\\t"
  | '\x0b' => "\\v"
  | c =>
      if c.toNat < 0x20 || c.toNat = 0x7f then
        "\\x" ++
          [hexDigit (c.toNat / 16), hexDigit (c.toNat % 16)]
      else [c]

/-
  The `%q` verb, where all characters outside ASCII are
  printable: the other ones of these it escapes, too.
-/
def quoted (s : Text) : Text :=
  "\"" ++ s.flatMap quotedChar ++ "\""

/- `strings.TrimLeft` with a one-character cutset. -/
def trimLeftChar (s : Text) (c : Char) : Text :=
  s.dropWhile (· == c)

/- `strings.Trim` with a one-character cutset. -/
def trimChar (s : Text) (c : Char) : Text :=
  (s.dropWhile (· == c)).rdropWhile (· == c)

/-
  The characters of a literal are those it is written with.
  Evaluating `String.toList` decodes the literal instead.
-/
theorem forall_mem_literal
    {p : Char → Prop}
    {s : Text}
    (h : ∀ c ∈ s, p c) :
    ∀ c ∈ (String.ofList s).toList, p c := by
  rw [String.toList_ofList]
  exact h

theorem notMem_literal
    {c : Char}
    {s : Text}
    (h : c ∉ s) :
    c ∉ (String.ofList s).toList := by
  rw [String.toList_ofList]
  exact h

/- The word a scan over white space is in, and the rest. -/
def fieldsFrom : Text → Text → List Text
| word, [] => if word = [] then [] else [word.reverse]
| word, c :: rest =>
    if isSpace c then
      if word = [] then fieldsFrom [] rest
      else word.reverse :: fieldsFrom [] rest
    else fieldsFrom (c :: word) rest

/- `strings.Fields`. -/
def fields (s : Text) : List Text :=
  fieldsFrom [] s

/-
  `strings.ToLower`, for comparing with ASCII text that has
  no `i` and no `k`: no other character has an ASCII letter
  as its lower case.
-/
def toLower (s : Text) : Text :=
  s.map Char.toLower

/- `unicode.ToLower`, where the result is an ASCII letter. -/
def lowerChar (c : Char) : Char :=
  if c = '\u0130' then 'i' else if c = '\u212a' then 'k'
  else c.toLower

/- `strings.ToLower`, for comparing with any ASCII text. -/
def lowered (s : Text) : Text :=
  s.map lowerChar

/- `unicode.ToUpper`, where the result is an ASCII letter. -/
def upperChar (c : Char) : Char :=
  if c = 'ı' then 'I' else if c = 'ſ' then 'S'
  else c.toUpper

/- `strings.ToUpper`, for comparing with ASCII text. -/
def toUpper (s : Text) : Text :=
  s.map upperChar

/- `len` of a string. -/
def byteLength (s : Text) : Nat :=
  (s.map Char.utf8Size).foldr Nat.add 0

/- `strings.TrimRight` with a one-character cutset. -/
def trimRightChar (s : Text) (c : Char) : Text :=
  s.rdropWhile (· == c)

/- `strings.Contains`. -/
def contains (s part : Text) : Bool :=
  s.tails.any part.isPrefixOf

/- One representative of the characters that fold to it. -/
def foldChar (c : Char) : Char :=
  if c = 'ſ' then 's' else if c = '\u212a' then 'k'
  else c.toLower

/- `strings.EqualFold` with an ASCII text. -/
def equalFold (s t : Text) : Bool :=
  s.map foldChar == t.map foldChar

/- `strings.ReplaceAll` of one character. -/
def replaceChar (s : Text) (c : Char) (new : Text) : Text :=
  s.flatMap fun d => if d = c then new else [d]

end Text
