import Soteria.Foundation.Text

/-
  Regular expressions with capturing groups, matched the way
  Go's `regexp` package does: leftmost, and among the matches
  that start there the one a backtracking matcher would find
  first.

  The only loops are over one class of characters, which is
  all the agent's expressions use.

  Key definitions include:
    * `Regex.Pattern`
    * `Regex.Match`, `Regex.Pattern.run`
    * `Regex.Pattern.find`, `Regex.Pattern.replaceAll`
-/

------------------------------------------------------------
-- Patterns
------------------------------------------------------------

namespace Regex

/- Expressions; `many` takes as much as it can if greedy. -/
inductive Pattern where
  | empty
  | one (p : Char → Bool)
  | many (greedy : Bool) (p : Char → Bool)
  | seq (first second : Pattern)
  | alt (preferred other : Pattern)
  | group (index : Nat) (inner : Pattern)
  | lineStart
  | lineEnd

namespace Pattern

/- The characters of a text, one after another. -/
def lit (s : Text) : Pattern :=
  s.foldr (fun c rest => .seq (.one (· == c)) rest) .empty

/- `?`. -/
def opt (r : Pattern) : Pattern :=
  .alt r .empty

/- `+` over a class. -/
def plus (p : Char → Bool) : Pattern :=
  .seq (.one p) (.many true p)

/- One pattern after another. -/
def all (parts : List Pattern) : Pattern :=
  parts.foldr .seq .empty

end Pattern

/- `\s`. -/
def space (c : Char) : Bool :=
  c ∈ ['\t', '\n', '\x0c', '\r', ' ']

/- `\d`. -/
def digit (c : Char) : Bool :=
  '0' ≤ c && c ≤ '9'

/- `\w`. -/
def word (c : Char) : Bool :=
  digit c || c == '_' || ('a' ≤ c && c ≤ 'z') ||
    ('A' ≤ c && c ≤ 'Z')

/- `.`, without the flag that lets it match a newline. -/
def dot (c : Char) : Bool :=
  c != '\n'

end Regex

------------------------------------------------------------
-- Matching
------------------------------------------------------------

namespace Regex

/- The text matched, the text after it and the groups. -/
structure Match where
  text : Text
  rest : Text
  groups : List (Nat × Text)

/- The text of a group, empty if it did not take part. -/
def Match.group (m : Match) (index : Nat) : Text :=
  (m.groups.lookup index).getD []

/- The character before the text that follows a match. -/
def Match.last (m : Match) (prev : Option Char) :
    Option Char :=
  m.text.getLast?.or prev

/- The splits a loop over a class can make, shortest first. -/
def spans (p : Char → Bool) : Text → List (Text × Text)
| [] => [([], [])]
| c :: rest =>
    ([], c :: rest) ::
      if p c then
        (spans p rest).map fun split => (c :: split.1, split.2)
      else []

namespace Pattern

/-
  The matches at a position, the preferred one first; `prev`
  is the character before it.
-/
def run : Pattern → Option Char → Text → List Match
| .empty, _, input => [⟨[], input, []⟩]
| .one _, _, [] => []
| .one p, _, c :: rest =>
    if p c then [⟨[c], rest, []⟩] else []
| .many greedy p, _, input =>
    (if greedy then (spans p input).reverse
      else spans p input).map
        fun split => ⟨split.1, split.2, []⟩
| .seq first second, prev, input =>
    (first.run prev input).flatMap fun m =>
      (second.run (m.last prev) m.rest).map fun n =>
        ⟨m.text ++ n.text, n.rest, m.groups ++ n.groups⟩
| .alt preferred other, prev, input =>
    preferred.run prev input ++ other.run prev input
| .group index inner, prev, input =>
    (inner.run prev input).map fun m =>
      ⟨m.text, m.rest, (index, m.text) :: m.groups⟩
| .lineStart, prev, input =>
    if prev.isNone || prev == some '\n' then
      [⟨[], input, []⟩]
    else []
| .lineEnd, _, input =>
    if input.head?.isNone || input.head? == some '\n' then
      [⟨[], input, []⟩]
    else []

/- The leftmost match from a position on. -/
def findFrom (r : Pattern) :
    Option Char → Text → Option Match
| prev, [] => (r.run prev []).head?
| prev, c :: rest =>
    match (r.run prev (c :: rest)).head? with
    | some m => some m
    | none => r.findFrom (some c) rest

/- `FindStringSubmatch`. -/
def find (r : Pattern) (s : Text) : Option Match :=
  r.findFrom none s

/-
  The text with each match replaced, for a pattern that
  matches no empty text; every step takes a character of it.
-/
def replaceFrom (r : Pattern) (f : Text → Text) :
    Nat → Option Char → Text → Text
| 0, _, input => input
| _ + 1, _, [] => []
| fuel + 1, prev, c :: rest =>
    match (r.run prev (c :: rest)).head? with
    | some m =>
        f m.text ++ r.replaceFrom f fuel (m.last prev) m.rest
    | none => c :: r.replaceFrom f fuel (some c) rest

/- `ReplaceAllStringFunc`. -/
def replaceAll (r : Pattern) (f : Text → Text) (s : Text) :
    Text :=
  r.replaceFrom f s.length none s

/- The text with its first match replaced. -/
def replaceFirstFrom (r : Pattern) (f : Text → Text) :
    Option Char → Text → Text
| _, [] => []
| prev, c :: rest =>
    match (r.run prev (c :: rest)).head? with
    | some m => f m.text ++ m.rest
    | none => c :: r.replaceFirstFrom f (some c) rest

/-
  `ReplaceAllStringFunc` with a function that leaves every
  match but the first as it is.
-/
def replaceFirst (r : Pattern) (f : Text → Text) (s : Text) :
    Text :=
  r.replaceFirstFrom f none s

end Pattern

end Regex
