import Mathlib.Data.List.Basic

/-
  Conditions of scripts.

  The parser of conditions knows no precedence: the members of
  a pair of brackets are all joined by the operator that comes
  first. A condition that starts with a bracket is therefore
  rewritten before it is parsed. Brackets are put around every
  operand of `&&` and around every operand of `||`, and what
  was parsed is cleared of the brackets that hold one member.

  Key definitions include:
    * `Mavis.Tok`, `Mavis.Cond`
    * `Mavis.normalize`
    * `Mavis.parseR`, `Mavis.optimize`
    * `Mavis.condParse`
-/

------------------------------------------------------------
-- Tokens and Conditions
------------------------------------------------------------

namespace Soteria

namespace Mavis

/- What the scanner makes of a condition. `word` is any other
   token, with its text in the source. -/
inductive Tok where
  | leftbra
  | rightbra
  | openbra
  | closebra
  | and
  | or
  | exclmark
  | equal
  | tilde
  | acl
  | time
  | word (raw : String)
deriving DecidableEq

/- `struct mavis_cond_single`: one comparison. -/
inductive Test where
  | equal (lhs rhs : String)
  | regex (lhs rhs : String)
  | acl (name : String)
  | time (name : String)
deriving DecidableEq

/- The types of `struct mavis_cond_multi`, `S_exclmark`
   apart. -/
inductive Multi where
  | and
  | or
deriving DecidableEq

/- `struct mavis_cond` -/
inductive Cond where
  | test (t : Test)
  | exclmark (e : Cond)
  | multi (type : Multi) (es : List Cond)

mutual

/- `tac_script_cond_eval`, `mavis_cond_eval` -/
def Cond.eval (holds : Test → Bool) : Cond → Bool
| .test t => holds t
| .exclmark e => !e.eval holds
| .multi .and es => evalAll holds es
| .multi .or es => evalAny holds es

def evalAll (holds : Test → Bool) : List Cond → Bool
| [] => true
| e :: es => e.eval holds && evalAll holds es

def evalAny (holds : Test → Bool) : List Cond → Bool
| [] => false
| e :: es => e.eval holds || evalAny holds es

end

mutual

/- `mavis_cond_optimize` -/
def optimize : Cond → Cond
| .test t => .test t
| .exclmark e => .exclmark (optimize e)
| .multi _ [e] => optimize e
| .multi type es => .multi type (optimizeAll es)

def optimizeAll : List Cond → List Cond
| [] => []
| e :: es => optimize e :: optimizeAll es

end

end Mavis

end Soteria

------------------------------------------------------------
-- Rewriting the Text
------------------------------------------------------------

namespace Soteria

namespace Mavis

/- The characters a token takes in the rewritten text. -/
def Tok.width : Tok → Nat
| .leftbra | .rightbra => 1
| .and | .or => 4
| .acl => 4
| .time => 5
| .word raw => 1 + raw.utf8ByteSize
| _ => 2

def width (ts : List Tok) : Nat :=
  (ts.map Tok.width).foldr (· + ·) 0

/- The local variables of `sym_normalize_cond_start`: the text
   so far, the open brackets, the negated ones of them (the
   last one first) and the token before. -/
structure Norm where
  buf : List Tok
  bc : Nat
  e : List Nat
  prev : Option Tok

/- `EC_MAX` -/
def ecMax : Nat := 1024

/- `SYM_COND_BUFSIZE`, without what is kept free at its end. -/
def bufLimit : Nat := 40960 - 100

/- The extra brackets that end a negated bracket. -/
def closeNegated (e : List Nat) (bc : Nat) :
    List Tok × List Nat :=
  match e with
  | x :: rest =>
      if x = bc then ([.rightbra, .rightbra, .rightbra], rest)
      else ([], e)
  | [] => ([], [])

/- One turn of the loop of `sym_normalize_cond_start`; `none` is
   a parse error. -/
def normStep (s : Norm) : Tok → Option Norm
| .and =>
    some { s with
      buf := s.buf ++ [.rightbra, .and, .leftbra]
      prev := some .and }
| .or =>
    some { s with
      buf := s.buf ++
        [.rightbra, .rightbra, .or, .leftbra, .leftbra]
      prev := some .or }
| .leftbra =>
    if s.prev = some .exclmark then
      if s.e.length < ecMax then
        some
          { buf := s.buf ++ [.leftbra, .leftbra, .leftbra,
              .leftbra, .leftbra]
            bc := s.bc + 1
            e := s.bc :: s.e
            prev := some .leftbra }
      else none
    else
      some { s with
        buf := s.buf ++ [.leftbra, .leftbra]
        bc := s.bc + 1
        prev := some .leftbra }
| .rightbra =>
    let bc := s.bc - 1
    let closed := closeNegated s.e bc
    let buf := s.buf ++ closed.1 ++ [.rightbra, .rightbra]
    if bc = 0 then
      some { s with
        buf := buf ++ [.rightbra, .rightbra, .rightbra]
        bc := 0
        e := closed.2 }
    else
      some { buf, bc, e := closed.2, prev := some .rightbra }
| .openbra => none
| .closebra => none
| tok => some { s with buf := s.buf ++ [tok], prev := some tok }

/- The condition of the loop. -/
def running (s : Norm) : Bool :=
  s.bc ≠ 0 ∧ width s.buf < bufLimit

/- The loop of `sym_normalize_cond_start`: the state at its end,
   and the tokens that are left. -/
def normLoop : List Tok → Norm → Option (Norm × List Tok)
| [], s => if running s then none else some (s, [])
| tok :: ts, s =>
    if running s then
      match normStep s tok with
      | some s' => normLoop ts s'
      | none => none
    else some (s, tok :: ts)

/- `sym_normalize_cond_start`, after the first bracket. -/
def normalize (ts : List Tok) : Option (List Tok × List Tok) :=
  (normLoop ts
    { buf := [.leftbra, .leftbra, .leftbra, .leftbra, .leftbra]
      bc := 1
      e := []
      prev := none }).map fun res => (res.1.buf, res.2)

end Mavis

end Soteria

------------------------------------------------------------
-- Parsing
------------------------------------------------------------

namespace Soteria

namespace Mavis

/- Whether the first token of an operator negates it. -/
def negation : Tok → Option Bool
| .exclmark => some true
| .equal => some false
| _ => none

/- A comparison, after its left side. -/
def comparison (lhs : String) :
    List Tok → Option (Cond × List Tok)
| first :: second :: .word rhs :: ts => do
    let negated ← negation first
    let t ← match second with
      | .equal => some (Test.equal lhs rhs)
      | .tilde => some (Test.regex lhs rhs)
      | _ => none
    some (if negated then .exclmark (.test t) else .test t, ts)
| _ => none

/- A reference to an ACL or a timespec, after the keyword. The
   condition that is returned is the one before it was
   negated. -/
def reference (t : String → Test) :
    List Tok → Option (Cond × List Tok)
| first :: .equal :: .word name :: ts => do
    let _ ← negation first
    some (.test (t name), ts)
| _ => none

mutual

/- `tac_script_cond_parse_r`, names taken to resolve. Every call
   of itself is for fewer tokens. -/
def parseR : Nat → List Tok → Option (Cond × List Tok)
| 0, _ => none
| fuel + 1, .leftbra :: ts => do
    let (first, ts) ← parseR fuel ts
    let type := if ts.head? = some .and then Multi.and else .or
    let (more, ts) ← parseMore fuel ts
    match ts with
    | .rightbra :: ts => some (.multi type (first :: more), ts)
    | _ => none
| fuel + 1, .exclmark :: ts => do
    let (e, ts) ← parseR fuel ts
    some (.exclmark e, ts)
| _ + 1, .acl :: ts => reference .acl ts
| _ + 1, .time :: ts => reference .time ts
| _ + 1, .word lhs :: ts => comparison lhs ts
| _ + 1, _ => none

/- The loop over the further members of a bracket. -/
def parseMore : Nat → List Tok → Option (List Cond × List Tok)
| 0, _ => none
| fuel + 1, .and :: ts => do
    let (e, ts) ← parseR fuel ts
    let (es, ts) ← parseMore fuel ts
    some (e :: es, ts)
| fuel + 1, .or :: ts => do
    let (e, ts) ← parseR fuel ts
    let (es, ts) ← parseMore fuel ts
    some (e :: es, ts)
| _ + 1, ts => some ([], ts)

end

/- `tac_script_cond_parse`, `mavis_cond_parse` -/
def condParse (ts : List Tok) : Option (Cond × List Tok) :=
  match ts with
  | .leftbra :: inner => do
      let (text, rest) ← normalize inner
      let (m, _) ← parseR text.length text
      some (optimize m, rest)
  | _ => parseR ts.length ts

end Mavis

end Soteria
