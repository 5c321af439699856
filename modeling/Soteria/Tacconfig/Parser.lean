import Soteria.Tacconfig.Lexer

/-
  The statements of a config source.

  The parser reads a list of tokens and returns what is left
  of it. Reading past the end of the list is an error of its
  own, and so is running out of the bound on the depth of
  the recursion; the number of tokens is bound enough.

  Key definitions include:
    * `Node`, `Cond`, `ParseError`
    * `takeWords`, `restOfLine`, `operand`
    * `parseStmts`, `parseStmt`, `parseIf`, `parseElse`
    * `parse`
-/

------------------------------------------------------------
-- Nodes
------------------------------------------------------------

namespace Soteria

namespace Tacconfig

structure Cond where
  attr : Text
  op : Text
  value : Text
  quoted : Bool
deriving DecidableEq

/-
  A statement: a block with its label, an assignment, a bare
  action, or an `if`. The lines are those it starts and ends
  on, the last one zero where the source sets none.
-/
inductive Node where
  | block (name label : Text) (children : List Node)
      (startLine endLine : Nat)
  | assign (name value : Text) (startLine endLine : Nat)
  | action (value : Text) (startLine endLine : Nat)
  | ifNode (cond : Cond) (children elseNodes : List Node)
      (inline : Bool) (startLine endLine : Nat)

/- The flat text of a statement; blocks and ifs have none. -/
def Node.actionText : Node → Text
| .assign name value _ _ => name ++ " = " ++ value
| .action value _ _ => value
| _ => []

inductive ParseError where
  | expected (line : Nat) (what got : Text)
  | unexpectedToken (line : Nat) (got : Text)
  | unexpectedBrace (line : Nat)
  | missingBrace (line : Nat)
  | outOfRange
  | outOfFuel

def lineText (line : Nat) : Text :=
  "line " ++ line.repr.toList ++ ": "

def ParseError.message : ParseError → Text
| .expected line what got =>
    lineText line ++ "expected " ++ what ++ ", got " ++
      got.quoted
| .unexpectedToken line got =>
    lineText line ++ "unexpected token " ++ got.quoted
| .unexpectedBrace line =>
    lineText line ++ "unexpected '\x7d'"
| .missingBrace line =>
    lineText line ++ "unexpected end of file, missing '\x7d'"
| .outOfRange => "index out of range"
| .outOfFuel => "recursion too deep"

end Tacconfig

end Soteria

------------------------------------------------------------
-- Reading Tokens
------------------------------------------------------------

namespace Soteria

namespace Tacconfig

/- A token as it is written in a source. -/
def tokenText (t : Token) : Text :=
  if t.kind = .string then "\"" ++ t.text ++ "\"" else t.text

/- Words and strings make up names and actions. -/
def Token.isText (t : Token) : Bool :=
  t.kind == .word || t.kind == .string

/- What a value on one line is made of. -/
def Token.isValue (t : Token) : Bool :=
  t.isText || t.kind == .equals

def expect (kind : TokKind) (what : Text) :
    List Token → Except ParseError (Token × List Token)
| [] => .error .outOfRange
| t :: rest =>
    if t.kind = kind then .ok (t, rest)
    else .error (.expected t.line what t.text)

/- The longest prefix of tokens that pass, which must end. -/
def takeToks (p : Token → Bool) :
    List Token → Except ParseError (List Token × List Token)
| [] => .error .outOfRange
| t :: rest =>
    if p t then
      match takeToks p rest with
      | .error error => .error error
      | .ok (taken, after) => .ok (t :: taken, after)
    else .ok ([], t :: rest)

/- The words and strings that follow on one line. -/
def takeWords (line : Nat) :
    List Token → Except ParseError (List Token × List Token) :=
  takeToks fun t => t.isText && t.line == line

/- The tokens of a value on one line. -/
def restOfLine (line : Nat) :
    List Token → Except ParseError (List Token × List Token) :=
  takeToks fun t => t.line == line && t.isValue

/- The tokens of an operand, up to its parenthesis. -/
def operand :
    List Token → Except ParseError (List Token × List Token) :=
  takeToks fun t => t.kind != .rparen && t.kind != .eof

/- Tokens as a text, one space between any two. -/
def lineOf (toks : List Token) : Text :=
  Text.join (toks.map tokenText) " "

/-
  The condition of an `if` with its parentheses, and the
  line of the closing one.
-/
def parseCond (toks : List Token) :
    Except ParseError (Cond × Nat × List Token) := do
  let (_, toks) ← expect .lparen "'('" toks
  let (attr, toks) ← expect .word "condition attribute" toks
  let (op, toks) ← expect .word "condition operator" toks
  let (parts, toks) ← operand toks
  let (rp, toks) ← expect .rparen "')'" toks
  let value := Text.join (parts.map Token.text) " "
  let quoted := parts.any fun t => t.kind == .string
  return (⟨attr.text, op.text, value, quoted⟩, rp.line, toks)

end Tacconfig

end Soteria

------------------------------------------------------------
-- Parsing
------------------------------------------------------------

namespace Soteria

namespace Tacconfig

mutual

/-
  Statements up to the end of the file or, inside a block,
  to its closing brace, whose line comes back.
-/
def parseStmts : Nat → Bool → List Token →
    Except ParseError (List Node × Nat × List Token)
| 0, _, _ => .error .outOfFuel
| _ + 1, _, [] => .error .outOfRange
| fuel + 1, untilRBrace, t :: rest =>
    match t.kind with
    | .eof =>
        if untilRBrace then .error (.missingBrace t.line)
        else .ok ([], 0, t :: rest)
    | .rbrace =>
        if untilRBrace then .ok ([], t.line, rest)
        else .error (.unexpectedBrace t.line)
    | _ =>
        match parseStmt fuel (t :: rest) with
        | .error error => .error error
        | .ok (node, after) =>
            match parseStmts fuel untilRBrace after with
            | .error error => .error error
            | .ok (nodes, line, after) =>
                .ok (node :: nodes, line, after)

def parseStmt : Nat → List Token →
    Except ParseError (Node × List Token)
| 0, _ => .error .outOfFuel
| _ + 1, [] => .error .outOfRange
| fuel + 1, t :: rest =>
    if !t.isText then .error (.unexpectedToken t.line t.text)
    else if t.text = "if" then parseIf fuel t.line rest
    else
      match takeWords t.line rest with
      | .error error => .error error
      | .ok (_, []) => .error .outOfRange
      | .ok (words, next :: after) =>
          match next.kind with
          | .equals =>
              match restOfLine next.line after with
              | .error error => .error error
              | .ok (parts, after) =>
                  .ok
                    (.assign (lineOf (t :: words)) (lineOf parts)
                      t.line next.line,
                      after)
          | .lbrace =>
              match parseStmts fuel true after with
              | .error error => .error error
              | .ok (children, endLine, after) =>
                  .ok
                    (.block (tokenText t) (lineOf words) children
                      t.line endLine,
                      after)
          | _ =>
              .ok
                (.action (lineOf (t :: words)) t.line t.line,
                  next :: after)

/- An `if` on line `line`, from its parenthesis on. -/
def parseIf : Nat → Nat → List Token →
    Except ParseError (Node × List Token)
| 0, _, _ => .error .outOfFuel
| fuel + 1, line, toks =>
    match parseCond toks with
    | .error error => .error error
    | .ok (_, _, []) => .error .outOfRange
    | .ok (cond, rpLine, next :: rest) =>
        if next.kind = .lbrace then
          match parseStmts fuel true rest with
          | .error error => .error error
          | .ok (children, endLine, after) =>
              match parseElse fuel endLine after with
              | .error error => .error error
              | .ok (elseNodes, endLine, after) =>
                  .ok
                    (.ifNode cond children elseNodes false line
                      endLine,
                      after)
        else
          match restOfLine rpLine (next :: rest) with
          | .error error => .error error
          | .ok (parts, after) =>
              .ok
                (.ifNode cond [.action (lineOf parts) rpLine 0]
                  [] true line rpLine,
                  after)

/- The else part of an `if` whose body ended on `endLine`. -/
def parseElse : Nat → Nat → List Token →
    Except ParseError (List Node × Nat × List Token)
| 0, _, _ => .error .outOfFuel
| _ + 1, _, [] => .error .outOfRange
| fuel + 1, endLine, t :: rest =>
    if t.kind = .word ∧ t.text = "else" then
      match rest with
      | [] => .error .outOfRange
      | next :: body =>
          if next.kind = .lbrace then parseStmts fuel true body
          else
            match restOfLine t.line (next :: body) with
            | .error error => .error error
            | .ok (parts, after) =>
                .ok
                  ([.action (lineOf parts) t.line 0], endLine,
                    after)
    else .ok ([], endLine, t :: rest)

end

/- The tokens of a source as nodes. -/
def parseTokens (toks : List Token) :
    Except ParseError (List Node) :=
  match parseStmts (toks.length + 1) false toks with
  | .error error => .error error
  | .ok (nodes, _, _) => .ok nodes

/- `parse`: the nodes and the comments of a source. -/
def parse (src : Text) :
    Except ParseError (List Node × List Comment) :=
  (parseTokens (lex src).tokens).map fun nodes =>
    (nodes, (lex src).comments)

end Tacconfig

end Soteria
