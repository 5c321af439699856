import Soteria.Tacconfig.Records

/-
  The config a decision is traced against, with the traced
  user as a member of a group.

  The names are pasted as they are. A name that is read as
  one word or one string stays in its place.

  Key definitions include:
    * `validToolName`, `buildTraceConfig`
    * `OneWord`, `OneValue`
    * `traceBody`, `traceNodes`
    * `traceConfig_reads`
-/

------------------------------------------------------------
-- The Config
------------------------------------------------------------

namespace Soteria

namespace Api

open Tacconfig

/- `validToolName`. -/
def validToolName (s : Text) : Bool :=
  if s = [] ∨ 128 < s.byteLength then false
  else !s.containsAny " \t\r\n\x00"

/- The files a trace includes. -/
def traceIncludes : List Text :=
  ["04-devices.cfg", "06-groups.cfg", "07-profiles.cfg",
    "08-ruleset.cfg", "05-local-users.cfg"]

def renderInclude (file : Text) : Text :=
  "    include = /etc/tac_plus-ng/conf.d/" ++ file ++ "\n"

/- What stands between the braces of the server's block. -/
def traceBody (username group : Text) : Text :=
  traceIncludes.flatMap renderInclude ++
    if group ≠ [] then
      "    user " ++ username ++ " \x7b\n        member = " ++
        group ++ "\n    \x7d\n"
    else []

/- `buildTraceConfig`. -/
def buildTraceConfig (username group : Text) : Text :=
  "id = spawnd \x7b background = no \x7d\n" ++
    "id = tac_plus-ng \x7b\n" ++ traceBody username group ++
    "\x7d\n"

/- The include assignments, from a line on. -/
def includeNodes : Nat → List Text → List Node
| _, [] => []
| line, file :: rest =>
    .assign "include" ("/etc/tac_plus-ng/conf.d/" ++ file) line
        line ::
      includeNodes (line + 1) rest

/- The five includes, and the user where there is a group. -/
def traceNodes (username group : Text) : List Node :=
  includeNodes 1 traceIncludes ++
    if group ≠ [] then
      [.block "user" username [.assign "member" group 7 7] 6 8]
    else []

end Api

end Soteria

------------------------------------------------------------
-- Names Read as One Token
------------------------------------------------------------

namespace Soteria

namespace Api

open Tacconfig

/- The text is read as one word or one closed string. -/
inductive OneWord : Text → Prop
| bare
    {s : Text}
    (hPlain : PlainWord s) :
    OneWord s
| operator
    {s : Text}
    (hOperator : s = "==" ∨ s = "=~" ∨ s = "!=") :
    OneWord s
| quoted
    {s : Text}
    (hClosed : Closed s) :
    OneWord ("\"" ++ s ++ "\"")

/- As a value it may be an equals sign, too. -/
def OneValue (s : Text) : Prop :=
  OneWord s ∨ s = "="

theorem exact_operator
    {s : Text}
    (hOperator : s = "==" ∨ s = "=~" ∨ s = "!=") :
    Exact s [⟨.word, s, 0⟩] := by
  intro line rest _
  rcases hOperator with rfl | rfl | rfl
  · show lexAt line ('=' :: '=' :: rest) = _
    rw [lexAt_cons]
    rfl
  · show lexAt line ('=' :: '~' :: rest) = _
    rw [lexAt_cons]
    rfl
  · show lexAt line ('!' :: '=' :: rest) = _
    rw [lexAt_cons]
    rfl

theorem OneWord.exact
    {s : Text}
    (hWord : OneWord s) :
    ∃ t, Exact s [t] ∧ t.isText = true ∧ tokenText t = s := by
  cases hWord with
  | bare hPlain => exact ⟨_, hPlain.exact, rfl, rfl⟩
  | operator hOperator =>
      exact ⟨_, exact_operator hOperator, rfl, rfl⟩
  | quoted hClosed => exact ⟨_, hClosed.exact, rfl, rfl⟩

theorem OneValue.valueLine
    {s : Text}
    (hValue : OneValue s) :
    ValueLine s := by
  rcases hValue with hWord | rfl
  · rcases hWord.exact with ⟨t, hExact, hText, hSame⟩
    refine ⟨[t], hExact, ?_, ?_⟩
    · intro u hu
      rw [List.mem_singleton.mp hu]
      unfold Token.isValue
      rw [hText, Bool.true_or]
    · rw [lineOf_single, hSame]
  · exact ⟨_, exact_equals, by decide, rfl⟩

end Api

end Soteria

------------------------------------------------------------
-- Reading the Config
------------------------------------------------------------

namespace Soteria

namespace Api

open Tacconfig

theorem renderInclude_lays
    {file : Text}
    (hFile : file ∈ traceIncludes) :
    Lays (renderInclude file) 1
      (fun line =>
        [.assign "include" ("/etc/tac_plus-ng/conf.d/" ++ file)
          line line])
      (fun _ => []) := by
  have hInclude : PlainWord ("include" : Text) :=
    ⟨by decide, by decide⟩
  have hPath :
      PlainWord ("/etc/tac_plus-ng/conf.d/" ++ file) := by
    have hAll :
        ∀ file ∈ traceIncludes,
          PlainWord ("/etc/tac_plus-ng/conf.d/" ++ file) := by
      unfold PlainWord
      decide
    exact hAll file hFile
  have hAll :=
    Lays.assign indent_four hInclude.exact indent_blank (by simp)
      hPath.exact rfl (by decide) (by simp)
      (by simp [Token.isValue, Token.isText])
  rw [lineOf_single, lineOf_single] at hAll
  have hLead :
      ("    include = /etc/tac_plus-ng/conf.d/" : Text) =
        "    " ++ ("include" ++ (" " ++ ("= " ++
          "/etc/tac_plus-ng/conf.d/"))) := by
    repeat rw [String.toList_ofList]
    rfl
  unfold renderInclude
  rw [hLead]
  simp only [List.append_assoc] at hAll ⊢
  exact hAll

theorem renderIncludes_lays
    {files : List Text}
    (hFiles : ∀ file ∈ files, file ∈ traceIncludes) :
    Lays (files.flatMap renderInclude) files.length
      (fun line => includeNodes line files) (fun _ => []) := by
  induction files with
  | nil => exact Lays.nil
  | cons file rest ih =>
      have hFirst :=
        renderInclude_lays (hFiles file (List.mem_cons_self ..))
      have hRest :=
        ih fun other hMem =>
          hFiles other (List.mem_cons_of_mem _ hMem)
      have hAll := hFirst.append hRest
      rw [Nat.add_comm] at hAll
      exact hAll

/- The block of the traced user. -/
theorem traceUser_lays
    {username group : Text}
    (hUser : OneWord username)
    (hGroup : OneValue group) :
    Lays
      ("    user " ++ username ++ " \x7b\n        member = " ++
        group ++ "\n    \x7d\n")
      3
      (fun line =>
        [.block "user" username
          [.assign "member" group (line + 1) (line + 1)] line
          (line + 2)])
      (fun _ => []) := by
  rcases hUser.exact with ⟨t, hExact, hText, hSame⟩
  rcases hGroup.valueLine with ⟨toks, hValue, hToks, hLine⟩
  have hEight : Indent "        " := by
    decide
  have hHead :=
    heading_label plainWord_user (by decide) (by decide)
      hExact.lexesTo (by simpa using hText)
  have hBoth :=
    plainWord_user.exact.gap hExact indent_blank (by simp)
  have hMember :=
    Lays.assign hEight plainWord_member.exact indent_blank
      (by simp) hValue rfl (by decide) (by simp) hToks
  have hAll :=
    Lays.indentedBlock indent_four hHead hBoth hMember
  rw [lineOf_single, lineOf_single, hSame, hLine] at hAll
  have hStart : ("    user " : Text) = "    " ++ ("user" ++ " ") :=
    rfl
  have hMiddle :
      (" \x7b\n        member = " : Text) =
        " \x7b\n" ++ ("        " ++ ("member" ++ (" " ++ "= "))) := by
    repeat rw [String.toList_ofList]
    rfl
  have hEnd : ("\n    \x7d\n" : Text) = "\n" ++ ("    " ++ "\x7d\n") := by
    repeat rw [String.toList_ofList]
    rfl
  rw [hStart, hMiddle, hEnd]
  simp only [List.append_assoc] at hAll ⊢
  exact hAll

/- The grammar has no block behind an equals sign. -/
theorem parse_valueBlock
    (rest : Text)
    (parsed : List Node × List Comment) :
    parse ("id = spawnd \x7b" ++ rest) ≠ .ok parsed := by
  have hId : PlainWord ("id" : Text) := ⟨by decide, by decide⟩
  have hSpawnd : PlainWord ("spawnd" : Text) :=
    ⟨by decide, by decide⟩
  have hHead :
      Splits "id = spawnd \x7b"
        ([⟨.word, "id", 0⟩] ++ [⟨.equals, "=", 0⟩] ++
          [⟨.word, "spawnd", 0⟩] ++ [⟨.lbrace, "\x7b", 0⟩]) :=
    (((hId.lexesTo 0).blank.append
      (lexesTo_equals 0).blank).append
        (hSpawnd.lexesTo 0).blank).append (splits_lbrace 0)
  have hTokens := hHead 1 rest
  generalize (lexAt 1 rest).tokens = more at hTokens
  intro hParse
  have hOk := (parse_ok_iff.mp hParse).1
  unfold lex at hOk
  rw [hTokens] at hOk
  simp [parseTokens, parseStmts, parseStmt, takeWords, takeToks,
    restOfLine, Token.isText, Token.isValue, Token.onLine] at hOk

/-
  The config is the block of the daemon, and around these
  lines the block of the server. Its lines are read as the
  includes and, where there is a group, as the block of the
  user in it. The two blocks themselves are not statements
  of the grammar.
-/
theorem traceConfig_reads
    {username group : Text}
    (hNames :
      group ≠ [] → OneWord username ∧ OneValue group) :
    buildTraceConfig username group =
        "id = spawnd \x7b background = no \x7d\n" ++
          "id = tac_plus-ng \x7b\n" ++
          traceBody username group ++ "\x7d\n" ∧
      parse (traceBody username group) =
        .ok (traceNodes username group, []) ∧
      ∀ parsed,
        parse (buildTraceConfig username group) ≠
          .ok parsed := by
  refine ⟨rfl, ?_, ?_⟩
  · have hIncludes := renderIncludes_lays fun file hFile =>
      (hFile : file ∈ traceIncludes)
    unfold traceBody traceNodes
    by_cases hGroup : group ≠ []
    · rcases hNames hGroup with ⟨hUser, hMember⟩
      rw [if_pos hGroup, if_pos hGroup]
      exact (hIncludes.append
        (traceUser_lays hUser hMember)).parse
    · rw [if_neg hGroup, if_neg hGroup]
      exact (hIncludes.append Lays.nil).parse
  · intro parsed
    have hStart :
        ("id = spawnd \x7b background = no \x7d\n" : Text) =
          "id = spawnd \x7b" ++ " background = no \x7d\n" := by
      repeat rw [String.toList_ofList]
      rfl
    unfold buildTraceConfig
    rw [hStart, List.append_assoc, List.append_assoc,
      List.append_assoc]
    exact parse_valueBlock _ parsed

/- A user in a group, by plain names. -/
theorem traceConfig_reads_plain :
    buildTraceConfig "alice" "ops" =
        "id = spawnd \x7b background = no \x7d\n" ++
          "id = tac_plus-ng \x7b\n" ++
          traceBody "alice" "ops" ++ "\x7d\n" ∧
      parse (traceBody "alice" "ops") =
        .ok (traceNodes "alice" "ops", []) ∧
      ∀ parsed,
        parse (buildTraceConfig "alice" "ops") ≠ .ok parsed := by
  apply traceConfig_reads
  intro _
  exact ⟨.bare ⟨by decide, by decide⟩,
    Or.inl (.bare ⟨by decide, by decide⟩)⟩

/- Not even plain names make a config that is parsed. -/
theorem traceConfig_not_parsed :
    validToolName "alice" = true ∧ validToolName "ops" = true ∧
      (parse (buildTraceConfig "alice" "ops")).toOption.isNone =
        true := by
  decide +kernel

end Api

end Soteria
