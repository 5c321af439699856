import Soteria.Tacconfig.Survival

/-
  The actions of a body, split from its default action.

  A body is rendered as its actions, its conditions and its
  default action, in this order. Read as a script, it is
  what it was if it came in this order.

  Key definitions include:
    * `actionStmts`
    * `kept`, `endsScript`, `bodyArranged`
    * `splitDefault_cases`
    * `Statements`, `Reads.actions`, `ReadsNext.default`
-/

------------------------------------------------------------
-- Default Actions
------------------------------------------------------------

namespace Soteria

namespace Tacconfig

/- A default action is split off or there is none. -/
theorem splitDefault_cases (actions : List Text) :
    splitDefault actions = (actions, []) ∨
      ∃ lead last, isTerminalAction last = true ∧
        actions = lead ++ [last] ∧
          splitDefault actions = (lead, last) := by
  rcases List.eq_nil_or_concat' actions with
    rfl | ⟨lead, last, rfl⟩
  · exact Or.inl rfl
  · unfold splitDefault
    rw [List.getLast?_concat, List.dropLast_concat]
    by_cases hLast : isTerminalAction last = true
    · exact Or.inr ⟨lead, last, hLast, rfl, by simp [hLast]⟩
    · left
      simp [hLast]

theorem splitDefault_terminal
    (lead : List Text)
    {last : Text}
    (hLast : isTerminalAction last = true) :
    splitDefault (lead ++ [last]) = (lead, last) := by
  unfold splitDefault
  rw [List.getLast?_concat, List.dropLast_concat]
  simp [hLast]

theorem splitDefault_fst_subset
    {actions : List Text}
    {a : Text}
    (ha : a ∈ (splitDefault actions).1) :
    a ∈ actions := by
  rcases splitDefault_cases actions with
    hSplit | ⟨lead, last, _, rfl, hSplit⟩
  · rwa [hSplit] at ha
  · rw [hSplit] at ha
    exact List.mem_append_left _ ha

theorem splitDefault_snd (actions : List Text) :
    (splitDefault actions).2 = [] ∨
      isTerminalAction (splitDefault actions).2 = true := by
  rcases splitDefault_cases actions with
    hSplit | ⟨lead, last, hLast, _, hSplit⟩
  · exact Or.inl (by rw [hSplit])
  · exact Or.inr (by rw [hSplit]; exact hLast)

theorem getLastD_mem
    (xs : List Text) :
    xs.getLastD [] = [] ∨ xs.getLastD [] ∈ xs := by
  rcases List.eq_nil_or_concat' xs with rfl | ⟨lead, last, rfl⟩
  · exact Or.inl rfl
  · exact Or.inr (by simp)

theorem scriptDefault_terminal (nodes : List Node) :
    scriptDefault nodes = [] ∨
      isTerminalAction (scriptDefault nodes) = true := by
  rcases getLastD_mem
      (((nodes.filter Node.isStatement).map
        Node.actionText).filter isTerminalAction) with
    hNil | hMem
  · exact Or.inl hNil
  · exact Or.inr (List.mem_filter.mp hMem).2

theorem terminal_cases
    {a : Text}
    (hTerminal : isTerminalAction a = true) :
    a = "permit" ∨ a = "deny" := by
  simpa [isTerminalAction] using hTerminal

end Tacconfig

end Soteria

------------------------------------------------------------
-- Rendered Actions
------------------------------------------------------------

namespace Soteria

namespace Tacconfig

/- The actions that are written, as statements. -/
def actionStmts (actions : List Text) : List Stmt :=
  (actions.filter fun a => a.trimSpace != []).flatMap textStmt

/- A text that is not written only if it is empty. -/
def kept (a : Text) : Bool :=
  a == [] || a.trimSpace != []

theorem actionStmts_cons (a : Text) (rest : List Text) :
    actionStmts (a :: rest) =
      (if a.trimSpace = [] then [] else textStmt a) ++
        actionStmts rest := by
  unfold actionStmts
  by_cases hBlank : a.trimSpace = []
  · simp [hBlank]
  · simp [hBlank]

theorem actionStmts_of_kept
    {actions : List Text}
    (hKept : ∀ a ∈ actions, kept a = true) :
    actionStmts actions = actions.flatMap textStmt := by
  induction actions with
  | nil => rfl
  | cons a rest ih =>
      have hRest :=
        ih fun b hb => hKept b (List.mem_cons_of_mem _ hb)
      have hHead := hKept a (List.mem_cons_self ..)
      simp only [kept, Bool.or_eq_true, beq_iff_eq] at hHead
      rw [actionStmts_cons, hRest, List.flatMap_cons]
      by_cases hBlank : a.trimSpace = []
      · have hEmpty : a = [] := hHead.resolve_right (by simp [hBlank])
        rw [if_pos hBlank, hEmpty]
        rfl
      · rw [if_neg hBlank]

/- Taken apart and put together, a list of actions is kept. -/
theorem splitDefault_stmts
    {actions : List Text}
    (hKept : ∀ a ∈ actions, kept a = true) :
    actionStmts (splitDefault actions).1 ++
        textStmt (splitDefault actions).2 =
      actions.flatMap textStmt := by
  rw [actionStmts_of_kept fun a ha =>
    hKept a (splitDefault_fst_subset ha)]
  rcases splitDefault_cases actions with
    hSplit | ⟨lead, last, _, rfl, hSplit⟩
  · rw [hSplit]
    exact List.append_nil _
  · rw [hSplit, List.flatMap_append, List.flatMap_singleton]

/- The text of an action survives, or it is not written. -/
def ActionWritten (a : Text) : Prop :=
  a.trimSpace = [] ∨ StatementText a

theorem actionWritten_of_survives
    {a : Text}
    (hLexical : Lexical a)
    (hSurvives : actionSurvives a = true) :
    ActionWritten a := by
  simp only [actionSurvives, Bool.or_eq_true, beq_iff_eq]
    at hSurvives
  rcases hSurvives with hBlank | hRereads
  · exact Or.inl hBlank
  · exact Or.inr (statementText_of_rereads hLexical hRereads)

/- The actions of the nodes are written so as to survive. -/
theorem actionWritten_of_node
    {n : Node}
    (hWritten : n.Written)
    (hSurvives : actionSurvives n.actionText = true) :
    ActionWritten n.actionText :=
  actionWritten_of_survives hWritten.lexical hSurvives

/- The actions that are written at all. -/
def writtenActions (actions : List Text) : List Text :=
  actions.filter fun a => a.trimSpace != []

/- A default action as a list, with nothing if it is empty. -/
def defaultText (action : Text) : List Text :=
  if action = [] then [] else [action]

/- The nodes are statements with these texts. -/
structure Statements
    (texts : List Text)
    (nodes : List Node) : Prop where
  statements : ∀ n ∈ nodes, n.isStatement = true
  texts : nodes.map Node.actionText = texts

theorem Statements.nil : Statements [] [] :=
  ⟨by simp, rfl⟩

theorem Statements.cons
    {n : Node}
    {texts : List Text}
    {nodes : List Node}
    (hStatement : n.isStatement = true)
    (hNodes : Statements texts nodes) :
    Statements (n.actionText :: texts) (n :: nodes) := by
  refine ⟨?_, by rw [List.map_cons, hNodes.texts]⟩
  intro m hm
  rcases List.mem_cons.mp hm with rfl | hm
  · exact hStatement
  · exact hNodes.statements m hm

theorem Statements.append
    {texts more : List Text}
    {nodes others : List Node}
    (hNodes : Statements texts nodes)
    (hOthers : Statements more others) :
    Statements (texts ++ more) (nodes ++ others) := by
  refine ⟨?_, by
    rw [List.map_append, hNodes.texts, hOthers.texts]⟩
  intro n hn
  rcases List.mem_append.mp hn with hn | hn
  · exact hNodes.statements n hn
  · exact hOthers.statements n hn

/- The script of statements is that of their texts. -/
theorem Statements.script
    {texts : List Text}
    {nodes : List Node}
    (hNodes : Statements texts nodes) :
    script nodes = texts.flatMap textStmt := by
  rw [script_of_statements hNodes.statements, hNodes.texts]

theorem defaultText_stmts (action : Text) :
    (defaultText action).flatMap textStmt = textStmt action := by
  unfold defaultText
  by_cases hEmpty : action = []
  · simp [hEmpty, textStmt]
  · rw [if_neg hEmpty, List.flatMap_singleton]

theorem Test.text_append
    (attr operator operand : Text)
    (indent rest : Text) :
    indent ++ "if (" ++ attr ++ " " ++ operator ++ " " ++
        operand ++ ") \x7b\n" ++ rest =
      indent ++
          (Test.text ⟨attr, operator, []⟩ operand ++
            " \x7b") ++
          "\n" ++ rest := by
  have hClose : (") \x7b\n" : Text) = ")" ++ " \x7b" ++ "\n" :=
    rfl
  unfold Test.text
  rw [hClose]
  simp only [List.append_assoc]

/- Actions on their lines, and then the rest. -/
theorem Reads.actions
    {indent rest : Text}
    {actions : List Text}
    {P : List Node → Prop}
    (hIndent : Indent indent)
    (hActions : ∀ a ∈ actions, ActionWritten a)
    (hRest : Reads rest P) :
    Reads (renderActions indent actions ++ rest) fun nodes =>
      ∃ first more, nodes = first ++ more ∧
        Statements (writtenActions actions) first ∧ P more := by
  induction actions with
  | nil =>
      refine hRest.mono fun nodes hNodes => ?_
      exact ⟨[], nodes, rfl, .nil, hNodes⟩
  | cons a others ih =>
      have hOthers :=
        ih fun b hb => hActions b (List.mem_cons_of_mem _ hb)
      rw [renderActions, writtenActions, List.filter_cons]
      by_cases hBlank : a.trimSpace = []
      · simp only [hBlank, if_true, bne_self_eq_false,
          Bool.false_eq_true, if_false]
        exact hOthers
      · have hText : StatementText a :=
          (hActions a (List.mem_cons_self ..)).resolve_left
            hBlank
        have hFirst := hOthers.action hIndent hText
        rw [if_neg hBlank, if_pos (by simpa using hBlank)]
        simp only [List.append_assoc] at hFirst ⊢
        refine hFirst.mono fun nodes hNodes => ?_
        rcases hNodes with
          ⟨n, _, rfl, hStatement, rfl, first, more, rfl, hAll,
            hMore⟩
        exact ⟨n :: first, more, rfl, hAll.cons hStatement,
          hMore⟩

/- A default action on its line, and then the rest. -/
theorem ReadsNext.default
    {indent rest action : Text}
    {P : List Node → Prop}
    (hIndent : Indent indent)
    (hAction : action = [] ∨ isTerminalAction action = true)
    (hRest : ReadsNext rest P) :
    ReadsNext (renderDefault indent action ++ rest) fun nodes =>
      ∃ first more, nodes = first ++ more ∧
        Statements (defaultText action) first ∧ P more := by
  unfold renderDefault defaultText
  by_cases hEmpty : action = []
  · rw [if_pos hEmpty, if_pos hEmpty]
    refine hRest.mono fun nodes hNodes => ?_
    exact ⟨[], nodes, rfl, .nil, hNodes⟩
  · rw [if_neg hEmpty, if_neg hEmpty]
    have hTerminal := hAction.resolve_left hEmpty
    have hPlain : PlainWord action := by
      rcases terminal_cases hTerminal with rfl | rfl
      · exact ⟨by decide, by decide⟩
      · exact ⟨by decide, by decide⟩
    have hIf : action ≠ "if" ∧ action ≠ "else" := by
      rcases terminal_cases hTerminal with rfl | rfl
      · decide
      · decide
    have hFirst :=
      ReadsNext.word hIndent (hPlain.lexesTo 0) hIf.1 hIf.2
        hRest.reads
    refine hFirst.mono fun nodes hNodes => ?_
    rcases hNodes with ⟨n, more, rfl, hStatement, rfl, hMore⟩
    exact ⟨[n], more, rfl, Statements.nil.cons hStatement,
      hMore⟩

/- A default action, and nothing else. -/
theorem ReadsNext.defaultOnly
    {indent action : Text}
    (hIndent : Indent indent)
    (hAction : action = [] ∨ isTerminalAction action = true) :
    ReadsNext (renderDefault indent action)
      (Statements (defaultText action)) := by
  have hAll := ReadsNext.default hIndent hAction ReadsNext.nil
  rw [List.append_nil] at hAll
  refine hAll.mono fun nodes hNodes => ?_
  rcases hNodes with ⟨first, more, rfl, hFirst, rfl⟩
  rwa [List.append_nil]

end Tacconfig

end Soteria

------------------------------------------------------------
-- Arranged Bodies
------------------------------------------------------------

namespace Soteria

namespace Tacconfig

/- Nothing, or one last `permit` or `deny`. -/
def endsScript : List Node → Bool
| [] => true
| [n] => n.isStatement && isTerminalAction n.actionText
| _ => false

/-
  Statements, then conditions, and then at most a `permit`
  or `deny`. Without conditions there is nothing to reorder;
  else the statements before them must not end the script.
-/
def bodyArranged (body : List Node) : Bool :=
  let lead := body.takeWhile Node.isStatement
  let rest := body.dropWhile Node.isStatement
  let conds := rest.takeWhile Node.isIf
  let last := rest.dropWhile Node.isIf
  lead.all (fun n => kept n.actionText) && endsScript last &&
    (conds.isEmpty || !last.isEmpty ||
      (splitDefault (lead.map Node.actionText)).2 == [])

/- Conditions, and then at most a `permit` or `deny`. -/
def scriptArranged (nodes : List Node) : Bool :=
  endsScript (nodes.dropWhile Node.isIf)

theorem endsScript_cases
    {nodes : List Node}
    (hEnds : endsScript nodes = true) :
    nodes = [] ∨
      ∃ n, nodes = [n] ∧ n.isStatement = true ∧
        isTerminalAction n.actionText = true := by
  match nodes, hEnds with
  | [], _ => exact Or.inl rfl
  | [n], hEnds =>
      right
      simp only [endsScript, Bool.and_eq_true] at hEnds
      exact ⟨n, rfl, hEnds.1, hEnds.2⟩

/- An arranged body in its parts. -/
theorem bodyArranged_parts
    {body : List Node}
    (hArranged : bodyArranged body = true) :
    ∃ lead conds last,
      body = lead ++ conds ++ last ∧
        (∀ n ∈ lead, n.isStatement = true) ∧
        (∀ n ∈ lead, kept n.actionText = true) ∧
        (∀ n ∈ conds, n.isIf = true) ∧
        endsScript last = true ∧
        (conds = [] ∨ last ≠ [] ∨
          (splitDefault (lead.map Node.actionText)).2 = []) := by
  simp only [bodyArranged, Bool.and_eq_true, Bool.or_eq_true,
    List.isEmpty_iff, Bool.not_eq_true', beq_iff_eq,
    List.all_eq_true] at hArranged
  rcases hArranged with ⟨⟨hKept, hEnds⟩, hDefault⟩
  refine ⟨_, (body.dropWhile Node.isStatement).takeWhile
    Node.isIf, _, ?_, ?_, hKept, ?_, hEnds, ?_⟩
  · rw [List.append_assoc, List.takeWhile_append_dropWhile,
      List.takeWhile_append_dropWhile]
  · intro n hn
    exact List.mem_takeWhile_imp hn
  · intro n hn
    exact List.mem_takeWhile_imp hn
  · rcases hDefault with (hConds | hLast) | hSplit
    · exact Or.inl hConds
    · right
      left
      intro hNil
      rw [hNil] at hLast
      cases hLast
    · exact Or.inr (Or.inr hSplit)

theorem not_isIf_of_statement
    {n : Node}
    (hStatement : n.isStatement = true) :
    n.isIf = false := by
  cases n <;> simp_all [Node.isStatement, Node.isIf]

theorem filter_not_isIf
    {nodes : List Node}
    (hStatements : ∀ n ∈ nodes, n.isStatement = true) :
    nodes.filter (fun n => !n.isIf) = nodes := by
  rw [List.filter_eq_self]
  intro n hn
  rw [not_isIf_of_statement (hStatements n hn)]
  rfl

theorem filter_isIf
    {nodes : List Node}
    (hConds : ∀ n ∈ nodes, n.isIf = true) :
    nodes.filter (fun n => !n.isIf) = [] := by
  rw [List.filter_eq_nil_iff]
  intro n hn
  rw [hConds n hn]
  simp

/- What is rendered of an arranged body is its script. -/
theorem bodyArranged_script
    {body : List Node}
    (hArranged : bodyArranged body = true) :
    ∃ conds,
      (∀ n ∈ conds, n.isIf = true) ∧
        body.filter Node.isIf = conds ∧
        script body =
          actionStmts
              (splitDefault
                ((body.filter fun n => !n.isIf).map
                  Node.actionText)).1 ++
            script conds ++
            textStmt
              (splitDefault
                ((body.filter fun n => !n.isIf).map
                  Node.actionText)).2 := by
  rcases bodyArranged_parts hArranged with
    ⟨lead, conds, last, rfl, hLead, hKept, hConds, hEnds,
      hDefault⟩
  have hLeadIf : lead.filter Node.isIf = [] := by
    rw [List.filter_eq_nil_iff]
    intro n hn
    rw [not_isIf_of_statement (hLead n hn)]
    simp
  have hCondsIf : conds.filter Node.isIf = conds :=
    List.filter_eq_self.mpr hConds
  have hTexts :
      ∀ a ∈ lead.map Node.actionText, kept a = true := by
    intro a ha
    rcases List.mem_map.mp ha with ⟨n, hn, rfl⟩
    exact hKept n hn
  rcases endsScript_cases hEnds with
    rfl | ⟨n, rfl, hStatement, hTerminal⟩
  · refine ⟨conds, hConds, ?_, ?_⟩
    · rw [List.append_nil, List.filter_append, hLeadIf,
        hCondsIf, List.nil_append]
    rw [List.append_nil, List.filter_append,
      filter_not_isIf hLead, filter_isIf hConds,
      List.append_nil, script_append,
      script_of_statements hLead]
    have hSplit := splitDefault_stmts hTexts
    rcases hDefault with rfl | hLast | hNone
    · rw [← hSplit]
      simp [script]
    · exact (hLast rfl).elim
    · rw [hNone] at hSplit ⊢
      rw [← hSplit]
      simp [textStmt]
  · have hNotIf := not_isIf_of_statement hStatement
    refine ⟨conds, hConds, ?_, ?_⟩
    · rw [List.filter_append, List.filter_append, hLeadIf,
        hCondsIf]
      simp [hNotIf]
    rw [List.filter_append, List.filter_append,
      filter_not_isIf hLead, filter_isIf hConds,
      List.append_nil, List.filter_cons, script_append,
      script_append, script_of_statements hLead]
    have hSplit :=
      splitDefault_terminal (lead.map Node.actionText) hTerminal
    simp only [hNotIf, Bool.not_false, if_true, List.filter_nil,
      List.map_append, List.map_cons, List.map_nil, hSplit]
    rw [actionStmts_of_kept hTexts, script,
      nodeScript_of_statement hStatement]
    simp [script]

theorem scriptDefault_conds
    {nodes : List Node}
    (hConds : ∀ n ∈ nodes, n.isIf = true) :
    nodes.filter Node.isStatement = [] := by
  rw [List.filter_eq_nil_iff]
  intro n hn hStatement
  have hIf := hConds n hn
  rw [not_isIf_of_statement hStatement] at hIf
  cases hIf

/- What is rendered of an arranged script is the script. -/
theorem scriptArranged_script
    {nodes : List Node}
    (hArranged : scriptArranged nodes = true) :
    script nodes =
      script (nodes.filter Node.isIf) ++
        textStmt (scriptDefault nodes) := by
  have hParts :
      nodes =
        nodes.takeWhile Node.isIf ++
          nodes.dropWhile Node.isIf :=
    (List.takeWhile_append_dropWhile).symm
  have hIf : ∀ n ∈ nodes.takeWhile Node.isIf, n.isIf = true :=
    fun n hn => List.mem_takeWhile_imp hn
  unfold scriptArranged at hArranged
  generalize nodes.takeWhile Node.isIf = conds at hParts hIf
  generalize nodes.dropWhile Node.isIf = last
    at hParts hArranged
  subst hParts
  have hConds : conds.filter Node.isIf = conds :=
    List.filter_eq_self.mpr hIf
  rcases endsScript_cases hArranged with
    rfl | ⟨n, rfl, hStatement, hTerminal⟩
  · rw [List.append_nil, hConds, scriptDefault,
      scriptDefault_conds hIf]
    exact (List.append_nil _).symm
  · rw [List.filter_append, hConds, scriptDefault,
      List.filter_append, scriptDefault_conds hIf,
      script_append, script, nodeScript_of_statement hStatement]
    simp [not_isIf_of_statement hStatement, hStatement,
      hTerminal, script]

end Tacconfig

end Soteria

------------------------------------------------------------
-- Blocks of a File
------------------------------------------------------------

namespace Soteria

namespace Tacconfig

theorem findBlock_mem
    {name : Text}
    {nodes children : List Node}
    (hFind : findBlock name nodes = some children) :
    ∃ label startLine endLine,
      Node.block name label children startLine endLine ∈
        nodes := by
  induction nodes with
  | nil => cases hFind
  | cons n rest ih =>
      have hRest :
          findBlock name rest = some children →
            ∃ label startLine endLine,
              Node.block name label children startLine
                endLine ∈ n :: rest := by
        intro hLater
        rcases ih hLater with ⟨label, first, last, hMem⟩
        exact ⟨label, first, last, List.mem_cons_of_mem _ hMem⟩
      cases n with
      | block blockName label body startLine endLine =>
          rw [findBlock] at hFind
          split at hFind
          · rename_i hName
            cases hFind
            subst hName
            exact ⟨label, startLine, endLine,
              List.mem_cons_self ..⟩
          · exact hRest hFind
      | _ => exact hRest hFind

theorem findBlock_written
    {name : Text}
    {nodes : List Node}
    (hWritten : WrittenAll nodes) :
    WrittenAll ((findBlock name nodes).getD []) := by
  cases hFind : findBlock name nodes with
  | none => trivial
  | some children =>
      rcases findBlock_mem hFind with ⟨_, _, _, hMem⟩
      exact (hWritten.of_mem hMem).2

theorem WrittenAll.filter
    {nodes : List Node}
    (hWritten : WrittenAll nodes)
    (p : Node → Bool) :
    WrittenAll (nodes.filter p) := by
  induction nodes with
  | nil => trivial
  | cons n rest ih =>
      have hRest := ih hWritten.2
      rw [List.filter_cons]
      split
      · exact ⟨hWritten.1, hRest⟩
      · exact hRest

end Tacconfig

end Soteria
