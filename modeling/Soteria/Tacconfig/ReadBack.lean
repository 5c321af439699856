import Soteria.Tacconfig.Backend

/-
  The DNS file as it is read back.

  Each reader looks for the first line that has its setting.
  The lines in front of it do not match, and on the line
  itself the match that is tried first is the value.

  Key definitions include:
    * `SkipsComments`, `groupFrom`
    * `reverseWord`, `timeoutWord`
    * `firstGroup_dnsServers`, `firstGroup_dnsReverse`
    * `firstGroup_dnsTimeout`
-/

------------------------------------------------------------
-- Lines That Are Passed Over
------------------------------------------------------------

namespace Soteria

namespace Tacconfig

open Regex (Pattern startsLine)

/- No match starts with a comment. -/
def SkipsComments (r : Pattern) : Prop :=
  ∀ prev rest, r.run prev ('#' :: rest) = []

theorem findFrom_commentLine
    {r : Pattern}
    {prev : Option Char}
    {s rest : Text}
    (hAnchored : r.Anchored)
    (hSkips : SkipsComments r)
    (hLine : '\n' ∉ s) :
    r.findFrom prev (commentLine s ++ rest) =
      r.findFrom (some '\n') rest := by
  have hText :
      commentLine s ++ rest = ("# " ++ s) ++ '\n' :: rest := by
    simp [commentLine]
  have hWhole : '\n' ∉ "# " ++ s := by
    rw [List.mem_append, not_or]
    exact ⟨by decide, hLine⟩
  rw [hText]
  exact hAnchored.findFrom_line hWhole (hSkips prev _)

/- Behind the comment at the top there is an empty line. -/
theorem findFrom_banner
    {r : Pattern}
    {prev : Option Char}
    {file title rest : Text}
    (hAnchored : r.Anchored)
    (hSkips : SkipsComments r)
    (hFile : '\n' ∉ file)
    (hTitle : '\n' ∉ title) :
    r.findFrom prev (banner file title ++ rest) =
      r.findFrom (some '\n') ("\n" ++ rest) := by
  have hRule : '\n' ∉ Text.repeated "=" 77 := by decide
  have hName : '\n' ∉ file ++ (" - " ++ title) := by
    simp only [List.mem_append, not_or]
    exact ⟨hFile, by decide, hTitle⟩
  have hCompany :
      '\n' ∉ "Company:    Pathfinder Insights".toList :=
    Text.notMem_literal (by decide)
  have hProject :
      '\n' ∉ "Project:    Soteria AAA Infrastructure".toList :=
    Text.notMem_literal (by decide)
  have hManaged :
      '\n' ∉
        "Managed by: soteria-agent - manual edits are overwritten on the next commit".toList :=
    Text.notMem_literal (by decide)
  unfold banner
  simp only [List.append_assoc]
  rw [findFrom_commentLine hAnchored hSkips hRule,
    findFrom_commentLine hAnchored hSkips hName,
    findFrom_commentLine hAnchored hSkips hRule,
    findFrom_commentLine hAnchored hSkips hCompany,
    findFrom_commentLine hAnchored hSkips hProject,
    findFrom_commentLine hAnchored hSkips hManaged,
    findFrom_commentLine hAnchored hSkips hRule]

end Tacconfig

end Soteria

------------------------------------------------------------
-- The Value of a Line
------------------------------------------------------------

namespace Soteria

namespace Tacconfig

open Regex (Pattern startsLine)

/- The first group of the first match from a position on. -/
def groupFrom
    (r : Pattern)
    (prev : Option Char)
    (s : Text) : Option Text :=
  (r.findFrom prev s).map fun m => m.group 1

theorem groupFrom_first
    {r : Pattern}
    {prev : Option Char}
    {s text rest v : Text}
    {groups : List (Nat × Text)}
    (hFirst : r.First prev s ⟨text, rest, (1, v) :: groups⟩) :
    groupFrom r prev s = some v := by
  unfold groupFrom
  rw [Pattern.findFrom_here hFirst]
  rfl

theorem groupFrom_banner
    {r : Pattern}
    {file title rest : Text}
    (hAnchored : r.Anchored)
    (hSkips : SkipsComments r)
    (hFile : '\n' ∉ file)
    (hTitle : '\n' ∉ title) :
    firstGroup r (banner file title ++ rest) =
      groupFrom r (some '\n') ("\n" ++ rest) := by
  unfold firstGroup Pattern.find groupFrom
  rw [findFrom_banner hAnchored hSkips hFile hTitle]

/- A line without a match is passed over. -/
theorem groupFrom_line
    {r : Pattern}
    {prev : Option Char}
    {line rest : Text}
    (hAnchored : r.Anchored)
    (hLine : '\n' ∉ line)
    (hNone : r.run prev (line ++ '\n' :: rest) = []) :
    groupFrom r prev (line ++ '\n' :: rest) =
      groupFrom r (some '\n') rest := by
  unfold groupFrom
  rw [hAnchored.findFrom_line hLine hNone]

end Tacconfig

end Soteria

------------------------------------------------------------
-- 02-dns.cfg
------------------------------------------------------------

namespace Soteria

namespace Tacconfig

open Regex (Pattern startsLine)

theorem anchored_dnsSetting (name : Text) :
    (dnsSetting name).Anchored :=
  Pattern.anchored_lineStart.seq _

theorem skips_dnsSetting
    (name : Text)
    (more : Pattern) :
    SkipsComments (.seq (dnsSetting name) more) := by
  intro prev rest
  unfold dnsSetting Pattern.all
  cases prev with
  | none => rfl
  | some c =>
      by_cases hLine : c = '\n'
      · subst hLine
        rfl
      · exact (Pattern.anchored_lineStart.seq _ |>.seq
          _).run_eq_nil hLine _

theorem first_equals
    {prev : Option Char}
    {c d rest : Text}
    (hc : Blank c)
    (hd : Blank d)
    (hRest : ∀ x ∈ rest.head?, Regex.space x = false) :
    ∃ text,
      equals.First prev (c ++ ("=" ++ (d ++ rest)))
        ⟨text, rest, []⟩ := by
  have hSign :
      ∀ x ∈ ("=" ++ (d ++ rest)).head?,
        Regex.space x = false := by
    intro x hx
    cases hx
    decide
  exact ⟨_, Pattern.first_seq (Pattern.first_many hc hSign)
    (Pattern.first_seq (Pattern.first_lit "=" _)
      (Pattern.first_seq (Pattern.first_many hd hRest)
        Pattern.first_empty))⟩

/- A text is cut behind its blanks in one way only. -/
theorem blank_unique
    {a b x y : Text}
    (ha : Blank a)
    (hb : Blank b)
    (hx : ∀ c ∈ x.head?, Regex.space c = false)
    (hy : ∀ c ∈ y.head?, Regex.space c = false)
    (hSame : a ++ x = b ++ y) :
    a = b ∧ x = y := by
  have hSpan :
      ∀ {s t : Text}, Blank s →
        (∀ c ∈ t.head?, Regex.space c = false) →
          (s ++ t).takeWhile Regex.space = s := by
    intro s t hs ht
    rw [List.takeWhile_append_of_pos hs]
    cases t with
    | nil => simp
    | cons c t =>
        rw [List.takeWhile_cons_of_neg (by simp [ht c rfl]),
          List.append_nil]
  have hFirst : a = b := by
    rw [← hSpan ha hx, hSame, hSpan hb hy]
  subst hFirst
  exact ⟨rfl, List.append_cancel_left hSame⟩

/- A line of another setting does not match. -/
theorem run_otherSetting
    {name gap rest : Text}
    {c : Char}
    {prev : Option Char}
    (more : Pattern)
    (hGap : Blank gap)
    (hSome : name ≠ [])
    (hName : ∀ x ∈ name.head?, Regex.space x = false ∧ x ≠ c)
    (hOther : Regex.space c = false) :
    (Pattern.seq (dnsSetting name) more).run prev
        (gap ++ ("dns" ++ (" " ++ c :: rest))) = [] := by
  rcases List.exists_cons_of_ne_nil hSome with ⟨x, xs, rfl⟩
  rcases hName x rfl with ⟨hSpace, hNe⟩
  apply List.eq_nil_iff_forall_not_mem.mpr
  intro m hMem
  rcases Pattern.mem_run_iff.mp hMem with ⟨hInput, hTakes⟩
  rcases hTakes with ⟨_, more', _, _,
    ⟨_, _, _, _, ⟨_, rfl, rfl⟩, ⟨a, _, _, _, ⟨ha, rfl⟩,
      ⟨_, _, _, _, hDns, ⟨b, _, _, _, hb, ⟨_, z, _, _, hKey,
        _, rfl, rfl⟩, rfl, rfl⟩, rfl, rfl⟩, rfl, rfl⟩, rfl, rfl⟩,
    _, hText, _⟩
  rcases Pattern.takes_lit.mp hDns with ⟨rfl, rfl⟩
  rcases Pattern.takes_plus.mp hb with ⟨_, hBlank, rfl⟩
  rcases Pattern.takes_lit.mp hKey with ⟨rfl, rfl⟩
  rw [hText] at hInput
  simp only [List.nil_append, List.append_assoc] at hInput
  have hWord :
      ∀ (t : Text), ∀ d ∈ (("dns" : Text) ++ t).head?,
        Regex.space d = false := by
    intro t d hd
    cases hd
    decide
  rcases blank_unique hGap ha (hWord _) (hWord _) hInput with
    ⟨rfl, hBehind⟩
  have hRest := List.append_cancel_left hBehind
  have hOne : Blank " " := by decide
  have hc : ∀ d ∈ (c :: rest).head?, Regex.space d = false := by
    intro d hd
    cases hd
    exact hOther
  rcases blank_unique hOne hBlank hc
    (by intro d hd; cases hd; exact hSpace) hRest with
    ⟨_, hLast⟩
  exact hNe (List.cons.inj hLast).1.symm

/- A line of the file, up to its value. -/
theorem first_dnsSetting
    {name gap pad rest : Text}
    (hGap : Blank gap)
    (hSome : name ≠ [])
    (hName : ∀ x ∈ name.head?, Regex.space x = false)
    (hPad : Blank pad)
    (hRest : ∀ x ∈ rest.head?, Regex.space x = false) :
    ∃ text,
      (dnsSetting name).First (some '\n')
        (gap ++ ("dns" ++ (" " ++ (name ++ (pad ++
          ("=" ++ (" " ++ rest)))))))
        ⟨text, rest, []⟩ := by
  have hBlank : Blank " " := by decide
  have hWord :
      ∀ x ∈ ("dns" ++ (" " ++ (name ++ (pad ++
          ("=" ++ (" " ++ rest)))))).head?,
        Regex.space x = false := by
    intro x hx
    cases hx
    decide
  have hNext :
      ∀ x ∈ (name ++ (pad ++ ("=" ++ (" " ++ rest)))).head?,
        Regex.space x = false := by
    rcases List.exists_cons_of_ne_nil hSome with ⟨c, cs, rfl⟩
    exact hName
  rcases first_equals hPad hBlank hRest with ⟨_, hEquals⟩
  exact ⟨_, Pattern.first_seq
    (Pattern.first_lineStart (Or.inr rfl))
    (Pattern.first_seq (Pattern.first_many hGap hWord)
      (Pattern.first_seq (Pattern.first_lit "dns" _)
        (Pattern.first_seq
          (Pattern.first_plus (by decide) hBlank hNext)
          (Pattern.first_seq (Pattern.first_lit name _)
            (Pattern.first_seq hEquals
              Pattern.first_empty)))))⟩

/- The servers of a line, from any blank in front of it. -/
theorem groupFrom_servers
    {gap v rest : Text}
    (hGap : Blank gap)
    (hQuote : '"' ∉ v)
    (hLine : '\n' ∉ v) :
    groupFrom reDNSServers (some '\n')
        (gap ++ ("dns" ++ (" " ++ ("servers" ++ (" " ++
          ("=" ++ (" " ++ ("\"" ++ (v ++ ("\"" ++
            rest)))))))))) =
      some v := by
  have hOpen :
      ∀ x ∈ ("\"" ++ (v ++ ("\"" ++ rest))).head?,
        Regex.space x = false := by
    intro x hx
    cases hx
    decide
  have hClose :
      ∀ x ∈ ("\"" ++ rest).head?,
        (x != '"' && x != '\n') = false := by
    intro x hx
    cases hx
    decide
  have hValue : ∀ x ∈ v, (x != '"' && x != '\n') = true := by
    intro x hx
    have hOther : x ≠ '"' := fun h => hQuote (h ▸ hx)
    have hInside : x ≠ '\n' := fun h => hLine (h ▸ hx)
    simp [hOther, hInside]
  have hName : ("servers" : Text) ≠ [] := by decide
  have hPad : Blank " " := by decide
  rcases first_dnsSetting hGap hName (by decide) hPad hOpen with
    ⟨text, hStart⟩
  apply groupFrom_first
  exact Pattern.first_seq hStart
    (Pattern.first_seq
      (Pattern.first_alt (Pattern.first_lit "\"" _))
      (Pattern.first_seq
        (Pattern.first_group (Pattern.first_many hValue hClose))
        (Pattern.first_seq
          (Pattern.first_alt (Pattern.first_lit "\"" _))
          Pattern.first_empty)))

/- The word behind a setting. -/
theorem groupFrom_dnsWord
    {p : Char → Bool}
    {gap name pad v rest : Text}
    (hGap : Blank gap)
    (hSome : name ≠ [])
    (hName : ∀ x ∈ name.head?, Regex.space x = false)
    (hPad : Blank pad)
    (hValue : v ≠ [])
    (hAll : ∀ c ∈ v, p c = true ∧ Regex.space c = false)
    (hLine : p '\n' = false) :
    groupFrom
        (.seq (dnsSetting name) (.group 1 (.plus p)))
        (some '\n')
        (gap ++ ("dns" ++ (" " ++ (name ++ (pad ++
          ("=" ++ (" " ++ (v ++ '\n' :: rest)))))))) =
      some v := by
  have hStop : ∀ x ∈ ('\n' :: rest).head?, p x = false := by
    intro x hx
    cases hx
    exact hLine
  have hFirst :
      ∀ x ∈ (v ++ '\n' :: rest).head?,
        Regex.space x = false := by
    rcases List.exists_cons_of_ne_nil hValue with ⟨c, cs, rfl⟩
    intro x hx
    cases hx
    exact (hAll c (List.mem_cons_self ..)).2
  rcases first_dnsSetting hGap hSome hName hPad hFirst with
    ⟨text, hStart⟩
  apply groupFrom_first
  exact Pattern.first_seq hStart
    (Pattern.first_group
      (Pattern.first_plus hValue (fun c hc => (hAll c hc).1)
        hStop))

/- The file behind the servers. -/
def dnsBehind (s : ServerSettings) : Text :=
  "dns reverse-lookup = " ++
    ((if s.dnsReverseLookup then ("yes" : Text) else "no") ++
      '\n' :: ("dns timeout        = " ++
        ((if s.dnsTimeout = [] then ("5" : Text)
          else s.dnsTimeout) ++
          '\n' :: "dns cache period   = 86400\n".toList)))

theorem renderDNS_eq (s : ServerSettings) :
    renderDNS s =
      banner "02-dns.cfg" "DNS resolution settings" ++
        (dnsServersLine s.dnsServer.trimSpace ++
          dnsBehind s) := by
  have hTimeout :
      "\ndns timeout        = ".toList =
        '\n' :: "dns timeout        = ".toList := rfl
  have hCache :
      "\ndns cache period   = 86400\n".toList =
        '\n' :: "dns cache period   = 86400\n".toList := rfl
  unfold renderDNS dnsBehind
  rw [hTimeout, hCache]
  simp only [List.append_assoc, List.cons_append]

theorem blank_gap
    {gap : Text}
    (hGap : gap = [] ∨ gap = "\n") :
    Blank gap := by
  rcases hGap with rfl | rfl
  · decide
  · decide

/- The answer of the line for reverse lookups. -/
def reverseWord (s : ServerSettings) : Text :=
  if s.dnsReverseLookup then "yes" else "no"

/- The timeout that is written. -/
def timeoutWord (s : ServerSettings) : Text :=
  if s.dnsTimeout = [] then "5" else s.dnsTimeout

theorem dnsBehind_eq (s : ServerSettings) :
    dnsBehind s =
      ("dns reverse-lookup = " ++ reverseWord s) ++
        '\n' :: (("dns timeout        = " ++ timeoutWord s) ++
          '\n' :: ("dns cache period   = 86400" ++
            '\n' :: [])) := by
  unfold dnsBehind reverseWord timeoutWord
  simp only [List.append_assoc]
  rfl

theorem reverseWord_word (s : ServerSettings) :
    reverseWord s ≠ [] ∧
      ∀ c ∈ reverseWord s,
        Regex.word c = true ∧ Regex.space c = false := by
  unfold reverseWord
  split
  · exact ⟨by decide, by decide⟩
  · exact ⟨by decide, by decide⟩

/- A line of another setting is passed over. -/
theorem groupFrom_otherLine
    {name line rest : Text}
    {c : Char}
    (more : Pattern)
    (hSome : name ≠ [])
    (hName : ∀ x ∈ name.head?, Regex.space x = false ∧ x ≠ c)
    (hOther : Regex.space c = false)
    (hLine : '\n' ∉ c :: line) :
    groupFrom (.seq (dnsSetting name) more) (some '\n')
        (("dns " ++ c :: line) ++ '\n' :: rest) =
      groupFrom (.seq (dnsSetting name) more) (some '\n')
        rest := by
  have hAnchored :
      (Pattern.seq (dnsSetting name) more).Anchored :=
    (anchored_dnsSetting name).seq more
  have hNoGap : Blank [] := by decide
  have hText :
      (("dns " : Text) ++ c :: line) ++ '\n' :: rest =
        ([] : Text) ++
          (("dns" : Text) ++ ((" " : Text) ++
            c :: (line ++ '\n' :: rest))) := rfl
  have hNone :
      (Pattern.seq (dnsSetting name) more).run (some '\n')
        ((("dns " : Text) ++ c :: line) ++ '\n' :: rest) = [] := by
    rw [hText]
    exact run_otherSetting more hNoGap hSome hName hOther
  have hWhole : '\n' ∉ ("dns " : Text) ++ c :: line := by
    rw [List.mem_append, not_or]
    exact ⟨by decide, hLine⟩
  exact groupFrom_line hAnchored hWhole hNone

/- So is an empty line in front of it. -/
theorem groupFrom_emptyLine
    {name line : Text}
    {c : Char}
    (more : Pattern)
    (hSome : name ≠ [])
    (hName : ∀ x ∈ name.head?, Regex.space x = false ∧ x ≠ c)
    (hOther : Regex.space c = false) :
    groupFrom (.seq (dnsSetting name) more) (some '\n')
        ("\n" ++ ("dns " ++ c :: line)) =
      groupFrom (.seq (dnsSetting name) more) (some '\n')
        ("dns " ++ c :: line) := by
  have hAnchored :
      (Pattern.seq (dnsSetting name) more).Anchored :=
    (anchored_dnsSetting name).seq more
  have hLead :
      ∀ t : Text, ("\n" : Text) ++ t = [] ++ '\n' :: t :=
    fun _ => rfl
  have hGap : Blank "\n" := by decide
  have hNone :
      (Pattern.seq (dnsSetting name) more).run (some '\n')
        ("\n" ++ ("dns " ++ c :: line)) = [] :=
    run_otherSetting more hGap hSome hName hOther
  rw [hLead] at hNone ⊢
  exact groupFrom_line hAnchored List.not_mem_nil hNone

/- The line of the reverse lookups, behind its first letter. -/
def reverseLine (s : ServerSettings) : Text :=
  "everse-lookup = " ++ reverseWord s

/- The line of the timeout, behind its first letter. -/
def timeoutLine (s : ServerSettings) : Text :=
  "imeout        = " ++ timeoutWord s

theorem dnsBehind_lines (s : ServerSettings) :
    dnsBehind s =
      ("dns " ++ 'r' :: reverseLine s) ++
        '\n' :: (("dns " ++ 't' :: timeoutLine s) ++
          '\n' :: (("dns " ++ 'c' ::
            ("ache period   = 86400" : Text)) ++ '\n' :: [])) := by
  rw [dnsBehind_eq]
  rfl

theorem newline_notMem_reverse (s : ServerSettings) :
    '\n' ∉ 'r' :: reverseLine s := by
  unfold reverseLine reverseWord
  split
  · decide
  · decide

theorem newline_notMem_timeout
    {s : ServerSettings}
    (hTimeout : '\n' ∉ timeoutWord s) :
    '\n' ∉ 't' :: timeoutLine s := by
  unfold timeoutLine
  rw [List.mem_cons, List.mem_append, not_or, not_or]
  exact ⟨by decide, by decide, hTimeout⟩

/- Without servers there is nothing to read. -/
theorem servers_behind
    {s : ServerSettings}
    (hTimeout : '\n' ∉ timeoutWord s) :
    groupFrom reDNSServers (some '\n') ("\n" ++ dnsBehind s) =
      none := by
  have hSome : ("servers" : Text) ≠ [] := by decide
  have hCache :
      '\n' ∉ 'c' :: ("ache period   = 86400" : Text) := by
    decide
  rw [dnsBehind_lines]
  unfold reDNSServers Pattern.all
  rw [List.foldr_cons, List.append_assoc, List.cons_append,
    groupFrom_emptyLine _ hSome (by decide) (by decide),
    ← List.cons_append, ← List.append_assoc,
    groupFrom_otherLine _ hSome (by decide) (by decide)
      (newline_notMem_reverse s),
    groupFrom_otherLine _ hSome (by decide) (by decide)
      (newline_notMem_timeout hTimeout),
    groupFrom_otherLine _ hSome (by decide) (by decide)
      hCache]
  rfl

/- The lines behind the servers, at the start of a line. -/
theorem groupFrom_behindServers
    {name v : Text}
    {s : ServerSettings}
    (more : Pattern)
    (hSome : name ≠ [])
    (hName : ∀ x ∈ name.head?, Regex.space x = false ∧ x ≠ 's')
    (hLine : '\n' ∉ v) :
    ∃ gap,
      (gap = [] ∨ gap = "\n") ∧
        groupFrom (.seq (dnsSetting name) more) (some '\n')
            ("\n" ++ (dnsServersLine v ++ dnsBehind s)) =
          groupFrom (.seq (dnsSetting name) more) (some '\n')
            (gap ++ dnsBehind s) := by
  unfold dnsServersLine
  by_cases hEmpty : v = []
  · refine ⟨"\n", Or.inr rfl, ?_⟩
    rw [if_pos hEmpty, List.nil_append]
  · refine ⟨[], Or.inl rfl, ?_⟩
    have hStart :
        "dns servers = \"".toList =
          "dns " ++ 's' :: ("ervers = \"" : Text) := rfl
    have hEnd :
        "\"\n".toList = ("\"" : Text) ++ ['\n'] := rfl
    have hText :
        "dns servers = \"" ++ v ++ "\"\n" ++ dnsBehind s =
          ("dns " ++ 's' :: ("ervers = \"" ++ (v ++ "\""))) ++
            '\n' :: dnsBehind s := by
      rw [hStart, hEnd]
      simp only [List.append_assoc, List.cons_append,
        List.nil_append]
    have hWhole :
        '\n' ∉
          's' :: (("ervers = \"" : Text) ++ (v ++ "\"")) := by
      simp only [List.mem_cons, List.mem_append, not_or]
      exact ⟨by decide, by decide, hLine, by decide⟩
    have hPassed :=
      @groupFrom_otherLine _ _ (dnsBehind s) _ more hSome hName
        (by decide) hWhole
    rw [if_neg hEmpty, hText, List.nil_append, ← hPassed,
      List.append_assoc, List.cons_append,
      groupFrom_emptyLine more hSome hName (by decide)]

/- The three settings, as they are found in the file. -/
theorem firstGroup_dnsServers
    {s : ServerSettings}
    (hQuote : '"' ∉ s.dnsServer.trimSpace)
    (hLine : '\n' ∉ s.dnsServer.trimSpace)
    (hTimeout : '\n' ∉ timeoutWord s) :
    firstGroup reDNSServers (renderDNS s) =
      if s.dnsServer.trimSpace = [] then none
      else some s.dnsServer.trimSpace := by
  have hAnchored : reDNSServers.Anchored :=
    (anchored_dnsSetting "servers").seq _
  have hSkips : SkipsComments reDNSServers :=
    skips_dnsSetting "servers" _
  have hFile : '\n' ∉ "02-dns.cfg".toList := by decide
  have hTitle : '\n' ∉ "DNS resolution settings".toList := by
    decide
  rw [renderDNS_eq,
    groupFrom_banner hAnchored hSkips hFile hTitle]
  by_cases hEmpty : s.dnsServer.trimSpace = []
  · rw [if_pos hEmpty, dnsServersLine, if_pos hEmpty,
      List.nil_append]
    exact servers_behind hTimeout
  · rw [if_neg hEmpty]
    have hGap : Blank "\n" := by decide
    have hText :
        dnsServersLine s.dnsServer.trimSpace ++ dnsBehind s =
          "dns" ++ (" " ++ ("servers" ++ (" " ++
            ("=" ++ (" " ++ ("\"" ++ (s.dnsServer.trimSpace ++
              ("\"" ++ ("\n" ++ dnsBehind s))))))))) := by
      have hStart :
          "dns servers = \"".toList =
            ("dns" : Text) ++ (" " ++ ("servers" ++ (" " ++
              ("=" ++ (" " ++ "\""))))) := rfl
      have hEnd :
          "\"\n".toList = ("\"" : Text) ++ "\n" := rfl
      unfold dnsServersLine
      rw [if_neg hEmpty, hStart, hEnd]
      simp only [List.append_assoc]
    rw [hText]
    exact groupFrom_servers hGap hQuote hLine

theorem firstGroup_dnsReverse
    {s : ServerSettings}
    (hLine : '\n' ∉ s.dnsServer.trimSpace) :
    firstGroup reDNSReverse (renderDNS s) =
      some (reverseWord s) := by
  have hAnchored : reDNSReverse.Anchored :=
    (anchored_dnsSetting "reverse-lookup").seq _
  have hSkips : SkipsComments reDNSReverse :=
    skips_dnsSetting "reverse-lookup" _
  have hFile : '\n' ∉ "02-dns.cfg".toList := by decide
  have hTitle : '\n' ∉ "DNS resolution settings".toList := by
    decide
  have hSome : ("reverse-lookup" : Text) ≠ [] := by decide
  have hPad : Blank " " := by decide
  have hWord := reverseWord_word s
  rcases groupFrom_behindServers (s := s)
    (.group 1 (.plus Regex.word)) hSome (by decide) hLine with
    ⟨gap, hGap, hBehind⟩
  have hText :
      dnsBehind s =
        "dns" ++ (" " ++ ("reverse-lookup" ++ (" " ++
          ("=" ++ (" " ++ (reverseWord s ++ '\n' ::
            (("dns timeout        = " ++ timeoutWord s) ++
              '\n' :: ("dns cache period   = 86400" ++
                '\n' :: [])))))))) := by
    have hStart :
        "dns reverse-lookup = ".toList =
          ("dns" : Text) ++ (" " ++ ("reverse-lookup" ++
            (" " ++ ("=" ++ " ")))) := rfl
    rw [dnsBehind_eq, hStart]
    simp only [List.append_assoc]
  unfold reDNSReverse at hAnchored hSkips ⊢
  rw [renderDNS_eq,
    groupFrom_banner hAnchored hSkips hFile hTitle, hBehind,
    hText]
  exact groupFrom_dnsWord (blank_gap hGap) hSome (by decide)
    hPad hWord.1 hWord.2 (by decide)

theorem plain_digit
    {c : Char}
    (hDigit : Regex.digit c = true) :
    Regex.space c = false ∧ c ≠ '\n' := by
  constructor
  · by_contra hSpace
    have hMem :
        c ∈ (['\t', '\n', '\x0c', '\r', ' '] : List Char) :=
      of_decide_eq_true ((Bool.not_eq_false _).mp hSpace)
    have hNone :
        ∀ d ∈ (['\t', '\n', '\x0c', '\r', ' '] : List Char),
          Regex.digit d = false := by
      decide
    rw [hNone c hMem] at hDigit
    cases hDigit
  · rintro rfl
    cases hDigit

theorem timeoutWord_digits
    {s : ServerSettings}
    (hDigits : ∀ c ∈ s.dnsTimeout, Regex.digit c = true) :
    timeoutWord s ≠ [] ∧
      ∀ c ∈ timeoutWord s, Regex.digit c = true := by
  unfold timeoutWord
  split
  · exact ⟨by decide, by decide⟩
  · rename_i hSome
    exact ⟨hSome, hDigits⟩

theorem newline_notMem_digits
    {v : Text}
    (hDigits : ∀ c ∈ v, Regex.digit c = true) :
    '\n' ∉ v :=
  fun hMem => (plain_digit (hDigits _ hMem)).2 rfl

theorem firstGroup_dnsTimeout
    {s : ServerSettings}
    (hLine : '\n' ∉ s.dnsServer.trimSpace)
    (hDigits : ∀ c ∈ s.dnsTimeout, Regex.digit c = true) :
    firstGroup reDNSTimeout (renderDNS s) =
      some (timeoutWord s) := by
  have hAnchored : reDNSTimeout.Anchored :=
    (anchored_dnsSetting "timeout").seq _
  have hSkips : SkipsComments reDNSTimeout :=
    skips_dnsSetting "timeout" _
  have hFile : '\n' ∉ "02-dns.cfg".toList := by decide
  have hTitle : '\n' ∉ "DNS resolution settings".toList := by
    decide
  have hSome : ("timeout" : Text) ≠ [] := by decide
  have hNoGap : Blank [] := by decide
  have hPad : Blank "        " := by decide
  rcases timeoutWord_digits hDigits with ⟨hWord, hAll⟩
  rcases groupFrom_behindServers (s := s)
    (.group 1 (.plus Regex.digit)) hSome (by decide) hLine with
    ⟨gap, hGap, hBehind⟩
  have hText :
      ("dns " ++ 't' :: timeoutLine s) ++
          '\n' :: (("dns " ++ 'c' ::
            ("ache period   = 86400" : Text)) ++ '\n' :: []) =
        ([] : Text) ++ ("dns" ++ (" " ++ ("timeout" ++
          ("        " ++ ("=" ++ (" " ++ (timeoutWord s ++
            '\n' :: (("dns " ++ 'c' ::
              ("ache period   = 86400" : Text)) ++
                '\n' :: [])))))))) := by
    have hStart :
        "dns ".toList ++ 't' :: "imeout        = ".toList =
          ("dns" : Text) ++ (" " ++ ("timeout" ++
            ("        " ++ ("=" ++ " ")))) := rfl
    have hLead :
        ("dns " : Text) ++ 't' :: timeoutLine s =
          ("dns " ++ 't' :: ("imeout        = " : Text)) ++
            timeoutWord s := by
      unfold timeoutLine
      simp only [List.append_assoc, List.cons_append]
    rw [hLead, hStart]
    simp only [List.append_assoc, List.nil_append]
  have hReverse :
      groupFrom reDNSTimeout (some '\n') (gap ++ dnsBehind s) =
        groupFrom reDNSTimeout (some '\n') (dnsBehind s) := by
    rcases hGap with rfl | rfl
    · rfl
    · rw [dnsBehind_lines, List.append_assoc, List.cons_append]
      exact groupFrom_emptyLine _ hSome (by decide) (by decide)
  rw [renderDNS_eq,
    groupFrom_banner hAnchored hSkips hFile hTitle]
  unfold reDNSTimeout at hReverse ⊢
  rw [hBehind, hReverse, dnsBehind_lines,
    groupFrom_otherLine _ hSome (by decide) (by decide)
      (newline_notMem_reverse s), hText]
  exact groupFrom_dnsWord hNoGap hSome (by decide) hPad hWord
    (fun c hc => ⟨hAll c hc, (plain_digit (hAll c hc)).1⟩)
    (by decide)

end Tacconfig

end Soteria
