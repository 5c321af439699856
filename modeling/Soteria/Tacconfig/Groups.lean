import Soteria.Tacconfig.Accounts

/-
  User groups, rendered and parsed.

  A local group is a block on one line, and a group of a
  directory one on three, with a comment for its source. No
  comment is read as that of a block above or below.

  Key definitions include:
    * `Group.span`, `Group.node`, `Group.remarks`
    * `Group.Encodable`
    * `groupFromNode_located`
    * `accounts_round_trip`
-/

------------------------------------------------------------
-- Rendered Groups
------------------------------------------------------------

namespace Soteria

namespace Tacconfig

/- The number of lines of a group. -/
def Group.span (g : Group) : Nat :=
  if g.source = "ldap" then 3 else 1

def Group.node (g : Group) (line : Nat) : Node :=
  .block "group" g.name [] line (line + g.span - 1)

def Group.remarks (g : Group) (line : Nat) : List Comment :=
  if g.source = "ldap" then [⟨"@source ldap", line + 1⟩]
  else []

/- The nodes of groups, one below the other. -/
def groupNodes : Nat → List Group → List Node
| _, [] => []
| line, g :: rest =>
    g.node line :: groupNodes (line + g.span) rest

def groupRemarks : Nat → List Group → List Comment
| _, [] => []
| line, g :: rest =>
    g.remarks line ++ groupRemarks (line + g.span) rest

structure Group.Encodable (g : Group) : Prop where
  name : PlainWord g.name
  source : g.source = "local" ∨ g.source = "ldap"

theorem renderGroup_lays
    {g : Group}
    (hName : PlainWord g.name)
    (width : Nat) :
    Lays (renderGroup width g) g.span
      (fun line => [g.node line]) g.remarks := by
  have hHead :=
    heading_label plainWord_group (by decide) (by decide)
      (hName.lexesTo 0) (by simp [Token.isText])
  have hExact :=
    plainWord_group.exact.gap hName.exact indent_blank (by simp)
  have hStart : ("group " : Text) = "group" ++ " " := rfl
  unfold renderGroup Group.span Group.node Group.remarks
  by_cases hLdap : g.source = "ldap"
  · have hRemark :=
      Lays.remark (s := "@source ldap") indent_four (by decide)
        (by decide)
    have hAll := Lays.block hHead hExact hRemark
    have hBody :
        (" \x7b\n    # @source ldap\n\x7d\n" : Text) =
          " \x7b\n" ++
            ("    " ++ ("# " ++ "@source ldap") ++ "\n") ++
              "\x7d\n" := by
      repeat rw [String.toList_ofList]
      rfl
    rw [lineOf_single] at hAll
    simp only [Group.span, if_pos hLdap]
    rw [hStart, hBody]
    simp only [List.append_assoc] at hAll ⊢
    exact hAll
  · have hPad :
        Indent (List.replicate (width - g.name.length) ' ') :=
      fun c hc => List.eq_of_mem_replicate hc
    have hAll := Lays.emptyBlock hHead hExact hPad
    rw [lineOf_single] at hAll
    simp only [Group.span, if_neg hLdap]
    rw [hStart, padRight]
    simp only [List.append_assoc] at hAll ⊢
    exact hAll

theorem renderGroup_all_lays
    {groups : List Group}
    (hNames : ∀ g ∈ groups, PlainWord g.name)
    (width : Nat) :
    ∃ height,
      Lays (groups.flatMap (renderGroup width)) height
        (fun line => groupNodes line groups)
        (fun line => groupRemarks line groups) := by
  induction groups with
  | nil => exact ⟨0, Lays.nil⟩
  | cons g rest ih =>
      rcases ih fun h hMem =>
        hNames h (List.mem_cons_of_mem _ hMem) with
        ⟨height, hRest⟩
      have hFirst :=
        renderGroup_lays (hNames g (List.mem_cons_self ..)) width
      exact ⟨_, hFirst.append hRest⟩

end Tacconfig

end Soteria

------------------------------------------------------------
-- The Source of a Group
------------------------------------------------------------

namespace Soteria

namespace Tacconfig

theorem Group.span_pos (g : Group) : 1 ≤ g.span := by
  unfold Group.span
  split <;> omega

theorem le_of_mem_groupRemarks
    {line : Nat}
    {groups : List Group}
    {c : Comment}
    (hMem : c ∈ groupRemarks line groups) :
    line ≤ c.line := by
  induction groups generalizing line with
  | nil => cases hMem
  | cons g rest ih =>
      rcases List.mem_append.mp hMem with hOwn | hRest
      · unfold Group.remarks at hOwn
        split at hOwn
        · rw [List.mem_singleton.mp hOwn]
          exact Nat.le_succ line
        · cases hOwn
      · exact le_trans (Nat.le_add_right ..) (ih hRest)

/- A group as it is listed. -/
def Group.listed (g : Group) : Group :=
  { g with members := 0, profile := [] }

/- Among comments above and below, a group has its own. -/
theorem groupFromNode_among
    {g : Group}
    (hSource : g.source = "local" ∨ g.source = "ldap")
    {line : Nat}
    (hLine : 0 < line)
    {above below : List Comment}
    (hAbove : ∀ c ∈ above, c.line < line)
    (hBelow : ∀ c ∈ below, line + g.span ≤ c.line) :
    groupFromNode (above ++ (g.remarks line ++ below))
        (g.node line) =
      some g.listed := by
  have hSpan := g.span_pos
  have hOpen : (line + g.span - 1 == 0) = false := by
    rw [beq_eq_false_iff_ne]
    omega
  have hNotAbove :
      above.find? (fun c =>
          line ≤ c.line &&
            (line + g.span - 1 == 0 ||
              c.line ≤ line + g.span - 1) &&
            c.text.hasPrefix ("@" ++ "source" ++ " ")) =
        none := by
    rw [List.find?_eq_none]
    intro c hc hFound
    have hEarlier := hAbove c hc
    simp only [Bool.and_eq_true, decide_eq_true_eq] at hFound
    omega
  have hNotBelow :
      below.find? (fun c =>
          line ≤ c.line &&
            (line + g.span - 1 == 0 ||
              c.line ≤ line + g.span - 1) &&
            c.text.hasPrefix ("@" ++ "source" ++ " ")) =
        none := by
    rw [List.find?_eq_none]
    intro c hc hFound
    have hLater := hBelow c hc
    simp only [hOpen, Bool.false_or, Bool.and_eq_true,
      decide_eq_true_eq] at hFound
    omega
  have hNoted :
      annotation (above ++ (g.remarks line ++ below)) line
          (line + g.span - 1) "source" =
        if g.source = "ldap" then ("ldap" : Text) else [] := by
    unfold annotation
    dsimp only
    rw [List.find?_append, List.find?_append, hNotAbove,
      hNotBelow]
    unfold Group.remarks
    by_cases hLdap : g.source = "ldap"
    · have hThree : g.span = 3 := if_pos hLdap
      have hOwn :
          (⟨"@source ldap", line + 1⟩ : Comment).text.hasPrefix
            ("@" ++ "source" ++ " ") = true := rfl
      rw [if_pos hLdap, if_pos hLdap, hThree,
        List.find?_singleton, hOwn]
      simp
      decide
    · rw [if_neg hLdap, if_neg hLdap]
      rfl
  unfold Group.node groupFromNode
  dsimp only
  rw [hNoted]
  rcases hSource with hLocal | hLdap
  · have hNot : ¬ g.source = "ldap" := by
      rw [hLocal]
      decide
    have hEmpty : ¬ ([] : Text) = "ldap" := by decide
    rw [if_neg (not_not.mpr rfl), if_neg hNot, if_neg hEmpty,
      ← hLocal]
    rfl
  · rw [if_neg (not_not.mpr rfl), if_pos hLdap, if_pos rfl,
      ← hLdap]
    rfl

/- The nodes of groups are read as the groups. -/
theorem groupFromNode_located
    {groups : List Group}
    (hGroups : ∀ g ∈ groups, g.Encodable)
    {line : Nat}
    (hLine : 0 < line)
    {above : List Comment}
    (hAbove : ∀ c ∈ above, c.line < line) :
    (groupNodes line groups).map
        (groupFromNode (above ++ groupRemarks line groups)) =
      groups.map fun g => some g.listed := by
  induction groups generalizing line above with
  | nil => rfl
  | cons g rest ih =>
      have hRest : ∀ h ∈ rest, h.Encodable :=
        fun h hMem => hGroups h (List.mem_cons_of_mem _ hMem)
      have hBelow :
          ∀ c ∈ groupRemarks (line + g.span) rest,
            line + g.span ≤ c.line :=
        fun _ hc => le_of_mem_groupRemarks hc
      have hOwn :=
        groupFromNode_among
          (hGroups g (List.mem_cons_self ..)).source hLine hAbove
          hBelow
      have hFront :
          ∀ c ∈ above ++ g.remarks line,
            c.line < line + g.span := by
        intro c hc
        rcases List.mem_append.mp hc with hc | hc
        · have hEarlier := hAbove c hc
          omega
        · unfold Group.remarks at hc
          split at hc
          · rename_i hLdap
            have hThree : g.span = 3 := if_pos hLdap
            rw [List.mem_singleton.mp hc, hThree]
            dsimp only
            omega
          · cases hc
      have hOthers := ih hRest (by omega) hFront
      rw [List.append_assoc] at hOthers
      unfold groupNodes groupRemarks
      rw [List.map_cons, hOwn, hOthers]
      rfl

/- Rendered groups are parsed to the same groups. -/
theorem parseGroups_renderGroups
    {groups : List Group}
    (hGroups : ∀ g ∈ groups, g.Encodable) :
    parseGroups (renderGroups groups) =
      .ok (groups.map Group.listed) := by
  have hBanner :
      OnlyRemarks
        (banner "06-groups.cfg" "Group definitions") 8 :=
    onlyRemarks_banner (by decide) (by decide)
  rcases hBanner with ⟨remarks, hLays, hLines⟩
  rcases renderGroup_all_lays
      (fun g hg => (hGroups g hg).name) (groupWidth groups) with
    ⟨height, hEach⟩
  have hFile := ((hLays.append hEach).append Lays.blank).parse
  rw [List.append_nil, List.append_nil, List.nil_append]
    at hFile
  have hNodes :=
    groupFromNode_located hGroups (Nat.succ_pos 8) (hLines 1)
  have hAll :
      (groupNodes (1 + 8) groups).filterMap
          (groupFromNode
            (remarks 1 ++ groupRemarks (1 + 8) groups)) =
        groups.map Group.listed := by
    apply filterMap_of_map
    rw [List.map_map]
    exact hNodes
  unfold parseGroups renderGroups
  rw [hFile, ← hAll]
  rfl

end Tacconfig

end Soteria

------------------------------------------------------------
-- The Round Trip
------------------------------------------------------------

namespace Soteria

namespace Tacconfig

/- What is written of a user. -/
def User.written (u : User) : Text × Text × Text × Text :=
  (u.name, u.group, u.status, u.hash)

/- What is written of a group. -/
def Group.written (g : Group) : Text × Text :=
  (g.name, g.source)

/- Users and groups come back with all that is written. -/
theorem accounts_round_trip
    {users : List User}
    (hUsers : ∀ u ∈ users, u.Encodable ∧ u.status ≠ [])
    {groups : List Group}
    (hGroups : ∀ g ∈ groups, g.Encodable) :
    (∃ found,
        parseUsers (renderUsers users) = .ok found ∧
          found.map User.written = users.map User.written) ∧
      ∃ found,
        parseGroups (renderGroups groups) = .ok found ∧
          found.map Group.written =
            groups.map Group.written := by
  constructor
  · have hParse :=
      parseUsers_renderUsers fun u hu => (hUsers u hu).1
    refine ⟨_, hParse, ?_⟩
    rw [List.map_map]
    apply List.map_congr_left
    intro u hu
    have hStatus : u.listed.status = u.status :=
      if_neg (hUsers u hu).2
    show (u.name, u.group, u.listed.status, u.hash) = _
    rw [hStatus]
    rfl
  · refine ⟨_, parseGroups_renderGroups hGroups, ?_⟩
    rw [List.map_map]
    rfl

/- A locked user in a group, and a group of each source. -/
theorem sampleAccounts_round_trip :
    (∃ found,
        parseUsers (renderUsers [⟨"ops", "noc", "local", "-",
            "locked", "$6$abc", []⟩]) = .ok found ∧
          found.map User.written =
            [("ops".toList, "noc".toList, "locked".toList,
              "$6$abc".toList)]) ∧
      ∃ found,
        parseGroups (renderGroups [⟨"noc", 1, "ldap", []⟩,
            ⟨"operators", 0, "local", []⟩]) = .ok found ∧
          found.map Group.written =
            [("noc".toList, "ldap".toList),
              ("operators".toList, "local".toList)] := by
  apply accounts_round_trip
  · intro u hu
    rw [List.mem_singleton.mp hu]
    exact ⟨⟨⟨by decide, by decide⟩,
      Or.inr ⟨by decide, by decide⟩, ⟨by decide, by decide⟩,
      ⟨by decide, by decide, by decide⟩⟩, by decide⟩
  · intro g hg
    simp only [List.mem_cons, List.not_mem_nil, or_false] at hg
    rcases hg with rfl | rfl
    · exact ⟨⟨by decide, by decide⟩, Or.inr rfl⟩
    · exact ⟨⟨by decide, by decide⟩, Or.inl rfl⟩

end Tacconfig

end Soteria
