import Soteria.Tacconfig.Inventory

/-
  What rendered files are read back with, as far as one
  entity refers to another.

  A device names the group that is its parent, and a user
  the group it is a member of. Names and references that are
  words are read as they were written, whatever else is
  written beside them.

  Key definitions include:
    * `Resolved`
    * `parseUsers_members`, `parseGroups_names`
    * `ParentsAbove`, `Linked`
    * `renderDevices_linked`
-/

------------------------------------------------------------
-- Names and References
------------------------------------------------------------

namespace Soteria

namespace Tacconfig

/- Each reference that is made is to one of the names. -/
def Resolved (names refs : List Text) : Prop :=
  ∀ r ∈ refs, r ≠ [] → r ∈ names

/- Names without references to them can be taken away. -/
theorem Resolved.keep
    {names kept refs : List Text}
    (hResolved : Resolved names refs)
    (hKept : ∀ name ∈ names, name ∈ kept ∨ name ∉ refs) :
    Resolved kept refs := by
  intro r hr hSome
  rcases hKept r (hResolved r hr hSome) with hIn | hOut
  · exact hIn
  · exact (hOut hr).elim

end Tacconfig

end Soteria

------------------------------------------------------------
-- Values of a Block
------------------------------------------------------------

namespace Soteria

namespace Tacconfig

/- The first assignment to a name is the one that counts. -/
theorem assignValue_of_sets
    (key : Text)
    {assigns : List (Text × Text)}
    {children : List Node}
    (hSets : List.Forall₂ Sets assigns children) :
    assignValue key children = valueOf key assigns := by
  induction hSets with
  | nil => rfl
  | @cons pair n assigns children hFirst _ ih =>
      rcases hFirst with ⟨line, hNode⟩
      rw [hNode, assignValue, ih]
      rfl

/- A reference that is left out, or that is one word. -/
def Reference (s : Text) : Prop :=
  s = [] ∨ PlainWord s

theorem Reference.pastes
    {s : Text}
    (hReference : Reference s) :
    Pastes s s := by
  rcases hReference with hNil | hWord
  · rw [hNil]
    exact ⟨[], splits_nil.lexesTo.pasted, by simp, rfl⟩
  · exact hWord.pastes

/- What nodes are read as, where each is read as one thing. -/
theorem filterMap_map_of_forall₂
    {α β γ : Type}
    {R : α → Node → Prop}
    {f : Node → Option β}
    {g : α → γ}
    {h : β → γ}
    {xs : List α}
    {nodes : List Node}
    (hAll : List.Forall₂ R xs nodes)
    (hEach : ∀ x n, R x n → ∃ y, f n = some y ∧ h y = g x) :
    (nodes.filterMap f).map h = xs.map g := by
  induction hAll with
  | nil => rfl
  | @cons x n xs nodes hFirst _ ih =>
      rcases hEach x n hFirst with ⟨y, hy, hSame⟩
      rw [List.filterMap_cons_some hy, List.map_cons, hSame, ih,
        List.map_cons]

/- Pairs in two parts, where one side has two. -/
theorem forall₂_append_split
    {α β : Type}
    {R : α → β → Prop}
    {xs ys : List α}
    {zs : List β}
    (hAll : List.Forall₂ R (xs ++ ys) zs) :
    ∃ upper lower,
      zs = upper ++ lower ∧ List.Forall₂ R xs upper ∧
        List.Forall₂ R ys lower := by
  induction xs generalizing zs with
  | nil => exact ⟨[], zs, rfl, .nil, hAll⟩
  | cons x xs ih =>
      cases hAll with
      | cons hFirst hRest =>
          rcases ih hRest with
            ⟨upper, lower, hSplit, hUpper, hLower⟩
          exact ⟨_ :: upper, lower, by rw [hSplit]; rfl,
            .cons hFirst hUpper, hLower⟩

theorem exists_of_forall₂
    {α β : Type}
    {R : α → β → Prop}
    {xs : List α}
    {ys : List β}
    (hAll : List.Forall₂ R xs ys)
    {x : α}
    (hx : x ∈ xs) :
    ∃ y ∈ ys, R x y := by
  induction hAll with
  | nil => cases hx
  | @cons a b xs ys hFirst _ ih =>
      rcases List.mem_cons.mp hx with hSame | hx
      · rw [hSame]
        exact ⟨b, List.mem_cons_self .., hFirst⟩
      · rcases ih hx with ⟨y, hy, hPair⟩
        exact ⟨y, List.mem_cons_of_mem _ hy, hPair⟩

end Tacconfig

end Soteria

------------------------------------------------------------
-- Users and Groups
------------------------------------------------------------

namespace Soteria

namespace Tacconfig

/- The node is the block of the user, with its group. -/
def User.Written (u : User) (n : Node) : Prop :=
  ∃ login, (u.block login u.group).Is n

theorem renderUser_written
    {u : User}
    (hConfined : u.Confined)
    (hGroup : Reference u.group) :
    Yields User.Written (renderUser u) [u] := by
  rcases renderUser_block hConfined hGroup.pastes with
    ⟨login, hBlock⟩
  have hEach :
      ∀ b ∈ [u.block login u.group], ∀ n, b.Is n →
        u.Written n := by
    intro b hb n hIs
    rw [List.mem_singleton.mp hb] at hIs
    exact ⟨login, hIs⟩
  exact hBlock.map hEach

theorem User.Written.member
    {u : User}
    {n : Node}
    (hWritten : u.Written n)
    (comments : List Comment) :
    ∃ found,
      userFromNode comments n = some found ∧
        found.group = u.group := by
  rcases hWritten with
    ⟨login, children, first, last, hNode, hSets⟩
  have hMember :
      assignValue "member" children = u.group := by
    rw [assignValue_of_sets "member" hSets]
    show valueOf "member" (assignUnlessEmpty "member" u.group) = _
    rw [← List.append_nil (assignUnlessEmpty _ _)]
    exact valueOf_unlessEmpty "member" u.group [] rfl
  rw [hNode]
  simp only [userFromNode, User.block]
  exact ⟨_, rfl, hMember⟩

/- Users are read back with the groups they are in. -/
theorem parseUsers_members
    {users : List User}
    (hUsers : ∀ u ∈ users, u.Confined)
    (hGroups : ∀ u ∈ users, Reference u.group) :
    ∃ found,
      parseUsers (renderUsers users) = .ok found ∧
        found.map User.group = users.map User.group := by
  have hBlocks :
      Yields User.Written (users.flatMap renderUser)
        (users.map id) :=
    Yields.flatMap fun u hu =>
      renderUser_written (hUsers u hu) (hGroups u hu)
  have hBanner : Yields User.Written _ [] :=
    yields_banner "05-local-users.cfg"
      "Local fallback and service account users" (by decide)
  rcases (hBanner.append hBlocks).parse with
    ⟨nodes, comments, hParse, hNodes⟩
  rw [List.map_id, List.nil_append] at hNodes
  have hMembers :=
    filterMap_map_of_forall₂ hNodes fun u n hWritten =>
      hWritten.member comments
  refine ⟨_, ?_, hMembers⟩
  unfold parseUsers renderUsers
  rw [hParse]
  rfl

theorem groupFromNode_shape
    {g : Group}
    {n : Node}
    (hShows : g.shape.Shows n)
    (comments : List Comment) :
    ∃ found,
      groupFromNode comments n = some found ∧
        found.name = g.name := by
  rcases hShows with ⟨children, first, last, hNode, _⟩
  rw [hNode]
  simp only [groupFromNode, Group.shape]
  exact ⟨_, rfl, rfl⟩

/- Groups are read back with their names. -/
theorem parseGroups_names
    {groups : List Group}
    (hGroups : ∀ g ∈ groups, LabelText g.name) :
    ∃ found,
      parseGroups (renderGroups groups) = .ok found ∧
        found.map Group.name = groups.map Group.name := by
  rcases renderGroups_parse hGroups with
    ⟨nodes, comments, hParse, hNodes⟩
  rw [List.forall₂_map_left_iff] at hNodes
  have hNames :=
    filterMap_map_of_forall₂ hNodes fun g n hShows =>
      groupFromNode_shape hShows comments
  refine ⟨_, ?_, hNames⟩
  unfold parseGroups
  rw [hParse]
  rfl

end Tacconfig

end Soteria

------------------------------------------------------------
-- Devices and Their Groups
------------------------------------------------------------

namespace Soteria

namespace Tacconfig

/- The node is the block of a device group of this name. -/
def Node.DefinesGroup (name : Text) (n : Node) : Prop :=
  ∃ children first last,
    n = .block "device" name children first last ∧
      assignValue "address" children = []

/- The node is the block of a device with this parent. -/
def Node.HasParent (parent : Text) (n : Node) : Prop :=
  ∃ label children first last,
    n = .block "device" label children first last ∧
      assignValue "address" children ≠ [] ∧
        assignValue "parent" children = parent

/- Each parent is a group that is defined above its device. -/
def ParentsAbove (nodes : List Node) : Prop :=
  ∀ above n below parent,
    nodes = above ++ n :: below → n.HasParent parent →
      parent ≠ [] → ∃ m ∈ above, m.DefinesGroup parent

variable {globalKey : Text}

/- Each parent is then among the groups that are found. -/
theorem ParentsAbove.resolved
    {nodes : List Node}
    (hAbove : ParentsAbove nodes)
    (comments : List Comment) :
    Resolved
      ((nodes.filterMap
        (deviceGroupFromNode comments globalKey)).map
          DeviceGroup.name)
      ((nodes.filterMap
        (deviceFromNode comments globalKey)).map
          Device.group) := by
  intro parent hParent hSome
  rcases List.mem_map.mp hParent with ⟨d, hd, hSame⟩
  rcases List.mem_filterMap.mp hd with ⟨n, hn, hFrom⟩
  have hHas : n.HasParent parent := by
    cases n with
    | assign | action | ifNode => cases hFrom
    | block kind label children first last =>
        simp only [deviceFromNode] at hFrom
        split at hFrom
        · cases hFrom
        rename_i hDevice
        cases hFrom
        rcases not_or.mp hDevice with ⟨hKind, hAddress⟩
        exact ⟨label, children, first, last, by
          rw [not_not.mp hKind], hAddress, hSame⟩
  rcases List.append_of_mem hn with ⟨above, below, hSplit⟩
  rcases hAbove above n below parent hSplit hHas hSome with
    ⟨m, hm, children, first, last, hNode, hNone⟩
  have hFound :
      ∃ g,
        deviceGroupFromNode comments globalKey m = some g ∧
          g.name = parent := by
    rw [hNode]
    simp only [deviceGroupFromNode, hNone]
    exact ⟨_, rfl, rfl⟩
  rcases hFound with ⟨g, hg, hName⟩
  have hMem : m ∈ nodes := by
    rw [hSplit]
    exact List.mem_append_left _ hm
  rw [← hName]
  exact List.mem_map_of_mem
    (List.mem_filterMap.mpr ⟨m, hMem, hg⟩)

/- The node is the block of the group, with its key. -/
def DeviceGroup.Written
    (globalKey : Text)
    (g : DeviceGroup)
    (n : Node) : Prop :=
  (g.block (inQuotes (g.writtenKey globalKey))).Is n

/- The key of the device with its quotes, if it is written. -/
def Device.quotedKey (globalKey : Text) (d : Device) : Text :=
  ((d.writtenKey globalKey).map inQuotes).getD []

/- The node is the block of the device, with its references. -/
def Device.Written
    (globalKey : Text)
    (d : Device)
    (n : Node) : Prop :=
  ∃ address,
    (d.block address d.group (d.quotedKey globalKey)).Is n

theorem renderDeviceGroup_written
    {g : DeviceGroup}
    (hConfined : g.Confined globalKey)
    (hKey : Closed (g.writtenKey globalKey)) :
    Yields (DeviceGroup.Written globalKey)
      (renderDeviceGroup globalKey g) [g] := by
  have hBlock := renderDeviceGroup_block hConfined hKey.pastes
  have hEach :
      ∀ b ∈ [g.block (inQuotes (g.writtenKey globalKey))],
        ∀ n, b.Is n → g.Written globalKey n := by
    intro b hb n hIs
    rw [List.mem_singleton.mp hb] at hIs
    exact hIs
  exact hBlock.map hEach

theorem renderDevice_written
    {d : Device}
    (hConfined : d.Confined globalKey)
    (hGroup : Reference d.group)
    (hKey : ∀ key, d.writtenKey globalKey = some key →
      Closed key) :
    Yields (Device.Written globalKey)
      (renderDevice globalKey d) [d] := by
  rcases hConfined.address.pastes with ⟨address, hAddress⟩
  have hQuoted :
      ∀ written, d.writtenKey globalKey = some written →
        Pastes (inQuotes written) (d.quotedKey globalKey) := by
    intro written hWritten
    unfold Device.quotedKey
    rw [hWritten]
    exact (hKey written hWritten).pastes
  have hBlock :=
    renderDevice_block hConfined hAddress hGroup.pastes hQuoted
  have hEach :
      ∀ b ∈
          [d.block address d.group (d.quotedKey globalKey)],
        ∀ n, b.Is n → d.Written globalKey n := by
    intro b hb n hIs
    rw [List.mem_singleton.mp hb] at hIs
    exact ⟨address, hIs⟩
  exact hBlock.map hEach

/- The block of a group has its name and no address. -/
theorem DeviceGroup.Written.defines
    {g : DeviceGroup}
    {n : Node}
    (hWritten : g.Written globalKey n) :
    n.DefinesGroup g.name := by
  rcases hWritten with ⟨children, first, last, hNode, hSets⟩
  refine ⟨children, first, last, hNode, ?_⟩
  rw [assignValue_of_sets "address" hSets]
  rfl

theorem Node.DefinesGroup.no_parent
    {name parent : Text}
    {n : Node}
    (hDefines : n.DefinesGroup name) :
    ¬ n.HasParent parent := by
  rcases hDefines with ⟨_, _, _, hNode, hNone⟩
  rintro ⟨_, _, _, _, hOther, hSome, _⟩
  rw [hNode] at hOther
  cases hOther
  exact hSome hNone

/- The references and the key of a device are read back. -/
theorem Device.Written.assigned
    {d : Device}
    {n : Node}
    (hWritten : d.Written globalKey n) :
    ∃ children first last,
      n = .block "device" d.name children first last ∧
        assignValue "parent" children = d.group ∧
          assignValue "key" children =
            if d.keyType = "group" then []
            else d.quotedKey globalKey := by
  rcases hWritten with
    ⟨address, children, first, last, hNode, hSets⟩
  refine ⟨children, first, last, hNode, ?_, ?_⟩
  · rw [assignValue_of_sets "parent" hSets]
    show valueOf "parent"
      (assignUnlessEmpty "parent" d.group ++
        if d.keyType = "group" then []
        else [("key".toList, d.quotedKey globalKey)]) = _
    apply valueOf_unlessEmpty
    split <;> rfl
  · rw [assignValue_of_sets "key" hSets]
    show valueOf "key"
      (assignUnlessEmpty "parent" d.group ++
        if d.keyType = "group" then []
        else [("key".toList, d.quotedKey globalKey)]) = _
    rw [valueOf_other (by decide)]
    split <;> rfl

/- The nodes of a rendered file: groups, and then devices. -/
theorem renderDevices_written
    {devices : List Device}
    {groups : List DeviceGroup}
    (hGroups : ∀ g ∈ groups,
      g.Confined globalKey ∧ Closed (g.writtenKey globalKey))
    (hDevices : ∀ d ∈ devices,
      d.Confined globalKey ∧ Reference d.group ∧
        ∀ key, d.writtenKey globalKey = some key →
          Closed key) :
    ∃ upper lower comments,
      parse (renderDevices devices groups globalKey) =
          .ok (upper ++ lower, comments) ∧
        List.Forall₂ (DeviceGroup.Written globalKey) groups
          upper ∧
        List.Forall₂ (Device.Written globalKey)
          (orderDevices devices) lower := by
  let Entity : DeviceGroup ⊕ Device → Node → Prop :=
    Sum.elim (DeviceGroup.Written globalKey)
      (Device.Written globalKey)
  have hUpper :
      Yields Entity (groups.flatMap (renderDeviceGroup globalKey))
        (groups.map Sum.inl) :=
    Yields.flatMap fun g hg =>
      (renderDeviceGroup_written (hGroups g hg).1
        (hGroups g hg).2).map fun _ _ _ hWritten => hWritten
  have hLower :
      Yields Entity
        ((orderDevices devices).flatMap (renderDevice globalKey))
        ((orderDevices devices).map Sum.inr) := by
    apply Yields.flatMap
    intro d hd
    rcases hDevices d (mem_orderDevices.mp hd) with
      ⟨hConfined, hGroup, hKey⟩
    exact (renderDevice_written hConfined hGroup hKey).map
      fun _ _ _ hWritten => hWritten
  have hBanner : Yields Entity _ [] :=
    yields_banner "04-devices.cfg"
      "Network devices (NAS) definitions" (by decide)
  rcases (hBanner.append (hUpper.append hLower)).parse with
    ⟨nodes, comments, hParse, hNodes⟩
  rw [List.nil_append] at hNodes
  rcases forall₂_append_split hNodes with
    ⟨upper, lower, hSplit, hFirst, hSecond⟩
  refine ⟨upper, lower, comments, ?_, ?_, ?_⟩
  · rw [← hSplit]
    unfold renderDevices
    rw [List.append_assoc]
    exact hParse
  · rwa [List.forall₂_map_left_iff] at hFirst
  · rwa [List.forall₂_map_left_iff] at hSecond

/-
  In a rendered file each parent is above its device, if it
  is one of the groups.
-/
theorem parentsAbove_written
    {groups : List DeviceGroup}
    {devices : List Device}
    {upper lower : List Node}
    (hUpper :
      List.Forall₂ (DeviceGroup.Written globalKey) groups upper)
    (hLower :
      List.Forall₂ (Device.Written globalKey) devices lower)
    (hResolved :
      Resolved (groups.map DeviceGroup.name)
        (devices.map Device.group)) :
    ParentsAbove (upper ++ lower) := by
  intro above n below parent hSplit hHas hSome
  have hOutside : n ∉ upper := by
    intro hMem
    rcases exists_of_forall₂ hUpper.flip hMem with
      ⟨g, _, hBlock⟩
    have hWritten : g.Written globalKey n := hBlock
    exact hWritten.defines.no_parent hHas
  have hAbove : ∃ more, above = upper ++ more := by
    rcases List.append_eq_append_iff.mp hSplit with
      ⟨more, hMore, _⟩ | ⟨more, hMore, hRest⟩
    · exact ⟨more, hMore⟩
    · cases more with
      | nil =>
          rw [List.append_nil] at hMore
          exact ⟨[], by rw [hMore, List.append_nil]⟩
      | cons m more =>
          have hSame : n = m := (List.cons.inj hRest).1
          rw [hMore, hSame] at hOutside
          exact (hOutside (by simp)).elim
  rcases hAbove with ⟨more, hMore⟩
  have hBelow : n ∈ lower := by
    have hMem : n ∈ upper ++ lower := by
      rw [hSplit]
      simp
    exact (List.mem_append.mp hMem).resolve_left hOutside
  rcases exists_of_forall₂ hLower.flip hBelow with
    ⟨d, hd, hBlock⟩
  have hWritten : d.Written globalKey n := hBlock
  have hParent : parent = d.group := by
    rcases hWritten.assigned with
      ⟨_, _, _, hNode, hGroup, _⟩
    rcases hHas with ⟨_, _, _, _, hOther, _, hValue⟩
    rw [hNode] at hOther
    cases hOther
    rw [← hValue, hGroup]
  rw [hParent] at hSome ⊢
  have hName :=
    hResolved d.group (List.mem_map_of_mem hd) hSome
  rcases List.mem_map.mp hName with ⟨g, hg, hSame⟩
  rcases exists_of_forall₂ hUpper hg with
    ⟨m, hm, hGroupWritten⟩
  refine ⟨m, ?_, ?_⟩
  · rw [hMore]
    exact List.mem_append_left _ hm
  · rw [← hSame]
    exact hGroupWritten.defines

/- The groups of a rendered file are found by their names. -/
theorem deviceGroups_found
    {groups : List DeviceGroup}
    {upper lower : List Node}
    (hUpper :
      List.Forall₂ (DeviceGroup.Written globalKey) groups upper)
    (comments : List Comment) :
    ∀ g ∈ groups,
      ∃ found ∈
          (upper ++ lower).filterMap
            (deviceGroupFromNode comments globalKey),
        found.name = g.name := by
  intro g hg
  rcases exists_of_forall₂ hUpper hg with ⟨n, hn, hWritten⟩
  rcases hWritten.defines with
    ⟨children, first, last, hNode, hNone⟩
  have hFound :
      ∃ found,
        deviceGroupFromNode comments globalKey n = some found ∧
          found.name = g.name := by
    rw [hNode]
    simp only [deviceGroupFromNode, hNone]
    exact ⟨_, rfl, rfl⟩
  rcases hFound with ⟨found, hFound, hName⟩
  exact ⟨found, List.mem_filterMap.mpr
    ⟨n, List.mem_append_left _ hn, hFound⟩, hName⟩


/- What the entities of a rendered file are read back with. -/
theorem entities_of_written
    {groups : List DeviceGroup}
    {devices : List Device}
    {upper lower : List Node}
    (hUpper :
      List.Forall₂ (DeviceGroup.Written globalKey) groups upper)
    (hLower :
      List.Forall₂ (Device.Written globalKey) devices lower)
    {n : Node}
    (hn : n ∈ upper ++ lower) :
    ∃ name children first last,
      n = .block "device" name children first last ∧
        ((∃ g ∈ groups, g.name = name ∧
            assignValue "address" children = [] ∧
            assignValue "key" children =
              inQuotes (g.writtenKey globalKey)) ∨
          ∃ d ∈ devices, d.name = name ∧
            assignValue "parent" children = d.group ∧
            assignValue "key" children =
              if d.keyType = "group" then []
              else d.quotedKey globalKey) := by
  rcases List.mem_append.mp hn with hn | hn
  · rcases exists_of_forall₂ hUpper.flip hn with
      ⟨g, hg, hBlock⟩
    have hWritten : g.Written globalKey n := hBlock
    rcases hWritten with ⟨children, first, last, hNode, hSets⟩
    refine ⟨g.name, children, first, last, hNode,
      Or.inl ⟨g, hg, rfl, ?_, ?_⟩⟩
    · rw [assignValue_of_sets "address" hSets]
      rfl
    · rw [assignValue_of_sets "key" hSets]
      rfl
  · rcases exists_of_forall₂ hLower.flip hn with
      ⟨d, hd, hBlock⟩
    have hWritten : d.Written globalKey n := hBlock
    rcases hWritten.assigned with
      ⟨children, first, last, hNode, hParent, hKey⟩
    exact ⟨d.name, children, first, last, hNode,
      Or.inr ⟨d, hd, rfl, hParent, hKey⟩⟩

/- What is assigned to a key: nothing, or a text in quotes. -/
def QuotedKey (value : Text) : Prop :=
  value = [] ∨ ∃ key, KeyText key ∧ value = inQuotes key

/- Such a key is read without its quotes, or left out. -/
theorem QuotedKey.keyText
    {value : Text}
    (hQuoted : QuotedKey value) :
    KeyText
      (if isGlobalKey globalKey (stripQuotes value) then []
        else stripQuotes value) := by
  have hNil : KeyText [] := ⟨by simp, by simp, by simp⟩
  have hStripped : KeyText (stripQuotes value) := by
    rcases hQuoted with hNone | ⟨key, hKey, hValue⟩
    · rw [hNone]
      exact hNil
    · rw [hValue, stripQuotes_inQuotes]
      exact hKey
  split
  · exact hNil
  · exact hStripped

theorem DeviceGroup.writtenKey_text
    {g : DeviceGroup}
    (hGlobal : KeyText globalKey)
    (hKey : KeyText g.key) :
    KeyText (g.writtenKey globalKey) := by
  unfold DeviceGroup.writtenKey
  split
  · exact hKey
  · exact hGlobal

theorem Device.writtenKey_text
    {d : Device}
    (hGlobal : KeyText globalKey)
    (hKey : KeyText d.key)
    {written : Text}
    (hWritten : d.writtenKey globalKey = some written) :
    KeyText written := by
  unfold Device.writtenKey at hWritten
  split at hWritten
  · cases hWritten
    exact hKey
  · split at hWritten
    · cases hWritten
    · cases hWritten
      exact hGlobal

theorem Device.quotedKey_quoted
    {d : Device}
    (hGlobal : KeyText globalKey)
    (hKey : KeyText d.key) :
    QuotedKey
      (if d.keyType = "group" then []
        else d.quotedKey globalKey) := by
  split
  · exact Or.inl rfl
  · unfold Device.quotedKey
    cases hWritten : d.writtenKey globalKey with
    | none => exact Or.inl rfl
    | some written =>
        exact Or.inr ⟨written,
          Device.writtenKey_text hGlobal hKey hWritten, rfl⟩

/-
  The names are words, the keys are texts on one line, and
  each device's parent is one of the groups.
-/
structure Linked
    (devices : List Device)
    (groups : List DeviceGroup) : Prop where
  ofDevice : ∀ d ∈ devices, PlainWord d.name ∧ KeyText d.key
  ofGroup : ∀ g ∈ groups, PlainWord g.name ∧ KeyText g.key
  parents :
    Resolved (groups.map DeviceGroup.name)
      (devices.map Device.group)

theorem Linked.reference
    {devices : List Device}
    {groups : List DeviceGroup}
    (hLinked : Linked devices groups)
    {d : Device}
    (hd : d ∈ devices) :
    Reference d.group := by
  by_cases hNone : d.group = []
  · exact Or.inl hNone
  · have hName :=
      hLinked.parents d.group (List.mem_map_of_mem hd) hNone
    rcases List.mem_map.mp hName with ⟨g, hg, hSame⟩
    right
    rw [← hSame]
    exact (hLinked.ofGroup g hg).1

/- Linked entities are still so when their file is read. -/
theorem linked_of_written
    (hGlobal : KeyText globalKey)
    {groups : List DeviceGroup}
    {devices : List Device}
    {upper lower : List Node}
    (hUpper :
      List.Forall₂ (DeviceGroup.Written globalKey) groups upper)
    (hLower :
      List.Forall₂ (Device.Written globalKey) devices lower)
    (hLinked : Linked devices groups)
    (comments : List Comment) :
    Linked
      ((upper ++ lower).filterMap
        (deviceFromNode comments globalKey))
      ((upper ++ lower).filterMap
        (deviceGroupFromNode comments globalKey)) := by
  refine ⟨?_, ?_, ?_⟩
  · intro d' hd'
    rcases List.mem_filterMap.mp hd' with ⟨n, hn, hFrom⟩
    rcases entities_of_written hUpper hLower hn with
      ⟨name, children, first, last, hNode, hEntity⟩
    rw [hNode] at hFrom
    simp only [deviceFromNode] at hFrom
    split at hFrom
    · cases hFrom
    rename_i hDevice
    cases hFrom
    rcases hEntity with ⟨_, _, _, hNone, _⟩ |
      ⟨d, hd, hName, _, hKey⟩
    · exact (hDevice (Or.inr hNone)).elim
    · rw [hKey, ← hName]
      have hText := hLinked.ofDevice d hd
      exact ⟨hText.1,
        (d.quotedKey_quoted hGlobal hText.2).keyText⟩
  · intro g' hg'
    rcases List.mem_filterMap.mp hg' with ⟨n, hn, hFrom⟩
    rcases entities_of_written hUpper hLower hn with
      ⟨name, children, first, last, hNode, hEntity⟩
    rw [hNode] at hFrom
    simp only [deviceGroupFromNode] at hFrom
    split at hFrom
    · cases hFrom
    cases hFrom
    rcases hEntity with ⟨g, hg, hName, _, hKey⟩ |
      ⟨d, hd, hName, _, hKey⟩
    · have hText := hLinked.ofGroup g hg
      have hQuoted : QuotedKey (assignValue "key" children) :=
        Or.inr ⟨_,
          DeviceGroup.writtenKey_text hGlobal hText.2, hKey⟩
      rw [← hName]
      exact ⟨hText.1, hQuoted.keyText⟩
    · have hText := hLinked.ofDevice d hd
      rw [hKey, ← hName]
      exact ⟨hText.1,
        (d.quotedKey_quoted hGlobal hText.2).keyText⟩
  · intro parent hParent hSome
    rcases List.mem_map.mp hParent with ⟨d', hd', hSame⟩
    rcases List.mem_filterMap.mp hd' with ⟨n, hn, hFrom⟩
    rcases entities_of_written hUpper hLower hn with
      ⟨name, children, first, last, hNode, hEntity⟩
    rw [hNode] at hFrom
    simp only [deviceFromNode] at hFrom
    split at hFrom
    · cases hFrom
    rename_i hDevice
    cases hFrom
    rcases hEntity with ⟨_, _, _, hNone, _⟩ |
      ⟨d, hd, _, hValue, _⟩
    · exact (hDevice (Or.inr hNone)).elim
    · have hGroup : parent = d.group := by
        rw [← hSame, ← hValue]
      rw [hGroup] at hSome ⊢
      have hName :=
        hLinked.parents d.group (List.mem_map_of_mem hd) hSome
      rcases List.mem_map.mp hName with ⟨g, hg, hOf⟩
      rcases deviceGroups_found hUpper comments g hg with
        ⟨found, hFound, hFoundName⟩
      rw [← hOf, ← hFoundName]
      exact List.mem_map_of_mem hFound

/-
  A rendered file has each parent above its device, and is
  read as linked entities again.
-/
theorem renderDevices_linked
    (hGlobal : KeyText globalKey)
    {devices : List Device}
    {groups : List DeviceGroup}
    (hLinked : Linked devices groups)
    (hDevices : ∀ d ∈ devices, d.Confined globalKey)
    (hGroups : ∀ g ∈ groups, g.Confined globalKey) :
    ∃ nodes comments,
      parse (renderDevices devices groups globalKey) =
          .ok (nodes, comments) ∧
        ParentsAbove nodes ∧
        Linked
          (nodes.filterMap (deviceFromNode comments globalKey))
          (nodes.filterMap
            (deviceGroupFromNode comments globalKey)) := by
  have hOrdered : Linked (orderDevices devices) groups := by
    refine ⟨?_, hLinked.ofGroup, ?_⟩
    · intro d hd
      exact hLinked.ofDevice d (mem_orderDevices.mp hd)
    · intro parent hParent
      rcases List.mem_map.mp hParent with ⟨d, hd, hSame⟩
      apply hLinked.parents
      rw [← hSame]
      exact List.mem_map_of_mem (mem_orderDevices.mp hd)
  rcases renderDevices_written
      (fun g hg => ⟨hGroups g hg,
        (DeviceGroup.writtenKey_text hGlobal
          (hLinked.ofGroup g hg).2).closed⟩)
      (fun d hd => ⟨hDevices d hd, hLinked.reference hd,
        fun key hKey =>
          (Device.writtenKey_text hGlobal
            (hLinked.ofDevice d hd).2 hKey).closed⟩) with
    ⟨upper, lower, comments, hParse, hUpper, hLower⟩
  exact ⟨upper ++ lower, comments, hParse,
    parentsAbove_written hUpper hLower hOrdered.parents,
    linked_of_written hGlobal hUpper hLower hOrdered comments⟩

end Tacconfig

end Soteria
