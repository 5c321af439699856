import Soteria.Tacconfig.Fields

/-
  Devices, users and groups whose fields keep to their place.

  If every name is read as it is, every remark keeps to its
  comment and every value to its line, then a rendered file
  parses to one block for each entity, with the attributes
  its renderer writes and nothing else.

  Key definitions include:
    * `ValuePasted`, `inQuotes`
    * `Device.Confined`, `DeviceGroup.Confined`,
      `User.Confined`
    * `Device.shape`, `DeviceGroup.shape`, `User.shape`,
      `Group.shape`
    * `renderDevices_parse`, `renderUsers_parse`,
      `renderGroups_parse`
-/

------------------------------------------------------------
-- Names and Values
------------------------------------------------------------

namespace Soteria

namespace Tacconfig

/- On the line it is pasted to, the text is this value. -/
def Pastes (s value : Text) : Prop :=
  ∃ toks : List Token,
    Pasted s toks ∧ (∀ t ∈ toks, t.isValue = true) ∧
      lineOf toks = value

/- The text is read as a value on the line it is pasted to. -/
def ValuePasted (s : Text) : Prop :=
  ∃ toks : List Token,
    Pasted s toks ∧ ∀ t ∈ toks, t.isValue = true

def inQuotes (s : Text) : Text :=
  "\"" ++ s ++ "\""

theorem Pastes.valuePasted
    {s value : Text}
    (hPastes : Pastes s value) :
    ValuePasted s := by
  rcases hPastes with ⟨toks, hPasted, hToks, _⟩
  exact ⟨toks, hPasted, hToks⟩

theorem ValuePasted.pastes
    {s : Text}
    (hValue : ValuePasted s) :
    ∃ value, Pastes s value := by
  rcases hValue with ⟨toks, hPasted, hToks⟩
  exact ⟨lineOf toks, toks, hPasted, hToks, rfl⟩

/- A value that was parsed keeps to its line. -/
theorem ValueText.pasted
    {s : Text}
    (hText : ValueText s) :
    ValuePasted s := by
  rcases hText with ⟨toks, hLexes, hToks, _⟩
  exact ⟨toks, hLexes.pasted, hToks⟩

/- A label keeps to its line as a value. -/
theorem LabelText.pasted
    {s : Text}
    (hText : LabelText s) :
    ValuePasted s := by
  rcases hText with ⟨words, hLexes, hWords, _⟩
  refine ⟨words, hLexes.pasted, fun t ht => ?_⟩
  rw [Token.isValue, hWords t ht]
  rfl

theorem PlainWord.labelText
    {s : Text}
    (hWord : PlainWord s) :
    LabelText s :=
  ⟨[⟨.word, s, 0⟩], hWord.lexesTo 0, by simp [Token.isText],
    lineOf_single _⟩

/- A word is read as it is. -/
theorem PlainWord.pastes
    {s : Text}
    (hWord : PlainWord s) :
    Pastes s s :=
  ⟨[⟨.word, s, 0⟩], (hWord.lexesTo 0).pasted, by
    simp [Token.isValue, Token.isText], lineOf_single _⟩

theorem PlainWord.valuePasted
    {s : Text}
    (hWord : PlainWord s) :
    ValuePasted s :=
  hWord.pastes.valuePasted

/- A text without quotes is read with those around it. -/
theorem Closed.pastes
    {s : Text}
    (hClosed : Closed s) :
    Pastes (inQuotes s) (inQuotes s) :=
  ⟨[⟨.string, s, 0⟩], (hClosed.splits 0).lexesTo.pasted, by
    simp [Token.isValue, Token.isText], lineOf_single _⟩

/- An accepted name without `\r` is read as one word. -/
theorem plainWord_of_valid
    {kind name : Text}
    (hValid : validateEntityName kind name = none)
    (hReturn : '\r' ∉ name) :
    PlainWord name := by
  rcases validateEntityName_none_iff.mp hValid with
    ⟨hNonempty, hChars⟩
  refine ⟨hNonempty, fun c hc => ?_⟩
  rw [Bool.eq_false_iff]
  intro hDelimiter
  rw [hChars c hc hDelimiter] at hc
  exact hReturn hc

/- A word and the blanks behind it. -/
theorem splits_word
    {s pad : Text}
    (hWord : PlainWord s)
    (hPad : Indent pad) :
    Splits (s ++ " " ++ pad) [⟨.word, s, 0⟩] :=
  (hWord.lexesTo 0).blank.append hPad.splits

theorem plainWord_device : PlainWord ("device" : Text) :=
  ⟨by decide, by decide⟩

theorem plainWord_key : PlainWord ("key" : Text) :=
  ⟨by decide, by decide⟩

theorem plainWord_address : PlainWord ("address" : Text) :=
  ⟨by decide, by decide⟩

theorem plainWord_parent : PlainWord ("parent" : Text) :=
  ⟨by decide, by decide⟩

/- A kind of block with its label. -/
theorem heading_label
    {kind label : Text}
    {words : List Token}
    (hKind : PlainWord kind)
    (hIf : kind ≠ "if")
    (hElse : kind ≠ "else")
    (hLexes : LexesTo label words)
    (hWords : ∀ t ∈ words, t.isText = true) :
    Heading (kind ++ " " ++ label) kind words where
  lexes := (hKind.lexesTo 0).blank.append_lexesTo hLexes
  isText := hWords
  notIf := hIf
  notElse := hElse

/- A line that assigns to one word. -/
theorem sets_word
    {name pad s value : Text}
    (hName : PlainWord name)
    (hIf : name ≠ "if")
    (hPad : Indent pad)
    (hValue : Pastes s value) :
    Yields Sets
      ("    " ++ (name ++ " " ++ pad) ++ "= " ++ s ++ "\n")
      [(name, value)] := by
  rcases hValue with ⟨toks, hPasted, hToks, hLine⟩
  have hLead :
      Splits ("    " ++ (name ++ " " ++ pad) ++ "= ")
        (⟨.word, name, 0⟩ :: [] ++ [⟨.equals, "=", 0⟩]) :=
    (indent_four.splits.append (splits_word hName hPad)).append
      splits_equals_sign
  have hAll :=
    yields_sets hLead rfl hIf (by simp) hPasted hToks
  rw [lineOf_single, hLine] at hAll
  exact hAll

theorem yields_word
    {name pad value : Text}
    (hName : PlainWord name)
    (hIf : name ≠ "if")
    (hPad : Indent pad)
    (hValue : ValuePasted value) :
    Yields Assigns
      ("    " ++ (name ++ " " ++ pad) ++ "= " ++ value ++ "\n")
      [name] := by
  rcases hValue.pastes with ⟨_, hPastes⟩
  exact (sets_word hName hIf hPad hPastes).map
    fun _ _ _ => Sets.assigns

/- The same for a value that may be missing. -/
theorem sets_field
    {name pad s value : Text}
    (hName : PlainWord name)
    (hIf : name ≠ "if")
    (hPad : Indent pad)
    (hValue : Pastes s value) :
    Yields Sets
      (renderField ("    " ++ (name ++ " " ++ pad) ++ "= ") s)
      (if s = [] then [] else [(name, value)]) := by
  unfold renderField
  by_cases hNil : s = []
  · rw [if_pos hNil, if_pos hNil]
    exact Yields.nil
  · rw [if_neg hNil, if_neg hNil]
    exact sets_word hName hIf hPad hValue

end Tacconfig

end Soteria

------------------------------------------------------------
-- Devices
------------------------------------------------------------

namespace Soteria

namespace Tacconfig

/- What the renderer writes of the group keeps to its place. -/
structure DeviceGroup.Confined
    (globalKey : Text)
    (g : DeviceGroup) : Prop where
  name : LabelText g.name
  description : RemarkField g.description
  key : ValuePasted (inQuotes (g.writtenKey globalKey))

/- What the renderer writes of the device keeps to its place. -/
structure Device.Confined
    (globalKey : Text)
    (d : Device) : Prop where
  name : LabelText d.name
  platform : RemarkField d.platform
  address : ValuePasted d.address
  group : ValuePasted d.group
  key : ∀ key, d.writtenKey globalKey = some key →
    ValuePasted (inQuotes key)

/- The block of a group. -/
def DeviceGroup.shape (g : DeviceGroup) : BlockShape where
  kind := "device"
  label := g.name
  attrs := ["key"]

/- The block of a device; `group` has it inherit the key. -/
def Device.shape (d : Device) : BlockShape where
  kind := "device"
  label := d.name
  attrs :=
    ["address".toList] ++
      (if d.group = [] then [] else ["parent".toList]) ++
      (if d.keyType = "group" then [] else ["key".toList])

/- The block of a group, with what its key is read as. -/
def DeviceGroup.block (g : DeviceGroup) (key : Text) : Block where
  kind := "device"
  label := g.name
  assigns := [("key", key)]

/- The block of a device, with what its values are read as. -/
def Device.block
    (d : Device)
    (address group key : Text) : Block where
  kind := "device"
  label := d.name
  assigns :=
    [("address".toList, address)] ++
      (if d.group = [] then []
        else [("parent".toList, group)]) ++
      (if d.keyType = "group" then [] else [("key".toList, key)])

theorem Device.block_shape
    (d : Device)
    (address group key : Text) :
    (d.block address group key).shape = d.shape := by
  unfold Device.block Block.shape Device.shape
  split <;> split <;> rfl

theorem renderDeviceGroup_block
    {globalKey key : Text}
    {g : DeviceGroup}
    (hConfined : g.Confined globalKey)
    (hWritten : Pastes (inQuotes (g.writtenKey globalKey)) key) :
    Yields Block.Is (renderDeviceGroup globalKey g)
      [g.block key] := by
  rcases hConfined.name with ⟨words, hLexes, hWords, hLabel⟩
  have hHead :=
    heading_label plainWord_device (by decide) (by decide)
      hLexes hWords
  have hRemark :
      Yields Sets
        (renderField "    # @description " g.description) [] :=
    yields_remark hConfined.description (by decide)
  have hKey :=
    sets_word plainWord_key (by decide) indent_nil hWritten
  have hAll :=
    (yields_setBlock hHead (hRemark.append hKey)).append
      Yields.blank
  rw [hLabel] at hAll
  have hStart : ("device " : Text) = "device" ++ " " := rfl
  have hLine :
      ("    key = \"" : Text) =
        "    " ++ "key" ++ " " ++ "= " ++ "\"" := by
    repeat rw [String.toList_ofList]
    rfl
  have hEnd : ("\x7d\n\n" : Text) = "\x7d\n" ++ "\n" := rfl
  have hQuote : ("\"\n" : Text) = "\"" ++ "\n" := rfl
  unfold renderDeviceGroup
  rw [hStart, hLine, hEnd, hQuote]
  simp only [inQuotes, List.append_assoc, List.append_nil,
    List.nil_append] at hAll ⊢
  exact hAll

theorem renderDeviceGroup_yields
    {globalKey : Text}
    {g : DeviceGroup}
    (hConfined : g.Confined globalKey) :
    Yields BlockShape.Shows (renderDeviceGroup globalKey g)
      [g.shape] := by
  rcases hConfined.key.pastes with ⟨_, hWritten⟩
  exact (renderDeviceGroup_block hConfined hWritten).map
    fun _ _ _ => Block.Is.shows

theorem sets_key
    {globalKey value : Text}
    {d : Device}
    (hKey : ∀ key, d.writtenKey globalKey = some key →
      Pastes (inQuotes key) value) :
    Yields Sets (renderKey (d.writtenKey globalKey))
      (if d.keyType = "group" then []
        else [("key".toList, value)]) := by
  have hLine :
      ("    key     = \"" : Text) =
        "    " ++ ("key" ++ " " ++ "    ") ++ "= " ++ "\"" := by
    repeat rw [String.toList_ofList]
    rfl
  have hQuote : ("\"\n" : Text) = "\"" ++ "\n" := rfl
  have hWritten :
      ∀ key, d.writtenKey globalKey = some key →
        Yields Sets (renderKey (d.writtenKey globalKey))
          [("key".toList, value)] := by
    intro key hSome
    have hAll :=
      sets_word plainWord_key (by decide) indent_four
        (hKey key hSome)
    rw [hSome]
    show Yields Sets
      ("    key     = \"" ++ key ++ "\"\n" : Text) _
    rw [hLine, hQuote]
    simp only [inQuotes, List.append_assoc] at hAll ⊢
    exact hAll
  by_cases hGroup : d.keyType = "group"
  · have hNone : d.writtenKey globalKey = none := by
      have hCustom : d.keyType ≠ "custom" := by
        rw [hGroup]
        decide
      rw [Device.writtenKey, if_neg hCustom, if_pos hGroup]
    rw [if_pos hGroup, hNone]
    exact Yields.nil
  · rw [if_neg hGroup]
    by_cases hCustom : d.keyType = "custom"
    · exact hWritten d.key (if_pos hCustom)
    · refine hWritten globalKey ?_
      rw [Device.writtenKey, if_neg hCustom, if_neg hGroup]

theorem renderDevice_block
    {globalKey address group key : Text}
    {d : Device}
    (hConfined : d.Confined globalKey)
    (hAddress : Pastes d.address address)
    (hGroup : Pastes d.group group)
    (hKey : ∀ written, d.writtenKey globalKey = some written →
      Pastes (inQuotes written) key) :
    Yields Block.Is (renderDevice globalKey d)
      [d.block address group key] := by
  rcases hConfined.name with ⟨words, hLexes, hWords, hLabel⟩
  have hHead :=
    heading_label plainWord_device (by decide) (by decide)
      hLexes hWords
  have hRemark :
      Yields Sets
        (renderField "    # @platform " d.platform) [] :=
    yields_remark hConfined.platform (by decide)
  have hAddressLine :=
    sets_word plainWord_address (by decide) indent_nil hAddress
  have hParent :=
    sets_field plainWord_parent (by decide) indent_blank hGroup
  have hBody :=
    ((hRemark.append hAddressLine).append hParent).append
      (sets_key hKey)
  have hAll :=
    (yields_setBlock hHead hBody).append Yields.blank
  rw [hLabel] at hAll
  have hStart : ("device " : Text) = "device" ++ " " := rfl
  have hLine :
      ("    address = " : Text) =
        "    " ++ "address" ++ " " ++ "= " := by
    repeat rw [String.toList_ofList]
    rfl
  have hField :
      ("    parent  = " : Text) =
        "    " ++ ("parent" ++ (" " ++ (" " ++ "= "))) := by
    repeat rw [String.toList_ofList]
    rfl
  have hEnd : ("\x7d\n\n" : Text) = "\x7d\n" ++ "\n" := rfl
  unfold renderDevice
  rw [hStart, hLine, hField, hEnd]
  simp only [List.append_assoc, List.append_nil,
    List.nil_append] at hAll ⊢
  exact hAll

/- What is written of its key has a value, if any is. -/
theorem Device.Confined.key_pastes
    {globalKey : Text}
    {d : Device}
    (hConfined : d.Confined globalKey) :
    ∃ key, ∀ written, d.writtenKey globalKey = some written →
      Pastes (inQuotes written) key := by
  cases hWritten : d.writtenKey globalKey with
  | none =>
      refine ⟨[], fun written hSome => ?_⟩
      cases hSome
  | some written =>
      rcases (hConfined.key written hWritten).pastes with
        ⟨key, hPastes⟩
      refine ⟨key, fun other hSome => ?_⟩
      cases hSome
      exact hPastes

theorem renderDevice_yields
    {globalKey : Text}
    {d : Device}
    (hConfined : d.Confined globalKey) :
    Yields BlockShape.Shows (renderDevice globalKey d)
      [d.shape] := by
  rcases hConfined.address.pastes with ⟨_, hAddress⟩
  rcases hConfined.group.pastes with ⟨_, hGroup⟩
  rcases hConfined.key_pastes with ⟨_, hKey⟩
  have hBlock :=
    renderDevice_block hConfined hAddress hGroup hKey
  have hAll := hBlock.map fun _ _ _ => Block.Is.shows
  rw [List.map_singleton, Device.block_shape] at hAll
  exact hAll

/- The order of the devices leaves none out. -/
theorem mem_orderDevices
    {devices : List Device}
    {d : Device} :
    d ∈ orderDevices devices ↔ d ∈ devices := by
  simp only [orderDevices, List.mem_append, List.mem_filter]
  cases d.isCatchAll <;> simp

/- A rendered 04-devices.cfg has its blocks and no others. -/
theorem renderDevices_parse
    {globalKey : Text}
    {devices : List Device}
    {groups : List DeviceGroup}
    (hDevices : ∀ d ∈ devices, d.Confined globalKey)
    (hGroups : ∀ g ∈ groups, g.Confined globalKey) :
    ∃ nodes comments,
      parse (renderDevices devices groups globalKey) =
          .ok (nodes, comments) ∧
        List.Forall₂ BlockShape.Shows
          (groups.map DeviceGroup.shape ++
            (orderDevices devices).map Device.shape)
          nodes := by
  have hGroupBlocks :=
    Yields.flatMap fun g hg =>
      renderDeviceGroup_yields (hGroups g hg)
  have hOrdered :
      ∀ d ∈ orderDevices devices, d.Confined globalKey :=
    fun d hd => hDevices d (mem_orderDevices.mp hd)
  have hDeviceBlocks :=
    Yields.flatMap fun d hd =>
      renderDevice_yields (hOrdered d hd)
  have hAll := hGroupBlocks.append hDeviceBlocks
  have hBanner : Yields BlockShape.Shows _ [] :=
    yields_banner "04-devices.cfg"
      "Network devices (NAS) definitions" (by decide)
  have hFile := (hBanner.append hAll).parse
  rw [List.nil_append] at hFile
  unfold renderDevices
  rw [List.append_assoc]
  exact hFile

end Tacconfig

end Soteria

------------------------------------------------------------
-- Users and Groups
------------------------------------------------------------

namespace Soteria

namespace Tacconfig

/- What the renderer writes of the user keeps to its place. -/
structure User.Confined (u : User) : Prop where
  name : LabelText u.name
  status : RemarkField u.status
  hash : ValuePasted (inQuotes u.hash)
  group : ValuePasted u.group

/- The block of a user. -/
def User.shape (u : User) : BlockShape where
  kind := "user"
  label := u.name
  attrs :=
    ["password login".toList, "password pap".toList] ++
      (if u.group = [] then [] else ["member".toList])

/- The block of a group. -/
def Group.shape (g : Group) : BlockShape where
  kind := "group"
  label := g.name
  attrs := []

theorem plainWord_user : PlainWord ("user" : Text) :=
  ⟨by decide, by decide⟩

theorem plainWord_group : PlainWord ("group" : Text) :=
  ⟨by decide, by decide⟩

theorem plainWord_password : PlainWord ("password" : Text) :=
  ⟨by decide, by decide⟩

theorem plainWord_login : PlainWord ("login" : Text) :=
  ⟨by decide, by decide⟩

theorem plainWord_pap : PlainWord ("pap" : Text) :=
  ⟨by decide, by decide⟩

theorem plainWord_crypt : PlainWord ("crypt" : Text) :=
  ⟨by decide, by decide⟩

theorem plainWord_member : PlainWord ("member" : Text) :=
  ⟨by decide, by decide⟩

/- The block of a user, with what its values are read as. -/
def User.block (u : User) (login group : Text) : Block where
  kind := "user"
  label := u.name
  assigns :=
    [("password login".toList, login),
        ("password pap".toList, "login".toList)] ++
      (if u.group = [] then [] else [("member".toList, group)])

theorem User.block_shape
    (u : User)
    (login group : Text) :
    (u.block login group).shape = u.shape := by
  unfold User.block Block.shape User.shape
  split <;> rfl

/- A word in front of a value is part of it. -/
theorem ValuePasted.after
    {s value : Text}
    (hWord : PlainWord s)
    (hValue : ValuePasted value) :
    ValuePasted (s ++ " " ++ value) := by
  rcases hValue with ⟨toks, ⟨n, hLines⟩, hToks⟩
  have hSplits : Splits (s ++ " ") [⟨.word, s, 0⟩] :=
    (hWord.lexesTo 0).blank
  have hAll := hSplits.append_lines hLines
  rw [← List.append_assoc] at hAll
  refine ⟨⟨.word, s, 0⟩ :: toks, ⟨n, hAll⟩, ?_⟩
  intro t ht
  rcases List.mem_cons.mp ht with rfl | ht
  · rfl
  · exact hToks t ht

/- A line that assigns to a password of some kind. -/
theorem sets_password
    {kind pad s value : Text}
    (hKind : PlainWord kind)
    (hPad : Indent pad)
    (hValue : Pastes s value) :
    Yields Sets
      ("    password " ++ (kind ++ " " ++ pad) ++ "= " ++ s ++
        "\n")
      [("password " ++ kind, value)] := by
  rcases hValue with ⟨toks, hPasted, hToks, hLine⟩
  have hPassword :
      Splits "    password " [⟨.word, "password", 0⟩] :=
    indent_four.splits.append
      (plainWord_password.lexesTo 0).blank
  have hLead :
      Splits ("    password " ++ (kind ++ " " ++ pad) ++ "= ")
        (⟨.word, "password", 0⟩ :: [⟨.word, kind, 0⟩] ++
          [⟨.equals, "=", 0⟩]) :=
    (hPassword.append (splits_word hKind hPad)).append
      splits_equals_sign
  have hNotIf : ("password" : Text) ≠ "if" := by decide
  have hName :
      lineOf [⟨.word, "password", 0⟩, ⟨.word, kind, 0⟩] =
        "password " ++ kind := by
    rw [lineOf_cons_cons, lineOf_single]
    rfl
  have hAll :=
    yields_sets hLead rfl hNotIf (by simp [Token.isText])
      hPasted hToks
  rw [hName, hLine] at hAll
  exact hAll

theorem renderUser_block
    {group : Text}
    {u : User}
    (hConfined : u.Confined)
    (hGroup : Pastes u.group group) :
    ∃ login,
      Yields Block.Is (renderUser u) [u.block login group] := by
  rcases hConfined.name with ⟨words, hLexes, hWords, hLabel⟩
  rcases (hConfined.hash.after plainWord_crypt).pastes with
    ⟨login, hHash⟩
  refine ⟨login, ?_⟩
  have hHead :=
    heading_label plainWord_user (by decide) (by decide)
      hLexes hWords
  have hStatus :
      RemarkField
        (if u.status = "active" then [] else u.status) := by
    split
    · decide
    · exact hConfined.status
  have hRemark :
      Yields Sets
        (renderField "    # @status "
          (if u.status = "active" then [] else u.status)) [] :=
    yields_remark hStatus (by decide)
  have hLogin :=
    sets_password plainWord_login indent_nil hHash
  have hPap :=
    sets_password plainWord_pap
      (indent_blank.append indent_blank) plainWord_login.pastes
  have hMember :=
    sets_field plainWord_member (by decide)
      (indent_four.append indent_four) hGroup
  have hBody :=
    ((hRemark.append hLogin).append hPap).append hMember
  have hAll :=
    (yields_setBlock hHead hBody).append Yields.blank
  rw [hLabel] at hAll
  have hStart : ("user " : Text) = "user" ++ " " := rfl
  have hLoginLine :
      ("    password login = crypt \"" : Text) =
        "    password " ++ "login" ++ " " ++ "= " ++ "crypt" ++
          " " ++ "\"" := by
    repeat rw [String.toList_ofList]
    rfl
  have hPapLine :
      ("    password pap   = login\n" : Text) =
        "    password " ++ "pap" ++ " " ++ " " ++ " " ++ "= " ++
          "login" ++ "\n" := by
    repeat rw [String.toList_ofList]
    rfl
  have hField :
      ("    member         = " : Text) =
        "    " ++
          ("member" ++ (" " ++ ("    " ++ ("    " ++ "= ")))) := by
    repeat rw [String.toList_ofList]
    rfl
  have hQuote : ("\"\n" : Text) = "\"" ++ "\n" := rfl
  have hEnd : ("\x7d\n\n" : Text) = "\x7d\n" ++ "\n" := rfl
  unfold renderUser
  rw [hStart, hLoginLine, hPapLine, hField, hQuote, hEnd]
  simp only [inQuotes, List.append_assoc, List.append_nil,
    List.nil_append] at hAll ⊢
  exact hAll

theorem renderUser_yields
    {u : User}
    (hConfined : u.Confined) :
    Yields BlockShape.Shows (renderUser u) [u.shape] := by
  rcases hConfined.group.pastes with ⟨_, hGroup⟩
  rcases renderUser_block hConfined hGroup with ⟨_, hBlock⟩
  have hAll := hBlock.map fun _ _ _ => Block.Is.shows
  rw [List.map_singleton, User.block_shape] at hAll
  exact hAll

/- A rendered 05-local-users.cfg has its blocks only. -/
theorem renderUsers_parse
    {users : List User}
    (hUsers : ∀ u ∈ users, u.Confined) :
    ∃ nodes comments,
      parse (renderUsers users) = .ok (nodes, comments) ∧
        List.Forall₂ BlockShape.Shows (users.map User.shape)
          nodes := by
  have hBlocks :=
    Yields.flatMap fun u hu => renderUser_yields (hUsers u hu)
  have hBanner : Yields BlockShape.Shows _ [] :=
    yields_banner "05-local-users.cfg"
      "Local fallback and service account users" (by decide)
  exact (hBanner.append hBlocks).parse

theorem renderGroup_yields
    {width : Nat}
    {g : Group}
    (hName : LabelText g.name) :
    Yields BlockShape.Shows (renderGroup width g)
      [g.shape] := by
  rcases hName with ⟨words, hLexes, hWords, hLabel⟩
  have hHead :=
    heading_label plainWord_group (by decide) (by decide)
      hLexes hWords
  have hStart : ("group " : Text) = "group" ++ " " := rfl
  unfold renderGroup
  by_cases hLdap : g.source = "ldap"
  · have hLdapRemark : RemarkField "ldap" := by decide
    have hRemark :
        Yields Assigns (renderField "    # @source " "ldap")
          [] :=
      yields_remark hLdapRemark (by decide)
    have hAll := yields_block hHead hRemark
    rw [hLabel] at hAll
    have hBody :
        (" \x7b\n    # @source ldap\n\x7d\n" : Text) =
          " \x7b\n" ++ renderField "    # @source " "ldap" ++
            "\x7d\n" := by
      repeat rw [String.toList_ofList]
      rfl
    rw [if_pos hLdap, hStart, hBody]
    simp only [List.append_assoc] at hAll ⊢
    exact hAll
  · have hPad :
        Indent (List.replicate (width - g.name.length) ' ') :=
      fun c hc => List.eq_of_mem_replicate hc
    have hAll := yields_emptyBlock hHead hPad
    rw [hLabel] at hAll
    rw [if_neg hLdap, hStart, padRight]
    simp only [List.append_assoc] at hAll ⊢
    exact hAll

/- A rendered 06-groups.cfg has its blocks only. -/
theorem renderGroups_parse
    {groups : List Group}
    (hGroups : ∀ g ∈ groups, LabelText g.name) :
    ∃ nodes comments,
      parse (renderGroups groups) = .ok (nodes, comments) ∧
        List.Forall₂ BlockShape.Shows (groups.map Group.shape)
          nodes := by
  have hEach :
      ∀ g ∈ groups,
        Yields BlockShape.Shows
          (renderGroup (groupWidth groups) g) [g.shape] :=
    fun g hg => renderGroup_yields (hGroups g hg)
  have hBlocks := Yields.flatMap hEach
  have hBanner : Yields BlockShape.Shows _ [] :=
    yields_banner "06-groups.cfg" "Group definitions"
      (by decide)
  have hFile :=
    ((hBanner.append hBlocks).append Yields.blank).parse
  rw [List.append_nil, List.nil_append] at hFile
  exact hFile

end Tacconfig

end Soteria

------------------------------------------------------------
-- Entities That Were Parsed
------------------------------------------------------------

namespace Soteria

namespace Tacconfig

/- A text on one line keeps to any comment. -/
theorem remarkField_of_line
    {s : Text}
    (hLine : '\n' ∉ s) :
    RemarkField s := by
  have hNil : s.dropWhile (· != '\n') = [] := by
    rw [List.dropWhile_eq_nil_iff]
    intro c hc
    have hNe : c ≠ '\n' := by
      rintro rfl
      exact hLine hc
    simpa using hNe
  intro t ht
  rw [hNil] at ht
  rw [List.mem_singleton.mp ht]

theorem mem_of_mem_trimSpace
    {s : Text}
    {c : Char}
    (hc : c ∈ s.trimSpace) :
    c ∈ s :=
  List.dropWhile_sublist _ |>.subset
    ((List.rdropWhile_prefix _ _).subset hc)

/- A comment is on one line. -/
theorem lexStep_comment_line
    {line : Nat}
    {c : Char}
    {rest : Text}
    {k : Comment}
    (hComment : (lexStep line c rest).1 = .comment k) :
    '\n' ∉ k.text := by
  have hStep := lexStep_cases line c rest
  have hHash : c = '#' := by
    generalize lexStep line c rest = step at hStep hComment
    cases hStep with
    | comment text hc => exact hc
    | _ => cases hComment
  subst hHash
  have hText :
      k.text =
        commentText ('#' :: rest.takeWhile (· != '\n')) := by
    have hSame :
        (⟨commentText ('#' :: rest.takeWhile (· != '\n')),
          line⟩ : Comment) = k :=
      Piece.comment.inj hComment
    rw [← hSame]
  intro hNewline
  rw [hText, commentText] at hNewline
  have hMem :=
    (List.dropWhile_sublist _).subset
      (mem_of_mem_trimSpace hNewline)
  rcases List.mem_cons.mp hMem with hHash | hMem
  · cases hHash
  · have hNot := List.mem_takeWhile_imp hMem
    simp at hNot

theorem lexFrom_comment_line
    (fuel line : Nat)
    (src : Text) :
    ∀ k ∈ (lexFrom fuel line src).comments,
      '\n' ∉ k.text := by
  induction fuel generalizing line src with
  | zero =>
      intro k hk
      cases hk
  | succ fuel ih =>
      cases src with
      | nil =>
          intro k hk
          cases hk
      | cons c rest =>
          rw [lexFrom]
          have hRest := ih (lexStep line c rest).2.1
            (lexStep line c rest).2.2
          cases hPiece : (lexStep line c rest).1 with
          | blank => exact hRest
          | token t => exact hRest
          | comment comment =>
              intro k hk
              rcases List.mem_cons.mp hk with rfl | hk
              · exact lexStep_comment_line hPiece
              · exact hRest k hk

theorem annotation_line
    {src : Text}
    {nodes : List Node}
    {comments : List Comment}
    (hParse : parse src = .ok (nodes, comments))
    (first last : Nat)
    (key : Text) :
    '\n' ∉ annotation comments first last key := by
  have hComments := (parse_ok_iff.mp hParse).2
  unfold annotation
  dsimp only
  split
  · rename_i k hFind
    have hk : k ∈ (lex src).comments := by
      rw [← hComments]
      exact List.mem_of_find?_eq_some hFind
    intro hNewline
    have hTrimmed := mem_of_mem_trimSpace hNewline
    refine lexFrom_comment_line _ _ src k hk ?_
    unfold Text.trimPrefix at hTrimmed
    split at hTrimmed
    · exact List.mem_of_mem_drop hTrimmed
    · exact hTrimmed
  · simp

/- The value of an assignment in a block, in its tokens. -/
theorem Parses.assign_value
    {toks after : List Token}
    {nodes : List Node}
    {line : Nat}
    (hParses : Parses (.stmts true toks nodes line after))
    (hSound : Sound toks)
    {name value : Text}
    {first last : Nat}
    (hNode : Node.assign name value first last ∈ nodes) :
    ValueText value := by
  induction nodes generalizing toks with
  | nil => simp at hNode
  | cons n rest ih =>
      cases hParses with
      | cons _ _ hStmt hRest =>
          have hAfter := hSound.suffix hStmt.suffix.1
          rcases List.mem_cons.mp hNode with rfl | hNode
          · cases hStmt with
            | ifStmt _ _ hIf => cases hIf
            | @assign _ next _ words parts after' _ _ _ hWords _
                hValue =>
                rcases takeToks_ok_iff.mp hWords with ⟨rfl, _⟩
                have hInner : Sound after' :=
                  hSound.2.suffix ⟨words ++ [next], by simp⟩
                have hParts :=
                  takeToks_written hValue hInner hRest.continues
                refine ⟨parts,
                  lexesTo_lineOf (solid_of_wellWritten hParts),
                  ?_, rfl⟩
                intro u hu
                have hPass :=
                  (takeToks_ok_iff.mp hValue).2.1 u hu
                simp only [Bool.and_eq_true] at hPass
                exact hPass.2
          · exact ih hRest hAfter hNode

theorem Parses.block_values
    {toks after : List Token}
    {nodes : List Node}
    {line : Nat}
    (hParses : Parses (.stmts false toks nodes line after))
    (hSound : Sound toks)
    {kind label : Text}
    {children : List Node}
    {first last : Nat}
    (hNode :
      Node.block kind label children first last ∈ nodes)
    {name value : Text}
    {firstLine lastLine : Nat}
    (hChild :
      Node.assign name value firstLine lastLine ∈ children) :
    ValueText value := by
  induction nodes generalizing toks with
  | nil => simp at hNode
  | cons n rest ih =>
      cases hParses with
      | cons _ _ hStmt hRest =>
          rcases List.mem_cons.mp hNode with rfl | hNode
          · cases hStmt with
            | ifStmt _ _ hIf => cases hIf
            | block _ _ hWords hKind hBody =>
                rcases label_written hWords hKind hSound with
                  ⟨_, hInner⟩
                exact hBody.assign_value hInner hChild
          · exact ih hRest (hSound.suffix hStmt.suffix.1) hNode

theorem assignValue_mem
    {key : Text}
    {children : List Node}
    (hValue : assignValue key children ≠ []) :
    ∃ first last,
      Node.assign key (assignValue key children) first last ∈
        children := by
  induction children with
  | nil => exact (hValue rfl).elim
  | cons n rest ih =>
      cases n with
      | assign name value first last =>
          by_cases hName : name = key
          · subst hName
            refine ⟨first, last, ?_⟩
            simp [assignValue]
          · rw [assignValue, if_neg hName] at hValue ⊢
            rcases ih hValue with ⟨f, l, hMem⟩
            exact ⟨f, l, List.mem_cons_of_mem _ hMem⟩
      | block | action | ifNode =>
          rw [assignValue] at hValue ⊢
          · rcases ih hValue with ⟨f, l, hMem⟩
            exact ⟨f, l, List.mem_cons_of_mem _ hMem⟩
          all_goals simp

/- An attribute that a block of a source has. -/
theorem assignValue_pasted
    {src : Text}
    {nodes : List Node}
    {comments : List Comment}
    (hParse : parse src = .ok (nodes, comments))
    {kind label : Text}
    {children : List Node}
    {first last : Nat}
    (hNode :
      Node.block kind label children first last ∈ nodes)
    (key : Text) :
    ValuePasted (assignValue key children) := by
  by_cases hNil : assignValue key children = []
  · rw [hNil]
    exact ⟨[], splits_nil.lexesTo.pasted, by simp⟩
  · rcases parseTokens_ok_iff.mp (parse_ok_iff.mp hParse).1
      with ⟨line, after, hParses⟩
    rcases assignValue_mem hNil with ⟨f, l, hMem⟩
    exact (hParses.block_values (lex_sound src) hNode
      hMem).pasted

/- The label of a block of a source. -/
theorem label_of_parse
    {src : Text}
    {nodes : List Node}
    {comments : List Comment}
    (hParse : parse src = .ok (nodes, comments))
    {kind label : Text}
    {children : List Node}
    {first last : Nat}
    (hNode :
      Node.block kind label children first last ∈ nodes) :
    LabelText label := by
  have hWritten := parse_written hParse hNode
  rw [Node.Written] at hWritten
  exact hWritten.1

/- A device of a source keeps to its places but for its key. -/
theorem parseDevices_confined
    {src globalKey : Text}
    {devices : List Device}
    (hParse : parseDevices src globalKey = .ok devices)
    {d : Device}
    (hd : d ∈ devices)
    (hKey : ∀ key, d.writtenKey globalKey = some key →
      ValuePasted (inQuotes key)) :
    d.Confined globalKey := by
  rcases map_ok_iff.mp hParse with ⟨⟨nodes, comments⟩, hSrc, rfl⟩
  rcases List.mem_filterMap.mp hd with ⟨n, hn, hFrom⟩
  cases n with
  | assign | action | ifNode => cases hFrom
  | block kind label children first last =>
      simp only [deviceFromNode] at hFrom
      split at hFrom
      · cases hFrom
      · cases hFrom
        exact
          { name := label_of_parse hSrc hn
            platform :=
              remarkField_of_line
                (annotation_line hSrc first last "platform")
            address := assignValue_pasted hSrc hn "address"
            group := assignValue_pasted hSrc hn "parent"
            key := hKey }

/- A group of a source keeps to its places but for its key. -/
theorem parseDeviceGroups_confined
    {src globalKey : Text}
    {groups : List DeviceGroup}
    (hParse : parseDeviceGroups src globalKey = .ok groups)
    {g : DeviceGroup}
    (hg : g ∈ groups) :
    LabelText g.name ∧ RemarkField g.description := by
  rcases map_ok_iff.mp hParse with ⟨⟨nodes, comments⟩, hSrc, rfl⟩
  rcases List.mem_filterMap.mp hg with ⟨n, hn, hFrom⟩
  cases n with
  | assign | action | ifNode => cases hFrom
  | block kind label children first last =>
      simp only [deviceGroupFromNode] at hFrom
      split at hFrom
      · cases hFrom
      · cases hFrom
        exact ⟨label_of_parse hSrc hn,
          remarkField_of_line
            (annotation_line hSrc first last "description")⟩

end Tacconfig

end Soteria
