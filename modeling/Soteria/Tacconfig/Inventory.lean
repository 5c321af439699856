import Mathlib.Data.List.Sort
import Soteria.Tacconfig.Records

/-
  Devices and device groups, rendered and parsed.

  The file is entries one below the other: those of the
  groups, those of the devices, and those of the devices
  that match every address. Each entry is read as what it
  was rendered for, with its annotation and its key.

  Key definitions include:
    * `sortDevicesForDisplay`
    * `Device.entry`, `DeviceGroup.entry`
    * `Device.Encodable`, `DeviceGroup.Encodable`
    * `devices_round_trip`
-/

------------------------------------------------------------
-- The Order of Display
------------------------------------------------------------

namespace Soteria

namespace Tacconfig

open scoped List

variable {α : Type}

/- Sorted by a property, a list is in two parts. -/
theorem parts_of_pairwise
    {p : α → Bool}
    {xs : List α}
    (hSorted : xs.Pairwise fun a b => (!p a || p b) = true) :
    xs = xs.filter (fun a => !p a) ++ xs.filter p := by
  induction xs with
  | nil => rfl
  | cons a rest ih =>
      rcases List.pairwise_cons.mp hSorted with ⟨hHead, hRest⟩
      by_cases ha : p a = true
      · have hAll : ∀ b ∈ rest, p b = true := by
          intro b hb
          simpa [ha] using hHead b hb
        have hNone : rest.filter (fun b => !p b) = [] := by
          rw [List.filter_eq_nil_iff]
          intro b hb
          simp [hAll b hb]
        have hSame : rest.filter p = rest :=
          List.filter_eq_self.mpr hAll
        simp [ha, hNone, hSame]
      · have hParts := ih hRest
        simp only [List.filter_cons, ha, Bool.not_false, if_true,
          Bool.false_eq_true, if_false, List.cons_append]
        rw [← hParts]

/- Sorting is stable on elements that are equivalent. -/
theorem filter_mergeSort
    {le : α → α → Bool}
    (hTrans : ∀ a b c, le a b → le b c → le a c)
    (hTotal : ∀ a b, le a b || le b a)
    (q : α → Bool)
    (hEquivalent : ∀ a b, q a = true → q b = true → le a b)
    (xs : List α) :
    (xs.mergeSort le).filter q = xs.filter q := by
  have hSorted : (xs.filter q).Pairwise fun a b => le a b := by
    apply List.pairwise_of_forall_mem_list
    intro a ha b hb
    exact hEquivalent a b (List.mem_filter.mp ha).2
      (List.mem_filter.mp hb).2
  have hSublist : xs.filter q <+ xs.mergeSort le :=
    List.sublist_mergeSort hTrans hTotal hSorted
      List.filter_sublist
  have hFilter : xs.filter q <+ (xs.mergeSort le).filter q := by
    have hBoth := hSublist.filter q
    simpa only [List.filter_filter, Bool.and_self] using hBoth
  apply (hFilter.eq_of_length _).symm
  exact ((List.mergeSort_perm xs le).filter q).length_eq.symm

/- Sorting by one property, stably, is a partition. -/
theorem mergeSort_of_property
    (p : α → Bool)
    (xs : List α) :
    xs.mergeSort (fun a b => !p a || p b) =
      xs.filter (fun a => !p a) ++ xs.filter p := by
  have hTrans :
      ∀ a b c, (!p a || p b) = true → (!p b || p c) = true →
        (!p a || p c) = true := by
    intro a b c
    cases p a <;> cases p b <;> cases p c <;> simp
  have hTotal :
      ∀ a b, ((!p a || p b) || (!p b || p a)) = true := by
    intro a b
    cases p a <;> cases p b <;> simp
  have hSorted := List.pairwise_mergeSort hTrans hTotal xs
  rw [parts_of_pairwise hSorted,
    filter_mergeSort hTrans hTotal (fun a => !p a)
      (by intro a b ha _; simp_all),
    filter_mergeSort hTrans hTotal p
      (by intro a b _ hb; simp_all)]

/- `SortDevicesForDisplay`: stable, catch-all devices last. -/
def sortDevicesForDisplay (devices : List Device) :
    List Device :=
  devices.mergeSort fun a b =>
    !(!b.isCatchAll && a.isCatchAll)

theorem sortDevicesForDisplay_eq (devices : List Device) :
    sortDevicesForDisplay devices = orderDevices devices := by
  unfold sortDevicesForDisplay orderDevices
  rw [← mergeSort_of_property]
  congr 1
  funext a b
  cases a.isCatchAll <;> cases b.isCatchAll <;> rfl

end Tacconfig

end Soteria

------------------------------------------------------------
-- Entries of Devices
------------------------------------------------------------

namespace Soteria

namespace Tacconfig

def assignKey : Option Text → List (Text × Text)
| some key => [("key", inQuotes key)]
| none => []

/- A device as an entry. -/
def Device.entry (globalKey : Text) (d : Device) : Entry where
  kind := "device"
  label := d.name
  remark := remarkFor "platform" d.platform
  assigns :=
    ("address", d.address) ::
      (assignUnlessEmpty "parent" d.group ++
        assignKey (d.writtenKey globalKey))

/- A device group as an entry. -/
def DeviceGroup.entry
    (globalKey : Text)
    (g : DeviceGroup) : Entry where
  kind := "device"
  label := g.name
  remark := remarkFor "description" g.description
  assigns := assignKey (some (g.writtenKey globalKey))

/- A text without quotes, backslashes and newlines. -/
structure KeyText (key : Text) : Prop where
  noQuote : '"' ∉ key
  noEscape : '\\' ∉ key
  oneLine : '\n' ∉ key

/-
  A kind of key with the key it goes with: the shared one, or
  one that is not taken for it.
-/
inductive KeyOf
    (globalKey : Text) : Text → Text → Prop
| shared
    (hGlobal : KeyText globalKey) :
    KeyOf globalKey "global" []
| custom
    {key : Text}
    (hKey : KeyText key)
    (hNonempty : key ≠ [])
    (hOther : isGlobalKey globalKey key = false) :
    KeyOf globalKey "custom" key

structure DeviceGroup.Encodable
    (globalKey : Text)
    (g : DeviceGroup) : Prop where
  name : PlainWord g.name
  description : TrimmedLine g.description
  key : KeyOf globalKey g.keyType g.key

structure Device.Encodable
    (globalKey : Text)
    (d : Device) : Prop where
  name : PlainWord d.name
  address : PlainWord d.address
  platform : TrimmedLine d.platform
  group : d.group = [] ∨ PlainWord d.group
  key :
    KeyOf globalKey d.keyType d.key ∨
      d.keyType = "group" ∧ d.group ≠ [] ∧ d.key = []

end Tacconfig

end Soteria

------------------------------------------------------------
-- Rendered Entries
------------------------------------------------------------

namespace Soteria

namespace Tacconfig

theorem KeyText.closed
    {key : Text}
    (hKey : KeyText key) :
    Closed key :=
  closed_of_plain hKey.noQuote hKey.noEscape

/- The line of the key of a block. -/
theorem laysAssigns_key
    {pad key : Text}
    (hPad : Indent pad)
    (hNonempty : pad ≠ [])
    (hKey : KeyText key) :
    LaysAssigns
      ("    " ++ ("key" ++ pad ++ "= " ++ inQuotes key) ++ "\n")
      (assignKey (some key)) :=
  LaysAssigns.word plainWord_key (by decide) hPad hNonempty
    hKey.closed.valueLine

/- The key a group is written with, for each kind of key. -/
theorem DeviceGroup.writtenKey_cases
    {globalKey : Text}
    {g : DeviceGroup}
    (hEncodable : g.Encodable globalKey) :
    (g.keyType = "global" ∧ g.key = [] ∧ KeyText globalKey ∧
        g.writtenKey globalKey = globalKey) ∨
      (g.keyType = "custom" ∧ KeyText g.key ∧
        isGlobalKey globalKey g.key = false ∧
        g.writtenKey globalKey = g.key) := by
  rcases g with ⟨name, description, keyType, key, members⟩
  cases hEncodable.key with
  | shared hGlobal => exact Or.inl ⟨rfl, rfl, hGlobal, rfl⟩
  | custom hText _ hOther =>
      exact Or.inr ⟨rfl, hText, hOther, rfl⟩

theorem renderDeviceGroup_lays
    {globalKey : Text}
    {g : DeviceGroup}
    (hEncodable : g.Encodable globalKey) :
    Lays (renderDeviceGroup globalKey g)
      (g.entry globalKey).height
      (fun line => [(g.entry globalKey).node line])
      (g.entry globalKey).remarks := by
  have hKey : KeyText (g.writtenKey globalKey) := by
    rcases DeviceGroup.writtenKey_cases hEncodable with
      ⟨_, _, hText, hWritten⟩ | ⟨_, hText, _, hWritten⟩
    · rwa [hWritten]
    · rwa [hWritten]
  have hRemark :=
    hEncodable.description.remarkFor "description" (by decide)
  have hHead :=
    heading_label plainWord_device (by decide) (by decide)
      (hEncodable.name.lexesTo 0) (by simp [Token.isText])
  have hExact :=
    plainWord_device.exact.gap hEncodable.name.exact indent_blank
      (by simp)
  have hAll :=
    lays_entry hHead hExact hRemark.oneLine hRemark.trimmed
      (laysAssigns_key indent_blank (by simp) hKey)
  rw [lineOf_single] at hAll
  have hField :
      renderField "    # @description " g.description =
        renderField "    # "
          (remarkFor "description" g.description) :=
    renderField_remark "description" g.description
  have hStart : ("device " : Text) = "device" ++ " " := rfl
  have hLine :
      ("    key = \"" : Text) =
        "    " ++ "key" ++ " " ++ "= " ++ "\"" := by
    repeat rw [String.toList_ofList]
    rfl
  have hEnd : ("\x7d\n\n" : Text) = "\x7d\n" ++ "\n" := rfl
  have hQuote : ("\"\n" : Text) = "\"" ++ "\n" := rfl
  unfold renderDeviceGroup
  rw [hField, hStart, hLine, hEnd, hQuote]
  simp only [inQuotes, List.append_assoc] at hAll ⊢
  exact hAll

/- The key a device is written with, for each kind of key. -/
theorem Device.writtenKey_cases
    {globalKey : Text}
    {d : Device}
    (hEncodable : d.Encodable globalKey) :
    (d.keyType = "global" ∧ d.key = [] ∧ KeyText globalKey ∧
        d.writtenKey globalKey = some globalKey) ∨
      (d.keyType = "custom" ∧ KeyText d.key ∧ d.key ≠ [] ∧
        isGlobalKey globalKey d.key = false ∧
        d.writtenKey globalKey = some d.key) ∨
      (d.keyType = "group" ∧ d.group ≠ [] ∧ d.key = [] ∧
        d.writtenKey globalKey = none) := by
  rcases d with ⟨name, address, platform, keyType, key, group,
    lastSeen, status⟩
  rcases hEncodable.key with hKey | ⟨hType, hGroup, hKey⟩
  · cases hKey with
    | shared hGlobal => exact Or.inl ⟨rfl, rfl, hGlobal, rfl⟩
    | custom hText hNonempty hOther =>
        exact Or.inr (Or.inl
          ⟨rfl, hText, hNonempty, hOther, rfl⟩)
  · cases hType
    exact Or.inr (Or.inr ⟨rfl, hGroup, hKey, rfl⟩)

theorem Device.Encodable.keyText
    {globalKey key : Text}
    {d : Device}
    (hEncodable : d.Encodable globalKey)
    (hKey : key ∈ d.writtenKey globalKey) :
    KeyText key := by
  rcases Device.writtenKey_cases hEncodable with
    ⟨_, _, hText, hWritten⟩ | ⟨_, hText, _, _, hWritten⟩ |
      ⟨_, _, _, hWritten⟩
  · rw [hWritten] at hKey
    cases hKey
    exact hText
  · rw [hWritten] at hKey
    cases hKey
    exact hText
  · rw [hWritten] at hKey
    cases hKey

/- The line of a key that is not inherited. -/
theorem renderKey_lays
    {key : Option Text}
    (hKey : ∀ k ∈ key, KeyText k) :
    LaysAssigns (renderKey key) (assignKey key) := by
  cases key with
  | none => exact LaysAssigns.nil
  | some k =>
      have hPad : Indent "     " := by
        decide
      have hLine :
          ("    key     = \"" : Text) =
            "    " ++ "key" ++ "     " ++ "= " ++ "\"" := by
        repeat rw [String.toList_ofList]
        rfl
      have hQuote : ("\"\n" : Text) = "\"" ++ "\n" := rfl
      have hAll := laysAssigns_key hPad (by decide) (hKey k rfl)
      show LaysAssigns
        ("    key     = \"" ++ k ++ "\"\n" : Text) _
      rw [hLine, hQuote]
      simp only [inQuotes, List.append_assoc] at hAll ⊢
      exact hAll

theorem renderDevice_lays
    {globalKey : Text}
    {d : Device}
    (hEncodable : d.Encodable globalKey) :
    Lays (renderDevice globalKey d) (d.entry globalKey).height
      (fun line => [(d.entry globalKey).node line])
      (d.entry globalKey).remarks := by
  have hKey : ∀ k ∈ d.writtenKey globalKey, KeyText k :=
    fun k hk => hEncodable.keyText hk
  have hRemark :=
    hEncodable.platform.remarkFor "platform" (by decide)
  have hHead :=
    heading_label plainWord_device (by decide) (by decide)
      (hEncodable.name.lexesTo 0) (by simp [Token.isText])
  have hExact :=
    plainWord_device.exact.gap hEncodable.name.exact indent_blank
      (by simp)
  have hTwo : Indent "  " := by
    decide
  have hAddress :=
    LaysAssigns.word plainWord_address (by decide) indent_blank
      (by simp) hEncodable.address.valueLine
  have hParent :=
    laysAssigns_unlessEmpty plainWord_parent (by decide) hTwo
      (by simp) hEncodable.group
  have hAll :=
    lays_entry hHead hExact hRemark.oneLine hRemark.trimmed
      (hAddress.append (hParent.append (renderKey_lays hKey)))
  rw [lineOf_single] at hAll
  have hField :
      renderField "    # @platform " d.platform =
        renderField "    # " (remarkFor "platform" d.platform) :=
    renderField_remark "platform" d.platform
  have hStart : ("device " : Text) = "device" ++ " " := rfl
  have hAddressLine :
      ("    address = " : Text) =
        "    " ++ "address" ++ " " ++ "= " := by
    repeat rw [String.toList_ofList]
    rfl
  have hParentLine :
      ("    parent  = " : Text) =
        "    " ++ "parent" ++ "  " ++ "= " := by
    repeat rw [String.toList_ofList]
    rfl
  have hEnd : ("\x7d\n\n" : Text) = "\x7d\n" ++ "\n" := rfl
  unfold renderDevice
  rw [hField, hStart, hAddressLine, hParentLine, hEnd]
  simp only [List.append_assoc] at hAll ⊢
  exact hAll

end Tacconfig

end Soteria

------------------------------------------------------------
-- Entries Read Again
------------------------------------------------------------

namespace Soteria

namespace Tacconfig

/- A device as it is listed. -/
def Device.listed (d : Device) : Device :=
  { d with lastSeen := "-", status := "unknown" }

/- A group as it is read, without its members. -/
def DeviceGroup.uncounted (g : DeviceGroup) : DeviceGroup :=
  { g with members := 0 }

theorem valueOf_key (key : Option Text) :
    stripQuotes (valueOf "key" (assignKey key)) =
      key.getD [] := by
  cases key with
  | none => rfl
  | some k => exact stripQuotes_inQuotes k

/- The entry of a device is read as the device. -/
theorem deviceFromNode_entry
    {globalKey : Text}
    (hGlobal : globalKey ≠ [])
    {d : Device}
    (hEncodable : d.Encodable globalKey)
    {comments : List Comment}
    {line : Nat}
    (hNoted :
      annotation comments line ((d.entry globalKey).last line)
          "platform" =
        (d.entry globalKey).noted "platform") :
    deviceFromNode comments globalKey
        ((d.entry globalKey).node line) =
      some d.listed := by
  have hPlatform :
      (d.entry globalKey).noted "platform" = d.platform :=
    annotation_remarkFor rfl hEncodable.platform.trimmed
  rw [hPlatform] at hNoted
  have hAddress :
      valueOf "address" (d.entry globalKey).assigns =
        d.address := rfl
  have hParent :
      valueOf "parent" (d.entry globalKey).assigns = d.group := by
    show valueOf "parent" (assignUnlessEmpty _ _ ++ _) = _
    apply valueOf_unlessEmpty
    cases d.writtenKey globalKey <;> rfl
  have hKey :
      stripQuotes
          (valueOf "key" (d.entry globalKey).assigns) =
        (d.writtenKey globalKey).getD [] := by
    have hOther : ("parent" : Text) ≠ "key" := by decide
    show stripQuotes
      (valueOf "key" (assignUnlessEmpty _ _ ++ _)) = _
    rw [valueOf_other hOther, valueOf_key]
  have hNonempty : d.address ≠ [] := hEncodable.address.1
  have hProper :
      ¬ ((d.entry globalKey).kind ≠ "device" ∨
        d.address = []) := by
    rintro (hKind | hNone)
    · exact hKind rfl
    · exact hNonempty hNone
  have hEmptyKey : isGlobalKey globalKey [] = false := by
    unfold isGlobalKey
    rw [Bool.or_eq_false_iff, beq_eq_false_iff_ne]
    exact ⟨Ne.symm hGlobal, rfl⟩
  have hSame : isGlobalKey globalKey globalKey = true := by
    unfold isGlobalKey
    rw [beq_self_eq_true, Bool.true_or]
  unfold Entry.node deviceFromNode
  simp only [assignValue_assignNodes, hAddress, hParent, hKey,
    hNoted, hProper, if_false]
  rcases Device.writtenKey_cases hEncodable with
    ⟨hType, hNone, _, hWritten⟩ | ⟨hType, _, hKeyNonempty,
      hNotGlobal, hWritten⟩ | ⟨hType, hGroup, hNone, hWritten⟩
  · simp only [hWritten, Option.getD_some, hSame, if_true]
    rw [← hType, ← hNone]
    rfl
  · simp only [hWritten, Option.getD_some, hNotGlobal,
      hKeyNonempty, false_and, Bool.false_eq_true, if_false]
    rw [← hType]
    rfl
  · simp only [hWritten, Option.getD_none, hEmptyKey, hGroup,
      ne_eq, not_false_iff, and_self, Bool.false_eq_true,
      if_false, if_true]
    rw [← hType, ← hNone]
    rfl

/- The entry of a device is not read as a group. -/
theorem deviceGroupFromNode_deviceEntry
    {globalKey : Text}
    {d : Device}
    (hEncodable : d.Encodable globalKey)
    (comments : List Comment)
    (line : Nat) :
    deviceGroupFromNode comments globalKey
        ((d.entry globalKey).node line) =
      none := by
  have hAddress :
      valueOf "address" (d.entry globalKey).assigns ≠ [] :=
    hEncodable.address.1
  unfold Entry.node deviceGroupFromNode
  simp only [assignValue_assignNodes]
  exact if_pos (Or.inr hAddress)

/- The entry of a group is not read as a device. -/
theorem deviceFromNode_groupEntry
    (globalKey : Text)
    (g : DeviceGroup)
    (comments : List Comment)
    (line : Nat) :
    deviceFromNode comments globalKey
        ((g.entry globalKey).node line) =
      none := by
  have hAddress :
      valueOf "address" (g.entry globalKey).assigns = [] := rfl
  unfold Entry.node deviceFromNode
  simp only [assignValue_assignNodes]
  exact if_pos (Or.inr hAddress)

/- The entry of a group is read as the group. -/
theorem deviceGroupFromNode_entry
    {globalKey : Text}
    {g : DeviceGroup}
    (hEncodable : g.Encodable globalKey)
    {comments : List Comment}
    {line : Nat}
    (hNoted :
      annotation comments line ((g.entry globalKey).last line)
          "description" =
        (g.entry globalKey).noted "description") :
    deviceGroupFromNode comments globalKey
        ((g.entry globalKey).node line) =
      some g.uncounted := by
  have hDescription :
      (g.entry globalKey).noted "description" =
        g.description :=
    annotation_remarkFor rfl hEncodable.description.trimmed
  rw [hDescription] at hNoted
  have hAddress :
      valueOf "address" (g.entry globalKey).assigns = [] := rfl
  have hKey :
      stripQuotes
          (valueOf "key" (g.entry globalKey).assigns) =
        g.writtenKey globalKey :=
    valueOf_key (some _)
  have hProper :
      ¬ ((g.entry globalKey).kind ≠ "device" ∨
        ([] : Text) ≠ []) := by
    rintro (hKind | hNone)
    · exact hKind rfl
    · exact hNone rfl
  have hSame : isGlobalKey globalKey globalKey = true := by
    unfold isGlobalKey
    rw [beq_self_eq_true, Bool.true_or]
  unfold Entry.node deviceGroupFromNode
  simp only [assignValue_assignNodes, hAddress, hKey,
    hNoted]
  rw [if_neg hProper]
  rcases DeviceGroup.writtenKey_cases hEncodable with
    ⟨hType, hNone, _, hWritten⟩ | ⟨hType, _, hOther, hWritten⟩
  · simp only [hWritten, hSame, if_true]
    rw [← hType, ← hNone]
    rfl
  · simp only [hWritten, hOther, Bool.false_eq_true, if_false]
    rw [← hType]
    rfl

end Tacconfig

end Soteria

------------------------------------------------------------
-- The Round Trip
------------------------------------------------------------

namespace Soteria

namespace Tacconfig

theorem mem_sortDevicesForDisplay
    {d : Device}
    {devices : List Device} :
    d ∈ sortDevicesForDisplay devices ↔ d ∈ devices :=
  List.mem_mergeSort

/- The nodes of a file of devices: the groups, the devices. -/
theorem parse_renderDevices
    {globalKey : Text}
    (hGlobal : globalKey ≠ [])
    {devices : List Device}
    (hDevices : ∀ d ∈ devices, d.Encodable globalKey)
    {groups : List DeviceGroup}
    (hGroups : ∀ g ∈ groups, g.Encodable globalKey) :
    ∃ groupNodes deviceNodes comments,
      parse (renderDevices devices groups globalKey) =
          .ok (groupNodes ++ deviceNodes, comments) ∧
        groupNodes.map (deviceGroupFromNode comments globalKey) =
          groups.map (fun g => some g.uncounted) ∧
        (∀ n ∈ groupNodes,
          deviceFromNode comments globalKey n = none) ∧
        deviceNodes.map (deviceFromNode comments globalKey) =
          (sortDevicesForDisplay devices).map
            (fun d => some d.listed) ∧
        (∀ n ∈ deviceNodes,
          deviceGroupFromNode comments globalKey n = none) := by
  have hSorted :
      ∀ d ∈ sortDevicesForDisplay devices,
        d.Encodable globalKey :=
    fun d hd => hDevices d (mem_sortDevicesForDisplay.mp hd)
  have hBanner :
      OnlyRemarks
        (banner "04-devices.cfg"
          "Network devices (NAS) definitions")
        8 :=
    onlyRemarks_banner (by decide) (by decide)
  have hBlocks :
      Spells
        (groups.flatMap (renderDeviceGroup globalKey) ++
          ((sortDevicesForDisplay devices).flatMap
            (renderDevice globalKey) ++ []))
        (groups.map (DeviceGroup.entry globalKey) ++
          ((sortDevicesForDisplay devices).map
            (Device.entry globalKey) ++ [])) :=
    Spells.flatMap (fun g hg => renderDeviceGroup_lays (hGroups g hg))
      (Spells.flatMap (fun d hd => renderDevice_lays (hSorted d hd))
        Spells.nil)
  rw [List.append_nil, List.append_nil] at hBlocks
  rcases hBlocks.annotated hBanner with
    ⟨comments, hParse, hNoted⟩
  rcases located_append (1 + 8)
      (groups.map (DeviceGroup.entry globalKey))
      ((sortDevicesForDisplay devices).map
        (Device.entry globalKey)) with ⟨line', hLocated⟩
  rw [hLocated] at hParse hNoted
  have hText :
      renderDevices devices groups globalKey =
        banner "04-devices.cfg"
            "Network devices (NAS) definitions" ++
          (groups.flatMap (renderDeviceGroup globalKey) ++
            (sortDevicesForDisplay devices).flatMap
              (renderDevice globalKey)) := by
    rw [sortDevicesForDisplay_eq, ← List.append_assoc]
    rfl
  have hNodes :
      ∀ xs ys : List (Nat × Entry),
        nodesOf (xs ++ ys) = nodesOf xs ++ nodesOf ys :=
    fun xs ys => List.map_append
  rw [← hText, hNodes] at hParse
  refine ⟨_, _, comments, hParse, ?_, ?_, ?_, ?_⟩
  · apply map_nodesOf
    intro g hg line hMem
    apply deviceGroupFromNode_entry (hGroups g hg)
    exact hNoted _ _ (List.mem_append_left _ hMem) _
  · apply forall_nodesOf
    intro g _ line
    exact deviceFromNode_groupEntry globalKey g comments line
  · apply map_nodesOf
    intro d hd line hMem
    apply deviceFromNode_entry hGlobal (hSorted d hd)
    exact hNoted _ _ (List.mem_append_right _ hMem) _
  · apply forall_nodesOf
    intro d hd line
    exact deviceGroupFromNode_deviceEntry (hSorted d hd) comments
      line

/- The devices of the file, in the order of display. -/
theorem parseDevices_renderDevices
    {globalKey : Text}
    (hGlobal : globalKey ≠ [])
    {devices : List Device}
    (hDevices : ∀ d ∈ devices, d.Encodable globalKey)
    {groups : List DeviceGroup}
    (hGroups : ∀ g ∈ groups, g.Encodable globalKey) :
    parseDevices (renderDevices devices groups globalKey)
        globalKey =
      .ok ((sortDevicesForDisplay devices).map Device.listed) := by
  rcases parse_renderDevices hGlobal hDevices hGroups with
    ⟨groupNodes, deviceNodes, comments, hParse, _, hNoDevice,
      hNodes, _⟩
  have hNone :
      groupNodes.filterMap (deviceFromNode comments globalKey) =
        [] :=
    List.filterMap_eq_nil_iff.mpr hNoDevice
  have hRead :
      deviceNodes.filterMap (deviceFromNode comments globalKey) =
        (sortDevicesForDisplay devices).map Device.listed := by
    apply filterMap_of_map
    rw [hNodes, List.map_map]
    rfl
  unfold parseDevices
  rw [hParse, ← hRead, ← List.nil_append
    (deviceNodes.filterMap _), ← hNone, ← List.filterMap_append]
  rfl

/- The groups of the file. -/
theorem parseDeviceGroups_renderDevices
    {globalKey : Text}
    (hGlobal : globalKey ≠ [])
    {devices : List Device}
    (hDevices : ∀ d ∈ devices, d.Encodable globalKey)
    {groups : List DeviceGroup}
    (hGroups : ∀ g ∈ groups, g.Encodable globalKey) :
    parseDeviceGroups (renderDevices devices groups globalKey)
        globalKey =
      .ok (groups.map DeviceGroup.uncounted) := by
  rcases parse_renderDevices hGlobal hDevices hGroups with
    ⟨groupNodes, deviceNodes, comments, hParse, hNodes, _, _,
      hNoGroup⟩
  have hNone :
      deviceNodes.filterMap
          (deviceGroupFromNode comments globalKey) =
        [] :=
    List.filterMap_eq_nil_iff.mpr hNoGroup
  have hRead :
      groupNodes.filterMap
          (deviceGroupFromNode comments globalKey) =
        groups.map DeviceGroup.uncounted := by
    apply filterMap_of_map
    rw [hNodes, List.map_map]
    rfl
  unfold parseDeviceGroups
  rw [hParse, ← hRead, ← List.append_nil
    (groupNodes.filterMap _), ← hNone, ← List.filterMap_append]
  rfl

/-
  Devices and groups come back as they were, in the order of
  display, all groups before all devices.
-/
theorem devices_round_trip
    {globalKey : Text}
    (hGlobal : globalKey ≠ [])
    {devices : List Device}
    (hDevices : ∀ d ∈ devices, d.Encodable globalKey)
    {groups : List DeviceGroup}
    (hGroups : ∀ g ∈ groups, g.Encodable globalKey) :
    parseDevices (renderDevices devices groups globalKey)
          globalKey =
        .ok ((sortDevicesForDisplay devices).map Device.listed) ∧
      parseDeviceGroups (renderDevices devices groups globalKey)
          globalKey =
        .ok (groups.map DeviceGroup.uncounted) ∧
      (∃ groupNodes deviceNodes comments,
        parse (renderDevices devices groups globalKey) =
            .ok (groupNodes ++ deviceNodes, comments) ∧
          groupNodes.map
              (deviceGroupFromNode comments globalKey) =
            groups.map (fun g => some g.uncounted) ∧
          deviceNodes.map (deviceFromNode comments globalKey) =
            (sortDevicesForDisplay devices).map
              (fun d => some d.listed)) ∧
      sortDevicesForDisplay devices =
        devices.filter (fun d => !d.isCatchAll) ++
          devices.filter Device.isCatchAll := by
  rcases parse_renderDevices hGlobal hDevices hGroups with
    ⟨groupNodes, deviceNodes, comments, hParse, hGroupNodes, _,
      hDeviceNodes, _⟩
  exact ⟨parseDevices_renderDevices hGlobal hDevices hGroups,
    parseDeviceGroups_renderDevices hGlobal hDevices hGroups,
    ⟨_, _, _, hParse, hGroupNodes, hDeviceNodes⟩,
    sortDevicesForDisplay_eq devices⟩

/- Devices of each kind of key, the last of them catch-all. -/
def sampleDevices : List Device :=
  [{ name := "all"
     address := "0.0.0.0/0"
     platform := ""
     keyType := "global"
     key := ""
     group := ""
     lastSeen := "-"
     status := "unknown" },
   { name := "core-sw-01"
     address := "10.0.1.1/32"
     platform := "Cisco IOS-XE"
     keyType := "group"
     key := ""
     group := "core-switches"
     lastSeen := "-"
     status := "unknown" },
   { name := "br-sw-01"
     address := "10.1.0.1/32"
     platform := ""
     keyType := "custom"
     key := "brKey"
     group := "branch"
     lastSeen := "-"
     status := "unknown" }]

def sampleGroups (members : Nat) : List DeviceGroup :=
  [{ name := "core-switches"
     description := "Core network"
     keyType := "custom"
     key := "coreKey"
     members := members },
   { name := "branch"
     description := ""
     keyType := "global"
     key := ""
     members := 0 }]

theorem keyText_sample
    {key : Text}
    (hKey : key ∈ (["testKey", "brKey", "coreKey"] : List Text)) :
    KeyText key := by
  have hAll :
      ∀ key ∈ (["testKey", "brKey", "coreKey"] : List Text),
        '"' ∉ key ∧ '\\' ∉ key ∧ '\n' ∉ key := by
    decide
  exact ⟨(hAll key hKey).1, (hAll key hKey).2.1,
    (hAll key hKey).2.2⟩

theorem sampleDevices_encodable
    {d : Device}
    (hd : d ∈ sampleDevices) :
    d.Encodable "testKey" := by
  have hShared : KeyOf "testKey" "global" [] :=
    .shared (keyText_sample (by decide))
  have hCustom : KeyOf "testKey" "custom" "brKey" :=
    .custom (keyText_sample (by decide)) (by decide) (by decide)
  simp only [sampleDevices, List.mem_cons, List.not_mem_nil,
    or_false] at hd
  rcases hd with rfl | rfl | rfl
  · exact ⟨⟨by decide, by decide⟩, ⟨by decide, by decide⟩,
      ⟨by decide, by decide⟩, Or.inl rfl, Or.inl hShared⟩
  · exact ⟨⟨by decide, by decide⟩, ⟨by decide, by decide⟩,
      ⟨by decide, by decide⟩, Or.inr ⟨by decide, by decide⟩,
      Or.inr ⟨rfl, by decide, rfl⟩⟩
  · exact ⟨⟨by decide, by decide⟩, ⟨by decide, by decide⟩,
      ⟨by decide, by decide⟩, Or.inr ⟨by decide, by decide⟩,
      Or.inl hCustom⟩

theorem sampleGroups_encodable
    {members : Nat}
    {g : DeviceGroup}
    (hg : g ∈ sampleGroups members) :
    g.Encodable "testKey" := by
  have hShared : KeyOf "testKey" "global" [] :=
    .shared (keyText_sample (by decide))
  have hCustom : KeyOf "testKey" "custom" "coreKey" :=
    .custom (keyText_sample (by decide)) (by decide) (by decide)
  have hName : PlainWord "core-switches" :=
    ⟨by decide, by decide⟩
  have hDescription : TrimmedLine "Core network" :=
    ⟨by decide, by decide⟩
  simp only [sampleGroups, List.mem_cons, List.not_mem_nil,
    or_false] at hg
  rcases hg with rfl | rfl
  · exact ⟨hName, hDescription, hCustom⟩
  · exact ⟨⟨by decide, by decide⟩, ⟨by decide, by decide⟩,
      hShared⟩

theorem sampleDevices_round_trip :
    parseDevices
        (renderDevices sampleDevices (sampleGroups 0) "testKey")
        "testKey" =
      .ok
        ((sortDevicesForDisplay sampleDevices).map
          Device.listed) := by
  apply (devices_round_trip _ _ _).1
  · decide
  · intro d hd
    exact sampleDevices_encodable hd
  · intro g hg
    exact sampleGroups_encodable hg

/- The number of members is not written. -/
theorem groupMembers_not_kept :
    (∀ g ∈ sampleGroups 1, g.Encodable "testKey") ∧
      parseDeviceGroups
          (renderDevices [] (sampleGroups 1) "testKey") "testKey" ≠
        .ok (sampleGroups 1) := by
  refine ⟨fun g hg => sampleGroups_encodable hg, ?_⟩
  intro hSame
  have hRead :
      (parseDeviceGroups
          (renderDevices [] (sampleGroups 1) "testKey")
          "testKey").toOption =
        some (sampleGroups 0) := by
    unfold renderDevices banner commentLine
    repeat rw [String.toList_ofList]
    decide +kernel
  rw [hSame] at hRead
  revert hRead
  decide

end Tacconfig

end Soteria
