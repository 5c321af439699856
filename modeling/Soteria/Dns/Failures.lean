import Soteria.Dns.Provider

/-
  What the failing calls of the provider leave behind.

  A call changes two files and then reloads the name server.
  Only one of the failures behind its first write is followed
  by a step back, and that step removes the zone file, also
  one that was there before.

  Key definitions include:
    * `Call`, `Call.run`, `Call.target`
    * `Protected`, `Unchanged`
    * `Call.Refused`, `Call.Harmless`
    * `call_unchanged_iff`
-/

------------------------------------------------------------
-- Calls
------------------------------------------------------------

namespace Soteria

namespace Dns

open BindProvider

/- A call that changes the zones. -/
inductive Call where
  | create (z : Zone)
  | delete (name : Text)
  | replace (name : Text) (records : List Record)

/- The result of a call and the files after it. -/
def Call.run
    (b : BindProvider)
    (e : Surroundings)
    (disk : Disk) : Call → Except DnsError Unit × Disk
| .create z => b.createZone e z disk
| .delete name => b.deleteZone e name disk
| .replace name records => b.replaceRecords e name records disk

/- The file in which a zone is registered, on this side. -/
def BindProvider.registeredFile
    (b : BindProvider)
    (disk : Disk)
    (name : Text) : Option Text :=
  ((disk.read b.namedLocal).bind fun conf =>
    fileOf (zoneEntries conf) name).map b.agentPath

/- The file that a call writes first. -/
def Call.target
    (b : BindProvider)
    (disk : Disk) : Call → Text
| .create z => b.newFile (trimmedName z.name)
| .delete _ => b.namedLocal
| .replace name _ =>
    (b.registeredFile disk name).getD b.namedLocal

/- `named.conf.local`, or the file of a registered zone. -/
def Protected
    (b : BindProvider)
    (disk : Disk)
    (k : Text) : Prop :=
  k = Path.clean b.namedLocal ∨
    ∃ conf entry,
      disk.read b.namedLocal = some conf ∧
        entry ∈ zoneEntries conf ∧
          k = Path.clean (b.agentPath entry.2)

/-
  Every file is as it was, apart from the temporary file of
  the path that is written, unless that is a protected one.
-/
def Unchanged
    (b : BindProvider)
    (path : Text)
    (disk disk' : Disk) : Prop :=
  ∀ k, (Protected b disk k ∨ k ≠ Path.clean (tmpOf path)) →
    disk' k = disk k

end Dns

end Soteria

------------------------------------------------------------
-- Harmless Failures
------------------------------------------------------------

namespace Soteria

namespace Dns

open BindProvider

/- The zone that a call to create one writes. -/
def BindProvider.newZone
    (b : BindProvider)
    (e : Surroundings)
    (z : Zone)
    (disk : Disk) : Zone :=
  b.completed e disk { z with name := trimmedName z.name }

/- The text that deleting a zone writes. -/
def withoutZoneLine (name conf : Text) : Text :=
  (withoutZone name conf).trimRightChar '\n' ++ "\n".toList

/- The call fails before it writes anything. -/
def Call.Refused
    (b : BindProvider)
    (e : Surroundings)
    (disk : Disk) : Call → Prop
| .create z =>
    trimmedName z.name = [] ∨
      ∀ files, b.zoneFiles e disk = .ok files →
        (fileOf files (trimmedName z.name)).isSome = true ∨
          validateRecords (b.newZone e z disk).records ≠ none
| .delete name =>
    ∀ files, b.zoneFiles e disk = .ok files →
      fileOf files name = none
| .replace name records =>
    validateRecords records ≠ none ∨
      ∀ files, b.zoneFiles e disk = .ok files →
        ∀ bindFile, fileOf files name = some bindFile →
          ∀ zone,
            BindProvider.parseZoneFile e name
              (b.agentPath bindFile) disk ≠ .ok zone

/- A temporary file that is protected has this content. -/
def TmpIs
    (b : BindProvider)
    (disk : Disk)
    (path : Text)
    (content : Option Text) : Prop :=
  Protected b disk (Path.clean (tmpOf path)) →
    disk.read (tmpOf path) = content

/- What an atomic write that fails leaves does no harm. -/
def HarmlessWrite
    (b : BindProvider)
    (disk : Disk)
    (path content : Text) : WriteFault → Prop
| .create _ => True
| .write written _ => TmpIs b disk path (some written)
| .rename _ => TmpIs b disk path (some content)

/-
  A failure behind the write of a new zone file does no harm:
  nothing was appended, and the file is removed, which was
  not there before, or stays, as it was before.
-/
def HarmlessAppend
    (e : Surroundings)
    (disk : Disk)
    (path content : Text) : Prop :=
  ∃ fault, e.appendFault = some fault ∧
    fault.written = [] ∧
      disk.read path =
        if e.removeFails then some content else none

/-
  The new zone file is `named.conf.local` itself, which has
  the text that is left in it already.
-/
def SameOverwritten
    (e : Surroundings)
    (disk : Disk)
    (path content block : Text) : Prop :=
  match e.appendFault with
  | some fault =>
      e.removeFails = true ∧
        disk.read path = some (content ++ fault.written)
  | none => disk.read path = some (content ++ block)

/- The writes of a call that creates a zone do no harm. -/
def HarmlessCreate
    (b : BindProvider)
    (e : Surroundings)
    (disk : Disk)
    (path content block : Text) : Prop :=
  match e.writeFault path with
  | some fault => HarmlessWrite b disk path content fault
  | none =>
      TmpIs b disk path none ∧
        if Path.clean path = Path.clean b.namedLocal then
          SameOverwritten e disk path content block
        else HarmlessAppend e disk path content

/-
  A write that fails does no harm. Behind one that succeeds
  only the reload can fail, which is too late.
-/
def Call.Harmless
    (b : BindProvider)
    (e : Surroundings)
    (disk : Disk) : Call → Prop
| .create z =>
    let name := trimmedName z.name
    HarmlessCreate b e disk (b.newFile name)
      (renderZone (b.newZone e z disk))
      (zoneBlock name (b.newBindFile name))
| .delete name =>
    ∃ conf fault,
      disk.read b.namedLocal = some conf ∧
        e.writeFault b.namedLocal = some fault ∧
          HarmlessWrite b disk b.namedLocal
            (withoutZoneLine name conf) fault
| .replace name records =>
    ∃ path old,
      b.registeredFile disk name = some path ∧
        disk.read path = some old ∧
          match e.writeFault path with
          | some fault =>
              HarmlessWrite b disk path
                (renderZone (replaced e name old records)) fault
          | none =>
              TmpIs b disk path none ∧
                disk.read path =
                  some (renderZone (replaced e name old records))

end Dns

end Soteria

------------------------------------------------------------
-- Changed Files
------------------------------------------------------------

namespace Soteria

namespace Dns

open BindProvider

variable {b : BindProvider}
variable {e : Surroundings}
variable {disk disk' : Disk}
variable {path content : Text}

theorem protected_namedLocal :
    Protected b disk (Path.clean b.namedLocal) :=
  Or.inl rfl

/- The temporary file of a path is another file. -/
theorem tmpOf_ne (path : Text) :
    Path.clean path ≠ Path.clean (tmpOf path) :=
  (Path.clean_append_ne (by decide) (by decide)).symm

/-
  Where only three files may have changed, these have not:
  the temporary file, if it is protected, the file that is
  written, and `named.conf.local`.
-/
theorem unchanged_iff_of_frame
    (hFrame :
      ∀ k, k ≠ Path.clean (tmpOf path) → k ≠ Path.clean path →
        k ≠ Path.clean b.namedLocal → disk' k = disk k) :
    Unchanged b path disk disk' ↔
      TmpIs b disk path (disk'.read (tmpOf path)) ∧
        disk.read path = disk'.read path ∧
          disk.read b.namedLocal = disk'.read b.namedLocal := by
  constructor
  · intro hSame
    refine ⟨fun hProtected => ?_, ?_, ?_⟩
    · exact (hSame _ (Or.inl hProtected)).symm
    · exact (hSame _ (Or.inr (tmpOf_ne path))).symm
    · exact (hSame _ (Or.inl protected_namedLocal)).symm
  · rintro ⟨hTmp, hPath, hLocal⟩ k hWatched
    by_cases hkTmp : k = Path.clean (tmpOf path)
    · subst hkTmp
      rcases hWatched with hProtected | hOther
      · exact (hTmp hProtected).symm
      · exact absurd rfl hOther
    · by_cases hkPath : k = Path.clean path
      · subst hkPath
        exact hPath.symm
      · by_cases hkLocal : k = Path.clean b.namedLocal
        · subst hkLocal
          exact hLocal.symm
        · exact hFrame k hkTmp hkPath hkLocal

theorem Disk.read_write_of_ne
    (disk : Disk)
    {path other : Text}
    (content : Text)
    (hNe : Path.clean other ≠ Path.clean path) :
    (disk.write path content).read other = disk.read other :=
  Disk.write_of_ne disk content hNe

theorem Disk.read_remove_of_ne
    (disk : Disk)
    {path other : Text}
    (hNe : Path.clean other ≠ Path.clean path) :
    (disk.remove path).read other = disk.read other :=
  Disk.remove_of_ne disk hNe

@[simp] theorem Disk.read_remove
    (disk : Disk)
    (path : Text) :
    (disk.remove path).read path = none :=
  if_pos rfl

theorem Disk.read_congr
    (disk : Disk)
    {path other : Text}
    (hSame : Path.clean other = Path.clean path) :
    disk.read other = disk.read path :=
  congrArg disk hSame

/- A temporary file that is left is the only change. -/
theorem unchanged_tmp_iff (written : Text) :
    Unchanged b path disk (disk.write (tmpOf path) written) ↔
      TmpIs b disk path (some written) := by
  constructor
  · intro hSame hProtected
    have hTmp := hSame _ (Or.inl hProtected)
    exact hTmp.symm.trans (Disk.read_write disk _ written)
  · intro hTmp k hWatched
    by_cases hk : k = Path.clean (tmpOf path)
    · subst hk
      rcases hWatched with hProtected | hOther
      · exact (Disk.read_write disk _ written).trans
          (hTmp hProtected).symm
      · exact absurd rfl hOther
    · exact Disk.write_of_ne disk written hk

theorem unchanged_self : Unchanged b path disk disk :=
  fun _ _ => rfl

/- A failed write changes nothing exactly if it is harmless. -/
theorem unchanged_of_writeFault
    {fault : WriteFault} :
    Unchanged b path disk
        (writeFileAtomic (some fault) path content disk).2 ↔
      HarmlessWrite b disk path content fault := by
  cases fault with
  | create error =>
      exact iff_of_true unchanged_self trivial
  | write written error => exact unchanged_tmp_iff written
  | rename error => exact unchanged_tmp_iff content

/- The disk after a write that succeeds. -/
def written (disk : Disk) (path content : Text) : Disk :=
  (disk.remove (tmpOf path)).write path content

theorem read_written :
    (written disk path content).read path = some content ∧
      (written disk path content).read (tmpOf path) = none := by
  unfold written
  constructor
  · exact Disk.read_write _ path content
  · rw [Disk.read_write_of_ne _ content (tmpOf_ne path).symm,
      Disk.read_remove]

theorem read_written_of_ne
    {other : Text}
    (hPath : Path.clean other ≠ Path.clean path)
    (hTmp : Path.clean other ≠ Path.clean (tmpOf path)) :
    (written disk path content).read other =
      disk.read other := by
  unfold written
  rw [Disk.read_write_of_ne _ content hPath,
    Disk.read_remove_of_ne _ hTmp]

theorem written_of_ne
    {k : Text}
    (hTmp : k ≠ Path.clean (tmpOf path))
    (hPath : k ≠ Path.clean path) :
    written disk path content k = disk k := by
  unfold written
  rw [Disk.write_of_ne _ content hPath,
    Disk.remove_of_ne _ hTmp]

end Dns

end Soteria

------------------------------------------------------------
-- Creating
------------------------------------------------------------

namespace Soteria

namespace Dns

open BindProvider

variable {b : BindProvider}
variable {e : Surroundings}
variable {disk : Disk}
variable {path content conf : Text}
variable {error : DnsError}

theorem removeFile_read (path : Text) :
    (removeFile e path disk).read path =
      if e.removeFails then disk.read path else none := by
  unfold removeFile
  split
  · rfl
  · exact Disk.read_remove disk path

theorem removeFile_read_of_ne
    {other : Text}
    (hNe : Path.clean other ≠ Path.clean path) :
    (removeFile e path disk).read other = disk.read other := by
  unfold removeFile
  split
  · rfl
  · exact Disk.read_remove_of_ne disk hNe

theorem removeFile_of_ne
    {k : Text}
    (hNe : k ≠ Path.clean path) :
    removeFile e path disk k = disk k := by
  unfold removeFile
  split
  · rfl
  · exact Disk.remove_of_ne disk hNe

/- What is left of a registration that fails. -/
def unregistered
    (b : BindProvider)
    (e : Surroundings)
    (disk : Disk)
    (path content added : Text) : Disk :=
  removeFile e path
    ((written disk path content).write b.namedLocal
      (((written disk path content).read b.namedLocal).getD []
        ++ added))

/-
  A registration that fails is harmless where nothing was
  appended and the new file is as it was.
-/
theorem unregistered_unchanged_iff
    (hConf : disk.read b.namedLocal = some conf)
    (hOther : Path.clean path ≠ Path.clean b.namedLocal)
    (hTmp : Path.clean (tmpOf path) ≠ Path.clean b.namedLocal)
    (added : Text) :
    Unchanged b path disk
        (unregistered b e disk path content added) ↔
      TmpIs b disk path none ∧ added = [] ∧
        disk.read path =
          if e.removeFails then some content else none := by
  have hLocal :
      (written disk path content).read b.namedLocal =
        some conf := by
    rw [read_written_of_ne hOther.symm hTmp.symm, hConf]
  have hReads :
      (unregistered b e disk path content added).read
          (tmpOf path) = none ∧
        (unregistered b e disk path content added).read path =
          (if e.removeFails then some content else none) ∧
        (unregistered b e disk path content added).read
          b.namedLocal = some (conf ++ added) := by
    unfold unregistered
    rw [hLocal, removeFile_read_of_ne (tmpOf_ne path).symm,
      removeFile_read, removeFile_read_of_ne hOther.symm,
      Disk.read_write_of_ne _ _ hTmp,
      Disk.read_write_of_ne _ _ hOther, Disk.read_write,
      read_written.1, read_written.2]
    exact ⟨rfl, rfl, rfl⟩
  rw [unchanged_iff_of_frame, hReads.1, hReads.2.1,
    hReads.2.2, hConf]
  · have hNothing :
        some conf = some (conf ++ added) ↔ added = [] := by
      rw [Option.some_inj]
      exact List.self_eq_append_right
    rw [hNothing, and_comm (a := added = [])]
  · intro k hkTmp hkPath hkLocal
    unfold unregistered
    rw [removeFile_of_ne hkPath,
      Disk.write_of_ne _ _ hkLocal,
      written_of_ne hkTmp hkPath]

/- The same where the new file is `named.conf.local`. -/
theorem unregistered_self_unchanged_iff
    (hConf : disk.read b.namedLocal = some conf)
    (hSame : Path.clean path = Path.clean b.namedLocal)
    (added : Text) :
    Unchanged b path disk
        (unregistered b e disk path content added) ↔
      TmpIs b disk path none ∧ e.removeFails = true ∧
        disk.read path = some (content ++ added) := by
  have hLocal :
      (written disk path content).read b.namedLocal =
        some content := by
    rw [Disk.read_congr _ hSame.symm, read_written.1]
  have hTmp :
      Path.clean (tmpOf path) ≠ Path.clean b.namedLocal := by
    rw [← hSame]
    exact (tmpOf_ne path).symm
  have hReads :
      (unregistered b e disk path content added).read
          (tmpOf path) = none ∧
        (unregistered b e disk path content added).read path =
          if e.removeFails then some (content ++ added)
          else none := by
    unfold unregistered
    rw [hLocal, removeFile_read_of_ne (tmpOf_ne path).symm,
      removeFile_read, Disk.read_write_of_ne _ _ hTmp,
      Disk.read_congr _ hSame, Disk.read_write,
      read_written.2]
    exact ⟨rfl, rfl⟩
  rw [unchanged_iff_of_frame, hReads.1,
    Disk.read_congr _ hSame.symm,
    Disk.read_congr _ hSame.symm, hReads.2, and_self]
  · have hSome : disk.read path ≠ none := by
      rw [Disk.read_congr _ hSame, hConf]
      simp
    cases e.removeFails with
    | true => simp
    | false => simp [hSome]
  · intro k hkTmp hkPath hkLocal
    unfold unregistered
    rw [removeFile_of_ne hkPath,
      Disk.write_of_ne _ _ hkLocal,
      written_of_ne hkTmp hkPath]

theorem zoneBlock_ne_empty (name bindFile : Text) :
    zoneBlock name bindFile ≠ [] := by
  unfold zoneBlock
  exact List.append_ne_nil_of_right_ne_nil _ (by decide)

/- A zone that was registered is in `named.conf.local`. -/
theorem registered_changed
    (hConf : disk.read b.namedLocal = some conf)
    {added : Text}
    (hAdded : added ≠ [])
    {disk' : Disk}
    (hLocal : disk'.read b.namedLocal = some (conf ++ added)) :
    ¬ Unchanged b path disk disk' := by
  intro hSame
  have hText :
      disk'.read b.namedLocal = disk.read b.namedLocal :=
    hSame _ (Or.inl protected_namedLocal)
  rw [hLocal, hConf, Option.some_inj] at hText
  exact hAdded (List.append_right_eq_self.mp hText)

variable {z : Zone}
variable {block : Text}

/- The three steps of a call that creates a zone. -/
def register
    (b : BindProvider)
    (e : Surroundings)
    (path content block : Text)
    (disk : Disk) : Except DnsError Unit × Disk :=
  match writeFileAtomic (e.writeFault path) path content
      disk with
  | (.error error, disk) => (.error (.io error), disk)
  | (.ok _, disk) =>
      match appendFile e.appendFault b.namedLocal block disk with
      | (.error error, disk) =>
          (.error (.io error), removeFile e path disk)
      | (.ok _, disk) => (ioError e.reload, disk)

theorem writeZone_eq (z : Zone) (disk : Disk) :
    b.writeZone e z disk =
      register b e (b.newFile z.name) (renderZone z)
        (zoneBlock z.name (b.newBindFile z.name)) disk := rfl

/- The first write fails. -/
theorem register_of_fault
    {fault : WriteFault}
    (hFault : e.writeFault path = some fault) :
    (register b e path content block disk).2 =
      (writeFileAtomic (some fault) path content disk).2 := by
  unfold register
  rw [hFault]
  cases fault with
  | create error => rfl
  | write left error => rfl
  | rename error => rfl

/- The second write fails. -/
theorem register_of_appendFault
    {fault : AppendFault}
    {old : Text}
    (hWritten : e.writeFault path = none)
    (hLocal :
      (written disk path content).read b.namedLocal = some old)
    (hFault : e.appendFault = some fault) :
    (register b e path content block disk).2 =
      unregistered b e disk path content fault.written := by
  have hWrite :
      writeFileAtomic none path content disk =
        (.ok (), written disk path content) := rfl
  unfold register unregistered
  rw [hWritten, hWrite, hFault]
  simp only [appendFile, hLocal, Option.getD_some]

/- There is nothing to append to. -/
theorem register_of_missing
    (hWritten : e.writeFault path = none)
    (hLocal :
      (written disk path content).read b.namedLocal = none) :
    (register b e path content block disk).2 =
      removeFile e path (written disk path content) := by
  have hWrite :
      writeFileAtomic none path content disk =
        (.ok (), written disk path content) := rfl
  unfold register
  rw [hWritten, hWrite]
  simp only [appendFile, hLocal]

/- Both writes succeed. -/
theorem register_of_appended
    {old : Text}
    (hWritten : e.writeFault path = none)
    (hLocal :
      (written disk path content).read b.namedLocal = some old)
    (hFault : e.appendFault = none) :
    (register b e path content block disk).2 =
      (written disk path content).write b.namedLocal
        (old ++ block) := by
  have hWrite :
      writeFileAtomic none path content disk =
        (.ok (), written disk path content) := rfl
  unfold register
  rw [hWritten, hWrite, hFault]
  simp only [appendFile, hLocal]

/- A new file over `named.conf.local`. -/
theorem register_over_unchanged_iff
    (hConf : disk.read b.namedLocal = some conf)
    (hWritten : e.writeFault path = none)
    (hSame : Path.clean path = Path.clean b.namedLocal) :
    Unchanged b path disk
        (register b e path content block disk).2 ↔
      TmpIs b disk path none ∧
        SameOverwritten e disk path content block := by
  have hLocal :
      (written disk path content).read b.namedLocal =
        some content := by
    rw [Disk.read_congr _ hSame.symm, read_written.1]
  unfold SameOverwritten
  cases hFault : e.appendFault with
  | some fault =>
      rw [register_of_appendFault hWritten hLocal hFault]
      exact unregistered_self_unchanged_iff hConf hSame _
  | none =>
      have hTmp :
          Path.clean (tmpOf path) ≠
            Path.clean b.namedLocal := by
        rw [← hSame]
        exact (tmpOf_ne path).symm
      have hPath :
          ((written disk path content).write b.namedLocal
              (content ++ block)).read path =
            some (content ++ block) := by
        rw [Disk.read_congr _ hSame, Disk.read_write]
      rw [register_of_appended hWritten hLocal hFault,
        unchanged_iff_of_frame,
        Disk.read_congr _ hSame.symm,
        Disk.read_congr _ hSame.symm, hPath,
        Disk.read_write_of_ne _ _ hTmp, read_written.2,
        and_self]
      intro k hkTmp hkPath hkLocal
      rw [Disk.write_of_ne _ _ hkLocal,
        written_of_ne hkTmp hkPath]

/- A new file beside `named.conf.local`. -/
theorem register_beside_unchanged_iff
    (hConf : disk.read b.namedLocal = some conf)
    (hBlock : block ≠ [])
    (hWritten : e.writeFault path = none)
    (hOther : Path.clean path ≠ Path.clean b.namedLocal) :
    Unchanged b path disk
        (register b e path content block disk).2 ↔
      TmpIs b disk path none ∧
        HarmlessAppend e disk path content := by
  by_cases hTmp :
      Path.clean (tmpOf path) = Path.clean b.namedLocal
  · have hLocal :
        (written disk path content).read b.namedLocal =
          none := by
      rw [Disk.read_congr _ hTmp.symm, read_written.2]
    have hChanged :
        ¬ Unchanged b path disk
          (removeFile e path (written disk path content)) := by
      intro hUnchanged
      have hText :
          (removeFile e path (written disk path content)).read
              b.namedLocal = disk.read b.namedLocal :=
        hUnchanged _ (Or.inl protected_namedLocal)
      rw [removeFile_read_of_ne hOther.symm, hLocal, hConf]
        at hText
      cases hText
    have hProtected :
        Protected b disk (Path.clean (tmpOf path)) :=
      Or.inl hTmp
    rw [register_of_missing hWritten hLocal]
    refine iff_of_false hChanged ?_
    rintro ⟨hNone, -⟩
    have hText := hNone hProtected
    rw [Disk.read_congr _ hTmp, hConf] at hText
    cases hText
  · have hLocal :
        (written disk path content).read b.namedLocal =
          some conf := by
      rw [read_written_of_ne hOther.symm (Ne.symm hTmp), hConf]
    unfold HarmlessAppend
    cases hFault : e.appendFault with
    | some fault =>
        rw [register_of_appendFault hWritten hLocal hFault,
          unregistered_unchanged_iff hConf hOther hTmp]
        simp
    | none =>
        rw [register_of_appended hWritten hLocal hFault]
        refine iff_of_false ?_ (by simp)
        apply registered_changed hConf hBlock
        exact Disk.read_write _ _ _

/-
  The steps of a call that creates a zone change nothing
  exactly if they are harmless.
-/
theorem register_unchanged_iff
    (hConf : disk.read b.namedLocal = some conf)
    (hBlock : block ≠ []) :
    Unchanged b path disk
        (register b e path content block disk).2 ↔
      HarmlessCreate b e disk path content block := by
  unfold HarmlessCreate
  cases hFault : e.writeFault path with
  | some fault =>
      rw [register_of_fault hFault]
      exact unchanged_of_writeFault
  | none =>
      by_cases hSame :
          Path.clean path = Path.clean b.namedLocal
      · simp only [if_pos hSame]
        exact register_over_unchanged_iff hConf hFault hSame
      · simp only [if_neg hSame]
        exact register_beside_unchanged_iff hConf hBlock
          hFault hSame

/- A call that is not refused registers the zone. -/
theorem createZone_cases (z : Zone) :
    (Call.Refused b e disk (.create z) ∧
        (b.createZone e z disk).2 = disk) ∨
      ∃ conf, disk.read b.namedLocal = some conf ∧
        ¬ Call.Refused b e disk (.create z) ∧
          b.createZone e z disk =
            b.writeZone e (b.newZone e z disk) disk := by
  unfold Call.Refused createZone
  by_cases hName : trimmedName z.name = []
  · left
    simp only [hName, if_true]
    exact ⟨Or.inl trivial, trivial⟩
  · cases hFiles : b.zoneFiles e disk with
    | error error =>
        left
        simp only [if_neg hName]
        exact ⟨Or.inr (by simp), trivial⟩
    | ok files =>
        rcases zoneFiles_ok hFiles with ⟨conf, hConf, -⟩
        by_cases hExists :
            (fileOf files (trimmedName z.name)).isSome = true
        · left
          simp only [if_neg hName, if_pos hExists]
          refine ⟨Or.inr ?_, trivial⟩
          intro files' hSame
          cases hSame
          exact Or.inl hExists
        · cases hValid :
              validateRecords (b.newZone e z disk).records with
          | some error =>
              left
              unfold newZone at hValid
              simp only [if_neg hName, if_neg hExists, hValid]
              refine ⟨Or.inr ?_, trivial⟩
              intro files' hSame
              right
              unfold newZone
              rw [hValid]
              simp
          | none =>
              right
              refine ⟨conf, hConf, ?_, ?_⟩
              · rintro (hNone | hRefused)
                · exact hName hNone
                · rcases hRefused files rfl with h | h
                  · exact hExists h
                  · exact h hValid
              · unfold newZone at hValid ⊢
                simp only [if_neg hName, if_neg hExists,
                  hValid]

end Dns

end Soteria

------------------------------------------------------------
-- Deleting and Replacing
------------------------------------------------------------

namespace Soteria

namespace Dns

open BindProvider

variable {b : BindProvider}
variable {e : Surroundings}
variable {disk : Disk}
variable {path content : Text}
variable {name : Text}
variable {records : List Record}

/- A file that is written changes if its text was another. -/
theorem unchanged_written_iff :
    Unchanged b path disk (written disk path content) ↔
      TmpIs b disk path none ∧
        disk.read path = some content := by
  constructor
  · intro hSame
    constructor
    · intro hProtected
      have hTmp :
          (written disk path content).read (tmpOf path) =
            disk.read (tmpOf path) :=
        hSame _ (Or.inl hProtected)
      rw [← hTmp, read_written.2]
    · have hPath :
          (written disk path content).read path =
            disk.read path :=
        hSame _ (Or.inr (tmpOf_ne path))
      rw [← hPath, read_written.1]
  · rintro ⟨hTmp, hPath⟩ k hWatched
    by_cases hkTmp : k = Path.clean (tmpOf path)
    · subst hkTmp
      rcases hWatched with hProtected | hOther
      · exact read_written.2.trans (hTmp hProtected).symm
      · exact absurd rfl hOther
    · by_cases hkPath : k = Path.clean path
      · subst hkPath
        exact read_written.1.trans hPath.symm
      · exact written_of_ne hkTmp hkPath

/- A text without a registered zone is another text. -/
theorem withoutZoneLine_ne
    {conf bindFile : Text}
    (hFile : fileOf (zoneEntries conf) name = some bindFile) :
    withoutZoneLine name conf ≠ conf := by
  intro hSame
  have hLength := congrArg List.length hSame
  have hShorter := length_withoutZone hFile
  have hTrimmed :
      ((withoutZone name conf).trimRightChar '\n').length ≤
        (withoutZone name conf).length :=
    (List.rdropWhile_prefix _ _).length_le
  unfold withoutZoneLine at hLength
  rw [List.length_append] at hLength
  simp only [String.reduceToList, List.length_cons,
    List.length_nil] at hLength
  omega

/- A call that is not refused removes the statement. -/
theorem deleteZone_cases (name : Text) :
    (Call.Refused b e disk (.delete name) ∧
        (b.deleteZone e name disk).2 = disk) ∨
      ∃ conf bindFile,
        disk.read b.namedLocal = some conf ∧
          fileOf (zoneEntries conf) name = some bindFile ∧
            ¬ Call.Refused b e disk (.delete name) ∧
              (b.deleteZone e name disk).2 =
                match writeFileAtomic
                    (e.writeFault b.namedLocal) b.namedLocal
                    (withoutZoneLine name conf) disk with
                | (.error _, disk) => disk
                | (.ok _, disk) =>
                    removeFile e (b.agentPath bindFile)
                      disk := by
  unfold Call.Refused deleteZone
  unfold zoneFiles
  cases hRead : readFile e b.namedLocal disk with
  | error error =>
      left
      refine ⟨?_, rfl⟩
      rintro files ⟨⟩
  | ok conf =>
      cases hFile : fileOf (zoneEntries conf) name with
      | none =>
          left
          simp only [Except.map, hFile]
          refine ⟨?_, trivial⟩
          rintro files ⟨⟩
          exact hFile
      | some bindFile =>
          right
          refine ⟨conf, bindFile, readFile_ok hRead, hFile, ?_,
            ?_⟩
          · intro hRefused
            have hNone := hRefused _ rfl
            rw [hFile] at hNone
            cases hNone
          · simp only [Except.map, hFile]
            unfold withoutZoneLine
            rcases writeFileAtomic (e.writeFault b.namedLocal)
                b.namedLocal
                ((withoutZone name conf).trimRightChar '\n' ++
                  "\n".toList) disk with
              ⟨error | done, written⟩
            · rfl
            · rfl

/- Without a fault the statement is gone. -/
theorem deleteZone_unchanged_iff
    {conf bindFile : Text}
    (hConf : disk.read b.namedLocal = some conf)
    (hFile : fileOf (zoneEntries conf) name = some bindFile)
    (hRun :
      (b.deleteZone e name disk).2 =
        match writeFileAtomic (e.writeFault b.namedLocal)
            b.namedLocal (withoutZoneLine name conf) disk with
        | (.error _, disk) => disk
        | (.ok _, disk) =>
            removeFile e (b.agentPath bindFile) disk) :
    Unchanged b b.namedLocal disk
        (b.deleteZone e name disk).2 ↔
      Call.Harmless b e disk (.delete name) := by
  unfold Call.Harmless
  rw [hRun]
  cases hFault : e.writeFault b.namedLocal with
  | some fault =>
      have hWrite :
          (match writeFileAtomic (some fault) b.namedLocal
              (withoutZoneLine name conf) disk with
            | (.error _, disk) => disk
            | (.ok _, disk) =>
                removeFile e (b.agentPath bindFile) disk) =
            (writeFileAtomic (some fault) b.namedLocal
              (withoutZoneLine name conf) disk).2 := by
        cases fault with
        | create error => rfl
        | write left error => rfl
        | rename error => rfl
      rw [hWrite, unchanged_of_writeFault]
      constructor
      · intro hHarmless
        exact ⟨conf, fault, hConf, rfl, hHarmless⟩
      · rintro ⟨conf', fault', hConf', hSame, hHarmless⟩
        cases hSame
        rw [hConf] at hConf'
        cases hConf'
        exact hHarmless
  | none =>
      refine iff_of_false ?_ ?_
      · intro hUnchanged
        have hText :
            (removeFile e (b.agentPath bindFile)
                (written disk b.namedLocal
                  (withoutZoneLine name conf))).read
                b.namedLocal =
              disk.read b.namedLocal :=
          hUnchanged _ (Or.inl protected_namedLocal)
        rw [hConf] at hText
        by_cases hSame :
            Path.clean b.namedLocal =
              Path.clean (b.agentPath bindFile)
        · rw [Disk.read_congr _ hSame, removeFile_read,
            ← Disk.read_congr _ hSame, read_written.1] at hText
          split at hText
          · exact withoutZoneLine_ne hFile
              (Option.some.inj hText)
          · cases hText
        · rw [removeFile_read_of_ne hSame, read_written.1]
            at hText
          exact withoutZoneLine_ne hFile (Option.some.inj hText)
      · rintro ⟨_, fault, -, hNone, -⟩
        cases hNone

/- The one write of a call that replaces records. -/
theorem replaceRecords_unchanged_iff
    {old : Text}
    (hFile : b.registeredFile disk name = some path)
    (hOld : disk.read path = some old) :
    Unchanged b path disk
        (writeFileAtomic (e.writeFault path) path
          (renderZone (replaced e name old records)) disk).2 ↔
      Call.Harmless b e disk (.replace name records) := by
  have hHarmless :
      Call.Harmless b e disk (.replace name records) ↔
        match e.writeFault path with
        | some fault =>
            HarmlessWrite b disk path
              (renderZone (replaced e name old records)) fault
        | none =>
            TmpIs b disk path none ∧
              disk.read path =
                some (renderZone
                  (replaced e name old records)) := by
    constructor
    · rintro ⟨path', old', hFile', hOld', hHarmless⟩
      rw [hFile] at hFile'
      cases hFile'
      rw [hOld] at hOld'
      cases hOld'
      exact hHarmless
    · intro hHarmless
      exact ⟨path, old, hFile, hOld, hHarmless⟩
  rw [hHarmless]
  cases e.writeFault path with
  | some fault => exact unchanged_of_writeFault
  | none => exact unchanged_written_iff

/- A call that is not refused writes the zone's file. -/
theorem replaceRecords_cases
    (name : Text)
    (records : List Record) :
    (Call.Refused b e disk (.replace name records) ∧
        (b.replaceRecords e name records disk).2 = disk) ∨
      ∃ path old,
        b.registeredFile disk name = some path ∧
          disk.read path = some old ∧
            ¬ Call.Refused b e disk (.replace name records) ∧
              (b.replaceRecords e name records disk).2 =
                (writeFileAtomic (e.writeFault path) path
                  (renderZone (replaced e name old records))
                  disk).2 := by
  unfold Call.Refused replaceRecords
  cases hValid : validateRecords records with
  | some error =>
      left
      exact ⟨Or.inl (by simp [hValid]), rfl⟩
  | none =>
      cases hFiles : b.zoneFiles e disk with
      | error error =>
          left
          exact ⟨Or.inr (by simp), rfl⟩
      | ok files =>
          rcases zoneFiles_ok hFiles with ⟨conf, hConf, rfl⟩
          cases hFile : fileOf (zoneEntries conf) name with
          | none =>
              left
              simp only [hFile]
              refine ⟨Or.inr ?_, trivial⟩
              rintro files ⟨⟩ bindFile hSome
              rw [hFile] at hSome
              cases hSome
          | some bindFile =>
              cases hParse :
                  parseZoneFile e name (b.agentPath bindFile)
                    disk with
              | error error =>
                  left
                  simp only [hFile, hParse]
                  refine ⟨Or.inr ?_, trivial⟩
                  rintro files ⟨⟩ bindFile' hSome zone hZone
                  rw [hFile] at hSome
                  cases hSome
                  rw [hParse] at hZone
                  cases hZone
              | ok zone =>
                  right
                  rcases parseZoneFile_ok hParse with
                    ⟨old, hOld, rfl⟩
                  refine ⟨b.agentPath bindFile, old, ?_, hOld,
                    ?_, ?_⟩
                  · unfold registeredFile
                    rw [hConf, Option.bind_some, hFile]
                    rfl
                  · rintro (hNone | hRefused)
                    · exact hNone hValid
                    · exact hRefused _ rfl bindFile hFile _
                        hParse
                  · simp only [hFile, hParse]
                    unfold replaced
                    split
                    · rename_i hFault
                      rw [hFault]
                    · rename_i hDone
                      rw [hDone]

end Dns

end Soteria

------------------------------------------------------------
-- Failing Calls
------------------------------------------------------------

namespace Soteria

namespace Dns

open BindProvider

variable {b : BindProvider}
variable {e : Surroundings}
variable {disk : Disk}

/- A refused call has not touched the disk. -/
theorem unchanged_of_refused
    {call : Call}
    (hSame : (call.run b e disk).2 = disk) :
    Unchanged b (call.target b disk) disk
      (call.run b e disk).2 := by
  rw [hSame]
  exact unchanged_self

/-
  A call has changed nothing, whatever it returns, exactly if
  it was refused, or the failing step and those before it do
  no harm. A reload that fails comes too late for that,
  unless every file had its new text before.
-/
theorem call_unchanged_iff (call : Call) :
    Unchanged b (call.target b disk) disk
        (call.run b e disk).2 ↔
      call.Refused b e disk ∨ call.Harmless b e disk := by
  cases call with
  | create z =>
      rcases @createZone_cases b e disk z with
        ⟨hRefused, hSame⟩ | ⟨conf, hConf, hAccepted, hRun⟩
      · exact iff_of_true (unchanged_of_refused hSame)
          (Or.inl hRefused)
      · rw [or_iff_right hAccepted]
        unfold Call.run Call.target Call.Harmless
        simp only
        rw [hRun, writeZone_eq]
        exact register_unchanged_iff hConf
          (zoneBlock_ne_empty _ _)
  | delete name =>
      rcases @deleteZone_cases b e disk name with
        ⟨hRefused, hSame⟩ |
          ⟨conf, bindFile, hConf, hFile, hAccepted, hRun⟩
      · exact iff_of_true (unchanged_of_refused hSame)
          (Or.inl hRefused)
      · rw [or_iff_right hAccepted]
        exact deleteZone_unchanged_iff hConf hFile hRun
  | replace name records =>
      rcases @replaceRecords_cases b e disk name records with
        ⟨hRefused, hSame⟩ |
          ⟨path, old, hFile, hOld, hAccepted, hRun⟩
      · exact iff_of_true (unchanged_of_refused hSame)
          (Or.inl hRefused)
      · rw [or_iff_right hAccepted]
        unfold Call.run Call.target
        simp only
        rw [hFile, Option.getD_some, hRun]
        exact replaceRecords_unchanged_iff hFile hOld

/-
  No zone is registered, and the directory has a file for a
  zone of the name `lab`.
-/
def strayDisk : Disk :=
  (FileTree.empty.set ("/named.conf.local" : Text) []).set
    ("/zones/db.lab" : Text) ("kept by hand" : Text)

theorem strayZones_ne_nil :
    (("/zones" : Text) ≠ []) := by
  decide

def strayProvider : BindProvider where
  zonesDir := "/zones"
  bindZonesDir := "/etc/bind"
  namedLocal := "/named.conf.local"
  available := strayZones_ne_nil

/- The call that creates the zone `lab`. -/
def createLab : Call :=
  .create ⟨"lab", [], [], [], [], 0, 0, []⟩

/- A name server that does not reload. -/
def noReload : Surroundings :=
  { Surroundings.calm 2026010100 with
    reload := .error "no such container" }

/- A configuration that cannot be appended to. -/
def noAppend : Surroundings :=
  { Surroundings.calm 2026010100 with
    appendFault := some ⟨[], "disk full"⟩ }

/-
  A call that fails to reload has registered the zone, and
  one that fails to register it has removed a file that was
  there before.
-/
theorem failed_create_changes :
    (createLab.run strayProvider noReload
        strayDisk).1.toOption = none ∧
      ¬ Unchanged strayProvider
        (createLab.target strayProvider strayDisk) strayDisk
        (createLab.run strayProvider noReload strayDisk).2 ∧
      (createLab.run strayProvider noAppend
        strayDisk).1.toOption = none ∧
      ((createLab.run strayProvider noAppend
        strayDisk).2.read "/zones/db.lab") = none ∧
      ¬ Unchanged strayProvider
        (createLab.target strayProvider strayDisk) strayDisk
        (createLab.run strayProvider noAppend strayDisk).2 := by
  have hTarget :
      createLab.target strayProvider strayDisk =
        "/zones/db.lab" := by
    decide +kernel
  have hOld : strayDisk.read "/zones/db.lab" =
      some "kept by hand".toList := by
    decide +kernel
  have hChanged :
      ∀ disk' : Disk,
        disk'.read "/zones/db.lab" ≠
            some "kept by hand".toList →
          ¬ Unchanged strayProvider "/zones/db.lab" strayDisk
            disk' := by
    intro disk' hOther hSame
    apply hOther
    rw [← hOld]
    exact hSame _ (Or.inr (tmpOf_ne _))
  rw [hTarget]
  refine ⟨by decide +kernel, hChanged _ (by decide +kernel),
    by decide +kernel, by decide +kernel,
    hChanged _ (by decide +kernel)⟩

end Dns

end Soteria
