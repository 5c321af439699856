import Mathlib.Data.String.Basic
import Mathlib.Data.List.Sort
import Soteria.Dns.NamedConf
import Soteria.Dns.ZoneFile
import Soteria.Foundation.FileTree
import Soteria.Foundation.Paths

/-
  The provider that keeps its zones in files for BIND.

  The zone files and `named.conf.local` are files of one
  disk, named by their cleaned paths. What the clock shows
  and which accesses fail is given with a call.

  Key definitions include:
    * `Disk`, `writeFileAtomic`, `appendFile`
    * `BindProvider`, `agentPath`
    * `zoneFiles`, `readZone`
    * `createZone`, `deleteZone`, `replaceRecords`
-/

------------------------------------------------------------
-- The Disk
------------------------------------------------------------

namespace Soteria

namespace Dns

/- The files, by their cleaned paths. -/
abbrev Disk := FileTree Text Text

/- What a file has, if it exists. -/
def Disk.read (disk : Disk) (path : Text) : Option Text :=
  disk (Path.clean path)

/- A file gets a content. -/
def Disk.write (disk : Disk) (path content : Text) : Disk :=
  disk.set (Path.clean path) content

/- A file is removed. -/
def Disk.remove (disk : Disk) (path : Text) : Disk :=
  fun k => if k = Path.clean path then none else disk k

/-
  Where an atomic write fails: before there is a temporary
  file, while it is written, or when it is renamed.
-/
inductive WriteFault where
  | create (error : Text)
  | write (written error : Text)
  | rename (error : Text)

/- The temporary file of a path. -/
def tmpOf (path : Text) : Text :=
  path ++ ".tmp".toList

/- `writeFileAtomic`. -/
def writeFileAtomic
    (fault : Option WriteFault)
    (path content : Text)
    (disk : Disk) : Except Text Unit × Disk :=
  match fault with
  | none =>
      (.ok (), (disk.remove (tmpOf path)).write path content)
  | some (.create error) => (.error error, disk)
  | some (.write written error) =>
      (.error error, disk.write (tmpOf path) written)
  | some (.rename error) =>
      (.error error, disk.write (tmpOf path) content)

/- Where appending to a file fails, and what it has added. -/
structure AppendFault where
  written : Text
  error : Text

/- The error for a file that does not exist. -/
def noSuchFile (path : Text) : Text :=
  "open " ++ path ++ ": no such file or directory".toList

/- `appendFile`, which does not create the file. -/
def appendFile
    (fault : Option AppendFault)
    (path content : Text)
    (disk : Disk) : Except Text Unit × Disk :=
  match disk.read path, fault with
  | none, _ => (.error (noSuchFile path), disk)
  | some old, none => (.ok (), disk.write path (old ++ content))
  | some old, some fault =>
      (.error fault.error,
        disk.write path (old ++ fault.written))

end Dns

end Soteria

------------------------------------------------------------
-- The Provider
------------------------------------------------------------

namespace Soteria

namespace Dns

/-
  The directories on the two sides and `named.conf.local`.
  The provider is only offered when its directory exists, so
  that its path is not empty.
-/
structure BindProvider where
  zonesDir : Text
  bindZonesDir : Text
  namedLocal : Text
  available : zonesDir ≠ []

/- The clock and the failing accesses of one call. -/
structure Surroundings where
  today : Int
  readFault : Text → Option Text
  writeFault : Text → Option WriteFault
  appendFault : Option AppendFault
  removeFails : Bool
  reload : Except Text Unit

/- Nothing fails. -/
def Surroundings.calm (today : Int) : Surroundings where
  today := today
  readFault := fun _ => none
  writeFault := fun _ => none
  appendFault := none
  removeFails := false
  reload := .ok ()

/- Why a call fails. -/
inductive DnsError where
  | nameRequired
  | alreadyExists (name : Text)
  | notFound (name : Text)
  | record (error : RecordError)
  | io (error : Text)

/- The text of the error. -/
def DnsError.message : DnsError → Text
| .nameRequired => "zone name is required"
| .alreadyExists name =>
    "zone " ++ name.quoted ++ " already exists".toList
| .notFound name =>
    "zone " ++ name.quoted ++ " not found".toList
| .record error => error.message
| .io error => error

/- `os.ReadFile`. -/
def readFile
    (e : Surroundings)
    (path : Text)
    (disk : Disk) : Except DnsError Text :=
  match e.readFault path, disk.read path with
  | some error, _ => .error (.io error)
  | none, some content => .ok content
  | none, none => .error (.io (noSuchFile path))

/- `os.Remove`, whose error is ignored. -/
def removeFile
    (e : Surroundings)
    (path : Text)
    (disk : Disk) : Disk :=
  if e.removeFails then disk else disk.remove path

/- `fileFor`. -/
def fileFor (name : Text) : Text :=
  "db." ++ name

/- An error of the file system is one of the call. -/
def ioError {α : Type} : Except Text α → Except DnsError α
| .ok a => .ok a
| .error error => .error (.io error)

namespace BindProvider

/- `agentPath`. -/
def agentPath (b : BindProvider) (bindFile : Text) : Text :=
  if b.bindZonesDir ≠ [] && bindFile.hasPrefix b.bindZonesDir
  then
    Path.join b.zonesDir (bindFile.trimPrefix b.bindZonesDir)
  else Path.join b.zonesDir (Path.base bindFile)

/- `zoneFiles`. -/
def zoneFiles
    (b : BindProvider)
    (e : Surroundings)
    (disk : Disk) : Except DnsError (List (Text × Text)) :=
  (readFile e b.namedLocal disk).map zoneEntries

/- `parseZoneFile`. -/
def parseZoneFile
    (e : Surroundings)
    (name path : Text)
    (disk : Disk) : Except DnsError Zone :=
  (readFile e path disk).map (parseZone name)

/- `Zone`. -/
def readZone
    (b : BindProvider)
    (e : Surroundings)
    (name : Text)
    (disk : Disk) : Except DnsError Zone :=
  match b.zoneFiles e disk with
  | .error error => .error error
  | .ok files =>
      match fileOf files name with
      | none => .error (.notFound name)
      | some bindFile =>
          parseZoneFile e name (b.agentPath bindFile) disk

end BindProvider

end Dns

end Soteria

------------------------------------------------------------
-- Creating a Zone
------------------------------------------------------------

namespace Soteria

namespace Dns

namespace BindProvider

/- The name server and contact of a forward zone, if any. -/
def borrowedNS
    (b : BindProvider)
    (e : Surroundings)
    (disk : Disk)
    (files : List (Text × Text))
    (name : Text) : Option (Text × Text) :=
  if kindOf name = "reverse" then none
  else
    match fileOf files name with
    | none => none
    | some bindFile =>
        match parseZoneFile e name (b.agentPath bindFile) disk with
        | .error _ => none
        | .ok zone =>
            if zone.primaryNS = [] then none
            else if zone.admin = [] then
              some (zone.primaryNS,
                "admin." ++ name ++ ".".toList)
            else some (zone.primaryNS, zone.admin)

/-
  `defaultPrimaryNS`: a reverse zone borrows from the first
  forward zone that has a name server.
-/
def defaultPrimaryNS
    (b : BindProvider)
    (e : Surroundings)
    (disk : Disk)
    (name kind : Text) : Text × Text :=
  let self :=
    ("ns." ++ name ++ ".".toList, "admin." ++ name ++ ".".toList)
  if kind ≠ "reverse" then self
  else
    match b.zoneFiles e disk with
    | .error _ => self
    | .ok files =>
        let names :=
          (files.map Prod.fst).dedup.insertionSort (· ≤ ·)
        (names.findSome? (b.borrowedNS e disk files)).getD self

/- The zone that is written, with what was not given. -/
def completed
    (b : BindProvider)
    (e : Surroundings)
    (disk : Disk)
    (z : Zone) : Zone :=
  let kind := kindOf z.name
  let default := b.defaultPrimaryNS e disk z.name kind
  let primaryNS :=
    if z.primaryNS = [] then default.1 else z.primaryNS
  { name := z.name
    kind := kind
    network := networkOf z.name
    primaryNS := primaryNS
    admin := if z.admin = [] then default.2 else z.admin
    serial := nextSerial e.today 0
    ttl := if z.ttl = 0 then 3600 else z.ttl
    records :=
      if z.records = [] then [⟨"@", "NS", 0, primaryNS⟩]
      else z.records }

/- The name under which a zone is created. -/
def trimmedName (name : Text) : Text :=
  name.trimSpace.trimSuffix "."

/- The path of the file that is written for a zone. -/
def newFile (b : BindProvider) (name : Text) : Text :=
  Path.join b.zonesDir (fileFor name)

/- The path that is registered for a zone. -/
def newBindFile (b : BindProvider) (name : Text) : Text :=
  Path.join b.bindZonesDir (fileFor name)

/- The zone file is written and the zone is registered. -/
def writeZone
    (b : BindProvider)
    (e : Surroundings)
    (z : Zone)
    (disk : Disk) : Except DnsError Unit × Disk :=
  let agentFile := b.newFile z.name
  match writeFileAtomic (e.writeFault agentFile) agentFile
      (renderZone z) disk with
  | (.error error, disk) => (.error (.io error), disk)
  | (.ok _, disk) =>
      match appendFile e.appendFault b.namedLocal
          (zoneBlock z.name (b.newBindFile z.name)) disk with
      | (.error error, disk) =>
          (.error (.io error), removeFile e agentFile disk)
      | (.ok _, disk) => (ioError e.reload, disk)

/- `CreateZone`. -/
def createZone
    (b : BindProvider)
    (e : Surroundings)
    (z : Zone)
    (disk : Disk) : Except DnsError Unit × Disk :=
  let name := trimmedName z.name
  if name = [] then (.error .nameRequired, disk)
  else
    match b.zoneFiles e disk with
    | .error error => (.error error, disk)
    | .ok files =>
        if (fileOf files name).isSome then
          (.error (.alreadyExists name), disk)
        else
          let zone := b.completed e disk { z with name := name }
          match validateRecords zone.records with
          | some error => (.error (.record error), disk)
          | none => b.writeZone e zone disk

end BindProvider

end Dns

end Soteria

------------------------------------------------------------
-- Changing and Deleting a Zone
------------------------------------------------------------

namespace Soteria

namespace Dns

namespace BindProvider

/- `ReplaceRecords`. -/
def replaceRecords
    (b : BindProvider)
    (e : Surroundings)
    (name : Text)
    (records : List Record)
    (disk : Disk) : Except DnsError Unit × Disk :=
  match validateRecords records with
  | some error => (.error (.record error), disk)
  | none =>
      match b.zoneFiles e disk with
      | .error error => (.error error, disk)
      | .ok files =>
          match fileOf files name with
          | none => (.error (.notFound name), disk)
          | some bindFile =>
              let agentFile := b.agentPath bindFile
              match parseZoneFile e name agentFile disk with
              | .error error => (.error error, disk)
              | .ok z =>
                  let written :=
                    { z with
                      records := records
                      serial := nextSerial e.today z.serial }
                  match writeFileAtomic (e.writeFault agentFile)
                      agentFile (renderZone written) disk with
                  | (.error error, disk) =>
                      (.error (.io error), disk)
                  | (.ok _, disk) => (ioError e.reload, disk)

/-
  `DeleteZone`. Where the second reading of the file fails,
  the first does, too.
-/
def deleteZone
    (b : BindProvider)
    (e : Surroundings)
    (name : Text)
    (disk : Disk) : Except DnsError Unit × Disk :=
  match b.zoneFiles e disk with
  | .error error => (.error error, disk)
  | .ok files =>
      match fileOf files name with
      | none => (.error (.notFound name), disk)
      | some bindFile =>
          match readFile e b.namedLocal disk with
          | .error error => (.error error, disk)
          | .ok conf =>
              match writeFileAtomic (e.writeFault b.namedLocal)
                  b.namedLocal
                  ((withoutZone name conf).trimRightChar '\n' ++
                    "\n".toList) disk with
              | (.error error, disk) =>
                  (.error (.io error), disk)
              | (.ok _, disk) =>
                  (ioError e.reload,
                    removeFile e (b.agentPath bindFile) disk)

end BindProvider

end Dns

end Soteria

------------------------------------------------------------
-- What Successful Calls Do
------------------------------------------------------------

namespace Soteria

namespace Dns

variable {disk disk' : Disk}
variable {e : Surroundings}

@[simp] theorem Disk.read_write
    (disk : Disk)
    (path content : Text) :
    (disk.write path content).read path = some content :=
  FileTree.set_self disk (Path.clean path) content

theorem Disk.write_of_ne
    (disk : Disk)
    {path k : Text}
    (content : Text)
    (hNe : k ≠ Path.clean path) :
    disk.write path content k = disk k :=
  FileTree.set_of_ne disk content hNe

theorem Disk.remove_of_ne
    (disk : Disk)
    {path k : Text}
    (hNe : k ≠ Path.clean path) :
    disk.remove path k = disk k :=
  if_neg hNe

/- An atomic write that succeeds leaves no temporary file. -/
theorem writeFileAtomic_ok
    {fault : Option WriteFault}
    {path content : Text}
    (hOk :
      writeFileAtomic fault path content disk = (.ok (), disk')) :
    disk' = (disk.remove (tmpOf path)).write path content := by
  cases fault with
  | none => exact (Prod.mk.inj hOk).2.symm
  | some fault =>
      cases fault with
      | create error => cases (Prod.mk.inj hOk).1
      | write written error => cases (Prod.mk.inj hOk).1
      | rename error => cases (Prod.mk.inj hOk).1

theorem appendFile_ok
    {fault : Option AppendFault}
    {path content : Text}
    (hOk :
      appendFile fault path content disk = (.ok (), disk')) :
    ∃ old, disk.read path = some old ∧
      disk' = disk.write path (old ++ content) := by
  unfold appendFile at hOk
  cases hRead : disk.read path with
  | none =>
      rw [hRead] at hOk
      cases (Prod.mk.inj hOk).1
  | some old =>
      rw [hRead] at hOk
      cases fault with
      | none => exact ⟨old, rfl, (Prod.mk.inj hOk).2.symm⟩
      | some fault => cases (Prod.mk.inj hOk).1

theorem readFile_ok
    {path content : Text}
    (hOk : readFile e path disk = .ok content) :
    disk.read path = some content := by
  unfold readFile at hOk
  cases hFault : e.readFault path with
  | some error =>
      rw [hFault] at hOk
      cases hOk
  | none =>
      cases hRead : disk.read path with
      | none =>
          rw [hFault, hRead] at hOk
          cases hOk
      | some old =>
          rw [hFault, hRead] at hOk
          cases hOk
          rfl

namespace BindProvider

variable {b : BindProvider}

theorem zoneFiles_ok
    {files : List (Text × Text)}
    (hOk : b.zoneFiles e disk = .ok files) :
    ∃ conf, disk.read b.namedLocal = some conf ∧
      files = zoneEntries conf := by
  unfold zoneFiles at hOk
  cases hRead : readFile e b.namedLocal disk with
  | error error =>
      rw [hRead] at hOk
      cases hOk
  | ok conf =>
      rw [hRead] at hOk
      cases hOk
      exact ⟨conf, readFile_ok hRead, rfl⟩

theorem parseZoneFile_ok
    {name path : Text}
    {z : Zone}
    (hOk : parseZoneFile e name path disk = .ok z) :
    ∃ content, disk.read path = some content ∧
      z = parseZone name content := by
  unfold parseZoneFile at hOk
  cases hRead : readFile e path disk with
  | error error =>
      rw [hRead] at hOk
      cases hOk
  | ok content =>
      rw [hRead] at hOk
      cases hOk
      exact ⟨content, readFile_ok hRead, rfl⟩

/- Where a name is registered, and its file's content. -/
structure Registered
    (b : BindProvider)
    (disk : Disk)
    (name path content : Text) : Prop where
  registered :
    ∃ conf bindFile, disk.read b.namedLocal = some conf ∧
      fileOf (zoneEntries conf) name = some bindFile ∧
        b.agentPath bindFile = path
  content : disk.read path = some content

/- The zone that `ReplaceRecords` writes. -/
def replaced
    (e : Surroundings)
    (name content : Text)
    (records : List Record) : Zone :=
  { parseZone name content with
    records := records
    serial := nextSerial e.today (parseZone name content).serial }

theorem readZone_ok
    {name : Text}
    {z : Zone}
    (hOk : b.readZone e name disk = .ok z) :
    ∃ path content, Registered b disk name path content ∧
      z = parseZone name content := by
  unfold readZone at hOk
  cases hFiles : b.zoneFiles e disk with
  | error error =>
      rw [hFiles] at hOk
      cases hOk
  | ok files =>
      rw [hFiles] at hOk
      rcases zoneFiles_ok hFiles with ⟨conf, hConf, rfl⟩
      cases hFile : fileOf (zoneEntries conf) name with
      | none =>
          simp only [hFile] at hOk
          cases hOk
      | some bindFile =>
          simp only [hFile] at hOk
          rcases parseZoneFile_ok hOk with ⟨content, hRead, hZone⟩
          exact ⟨b.agentPath bindFile, content,
            ⟨⟨conf, bindFile, hConf, hFile, rfl⟩, hRead⟩, hZone⟩

/- `ReplaceRecords` writes the file the zone is read from. -/
theorem replaceRecords_ok
    {name : Text}
    {records : List Record}
    (hOk :
      b.replaceRecords e name records disk = (.ok (), disk')) :
    validateRecords records = none ∧
      ∃ path content, Registered b disk name path content ∧
        disk' =
          (disk.remove (tmpOf path)).write path
            (renderZone (replaced e name content records)) := by
  unfold replaceRecords at hOk
  cases hValid : validateRecords records with
  | some error =>
      rw [hValid] at hOk
      cases (Prod.mk.inj hOk).1
  | none =>
      refine ⟨rfl, ?_⟩
      rw [hValid] at hOk
      cases hFiles : b.zoneFiles e disk with
      | error error =>
          rw [hFiles] at hOk
          cases (Prod.mk.inj hOk).1
      | ok files =>
          rw [hFiles] at hOk
          rcases zoneFiles_ok hFiles with ⟨conf, hConf, rfl⟩
          cases hFile : fileOf (zoneEntries conf) name with
          | none =>
              simp only [hFile] at hOk
              cases (Prod.mk.inj hOk).1
          | some bindFile =>
              simp only [hFile] at hOk
              cases hParse :
                  parseZoneFile e name (b.agentPath bindFile)
                    disk with
              | error error =>
                  simp only [hParse] at hOk
                  cases (Prod.mk.inj hOk).1
              | ok z =>
                  simp only [hParse] at hOk
                  rcases parseZoneFile_ok hParse with
                    ⟨content, hRead, rfl⟩
                  refine ⟨b.agentPath bindFile, content,
                    ⟨⟨conf, bindFile, hConf, hFile, rfl⟩,
                      hRead⟩, ?_⟩
                  split at hOk
                  · cases (Prod.mk.inj hOk).1
                  · rename_i disk₁ hWrite
                    rw [← (Prod.mk.inj hOk).2]
                    exact writeFileAtomic_ok hWrite

end BindProvider

end Dns

end Soteria
