import Soteria.Dns.Failures
import Soteria.Dns.Statements

/-
  Creating a zone: where its file is, what is registered for
  it, and what becomes of the zones there are.

  Key definitions include:
    * `createZone_ok`, `writeZone_ok`
    * `Contained`, `Unhindered`
    * `create_contained`
-/

------------------------------------------------------------
-- Created Zones
------------------------------------------------------------

namespace Soteria

namespace Dns

namespace BindProvider

variable {b : BindProvider}
variable {e : Surroundings}
variable {disk disk' : Disk}
variable {z : Zone}

/- A zone that is created is new, and its records are valid. -/
theorem createZone_ok
    (hOk : b.createZone e z disk = (.ok (), disk')) :
    ∃ conf, disk.read b.namedLocal = some conf ∧
      trimmedName z.name ≠ [] ∧
        fileOf (zoneEntries conf) (trimmedName z.name) = none ∧
          validateRecords (b.newZone e z disk).records = none ∧
            b.writeZone e (b.newZone e z disk) disk =
              (.ok (), disk') := by
  unfold createZone at hOk
  by_cases hName : trimmedName z.name = []
  · simp only [if_pos hName] at hOk
    cases (Prod.mk.inj hOk).1
  · simp only [if_neg hName] at hOk
    cases hFiles : b.zoneFiles e disk with
    | error error =>
        rw [hFiles] at hOk
        cases (Prod.mk.inj hOk).1
    | ok files =>
        rw [hFiles] at hOk
        rcases zoneFiles_ok hFiles with ⟨conf, hConf, rfl⟩
        cases hOld :
            fileOf (zoneEntries conf) (trimmedName z.name) with
        | some bindFile =>
            simp only [hOld, Option.isSome_some, if_true] at hOk
            cases (Prod.mk.inj hOk).1
        | none =>
            cases hValid :
                validateRecords
                  (b.newZone e z disk).records with
            | some error =>
                unfold newZone at hValid
                simp only [hOld, hValid, Option.isSome_none]
                  at hOk
                cases (Prod.mk.inj hOk).1
            | none =>
                refine ⟨conf, hConf, hName, hOld, rfl, ?_⟩
                unfold newZone at hValid ⊢
                simp only [hOld, hValid, Option.isSome_none]
                  at hOk
                exact hOk

/- The file is written, then its zone is registered. -/
theorem writeZone_ok
    (hOk : b.writeZone e z disk = (.ok (), disk')) :
    ∃ old,
      (written disk (b.newFile z.name) (renderZone z)).read
          b.namedLocal = some old ∧
        disk' =
          (written disk (b.newFile z.name)
            (renderZone z)).write b.namedLocal
              (old ++ zoneBlock z.name
                (b.newBindFile z.name)) := by
  unfold writeZone at hOk
  simp only at hOk
  split at hOk
  · cases (Prod.mk.inj hOk).1
  · rename_i disk₁ hWrite
    have hWritten := writeFileAtomic_ok hWrite
    split at hOk
    · cases (Prod.mk.inj hOk).1
    · rename_i disk₂ hAppend
      rcases appendFile_ok hAppend with ⟨old, hOld, hDisk⟩
      rw [hWritten] at hOld hDisk
      exact ⟨old, hOld, by rw [← (Prod.mk.inj hOk).2, hDisk]; rfl⟩

end BindProvider

end Dns

end Soteria

------------------------------------------------------------
-- Names of Files
------------------------------------------------------------

namespace Soteria

namespace Dns

namespace BindProvider

variable {b : BindProvider}
variable {name : Text}

/- Without a slash, every beginning of the file name is plain. -/
theorem plain_of_start
    (hSingle : '/' ∉ name)
    {u : Text}
    (hSome : u ≠ [])
    (hStart : u <+: fileFor name) :
    Path.Plain u := by
  have hFree : '/' ∉ fileFor name := by
    unfold fileFor
    simp only [List.mem_append, not_or]
    exact ⟨by decide, hSingle⟩
  have hDot : ∀ v : Text, u ≠ '.' :: v := by
    rintro v rfl
    rcases hStart with ⟨t, hText⟩
    cases hText
  exact ⟨hSome, fun h => hFree (hStart.subset h), hDot [],
    hDot ['.']⟩

theorem plain_fileFor
    (hSingle : '/' ∉ name) :
    Path.Plain (fileFor name) :=
  plain_of_start hSingle (by simp [fileFor])
    (List.prefix_refl _)

theorem newFile_eq
    (hSingle : '/' ∉ name) :
    b.newFile name =
      Path.child (Path.clean b.zonesDir) (fileFor name) :=
  Path.join_plain b.zonesDir (plain_fileFor hSingle)

theorem newBindFile_eq
    (hSingle : '/' ∉ name) :
    b.newBindFile name =
      Path.child (Path.clean b.bindZonesDir) (fileFor name) :=
  Path.join_plain b.bindZonesDir (plain_fileFor hSingle)

/- The path that is registered leads back to the file. -/
theorem agentPath_newBindFile
    (hSingle : '/' ∉ name) :
    b.agentPath (b.newBindFile name) = b.newFile name := by
  unfold agentPath
  rw [newBindFile_eq hSingle]
  split
  · rename_i hStarts
    rw [Bool.and_eq_true, decide_eq_true_eq] at hStarts
    have hPrefix :
        b.bindZonesDir <+:
          Path.child (Path.clean b.bindZonesDir)
            (fileFor name) :=
      List.isPrefixOf_iff_prefix.mp hStarts.2
    rcases hPrefix with ⟨rest, hRest⟩
    have hTrim :
        (Path.child (Path.clean b.bindZonesDir)
          (fileFor name)).trimPrefix b.bindZonesDir = rest := by
      unfold Text.trimPrefix
      rw [if_pos hStarts.2, ← hRest, List.drop_left]
    rw [hTrim]
    rcases Path.rest_of_child hStarts.1
        (fun u => plain_of_start hSingle) hRest.symm with
      rfl | rfl
    · rfl
    · exact Path.join_slash b.available
  · rw [Path.base_child _ (plain_fileFor hSingle)]
    rfl

end BindProvider

end Dns

end Soteria

------------------------------------------------------------
-- Zones That Are Contained
------------------------------------------------------------

namespace Soteria

namespace Dns

open Regex Regex.Pattern BindProvider

/-
  What a call that creates a zone may do: its file is a child
  of the directory, the registered zones are those there were
  and the new one, which is read from this file, and the files
  of the others are as they were.
-/
structure Contained
    (b : BindProvider)
    (disk disk' : Disk)
    (name : Text) : Prop where
  child :
    ∃ element, Path.Plain element ∧
      b.newFile name =
        Path.child (Path.clean b.zonesDir) element
  registered :
    ∃ conf conf' bindFile,
      disk.read b.namedLocal = some conf ∧
        disk'.read b.namedLocal = some conf' ∧
          b.agentPath bindFile = b.newFile name ∧
            ∀ n, fileOf (zoneEntries conf') n =
              if n = name then some bindFile
              else fileOf (zoneEntries conf) n
  others :
    ∀ conf n bindFile,
      disk.read b.namedLocal = some conf →
        fileOf (zoneEntries conf) n = some bindFile →
          disk'.read (b.agentPath bindFile) =
            disk.read (b.agentPath bindFile)

/- The files that creating a zone writes. -/
def BindProvider.touched
    (b : BindProvider)
    (name : Text) : List Text :=
  [Path.clean (b.newFile name),
    Path.clean (tmpOf (b.newFile name)),
    Path.clean b.namedLocal]

/-
  Nothing gets in the way of a new zone: its name is one
  element of a path and fits into quotes, no head of a
  statement is open in `named.conf.local`, and the files that
  are written are those of no other zone.
-/
structure Unhindered
    (b : BindProvider)
    (disk : Disk)
    (name : Text) : Prop where
  single : '/' ∉ name
  unquoted : '"' ∉ name
  unquotedDir : '"' ∉ b.bindZonesDir
  closed :
    ∀ conf, disk.read b.namedLocal = some conf →
      Skips zoneHeaderRe none (behindZones conf)
        (zoneBlock name (b.newBindFile name))
  apart :
    Path.clean (b.newFile name) ≠ Path.clean b.namedLocal
  unused :
    ∀ conf n bindFile,
      disk.read b.namedLocal = some conf →
        fileOf (zoneEntries conf) n = some bindFile →
          Path.clean (b.agentPath bindFile) ∉ b.touched name

variable {b : BindProvider}
variable {e : Surroundings}
variable {disk disk' : Disk}
variable {z : Zone}

theorem fileOf_concat
    (entries : List (Text × Text))
    (name file n : Text) :
    fileOf (entries ++ [(name, file)]) n =
      if n = name then some file else fileOf entries n := by
  unfold fileOf
  rw [List.reverse_append, List.reverse_singleton,
    List.singleton_append, List.lookup_cons]
  by_cases hSame : n = name
  · rw [if_pos hSame]
    simp [hSame]
  · rw [if_neg hSame, beq_eq_false_iff_ne.mpr hSame]

/- The registered path has no other characters. -/
theorem newBindFile_unquoted
    {name : Text}
    (hSingle : '/' ∉ name)
    (hName : '"' ∉ name)
    (hDir : '"' ∉ b.bindZonesDir) :
    '"' ∉ b.newBindFile name := by
  rw [newBindFile_eq hSingle]
  intro hMem
  rcases Path.mem_child hMem with h | h | h | h
  · exact hDir h
  · unfold fileFor at h
    rcases List.mem_append.mp h with h | h
    · exact absurd h (by decide)
    · exact hName h
  · exact absurd h (by decide)
  · exact absurd h (by decide)

theorem newBindFile_ne_nil
    {name : Text}
    (hSingle : '/' ∉ name) :
    b.newBindFile name ≠ [] := by
  have hPlain := plain_fileFor hSingle
  rw [newBindFile_eq hSingle]
  intro hNone
  have hBase := Path.base_child (Path.clean b.bindZonesDir) hPlain
  rw [hNone] at hBase
  exact hPlain.notHere hBase.symm

/- What is on the disk when a zone was created. -/
theorem createZone_disk
    (hOk : b.createZone e z disk = (.ok (), disk'))
    (hApart :
      Path.clean (b.newFile (trimmedName z.name)) ≠
        Path.clean b.namedLocal) :
    ∃ conf, disk.read b.namedLocal = some conf ∧
      disk' =
        (written disk (b.newFile (trimmedName z.name))
          (renderZone (b.newZone e z disk))).write b.namedLocal
            (conf ++ zoneBlock (trimmedName z.name)
              (b.newBindFile (trimmedName z.name))) := by
  rcases createZone_ok hOk with ⟨conf, hConf, -, -, -, hWrite⟩
  rcases writeZone_ok hWrite with ⟨old, hOld, hDisk⟩
  change (written disk (b.newFile (trimmedName z.name)) _).read
    b.namedLocal = some old at hOld
  have hTmp :
      Path.clean b.namedLocal ≠
        Path.clean (tmpOf (b.newFile (trimmedName z.name))) := by
    intro hSame
    rw [Disk.read_congr _ hSame, read_written.2] at hOld
    cases hOld
  rw [read_written_of_ne hApart.symm hTmp, hConf] at hOld
  cases hOld
  exact ⟨conf, hConf, hDisk⟩

/- A name with a quote is not registered. -/
theorem fileOf_quoted
    {conf name : Text}
    (hQuote : '"' ∈ name) :
    fileOf (zoneEntries conf) name = none := by
  cases hFile : fileOf (zoneEntries conf) name with
  | none => rfl
  | some file =>
      rcases exists_zoneCuts conf with ⟨cuts, hCuts⟩
      rcases exists_statement hCuts hFile with ⟨m, hMem, hName⟩
      rcases hCuts.takes hMem with ⟨before, hTakes⟩
      rcases takes_zoneBlock hTakes with
        ⟨blanks, name', after, later, -, -, hFree, hGroups⟩
      have hSame : m.group 1 = name' := by
        unfold Match.group
        rw [hGroups]
        rfl
      rw [← hName, hSame] at hQuote
      exact absurd hQuote hFree

/-
  Where nothing gets in the way, a zone that is created is
  contained. One whose name has a quote is not.
-/
theorem create_contained
    (hOk : b.createZone e z disk = (.ok (), disk')) :
    (Unhindered b disk (trimmedName z.name) →
        Contained b disk disk' (trimmedName z.name)) ∧
      ('"' ∈ trimmedName z.name →
        ¬ Contained b disk disk' (trimmedName z.name)) := by
  constructor
  · intro hFree
    rcases createZone_ok hOk with ⟨-, -, hName, -⟩
    rcases createZone_disk hOk hFree.apart with
      ⟨conf, hConf, rfl⟩
    refine ⟨⟨_, plain_fileFor hFree.single,
      newFile_eq hFree.single⟩, ?_, ?_⟩
    · refine ⟨conf, _, _, hConf, Disk.read_write _ _ _,
        agentPath_newBindFile hFree.single, ?_⟩
      intro n
      rw [zoneEntries_append hName hFree.unquoted
        (newBindFile_ne_nil hFree.single)
        (newBindFile_unquoted hFree.single hFree.unquoted
          hFree.unquotedDir) (hFree.closed conf hConf),
        fileOf_concat]
    · intro conf' n bindFile hConf' hFile
      have hUnused := hFree.unused conf' n bindFile hConf' hFile
      unfold touched at hUnused
      simp only [List.mem_cons, List.not_mem_nil, or_false,
        not_or] at hUnused
      rw [Disk.read_write_of_ne _ _ hUnused.2.2,
        read_written_of_ne hUnused.1 hUnused.2.1]
  · intro hQuote hContained
    rcases hContained.registered with
      ⟨conf, conf', bindFile, -, -, -, hFiles⟩
    have hHere := hFiles (trimmedName z.name)
    rw [if_pos rfl, fileOf_quoted hQuote] at hHere
    cases hHere

/- A zone with a name server and a contact of this name. -/
def zoneOf (name : Text) : Zone where
  name := name
  kind := []
  network := []
  primaryNS := "ns." ++ name
  admin := "admin." ++ name
  serial := 0
  ttl := 0
  records := []

/- A disk on which the zone `lab` is registered. -/
def labDisk : Disk :=
  (Disk.write FileTree.empty "/named.conf.local"
      (zoneBlock "lab" "/etc/bind/db.lab")).write
    "/zones/db.lab" (renderZone (zoneOf "lab"))

/- What a call that creates a zone leaves on it. -/
def labDiskWith (name : Text) : Disk :=
  (strayProvider.createZone (Surroundings.calm 2026010100)
    (zoneOf name) labDisk).2

theorem eq_ok_of_isSome
    (result : Except DnsError Unit × Disk)
    (hSome : result.1.toOption.isSome = true) :
    result = (.ok (), result.2) := by
  rcases result with ⟨answer, disk⟩
  cases answer with
  | error error => cases hSome
  | ok => rfl

theorem read_eq_getD
    (disk : Disk)
    {path : Text}
    (hSome : (disk.read path).isSome = true) :
    disk.read path = some ((disk.read path).getD []) := by
  rcases Option.isSome_iff_exists.mp hSome with
    ⟨content, hRead⟩
  rw [hRead]
  rfl

theorem labDiskWith_ok
    (name : Text)
    (hOk :
      (strayProvider.createZone (Surroundings.calm 2026010100)
        (zoneOf name) labDisk).1.toOption.isSome = true) :
    strayProvider.createZone (Surroundings.calm 2026010100)
        (zoneOf name) labDisk = (.ok (), labDiskWith name) :=
  eq_ok_of_isSome _ hOk

theorem labDisk_conf :
    labDisk.read strayProvider.namedLocal =
      some (zoneBlock "lab" "/etc/bind/db.lab") := by
  rw [read_eq_getD labDisk (by decide +kernel)]
  apply congrArg some
  decide +kernel

/- A zone that is created beside another one. -/
theorem create_contained_new :
    Contained strayProvider labDisk (labDiskWith "new")
      "new" := by
  have hName : trimmedName (zoneOf "new").name = "new" := by
    decide +kernel
  have hContained :=
    (create_contained
      (labDiskWith_ok "new" (by decide +kernel))).1
  rw [hName] at hContained
  apply hContained
  have hEntries :
      zoneEntries (zoneBlock "lab" "/etc/bind/db.lab") =
        [(("lab" : Text), ("/etc/bind/db.lab" : Text))] := by
    decide +kernel
  refine ⟨by decide, by decide, by decide, ?_, by decide +kernel,
    ?_⟩
  · intro conf hConf
    rw [labDisk_conf] at hConf
    cases hConf
    have hBehind :
        behindZones (zoneBlock "lab" "/etc/bind/db.lab") =
          ['\n'] := by
      decide +kernel
    rw [hBehind]
    exact skips_quotedClause (by decide) _
  · intro conf n bindFile hConf hFile
    rw [labDisk_conf] at hConf
    cases hConf
    rw [hEntries] at hFile
    have hLab : n = "lab" ∧ bindFile = "/etc/bind/db.lab" := by
      have hMem := mem_of_lookup hFile
      rw [List.reverse_singleton, List.mem_singleton,
        Prod.mk.injEq] at hMem
      exact hMem
    rw [hLab.2]
    decide +kernel

/-
  A name with elements that lead up: its file is not in the
  directory, and it is registered to that of another zone.
-/
theorem strayed_zone_escapes :
    strayProvider.createZone (Surroundings.calm 2026010100)
        (zoneOf "a/../../db.lab") labDisk =
          (.ok (), labDiskWith "a/../../db.lab") ∧
      strayProvider.newFile "a/../../db.lab" = "/db.lab" ∧
        strayProvider.agentPath
            (strayProvider.newBindFile "a/../../db.lab") =
          "/zones/db.lab" ∧
          ¬ Contained strayProvider labDisk
            (labDiskWith "a/../../db.lab")
            "a/../../db.lab" := by
  have hFile :
      strayProvider.newFile "a/../../db.lab" = "/db.lab" := by
    decide +kernel
  refine ⟨labDiskWith_ok _ (by decide +kernel), hFile,
    by decide +kernel, ?_⟩
  intro hContained
  rcases hContained.child with ⟨element, -, hChild⟩
  have hDir :
      Path.clean strayProvider.zonesDir = "/zones" := by
    decide +kernel
  rw [hFile, hDir] at hChild
  have hThird := congrArg (fun p : Text => p[1]?) hChild
  change some 'd' = some 'z' at hThird
  cases hThird

end Dns

end Soteria
