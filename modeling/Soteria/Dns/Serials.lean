import Soteria.Dns.Creating

/-
  The serials of a zone over the writes of its file, and what
  else is read back from its header.

  Key definitions include:
    * `soaRe_header`, `parse_header`
    * `Writes`
    * `serials_increase`
-/

------------------------------------------------------------
-- Headers That Are Read Back
------------------------------------------------------------

namespace Soteria

namespace Dns

open Regex Regex.Pattern

/- A text that is one field of the SOA line. -/
structure Bare (s : Text) : Prop where
  nonempty : s ≠ []
  noSpace : ∀ c ∈ s, space c = false

/- The SOA has no letter of its name in front of it. -/
theorem soaRe_skips
    {prev : Option Char}
    {gap : Text}
    (hGap : ∀ c ∈ gap, Text.foldChar c ≠ 's')
    (rest : Text) :
    Skips soaRe prev gap rest := by
  have hFirst :
      ∀ prev c rest, (Text.foldChar c == 's') = false →
        soaRe.run prev (c :: rest) = [] := by
    intro prev c rest hNot
    have hLetter :
        (litFold "SOA").run prev (c :: rest) = [] :=
      run_seq_one (p := fun d =>
        Text.foldChar d == Text.foldChar 'S') hNot prev rest
    unfold soaRe all
    rw [List.foldr_cons, run, hLetter]
    rfl
  exact skips_of_first hFirst
    (fun c hMem => beq_eq_false_iff_ne.mpr (hGap c hMem)) rest

/- A class that does not have the first character ends there. -/
theorem head_out
    {p : Char → Bool}
    {c : Char}
    (hNot : p c = false)
    (rest : Text) :
    ∀ d ∈ ([c] ++ rest).head?, p d = false := by
  rintro d ⟨⟩
  exact hNot

theorem Bare.head_out
    {s : Text}
    (hBare : Bare s)
    (rest : Text) :
    ∀ c ∈ (s ++ rest).head?, space c = false := by
  intro c hMem
  rcases List.exists_cons_of_ne_nil hBare.nonempty with
    ⟨d, s', rfl⟩
  cases hMem
  exact hBare.noSpace c (List.mem_cons_self ..)

theorem Bare.nonSpace
    {s : Text}
    (hBare : Bare s) :
    ∀ c ∈ s, nonSpace c = true := by
  intro c hMem
  unfold Dns.nonSpace
  rw [hBare.noSpace c hMem]
  rfl

/- The SOA with its fields, up to a parenthesis. -/
theorem soaRe_first
    {prev : Option Char}
    {ns admin inside : Text}
    (hNS : Bare ns)
    (hAdmin : Bare admin)
    (hInside : ')' ∉ inside)
    (rest : Text) :
    ∃ text, First soaRe prev
      ("SOA".toList ++ ([' '] ++ (ns ++ ([' '] ++ (admin ++
        ([' '] ++ (['('] ++ (inside ++ ([')'] ++ rest)))))))))
      ⟨text, rest, [(1, ns), (2, admin), (3, inside)]⟩ := by
  have hBlank : ∀ c ∈ [' '], space c = true := by decide
  refine ⟨_, first_seq (first_litFold _ _)
    (first_seq
      (first_plus (by decide) hBlank (hNS.head_out _))
      (first_seq
        (first_group
          (first_plus hNS.nonempty hNS.nonSpace
            (head_out rfl _)))
        (first_seq
          (first_plus (by decide) hBlank (hAdmin.head_out _))
          (first_seq
            (first_group
              (first_plus hAdmin.nonempty hAdmin.nonSpace
                (head_out rfl _)))
            (first_seq
              (first_many hBlank (head_out rfl _))
              (first_seq (first_lit _ _)
                (first_seq
                  (first_group
                    (first_many ?_ (head_out rfl _)))
                  (first_seq (first_lit _ _)
                    first_empty))))))))⟩
  intro c hMem
  rw [bne_iff_ne]
  rintro rfl
  exact hInside hMem

theorem ttlRe_first
    (n : Nat)
    (rest : Text) :
    ∃ text, First ttlRe none
      (['$'] ++ ("TTL".toList ++ ([' '] ++
        (Text.ofNat n ++ (['\n'] ++ rest)))))
      ⟨text, ['\n'] ++ rest, [(1, Text.ofNat n)]⟩ := by
  have hDigits : ∀ c ∈ Text.ofNat n, digit c = true :=
    fun c hMem => Text.digit_of_mem_ofNat hMem
  have hHead :
      ∀ c ∈ (Text.ofNat n ++ (['\n'] ++ rest)).head?,
        space c = false := by
    intro c hMem
    rcases List.exists_cons_of_ne_nil
        (Text.ofNat_ne_nil n) with ⟨d, more, hCons⟩
    have hDigit := hDigits d (by simp [hCons])
    rw [hCons] at hMem
    cases hMem
    unfold digit at hDigit
    rw [← Bool.not_eq_true]
    intro hSpace
    simp only [space, List.mem_cons, List.not_mem_nil, or_false,
      decide_eq_true_eq] at hSpace
    rcases hSpace with rfl | rfl | rfl | rfl | rfl
    · cases hDigit
    · cases hDigit
    · cases hDigit
    · cases hDigit
    · cases hDigit
  have hNone : ∀ c ∈ ([] : Text), space c = true := by simp
  exact ⟨_, first_seq (first_lineStart (Or.inl rfl))
    (first_seq (first_many hNone (head_out rfl _))
      (first_seq (first_lit _ _)
        (first_seq (first_litFold _ _)
          (first_seq
            (first_plus (by decide) (by decide) hHead)
            (first_seq
              (first_group
                (first_plus (Text.ofNat_ne_nil n) hDigits
                  (head_out rfl _)))
              first_empty)))))⟩

/- The text of the SOA in front of its first parenthesis. -/
def serialText (serial : Int) : Text :=
  "\n                " ++ Text.ofInt serial ++
    " ; Serial (managed by soteria-agent".toList

/- What stands behind the serial in a header. -/
def headerTail : Text :=
  "\n" ++ "                3600       ; Refresh\n".toList ++
    "                1800       ; Retry\n".toList ++
    "                604800     ; Expire\n".toList ++
    "                300 )      ; Negative cache TTL\n\n".toList

theorem renderHeader_eq
    (z : Zone)
    (rest : Text) :
    renderHeader z ++ rest =
      ("$TTL " ++ Text.ofInt z.writtenTTL ++
          "\n@       IN  ".toList) ++
        ("SOA".toList ++ ([' '] ++ (z.primaryNS ++ ([' '] ++
          (z.admin ++ ([' '] ++ (['('] ++
            (serialText z.serial ++
              ([')'] ++ (headerTail ++ rest)))))))))) := by
  have hName :
      "\n@       IN  SOA ".toList =
        "\n@       IN  ".toList ++
          ("SOA".toList ++ [' ']) := by
    repeat rw [String.toList_ofList]
    rfl
  have hOpen :
      " (\n                ".toList =
        [' '] ++ (['('] ++ "\n                ".toList) := by
    repeat rw [String.toList_ofList]
    rfl
  have hClose :
      " ; Serial (managed by soteria-agent)\n".toList =
        " ; Serial (managed by soteria-agent".toList ++
          ([')'] ++ "\n".toList) := by
    repeat rw [String.toList_ofList]
    rfl
  have hBlank : " ".toList = [' '] := rfl
  unfold renderHeader serialText headerTail
  rw [hName, hOpen, hClose, hBlank]
  simp only [List.append_assoc]

/- What holds of the digits and the sign holds of a number. -/
theorem forall_mem_ofInt
    {p : Char → Prop}
    (hDigits : ∀ k < 10, p (Nat.digitChar k))
    (hSign : p '-')
    (n : Int) :
    ∀ c ∈ Text.ofInt n, p c := by
  have hDigit : ∀ {m : Nat}, ∀ c ∈ Text.ofNat m, p c := by
    intro m c hMem
    rcases Text.digitChar_of_digit
        (Text.digit_of_mem_ofNat hMem) with
      ⟨hLt, hChar⟩
    rw [← hChar]
    exact hDigits _ hLt
  intro c hMem
  cases n with
  | ofNat n => exact hDigit c hMem
  | negSucc n =>
      rcases List.mem_cons.mp hMem with rfl | hTail
      · exact hSign
      · exact hDigit c hTail

/- The SOA that is found is the one of the header. -/
theorem soaRe_header
    {z : Zone}
    (hNS : Bare z.primaryNS)
    (hAdmin : Bare z.admin)
    (rest : Text) :
    ∃ text, soaRe.find (renderHeader z ++ rest) =
      some ⟨text, headerTail ++ rest,
        [(1, z.primaryNS), (2, z.admin),
          (3, serialText z.serial)]⟩ := by
  have hInside : ')' ∉ serialText z.serial := by
    unfold serialText
    rw [List.mem_append, List.mem_append, not_or, not_or]
    refine ⟨⟨by decide, fun hMem => ?_⟩, by decide⟩
    exact forall_mem_ofInt (p := (· ≠ ')')) (by decide)
      (by decide) z.serial _ hMem rfl
  rcases soaRe_first hNS hAdmin hInside (headerTail ++ rest)
    with ⟨text, hFirst⟩
  refine ⟨text, ?_⟩
  rw [renderHeader_eq]
  unfold find
  rw [findFrom_skips]
  · exact findFrom_here hFirst
  · refine soaRe_skips ?_ _
    intro c hMem
    rcases List.mem_append.mp hMem with hMem | hMem
    · rcases List.mem_append.mp hMem with hMem | hMem
      · exact (by decide :
          ∀ c ∈ "$TTL ".toList, Text.foldChar c ≠ 's') c hMem
      · exact forall_mem_ofInt
          (p := fun c => Text.foldChar c ≠ 's') (by decide)
          (by decide) _ c hMem
    · exact (by decide :
        ∀ c ∈ "\n@       IN  ".toList,
          Text.foldChar c ≠ 's') c hMem

theorem parseTTL_header
    {z : Zone}
    (hTTL : 0 ≤ z.writtenTTL)
    (rest : Text) :
    parseTTL (renderHeader z ++ rest) =
      clamp64 z.writtenTTL := by
  rcases Int.eq_ofNat_of_zero_le hTTL with ⟨n, hN⟩
  have hLead : "$TTL ".toList = ['$'] ++ ("TTL".toList ++ [' ']) :=
    rfl
  have hBreak :
      "\n@       IN  ".toList =
        ['\n'] ++ "@       IN  ".toList :=
    rfl
  have hText :
      renderHeader z ++ rest =
        ['$'] ++ ("TTL".toList ++ ([' '] ++ (Text.ofNat n ++
          (['\n'] ++ ("@       IN  ".toList ++ ("SOA".toList ++
            ([' '] ++ (z.primaryNS ++ ([' '] ++ (z.admin ++
              ([' '] ++ (['('] ++ (serialText z.serial ++ ([')'] ++
                (headerTail ++ rest))))))))))))))) := by
    rw [renderHeader_eq, hLead, hBreak, hN]
    simp only [List.append_assoc]
    rfl
  rcases ttlRe_first n _ with ⟨text, hFirst⟩
  rw [hText]
  unfold parseTTL find
  rw [findFrom_here hFirst, hN]
  exact congrArg (fun k : Nat => clamp64 k)
    (Text.digitsValue_ofNat n)

/- The number in front of the comment is the serial. -/
theorem parseSerial_header
    {text rest : Text}
    {ns admin : Text}
    (serial : Int) :
    parseSerial
        ⟨text, rest,
          [(1, ns), (2, admin), (3, serialText serial)]⟩ =
      clamp64 serial := by
  have hFields :
      ∃ more, (serialText serial).fields =
        Text.ofInt serial :: more := by
    have hWord : Text.Word (Text.ofInt serial) := by
      refine ⟨?_, forall_mem_ofInt (by decide) (by decide) _⟩
      cases serial with
      | ofNat n => exact Text.ofNat_ne_nil n
      | negSucc n => exact List.cons_ne_nil _ _
    have hLead : ∀ s : Text,
        Text.fieldsFrom []
            ("\n                ".toList ++ s) =
          Text.fieldsFrom [] s := fun _ => rfl
    unfold serialText Text.fields
    rw [List.append_assoc, hLead]
    exact ⟨_, Text.fieldsFrom_next hWord rfl _⟩
  rcases hFields with ⟨more, hFields⟩
  have hGroup :
      Match.group ⟨text, rest,
          [(1, ns), (2, admin), (3, serialText serial)]⟩ 3 =
        serialText serial := rfl
  unfold parseSerial
  rw [hGroup, hFields]
  simp only
  rw [Text.parseInt_ofInt]
  rfl

/- What is read from a file that begins with a header. -/
theorem parse_header
    {z : Zone}
    (hNS : Bare z.primaryNS)
    (hAdmin : Bare z.admin)
    (hTTL : 0 ≤ z.writtenTTL)
    (name rest : Text) :
    (parseZone name (renderHeader z ++ rest)).primaryNS =
        z.primaryNS ∧
      (parseZone name (renderHeader z ++ rest)).admin =
          z.admin ∧
        (parseZone name (renderHeader z ++ rest)).serial =
            clamp64 z.serial ∧
          (parseZone name (renderHeader z ++ rest)).ttl =
            clamp64 z.writtenTTL := by
  rcases soaRe_header hNS hAdmin rest with ⟨text, hFind⟩
  unfold parseZone
  simp only [hFind]
  exact ⟨rfl, rfl, parseSerial_header z.serial,
    parseTTL_header hTTL rest⟩

end Dns

end Soteria

------------------------------------------------------------
-- Runs of Writes
------------------------------------------------------------

namespace Soteria

namespace Dns

namespace BindProvider

variable {b : BindProvider}
variable {e : Surroundings}
variable {disk disk' : Disk}

/-
  The file of a zone that was created begins with the header
  of this zone, also if it is `named.conf.local`.
-/
theorem createZone_read
    {z : Zone}
    (hOk : b.createZone e z disk = (.ok (), disk')) :
    ∃ rest, disk'.read (b.newFile (trimmedName z.name)) =
      some (renderHeader (b.newZone e z disk) ++ rest) := by
  rcases createZone_ok hOk with ⟨conf, -, -, -, -, hWrite⟩
  rcases writeZone_ok hWrite with ⟨old, hOld, rfl⟩
  unfold renderZone at hOld ⊢
  by_cases hSame :
      Path.clean (b.newFile (trimmedName z.name)) =
        Path.clean b.namedLocal
  · rw [Disk.read_congr _ hSame.symm] at hOld
    rw [Disk.read_congr _ hSame, Disk.read_write]
    cases read_written.1.symm.trans hOld
    exact ⟨_, by rw [List.append_assoc]⟩
  · rw [Disk.read_write_of_ne _ _ hSame]
    exact ⟨_, read_written.1⟩

/-
  The contents a zone file gets by changes of its records,
  one after the other. At every change the zone is
  registered to the file, which has what was written last;
  anything else may have happened to the disk. Its serial and
  the date of the clock are short of the last number that
  64 bits have.
-/
inductive Writes
    (b : BindProvider)
    (name path : Text) : Text → List Text → Prop where
  | done
      {content : Text} :
      Writes b name path content []
  | write
      {content next : Text}
      {later : List Text}
      {e : Surroundings}
      {disk disk' : Disk}
      {records : List Record}
      (hRegistered : Registered b disk name path content)
      (hSerial : (parseZone name content).serial < 0x7fffffffffffffff)
      (hDate : e.today < 0x7fffffffffffffff)
      (hOk :
        b.replaceRecords e name records disk = (.ok (), disk'))
      (hNext : disk'.read path = some next)
      (hLater : Writes b name path next later) :
      Writes b name path content (next :: later)

/- The file begins with a header of these fields. -/
structure Headed
    (ns admin : Text)
    (ttl : Int)
    (content : Text) : Prop where
  header :
    ∃ z rest, content = renderHeader z ++ rest ∧
      z.primaryNS = ns ∧ z.admin = admin ∧ z.writtenTTL = ttl

variable {ns admin : Text}
variable {ttl : Int}

/- The fields that are read from such a file. -/
theorem Headed.parse
    {content : Text}
    (hHeaded : Headed ns admin ttl content)
    (hNS : Bare ns)
    (hAdmin : Bare admin)
    (hTTL : 0 ≤ ttl)
    (hFits : ttl < 0x8000000000000000)
    (name : Text) :
    (parseZone name content).primaryNS = ns ∧
      (parseZone name content).admin = admin ∧
        (parseZone name content).ttl = ttl := by
  rcases hHeaded.header with ⟨z, rest, rfl, rfl, rfl, rfl⟩
  rcases parse_header hNS hAdmin hTTL name rest with
    ⟨hReadNS, hReadAdmin, -, hReadTTL⟩
  have hSame := clamp64_eq_self_iff.mpr
    ⟨Int.le_trans (by decide) hTTL, hFits⟩
  exact ⟨hReadNS, hReadAdmin, hReadTTL.trans hSame⟩

/- A name is registered to one file. -/
theorem registered_unique
    {name path path' content content' : Text}
    (hRegistered : Registered b disk name path content)
    (hOther : Registered b disk name path' content') :
    path = path' ∧ content = content' := by
  rcases hRegistered.registered with
    ⟨conf, bindFile, hConf, hFile, hPath⟩
  rcases hOther.registered with
    ⟨conf', bindFile', hConf', hFile', hPath'⟩
  rw [hConf] at hConf'
  cases hConf'
  rw [hFile] at hFile'
  cases hFile'
  have hSame : path = path' := by rw [← hPath', hPath]
  have hContent := hRegistered.content
  rw [hSame, hOther.content] at hContent
  exact ⟨hSame, (Option.some_inj.mp hContent).symm⟩

/- A write keeps the fields and takes the next serial. -/
theorem Headed.write
    {name path content next : Text}
    {records : List Record}
    (hHeaded : Headed ns admin ttl content)
    (hNS : Bare ns)
    (hAdmin : Bare admin)
    (hTTL : 0 < ttl)
    (hFits : ttl < 0x8000000000000000)
    (hRegistered : Registered b disk name path content)
    (hOk :
      b.replaceRecords e name records disk = (.ok (), disk'))
    (hNext : disk'.read path = some next) :
    Headed ns admin ttl next ∧
      (parseZone name next).serial =
        nextSerial e.today (parseZone name content).serial := by
  rcases (replaceRecords_ok hOk).2 with
    ⟨path', content', hOther, rfl⟩
  rcases registered_unique hOther hRegistered with ⟨rfl, rfl⟩
  rw [Disk.read_write] at hNext
  cases hNext
  rcases hHeaded.parse hNS hAdmin (Int.le_of_lt hTTL) hFits name
    with
    ⟨hReadNS, hReadAdmin, hReadTTL⟩
  have hWritten :
      (replaced e name content' records).writtenTTL = ttl := by
    change (if (parseZone name content').ttl = 0 then 3600
      else (parseZone name content').ttl) = ttl
    rw [hReadTTL, if_neg (Int.ne_of_gt hTTL)]
  constructor
  · exact ⟨_, _, rfl, hReadNS, hReadAdmin, hWritten⟩
  · rw [← hReadNS] at hNS
    rw [← hReadAdmin] at hAdmin
    have hKept :
        0 ≤ (replaced e name content' records).writtenTTL := by
      rw [hWritten]
      exact Int.le_of_lt hTTL
    have hStored :=
      clamp64_nextSerial e.today (parseZone name content').serial
    rw [← hStored]
    exact (parse_header (z := replaced e name content' records)
      hNS hAdmin hKept name _).2.2.1

/- What holds behind a run of writes. -/
theorem Writes.headed
    {name path content : Text}
    {later : List Text}
    (hWrites : Writes b name path content later)
    (hHeaded : Headed ns admin ttl content)
    (hNS : Bare ns)
    (hAdmin : Bare admin)
    (hTTL : 0 < ttl)
    (hFits : ttl < 0x8000000000000000) :
    List.IsChain
        (fun c c' =>
          (parseZone name c).serial <
            (parseZone name c').serial)
        (content :: later) ∧
      ∀ c ∈ content :: later, Headed ns admin ttl c := by
  induction hWrites with
  | done =>
      refine ⟨List.IsChain.singleton _, ?_⟩
      intro c hMem
      cases List.mem_singleton.mp hMem
      exact hHeaded
  | write hRegistered hOld hDate hOk hNext hLater ih =>
      rcases hHeaded.write hNS hAdmin hTTL hFits hRegistered hOk
        hNext with ⟨hNextHeaded, hSerial⟩
      rcases ih hNextHeaded with ⟨hChain, hAll⟩
      constructor
      · refine List.IsChain.cons_cons ?_ hChain
        rw [hSerial]
        exact lt_nextSerial hDate hOld
      · intro c hMem
        rcases List.mem_cons.mp hMem with rfl | hMem
        · exact hHeaded
        · exact hAll c hMem

/- The TTL of a zone that was created. -/
theorem newZone_writtenTTL (z : Zone) :
    (b.newZone e z disk).writtenTTL =
      if z.ttl = 0 then 3600 else z.ttl := by
  change (if (if z.ttl = 0 then (3600 : Int) else z.ttl) = 0
    then 3600 else if z.ttl = 0 then 3600 else z.ttl) = _
  split
  · rfl
  · rfl

/-
  The serials of a zone that was created increase with every
  change of its records, and its name server, its contact and
  its default TTL stay, as long as the zone is registered to
  the file that was written for it.
-/
theorem serials_increase
    {z : Zone}
    {content : Text}
    {later : List Text}
    (hCreated : b.createZone e z disk = (.ok (), disk'))
    (hTTL : 0 ≤ z.ttl)
    (hFits : z.ttl < 0x8000000000000000)
    (hNS : Bare (b.newZone e z disk).primaryNS)
    (hAdmin : Bare (b.newZone e z disk).admin)
    (hContent :
      disk'.read (b.newFile (trimmedName z.name)) =
        some content)
    (hWrites :
      Writes b (trimmedName z.name)
        (b.newFile (trimmedName z.name)) content later) :
    List.IsChain
        (fun c c' =>
          (parseZone (trimmedName z.name) c).serial <
            (parseZone (trimmedName z.name) c').serial)
        (content :: later) ∧
      ∀ c ∈ content :: later,
        (parseZone (trimmedName z.name) c).primaryNS =
            (b.newZone e z disk).primaryNS ∧
          (parseZone (trimmedName z.name) c).admin =
              (b.newZone e z disk).admin ∧
            (parseZone (trimmedName z.name) c).ttl =
              if z.ttl = 0 then 3600 else z.ttl := by
  have hPos : 0 < (if z.ttl = 0 then (3600 : Int) else z.ttl) := by
    split <;> omega
  have hPosFits :
      (if z.ttl = 0 then (3600 : Int) else z.ttl) <
        0x8000000000000000 := by
    split <;> omega
  have hHeaded :
      Headed (b.newZone e z disk).primaryNS
        (b.newZone e z disk).admin
        (if z.ttl = 0 then 3600 else z.ttl) content := by
    rcases createZone_read hCreated with ⟨rest, hRead⟩
    rw [hContent] at hRead
    cases hRead
    exact ⟨_, rest, rfl, rfl, rfl, newZone_writtenTTL z⟩
  rcases hWrites.headed hHeaded hNS hAdmin hPos hPosFits with
    ⟨hChain, hAll⟩
  refine ⟨hChain, ?_⟩
  intro c hMem
  exact (hAll c hMem).parse hNS hAdmin (Int.le_of_lt hPos)
    hPosFits _

/- The record that is given to a zone. -/
def wwwRecord : Record :=
  ⟨"www", "A", 0, "192.0.2.1"⟩

/- What is left if the clock is behind when this is done. -/
def labDiskChanged (name : Text) : Disk :=
  (strayProvider.replaceRecords (Surroundings.calm 2025010100)
    name [wwwRecord] (labDiskWith name)).2

/- The file of the new zone, and what it is changed to. -/
def newZoneFile : Text :=
  ((labDiskWith "new").read "/zones/db.new").getD []

def newZoneFileChanged : Text :=
  ((labDiskChanged "new").read "/zones/db.new").getD []

theorem newZoneFile_registered :
    Registered strayProvider (labDiskWith "new") "new"
      "/zones/db.new" newZoneFile := by
  refine ⟨⟨_, "/etc/bind/db.new",
    read_eq_getD _ (by decide +kernel), ?_, ?_⟩,
    read_eq_getD _ (by decide +kernel)⟩
  · decide +kernel
  · decide +kernel

theorem newZoneFile_writes :
    Writes strayProvider "new" "/zones/db.new" newZoneFile
      [newZoneFileChanged] := by
  apply Writes.write newZoneFile_registered
    (by decide +kernel) (by decide)
    (eq_ok_of_isSome _ ?_) (read_eq_getD _ ?_) .done
  · decide +kernel
  · decide +kernel

/- The serial of a zone increases if the clock is behind. -/
theorem serials_increase_new :
    Writes strayProvider "new" "/zones/db.new" newZoneFile
        [newZoneFileChanged] ∧
      List.IsChain
        (fun c c' =>
          (parseZone "new" c).serial <
            (parseZone "new" c').serial)
        [newZoneFile, newZoneFileChanged] := by
  have hName :
      trimmedName (zoneOf "new").name = "new" := by
    decide +kernel
  have hPath :
      strayProvider.newFile "new" = "/zones/db.new" := by
    decide +kernel
  have hContent :
      (labDiskWith "new").read
          (strayProvider.newFile
            (trimmedName (zoneOf "new").name)) =
        some newZoneFile := by
    rw [hName, hPath]
    exact read_eq_getD _ (by decide +kernel)
  have hWrites :
      Writes strayProvider (trimmedName (zoneOf "new").name)
        (strayProvider.newFile
          (trimmedName (zoneOf "new").name)) newZoneFile
        [newZoneFileChanged] := by
    rw [hName, hPath]
    exact newZoneFile_writes
  have hIncrease :=
    serials_increase (labDiskWith_ok "new" (by decide +kernel))
      (by decide) (by decide)
      ⟨by decide +kernel, by decide +kernel⟩
      ⟨by decide +kernel, by decide +kernel⟩ hContent hWrites
  rw [hName] at hIncrease
  exact ⟨newZoneFile_writes, hIncrease.1⟩

/-
  A name with elements that lead up is registered to the file
  of another zone, whose name server it gets.
-/
theorem strayed_zone_changes :
    strayProvider.createZone (Surroundings.calm 2026010100)
        (zoneOf "a/../../db.lab") labDisk =
          (.ok (), labDiskWith "a/../../db.lab") ∧
      0 ≤ (zoneOf "a/../../db.lab").ttl ∧
      Bare (strayProvider.newZone
        (Surroundings.calm 2026010100)
        (zoneOf "a/../../db.lab") labDisk).primaryNS ∧
      Bare (strayProvider.newZone
        (Surroundings.calm 2026010100)
        (zoneOf "a/../../db.lab") labDisk).admin ∧
      strayProvider.replaceRecords
          (Surroundings.calm 2025010100) "a/../../db.lab"
          [wwwRecord] (labDiskWith "a/../../db.lab") =
            (.ok (), labDiskChanged "a/../../db.lab") ∧
      ((strayProvider.readZone (Surroundings.calm 2026010100)
          "a/../../db.lab"
          (labDiskChanged "a/../../db.lab")).toOption.map
        Zone.primaryNS) = some "ns.lab".toList ∧
      (strayProvider.newZone (Surroundings.calm 2026010100)
        (zoneOf "a/../../db.lab") labDisk).primaryNS =
          "ns.a/../../db.lab" := by
  refine ⟨labDiskWith_ok _ (by decide +kernel), by decide,
    ⟨by decide +kernel, by decide +kernel⟩,
    ⟨by decide +kernel, by decide +kernel⟩,
    eq_ok_of_isSome _ (by decide +kernel), ?_, ?_⟩
  · decide +kernel
  · decide +kernel

end BindProvider

end Dns

end Soteria
