import Soteria.Api.Settings
import Soteria.Foundation.FileTree
import Soteria.Foundation.Transition

/-
  The files of the LDAP bundle with their contents. What PEM
  text, a certificate and a pair of a certificate and a key
  are is left open.

  Key definitions include:
    * `CertChecks`, `CertFiles`
    * `LdapBundle.putLdapCert`, `LdapBundle.deleteLdapCert`
    * `PairMatches`, `PemUpload.Harmless`
    * `bundle_kept`
-/

------------------------------------------------------------
-- Uploads
------------------------------------------------------------

namespace Soteria

namespace Api

open Tacconfig

/- The files of the bundle that exist, with their contents. -/
abbrev CertFiles := FileTree LdapCert Text

/-
  `pem.Decode`, with the type and the content of the block,
  and the errors of `x509.ParseCertificate` and of
  `tls.LoadX509KeyPair`.
-/
structure CertChecks where
  decode : Text → Option (Text × Text)
  parseCertificate : Text → Option Text
  loadPair : Text → Text → Option Text

/- An error of `os.WriteFile`, and a content it has left. -/
structure StoreFault where
  error : Text
  left : Option Text

/-
  An upload: the name in the path, the decoded body, and the
  accesses that fail. The pair may also fail to be read.
-/
structure PemUpload where
  name : Text
  body : Except Text Text
  mkdirFault : Option Text
  writeFault : Option StoreFault
  loadFault : Option Text
  removeFails : Bool

/- The content that is stored. -/
def storedText (pem : Text) : Text :=
  pem.trimSpace ++ "\n".toList

/- The checks of the content, before anything is written. -/
def CertChecks.refusal
    (c : CertChecks)
    (cert : LdapCert)
    (raw : Text) : Option Text :=
  match c.decode raw with
  | none => some "not a valid PEM file"
  | some (type, block) =>
      if cert = .clientKey then
        if type.contains "PRIVATE KEY" then none
        else
          some ("expected a PRIVATE KEY PEM block, got " ++
            type.quoted)
      else
        (c.parseCertificate block).map fun error =>
          "not a valid certificate: " ++ error

/- The error of loading the pair, if both halves exist. -/
def CertChecks.pairError
    (c : CertChecks)
    (loadFault : Option Text)
    (files : CertFiles) : Option Text :=
  match files .clientCert, files .clientKey with
  | some crt, some key => loadFault.or (c.loadPair crt key)
  | _, _ => none

/- The bundle without a file. -/
def withoutCert
    (files : CertFiles)
    (cert : LdapCert) : CertFiles :=
  fun k => if k = cert then none else files k

namespace LdapBundle

/- `putLdapCert`. -/
def putLdapCert
    (c : CertChecks)
    (u : PemUpload)
    (files : CertFiles) : Option CertError × CertFiles :=
  match ldapCertOf u.name with
  | none =>
      (some (.unknown u.name
        " (want ca, client-cert or client-key)"), files)
  | some cert =>
      match u.body with
      | .error error => (some (.refused error), files)
      | .ok pem =>
          match c.refusal cert (storedText pem) with
          | some error => (some (.refused error), files)
          | none =>
              match u.mkdirFault, u.writeFault with
              | some error, _ => (some (.io error), files)
              | none, some fault =>
                  (some (.io fault.error),
                    match fault.left with
                    | some content => files.set cert content
                    | none => files)
              | none, none =>
                  let stored := files.set cert (storedText pem)
                  match c.pairError u.loadFault stored with
                  | some error =>
                      (some (.mismatch error),
                        if u.removeFails then stored
                        else withoutCert stored cert)
                  | none => (none, stored)

/- `deleteLdapCert`, with the error of the removal. -/
def deleteLdapCert
    (name : Text)
    (fault : Option Text)
    (files : CertFiles) : Option CertError × CertFiles :=
  match ldapCertOf name with
  | none => (some (.unknown name []), files)
  | some cert =>
      match fault with
      | some error => (some (.io error), files)
      | none => (none, withoutCert files cert)

end LdapBundle

/- Which files exist. -/
def presentCerts (files : CertFiles) : LdapCerts where
  ca := (files .ca).isSome
  clientCert := (files .clientCert).isSome
  clientKey := (files .clientKey).isSome

theorem presentCerts_set
    (files : CertFiles)
    (cert : LdapCert)
    (content : Text) :
    presentCerts (files.set cert content) =
      withCert (presentCerts files) true cert := by
  cases cert with
  | ca => rfl
  | clientCert => rfl
  | clientKey => rfl

theorem presentCerts_without
    (files : CertFiles)
    (cert : LdapCert) :
    presentCerts (withoutCert files cert) =
      withCert (presentCerts files) false cert := by
  cases cert with
  | ca => rfl
  | clientCert => rfl
  | clientKey => rfl

/- The pair is loaded only if both halves exist. -/
theorem pairError_eq_if
    (c : CertChecks)
    (loadFault : Option Text)
    (files : CertFiles) :
    (if (presentCerts files).clientCert &&
        (presentCerts files).clientKey then
      c.pairError loadFault files
    else none) = c.pairError loadFault files := by
  unfold presentCerts CertChecks.pairError
  cases files .clientCert with
  | none => rfl
  | some crt =>
      cases files .clientKey with
      | none => rfl
      | some key => rfl

/- What the upload is where only the presence is kept. -/
def PemUpload.presence
    (u : PemUpload)
    (c : CertChecks)
    (files : CertFiles) : CertUpload where
  name := u.name
  refused :=
    match ldapCertOf u.name, u.body with
    | some _, .error error => some error
    | some cert, .ok pem => c.refusal cert (storedText pem)
    | none, _ => none
  storeFault :=
    match u.mkdirFault, u.writeFault with
    | some error, _ => some (error, false)
    | none, some fault => some (fault.error, fault.left.isSome)
    | none, none => none
  mismatch :=
    match ldapCertOf u.name, u.body with
    | some cert, .ok pem =>
        c.pairError u.loadFault
          (files.set cert (storedText pem))
    | _, _ => none

/- The answer and the files that exist are the same there. -/
theorem putLdapCert_presence
    (c : CertChecks)
    (u : PemUpload)
    (files : CertFiles)
    (hRemoves : u.removeFails = false) :
    Api.putLdapCert (u.presence c files) (presentCerts files) =
      ((LdapBundle.putLdapCert c u files).1,
        presentCerts (LdapBundle.putLdapCert c u files).2) := by
  unfold Api.putLdapCert LdapBundle.putLdapCert
    PemUpload.presence
  cases ldapCertOf u.name with
  | none => rfl
  | some cert =>
      cases u.body with
      | error error => rfl
      | ok pem =>
          simp only
          cases c.refusal cert (storedText pem) with
          | some error => rfl
          | none =>
              cases u.mkdirFault with
              | some error => rfl
              | none =>
                  cases u.writeFault with
                  | some fault =>
                      cases hLeft : fault.left with
                      | none => simp [hLeft]
                      | some content =>
                          simp [hLeft, presentCerts_set]
                  | none =>
                      simp only
                      rw [← presentCerts_set files cert
                          (storedText pem),
                        pairError_eq_if, hRemoves]
                      cases c.pairError u.loadFault
                          (files.set cert
                            (storedText pem)) with
                      | none => rfl
                      | some error =>
                          simp [presentCerts_without]

theorem deleteLdapCert_presence
    (name : Text)
    (fault : Option Text)
    (files : CertFiles) :
    Api.deleteLdapCert name fault (presentCerts files) =
      ((LdapBundle.deleteLdapCert name fault files).1,
        presentCerts
          (LdapBundle.deleteLdapCert name fault files).2) := by
  unfold Api.deleteLdapCert LdapBundle.deleteLdapCert
  cases ldapCertOf name with
  | none => rfl
  | some cert =>
      cases fault with
      | some error => rfl
      | none => simp [presentCerts_without]

end Api

end Soteria

------------------------------------------------------------
-- Refused Uploads
------------------------------------------------------------

namespace Soteria

namespace Api

open Tacconfig

variable {c : CertChecks}
variable {u : PemUpload}
variable {files : CertFiles}

/- The upload passes its checks and is going to be written. -/
structure PemUpload.Stores
    (u : PemUpload)
    (c : CertChecks)
    (cert : LdapCert)
    (pem : Text) : Prop where
  name : ldapCertOf u.name = some cert
  body : u.body = .ok pem
  accepted : c.refusal cert (storedText pem) = none
  directory : u.mkdirFault = none

/-
  What an upload writes does no harm: a write that is cut off
  leaves the content the file had, and the file of a pair
  that does not match was not there before and is removed, or
  had this content and stays.
-/
def PemUpload.Harmless
    (u : PemUpload)
    (c : CertChecks)
    (files : CertFiles) : Prop :=
  ∀ cert pem, u.Stores c cert pem →
    match u.writeFault with
    | some fault =>
        ∀ content, fault.left = some content →
          files cert = some content
    | none =>
        c.pairError u.loadFault
            (files.set cert (storedText pem)) ≠ none →
          files cert =
            if u.removeFails then some (storedText pem)
            else none

/- The accesses behind the checks do not fail halfway. -/
structure PemUpload.Tidy (u : PemUpload) : Prop where
  whole : ∀ fault, u.writeFault = some fault →
    fault.left = none
  removes : u.removeFails = false

/- What an upload does that is not refused. -/
inductive Stored
    (c : CertChecks)
    (u : PemUpload)
    (files : CertFiles)
    (cert : LdapCert)
    (pem : Text) : Option CertError × CertFiles → Prop where
  | cut {fault : StoreFault} :
      u.writeFault = some fault →
        Stored c u files cert pem
          (some (.io fault.error),
            match fault.left with
            | some content => files.set cert content
            | none => files)
  | mismatch {error : Text} :
      u.writeFault = none →
        c.pairError u.loadFault
            (files.set cert (storedText pem)) = some error →
          Stored c u files cert pem
            (some (.mismatch error),
              if u.removeFails then
                files.set cert (storedText pem)
              else
                withoutCert (files.set cert (storedText pem))
                  cert)
  | saved :
      u.writeFault = none →
        c.pairError u.loadFault
            (files.set cert (storedText pem)) = none →
          Stored c u files cert pem
            (none, files.set cert (storedText pem))

theorem putLdapCert_cases
    (c : CertChecks)
    (u : PemUpload)
    (files : CertFiles) :
    ((∀ cert pem, ¬ u.Stores c cert pem) ∧
        (LdapBundle.putLdapCert c u files).2 = files) ∨
      ∃ cert pem, u.Stores c cert pem ∧
        Stored c u files cert pem
          (LdapBundle.putLdapCert c u files) := by
  unfold LdapBundle.putLdapCert
  cases hName : ldapCertOf u.name with
  | none =>
      left
      refine ⟨fun cert pem h => ?_, rfl⟩
      have hSome := h.name
      rw [hName] at hSome
      cases hSome
  | some cert =>
      cases hBody : u.body with
      | error error =>
          left
          refine ⟨fun cert pem h => ?_, rfl⟩
          have hOk := h.body
          rw [hBody] at hOk
          cases hOk
      | ok pem =>
          cases hRefusal : c.refusal cert (storedText pem) with
          | some error =>
              left
              simp only [hRefusal]
              refine ⟨fun cert' pem' h => ?_, trivial⟩
              have hSome := h.name
              have hOk := h.body
              have hNone := h.accepted
              rw [hName] at hSome
              rw [hBody] at hOk
              cases hSome
              cases hOk
              rw [hRefusal] at hNone
              cases hNone
          | none =>
              cases hMkdir : u.mkdirFault with
              | some error =>
                  left
                  simp only [hRefusal]
                  refine ⟨fun cert pem h => ?_, trivial⟩
                  have hNone := h.directory
                  rw [hMkdir] at hNone
                  cases hNone
              | none =>
                  right
                  refine ⟨cert, pem,
                    ⟨hName, hBody, hRefusal, hMkdir⟩, ?_⟩
                  simp only [hRefusal]
                  cases hWrite : u.writeFault with
                  | some fault => exact .cut hWrite
                  | none =>
                      cases hPair :
                          c.pairError u.loadFault
                            (files.set cert
                              (storedText pem)) with
                      | some error =>
                          exact .mismatch hWrite hPair
                      | none =>
                          exact .saved hWrite hPair

theorem stores_unique
    {cert cert' : LdapCert}
    {pem pem' : Text}
    (hStores : u.Stores c cert pem)
    (hOther : u.Stores c cert' pem') :
    cert' = cert ∧ pem' = pem := by
  have hName := hOther.name
  have hBody := hOther.body
  rw [hStores.name] at hName
  rw [hStores.body] at hBody
  cases hName
  cases hBody
  exact ⟨rfl, rfl⟩

theorem set_eq_self_iff
    {cert : LdapCert}
    {content : Text} :
    files.set cert content = files ↔
      files cert = some content := by
  constructor
  · intro hSame
    rw [← hSame]
    exact FileTree.set_self files cert content
  · intro hContent
    funext k
    by_cases hk : k = cert
    · subst hk
      rw [FileTree.set_self, hContent]
    · exact FileTree.set_of_ne files content hk

theorem without_set_eq_self_iff
    {cert : LdapCert}
    {content : Text} :
    withoutCert (files.set cert content) cert = files ↔
      files cert = none := by
  constructor
  · intro hSame
    rw [← hSame]
    exact if_pos rfl
  · intro hNone
    funext k
    unfold withoutCert
    by_cases hk : k = cert
    · subst hk
      rw [if_pos rfl, hNone]
    · rw [if_neg hk, FileTree.set_of_ne files content hk]

/-
  An upload that is answered with an error leaves the files
  alone exactly if it is harmless.
-/
theorem refused_unchanged_iff :
    ((LdapBundle.putLdapCert c u files).1 ≠ none →
        (LdapBundle.putLdapCert c u files).2 = files) ↔
      u.Harmless c files := by
  rcases putLdapCert_cases c u files with
    ⟨hNever, hSame⟩ | ⟨cert, pem, hStores, hStored⟩
  · refine iff_of_true (fun _ => hSame) ?_
    intro cert pem hStores
    exact absurd hStores (hNever cert pem)
  · have hHarmless :
        u.Harmless c files ↔
          match u.writeFault with
          | some fault =>
              ∀ content, fault.left = some content →
                files cert = some content
          | none =>
              c.pairError u.loadFault
                  (files.set cert (storedText pem)) ≠ none →
                files cert =
                  if u.removeFails then some (storedText pem)
                  else none := by
      constructor
      · exact fun h => h cert pem hStores
      · intro h cert' pem' hOther
        rcases stores_unique hStores hOther with ⟨rfl, rfl⟩
        exact h
    rw [hHarmless]
    generalize LdapBundle.putLdapCert c u files = result
      at hStored
    cases hStored with
    | @cut fault hWrite =>
        rw [hWrite]
        simp only [ne_eq, reduceCtorEq, not_false_eq_true,
          forall_const]
        cases fault.left with
        | none => simp
        | some content => simp [set_eq_self_iff]
    | mismatch hWrite hPair =>
        rw [hWrite]
        simp only [hPair, ne_eq, reduceCtorEq,
          not_false_eq_true, forall_const]
        split
        · exact set_eq_self_iff
        · exact without_set_eq_self_iff
    | saved hWrite hPair =>
        rw [hWrite]
        simp [hPair]

end Api

end Soteria

------------------------------------------------------------
-- Pairs
------------------------------------------------------------

namespace Soteria

namespace Api

open Tacconfig

variable {c : CertChecks}
variable {u : PemUpload}
variable {files : CertFiles}

/- A client certificate and a key that are there match. -/
def PairMatches (c : CertChecks) (files : CertFiles) : Prop :=
  ∀ crt key, files .clientCert = some crt →
    files .clientKey = some key → c.loadPair crt key = none

theorem pairMatches_of_loaded
    {loadFault : Option Text}
    (hLoaded : c.pairError loadFault files = none) :
    PairMatches c files := by
  intro crt key hCrt hKey
  unfold CertChecks.pairError at hLoaded
  rw [hCrt, hKey] at hLoaded
  exact (Option.or_eq_none_iff.mp hLoaded).2

theorem pairMatches_without
    (hPair : PairMatches c files)
    (cert : LdapCert) :
    PairMatches c (withoutCert files cert) := by
  intro crt key hCrt hKey
  unfold withoutCert at hCrt hKey
  split at hCrt
  · cases hCrt
  · split at hKey
    · cases hKey
    · exact hPair crt key hCrt hKey

/- Removing what was stored leaves the other files. -/
theorem pairMatches_without_set
    (hPair : PairMatches c files)
    (cert : LdapCert)
    (content : Text) :
    PairMatches c
      (withoutCert (files.set cert content) cert) := by
  have hSame :
      withoutCert (files.set cert content) cert =
        withoutCert files cert := by
    funext k
    unfold withoutCert
    by_cases hk : k = cert
    · rw [if_pos hk, if_pos hk]
    · rw [if_neg hk, if_neg hk,
        FileTree.set_of_ne files content hk]
  rw [hSame]
  exact pairMatches_without hPair cert

/-
  A present pair still matches after an upload that is
  harmless, and after one whose accesses do not fail halfway.
-/
theorem pairMatches_put
    (hPair : PairMatches c files)
    (hSafe : u.Harmless c files ∨ u.Tidy) :
    PairMatches c (LdapBundle.putLdapCert c u files).2 := by
  by_cases hSame : (LdapBundle.putLdapCert c u files).2 = files
  · rw [hSame]
    exact hPair
  · rcases putLdapCert_cases c u files with
      ⟨-, hFiles⟩ | ⟨cert, pem, -, hStored⟩
    · exact absurd hFiles hSame
    · have hKept :
          ((LdapBundle.putLdapCert c u files).1 ≠ none →
              (LdapBundle.putLdapCert c u files).2 = files) ↔
            u.Harmless c files :=
        refused_unchanged_iff
      generalize LdapBundle.putLdapCert c u files = result
        at hStored hSame hKept
      cases hStored with
      | @cut fault hWrite =>
          rcases hSafe with hHarmless | hTidy
          · exact absurd (hKept.mpr hHarmless (by simp)) hSame
          · rw [hTidy.whole fault hWrite]
            exact hPair
      | mismatch hWrite hError =>
          rcases hSafe with hHarmless | hTidy
          · exact absurd (hKept.mpr hHarmless (by simp)) hSame
          · simp only [hTidy.removes, Bool.false_eq_true,
              if_false]
            exact pairMatches_without_set hPair cert _
      | saved hWrite hLoaded =>
          exact pairMatches_of_loaded hLoaded

/- A request that changes the bundle. -/
inductive BundleRequest where
  | put (u : PemUpload)
  | delete (name : Text) (fault : Option Text)

/- The files after a request. -/
def BundleRequest.after
    (c : CertChecks)
    (files : CertFiles) : BundleRequest → CertFiles
| .put u => (LdapBundle.putLdapCert c u files).2
| .delete name fault =>
    (LdapBundle.deleteLdapCert name fault files).2

/- An upload is harmless or does not fail halfway. -/
def BundleRequest.Safe
    (c : CertChecks)
    (files : CertFiles) : BundleRequest → Prop
| .put u => u.Harmless c files ∨ u.Tidy
| .delete _ _ => True

theorem pairMatches_after
    {r : BundleRequest}
    (hPair : PairMatches c files)
    (hSafe : r.Safe c files) :
    PairMatches c (r.after c files) := by
  cases r with
  | put u => exact pairMatches_put hPair hSafe
  | delete name fault =>
      change PairMatches c
        (LdapBundle.deleteLdapCert name fault files).2
      unfold LdapBundle.deleteLdapCert
      cases ldapCertOf name with
      | none => exact hPair
      | some cert =>
          cases fault with
          | some error => exact hPair
          | none => exact pairMatches_without hPair cert

/-
  An upload that is answered with an error leaves the bundle
  as it was exactly if it is harmless; and a present pair
  matches after every run of requests that are harmless or
  do not fail halfway.
-/
theorem bundle_kept
    (hPair : PairMatches c files) :
    (∀ u : PemUpload,
      ((LdapBundle.putLdapCert c u files).1 ≠ none →
          (LdapBundle.putLdapCert c u files).2 = files) ↔
        u.Harmless c files) ∧
      ∀ requests : List BundleRequest,
        Transition.Along (BundleRequest.after c)
            (BundleRequest.Safe c) files requests →
          PairMatches c
            (requests.foldl (BundleRequest.after c) files) := by
  refine ⟨fun u => refused_unchanged_iff, ?_⟩
  intro requests hAlong
  exact Transition.Along.final
    (fun _ _ hBefore hSafe => pairMatches_after hBefore hSafe)
    hPair hAlong

/- Checks that take every text, and a text that is a pair. -/
def sampleChecks : CertChecks where
  decode := fun raw => some ("PRIVATE KEY", raw)
  parseCertificate := fun _ => none
  loadPair := fun crt key =>
    if crt = key then none else some "no match"

/- An installed pair. -/
def sampleBundle : CertFiles :=
  FileTree.set
    (FileTree.set (fun _ => none) LdapCert.clientCert "a\n")
    LdapCert.clientKey "a\n"

/- Another key. -/
def otherKey : PemUpload where
  name := "client-key"
  body := .ok "b"
  mkdirFault := none
  writeFault := none
  loadFault := none
  removeFails := false

theorem bundle_kept_sample :
    PairMatches sampleChecks
      ([BundleRequest.put otherKey,
        .delete "client-cert" none].foldl
          (BundleRequest.after sampleChecks) sampleBundle) :=
  (bundle_kept
    (fun crt key hCrt hKey => by
      cases hCrt
      cases hKey
      rfl)).2 _
    ⟨.inr ⟨(fun _ hFault => nomatch hFault), rfl⟩,
      trivial, trivial⟩

/-
  A key that does not match is refused and takes the key that
  was installed with it.
-/
theorem refused_key_lost :
    PairMatches sampleChecks sampleBundle ∧
      (LdapBundle.putLdapCert sampleChecks otherKey
        sampleBundle).1.isSome = true ∧
      sampleBundle .clientKey = some "a\n".toList ∧
      (LdapBundle.putLdapCert sampleChecks otherKey
        sampleBundle).2 .clientKey = none := by
  refine ⟨?_, by decide +kernel, rfl, by decide +kernel⟩
  intro crt key hCrt hKey
  cases hCrt
  cases hKey
  rfl

end Api

end Soteria
