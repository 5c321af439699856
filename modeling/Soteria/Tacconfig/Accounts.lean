import Soteria.Foundation.Words
import Soteria.Tacconfig.Records

/-
  Users, rendered and parsed.

  The login of a user is a value of two words, the second
  of them the hash in quotes. It is read as the hash where
  the hash has no blanks.

  Key definitions include:
    * `User.entry`
    * `HashText`, `User.Encodable`
    * `loginHash_login`
    * `parseUsers_renderUsers`
-/

------------------------------------------------------------
-- Entries of Users
------------------------------------------------------------

namespace Soteria

namespace Tacconfig

/- The value of the login of a hash. -/
def login (hash : Text) : Text :=
  "crypt " ++ inQuotes hash

/- The status of a user, without the usual one. -/
def User.remarked (u : User) : Text :=
  if u.status = "active" then [] else u.status

/- A user as an entry. -/
def User.entry (u : User) : Entry where
  kind := "user"
  label := u.name
  remark := remarkFor "status" u.remarked
  assigns :=
    ("password login", login u.hash) ::
      ("password pap", "login") ::
        assignUnlessEmpty "member" u.group

/- A text without quotes, backslashes and white space. -/
structure HashText (hash : Text) : Prop where
  noQuote : '"' ∉ hash
  noEscape : '\\' ∉ hash
  noSpace : ∀ c ∈ hash, Text.isSpace c = false

structure User.Encodable (u : User) : Prop where
  name : PlainWord u.name
  group : u.group = [] ∨ PlainWord u.group
  status : TrimmedLine u.status
  hash : HashText u.hash

/- A user as it is listed. -/
def User.listed (u : User) : User :=
  { u with
    authSource := "local"
    lastLogin := "-"
    status := if u.status = [] then "active" else u.status
    password := [] }

end Tacconfig

end Soteria

------------------------------------------------------------
-- Logins
------------------------------------------------------------

namespace Soteria

namespace Tacconfig

theorem noSpace_inQuotes
    {hash : Text}
    (hHash : HashText hash) :
    ∀ c ∈ inQuotes hash, Text.isSpace c = false := by
  intro c hc
  unfold inQuotes at hc
  rcases List.mem_append.mp hc with hc | hc
  · rcases List.mem_append.mp hc with hc | hc
    · rw [List.mem_singleton.mp hc]
      decide
    · exact hHash.noSpace c hc
  · rw [List.mem_singleton.mp hc]
    decide

/- The hash of a login is read from it. -/
theorem loginHash_login
    {hash : Text}
    (hHash : HashText hash) :
    loginHash (login hash) = hash := by
  have hStart :
      ∀ s : Text,
        Text.fields ("crypt " ++ s) =
          ("crypt" : Text) :: Text.fieldsFrom [] s :=
    fun _ => rfl
  have hQuoted :=
    Text.fieldsFrom_word (noSpace_inQuotes hHash) [] []
  rw [List.append_nil, List.append_nil] at hQuoted
  have hWord : (inQuotes hash).reverse ≠ [] := by
    simp [inQuotes]
  have hFields :
      (login hash).fields = [("crypt" : Text), inQuotes hash] := by
    unfold login
    rw [hStart, hQuoted, Text.fieldsFrom, if_neg hWord,
      List.reverse_reverse]
  unfold loginHash
  rw [hFields]
  exact stripQuotes_inQuotes hash

theorem HashText.valueLine
    {hash : Text}
    (hHash : HashText hash) :
    ValueLine (login hash) := by
  have hClosed : Closed hash :=
    closed_of_plain hHash.noQuote hHash.noEscape
  have hNonempty :
      ("\"" ++ hash ++ "\"" : Text) ≠ [] := by
    simp
  exact plainWord_crypt.valueLine.gap hClosed.valueLine
    (by decide) hNonempty

end Tacconfig

end Soteria

------------------------------------------------------------
-- The Round Trip of Users
------------------------------------------------------------

namespace Soteria

namespace Tacconfig

theorem User.Encodable.remarked
    {u : User}
    (hEncodable : u.Encodable) :
    TrimmedLine u.remarked := by
  unfold User.remarked
  by_cases hActive : u.status = "active"
  · rw [if_pos hActive]
    exact ⟨by simp, rfl⟩
  · rw [if_neg hActive]
    exact hEncodable.status

theorem renderUser_lays
    {u : User}
    (hEncodable : u.Encodable) :
    Lays (renderUser u) u.entry.height
      (fun line => [u.entry.node line]) u.entry.remarks := by
  have hRemark :=
    hEncodable.remarked.remarkFor "status" (by decide)
  have hHead :=
    heading_label plainWord_user (by decide) (by decide)
      (hEncodable.name.lexesTo 0) (by simp [Token.isText])
  have hExact :=
    plainWord_user.exact.gap hEncodable.name.exact indent_blank
      (by simp)
  have hThree : Indent "   " := by
    decide
  have hNine : Indent "         " := by
    decide
  have hLogin :=
    LaysAssigns.twoWords plainWord_password (by decide)
      plainWord_login indent_blank (by simp)
      hEncodable.hash.valueLine
  have hPap :=
    LaysAssigns.twoWords plainWord_password (by decide)
      plainWord_pap hThree (by simp) plainWord_login.valueLine
  have hMember :=
    laysAssigns_unlessEmpty plainWord_member (by decide) hNine
      (by simp) hEncodable.group
  have hAll :=
    lays_entry hHead hExact hRemark.oneLine hRemark.trimmed
      (hLogin.append (hPap.append hMember))
  rw [lineOf_single] at hAll
  have hField :
      renderField "    # @status "
          (if u.status = "active" then [] else u.status) =
        renderField "    # " (remarkFor "status" u.remarked) :=
    renderField_remark "status" u.remarked
  have hStart : ("user " : Text) = "user" ++ " " := rfl
  have hLoginLine :
      ("    password login = crypt \"" : Text) =
        "    " ++ "password" ++ " " ++ "login" ++ " " ++ "= " ++
          "crypt " ++ "\"" := by
    repeat rw [String.toList_ofList]
    rfl
  have hPapLine :
      ("    password pap   = login\n" : Text) =
        "    " ++ "password" ++ " " ++ "pap" ++ "   " ++ "= " ++
          "login" ++ "\n" := by
    repeat rw [String.toList_ofList]
    rfl
  have hMemberLine :
      ("    member         = " : Text) =
        "    " ++ "member" ++ "         " ++ "= " := by
    repeat rw [String.toList_ofList]
    rfl
  have hQuote : ("\"\n" : Text) = "\"" ++ "\n" := rfl
  have hEnd : ("\x7d\n\n" : Text) = "\x7d\n" ++ "\n" := rfl
  unfold renderUser
  rw [hField, hStart, hLoginLine, hPapLine, hMemberLine, hQuote,
    hEnd]
  unfold login inQuotes at hAll
  simp only [List.append_assoc] at hAll ⊢
  exact hAll

/- The entry of a user is read as the user. -/
theorem userFromNode_entry
    {u : User}
    (hEncodable : u.Encodable)
    {comments : List Comment}
    {line : Nat}
    (hNoted :
      annotation comments line (u.entry.last line) "status" =
        u.entry.noted "status") :
    userFromNode comments (u.entry.node line) =
      some u.listed := by
  have hRemarked :
      u.entry.noted "status" = u.remarked :=
    annotation_remarkFor rfl hEncodable.remarked.trimmed
  rw [hRemarked] at hNoted
  have hLogin :
      valueOf "password login" u.entry.assigns =
        login u.hash := rfl
  have hMember :
      valueOf "member" u.entry.assigns = u.group := by
    show valueOf "member" (assignUnlessEmpty "member" u.group) = _
    rw [← List.append_nil (assignUnlessEmpty _ _)]
    exact valueOf_unlessEmpty "member" u.group [] rfl
  have hProper : ¬ (u.entry.kind ≠ "user") := by
    intro hKind
    exact hKind rfl
  have hStatus :
      (if u.remarked ≠ [] then u.remarked else "active") =
        u.listed.status := by
    unfold User.remarked User.listed
    by_cases hActive : u.status = "active"
    · rw [if_pos hActive, hActive]
      rfl
    · rw [if_neg hActive]
      by_cases hEmpty : u.status = []
      · simp only [hEmpty, ne_eq, not_true_eq_false, if_false,
          if_true]
      · simp only [hEmpty, ne_eq, not_false_iff, if_true,
          if_false]
  unfold Entry.node userFromNode
  simp only [assignValue_assignNodes, hLogin, hMember,
    hNoted, hProper, if_false, hStatus,
    loginHash_login hEncodable.hash]
  rfl

/- Rendered users are parsed to the same users. -/
theorem parseUsers_renderUsers
    {users : List User}
    (hUsers : ∀ u ∈ users, u.Encodable) :
    parseUsers (renderUsers users) =
      .ok (users.map User.listed) := by
  have hBanner :
      OnlyRemarks
        (banner "05-local-users.cfg"
          "Local fallback and service account users")
        8 :=
    onlyRemarks_banner (by decide) (by decide)
  have hBlocks :
      Spells (users.flatMap renderUser ++ [])
        (users.map User.entry ++ []) :=
    Spells.flatMap (fun u hu => renderUser_lays (hUsers u hu))
      Spells.nil
  rw [List.append_nil, List.append_nil] at hBlocks
  rcases hBlocks.annotated hBanner with
    ⟨comments, hParse, hNoted⟩
  have hNodes :
      (nodesOf (located (1 + 8) (users.map User.entry))).map
          (userFromNode comments) =
        users.map fun u => some u.listed := by
    apply map_nodesOf
    intro u hu line hMem
    apply userFromNode_entry (hUsers u hu)
    exact hNoted _ _ hMem _
  have hAll :
      (nodesOf (located (1 + 8)
          (users.map User.entry))).filterMap
        (userFromNode comments) =
        users.map User.listed := by
    apply filterMap_of_map
    rw [hNodes, List.map_map]
    rfl
  unfold parseUsers renderUsers
  rw [hParse, ← hAll]
  rfl

end Tacconfig

end Soteria
