import Mathlib.Data.List.Chain
import Mathlib.Data.List.Nodup
import Mathlib.Data.List.Range
import Soteria.TacPlus.Connection

/-
  What the sessions of a connection exchange.

  In every run the packets of a session are numbered one after
  another, whatever happens in the other sessions. Where every
  reply answers a packet, the limit of rounds keeps the numbers
  from coming round, so that no two packets of a session have
  the same pad.

  Key definitions include:
    * `TacPlus.Exchange`, `TacPlus.exchanged`
    * `TacPlus.Numbered`, `TacPlus.Paced`
    * `TacPlus.run_numbered`, `TacPlus.run_pads`
    * `TacPlus.run_delivered`
-/

------------------------------------------------------------
-- Exchanged Packets
------------------------------------------------------------

namespace Soteria

namespace TacPlus

inductive Kind where
| request
| answer
| refusal
deriving DecidableEq

structure Exchange where
  kind : Kind
  pak : Pak
deriving DecidableEq

def Output.exchange : Output → Option Exchange
| accepted p => some ⟨.request, p⟩
| answered p => some ⟨.answer, p⟩
| refused p => some ⟨.refusal, p⟩
| _ => none

def exchangedStep
    (id : SessionId) (xs : List Exchange) (o : Output) :
    List Exchange :=
  if o = .opened id then []
  else xs ++ o.exchange.toList.filter (·.pak.sessionId = id)

/- The packets that a session has exchanged since it was last
   opened. -/
def exchanged (id : SessionId) (outs : List Output) :
    List Exchange :=
  outs.foldl (exchangedStep id) []

/- The numbers from one on, as `u_char` has them. -/
def Numbered (xs : List Exchange) : Prop :=
  xs.map (·.pak.seqNo) =
    (List.range xs.length).map fun i => UInt8.ofNat (i + 1)

/- No two replies without a packet in between. -/
def Paced (xs : List Exchange) : Prop :=
  xs.IsChain fun x y =>
    ¬(x.kind = .answer ∧ y.kind = .answer)

/- What a session and its exchange have in common. -/
structure Lane
    (maxRounds : Nat) (id : SessionId) (s? : Option Session)
    (xs : List Exchange) :
    Prop where
  numbered : Numbered xs
  last : ∀ s, s? = some s → s.seqNo = UInt8.ofNat xs.length
  ids : ∀ x ∈ xs, x.pak.sessionId = id
  version : ∀ s, s? = some s →
    ∀ x ∈ xs.head?, x.pak.version = s.version
  answers : ∀ x ∈ xs.head?, ∀ y ∈ xs, y.kind ≠ .request →
    y.pak.version = x.pak.version
  begun : s?.isSome → xs ≠ [] ∧ ∀ x ∈ xs, x.kind ≠ .refusal
  open_le : s?.isSome → Paced xs →
    xs.length ≤ 2 * maxRounds + 1 ∧
      ((∀ x ∈ xs.getLast?, x.kind = .request) →
        xs.length ≤ 2 * maxRounds)
  le : Paced xs → xs.length ≤ 2 * maxRounds + 2

/- The state of a connection after what it has done. -/
def Consistent (host : Host) (outs : List Output) (c : Conn) :
    Prop :=
  ∀ id, Lane host.maxRounds id (c.sessions id)
    (exchanged id outs)

end TacPlus

end Soteria

------------------------------------------------------------
-- One Exchange
------------------------------------------------------------

namespace Soteria

namespace TacPlus

theorem exchanged_append
    (id : SessionId) (outs more : List Output) :
    exchanged id (outs ++ more) =
      more.foldl (exchangedStep id) (exchanged id outs) :=
  List.foldl_append

theorem numbered_concat {xs : List Exchange} {x : Exchange} :
    Numbered xs →
    x.pak.seqNo = UInt8.ofNat (xs.length + 1) →
    Numbered (xs ++ [x]) := by
  intro hXs hX
  rw [Numbered] at hXs ⊢
  rw [List.map_append, List.length_append, List.length_singleton,
    List.range_succ, List.map_append, hXs]
  simp [hX]

theorem paced_concat {xs : List Exchange} {x : Exchange} :
    Paced (xs ++ [x]) ↔
      Paced xs ∧ ∀ y ∈ xs.getLast?,
        ¬(y.kind = .answer ∧ x.kind = .answer) := by
  rw [Paced, Paced, List.isChain_append]
  simp

theorem ofNat_succ (n : Nat) :
    UInt8.ofNat n + 1 = UInt8.ofNat (n + 1) := by
  rw [UInt8.ofNat_add]
  rfl

namespace Lane

variable {maxRounds : Nat} {id : SessionId}
variable {s s' : Session} {xs : List Exchange}

/- A session that ends keeps what it has exchanged. -/
theorem forget
    {s? : Option Session} (h : Lane maxRounds id s? xs) :
    Lane maxRounds id none xs where
  numbered := h.numbered
  last := nofun
  ids := h.ids
  version := nofun
  answers := h.answers
  begun := nofun
  open_le := nofun
  le := h.le

/- The texts of a session do not matter. -/
theorem congr
    (h : Lane maxRounds id (some s) xs)
    (hSeq : s'.seqNo = s.seqNo)
    (hVersion : s'.version = s.version) :
    Lane maxRounds id (some s') xs where
  numbered := h.numbered
  last := by
    rintro _ ⟨⟩
    rw [hSeq]
    exact h.last s rfl
  ids := h.ids
  version := by
    rintro _ ⟨⟩
    rw [hVersion]
    exact h.version s rfl
  answers := h.answers
  begun := fun _ => h.begun rfl
  open_le := fun _ => h.open_le rfl
  le := h.le

theorem mem_head?_concat {x y : Exchange} :
    x ∈ (xs ++ [y]).head? →
      x ∈ xs.head? ∨ (xs = [] ∧ x = y) := by
  cases xs with
  | nil =>
      intro h
      exact Or.inr ⟨rfl, by simpa using h.symm⟩
  | cons z xs => exact Or.inl

/- The next packet of a session. -/
theorem receive
    (h : Lane maxRounds id (some s) xs)
    (hMax : maxRounds ≤ 127)
    (hRounds : s.seqNo.toNat / 2 ≠ maxRounds)
    {p : Pak} (hId : p.sessionId = id)
    (hNext : s.seqNo + 1 = p.seqNo) :
    Lane maxRounds id (some { s with seqNo := s.seqNo + 1 })
      (xs ++ [⟨.request, p⟩]) := by
  rcases h.begun rfl with ⟨hFirst, hKinds⟩
  have hSeq : s.seqNo + 1 = UInt8.ofNat (xs.length + 1) := by
    rw [h.last s rfl, ofNat_succ]
  have hBound : Paced (xs ++ [⟨.request, p⟩]) →
      xs.length + 1 ≤ 2 * maxRounds := by
    intro hPaced
    have hLe := (h.open_le rfl (paced_concat.mp hPaced).1).1
    -- the number has not come round, so it is the length
    have hLength : s.seqNo.toNat = xs.length := by
      rw [h.last s rfl, UInt8.toNat_ofNat']
      exact Nat.mod_eq_of_lt (by omega)
    omega
  refine ⟨numbered_concat h.numbered (hNext.symm.trans hSeq),
    ?_, ?_, ?_, ?_, ?_, ?_, ?_⟩
  · rintro _ ⟨⟩
    rw [List.length_append]
    exact hSeq
  · exact List.forall_mem_append.mpr
      ⟨h.ids, List.forall_mem_singleton.mpr hId⟩
  · rintro _ ⟨⟩ x hx
    rcases mem_head?_concat hx with hx | ⟨hNil, -⟩
    · exact h.version s rfl x hx
    · exact absurd hNil hFirst
  · intro x hx y hy hKind
    rcases mem_head?_concat hx with hx | ⟨hNil, -⟩
    · rcases List.mem_append.mp hy with hy | hy
      · exact h.answers x hx y hy hKind
      · rw [List.mem_singleton.mp hy] at hKind
        exact absurd rfl hKind
    · exact absurd hNil hFirst
  · refine fun _ => ⟨by simp, fun x hx => ?_⟩
    rcases List.mem_append.mp hx with hx | hx
    · exact hKinds x hx
    · rw [List.mem_singleton.mp hx]
      nofun
  · intro _ hPaced
    have hLe := hBound hPaced
    rw [List.length_append, List.length_singleton]
    exact ⟨by omega, fun _ => hLe⟩
  · intro hPaced
    have hLe := hBound hPaced
    rw [List.length_append, List.length_singleton]
    omega

/- A reply of a session. -/
theorem reply
    (h : Lane maxRounds id (some s) xs)
    (kind : Kind) {p : Pak}
    (hId : p.sessionId = id)
    (hNext : p.seqNo = s.seqNo + 1)
    (hVersion : p.version = s.version) :
    Lane maxRounds id none (xs ++ [⟨kind, p⟩]) ∧
      (kind = .answer →
        Lane maxRounds id
          (some { s with seqNo := s.seqNo + 1 })
          (xs ++ [⟨kind, p⟩])) := by
  rcases h.begun rfl with ⟨hFirst, hKinds⟩
  have hSeq : s.seqNo + 1 = UInt8.ofNat (xs.length + 1) := by
    rw [h.last s rfl, ofNat_succ]
  have hNumbered : Numbered (xs ++ [⟨kind, p⟩]) :=
    numbered_concat h.numbered (hNext.trans hSeq)
  have hIds : ∀ x ∈ xs ++ [Exchange.mk kind p],
      x.pak.sessionId = id :=
    List.forall_mem_append.mpr
      ⟨h.ids, List.forall_mem_singleton.mpr hId⟩
  have hHead : ∀ x ∈ (xs ++ [Exchange.mk kind p]).head?,
      x.pak.version = s.version ∧ x ∈ xs.head? := by
    intro x hx
    rcases mem_head?_concat hx with hx | ⟨hNil, -⟩
    · exact ⟨h.version s rfl x hx, hx⟩
    · exact absurd hNil hFirst
  have hAnswers : ∀ x ∈ (xs ++ [Exchange.mk kind p]).head?,
      ∀ y ∈ xs ++ [⟨kind, p⟩], y.kind ≠ .request →
        y.pak.version = x.pak.version := by
    intro x hx y hy hNot
    rcases List.mem_append.mp hy with hy | hy
    · exact h.answers x (hHead x hx).2 y hy hNot
    · rw [List.mem_singleton.mp hy, (hHead x hx).1]
      exact hVersion
  have hLe : Paced (xs ++ [⟨kind, p⟩]) →
      (xs ++ [Exchange.mk kind p]).length ≤
        2 * maxRounds + 2 := by
    intro hPaced
    have hOpen := (h.open_le rfl (paced_concat.mp hPaced).1).1
    rw [List.length_append, List.length_singleton]
    omega
  refine ⟨⟨hNumbered, nofun, hIds, nofun, hAnswers, nofun, nofun,
    hLe⟩, ?_⟩
  rintro rfl
  refine ⟨hNumbered, ?_, hIds, ?_, hAnswers, ?_, ?_, hLe⟩
  · rintro _ ⟨⟩
    rw [List.length_append]
    exact hSeq
  · rintro _ ⟨⟩ x hx
    exact (hHead x hx).1
  · refine fun _ => ⟨by simp, fun x hx => ?_⟩
    rcases List.mem_append.mp hx with hx | hx
    · exact hKinds x hx
    · rw [List.mem_singleton.mp hx]
      nofun
  · intro _ hPaced
    rw [paced_concat] at hPaced
    have hOpen := (h.open_le rfl hPaced.1).2
    -- the packet before is neither a reply nor a refusal
    have hLast : ∀ x ∈ xs.getLast?, x.kind = .request := by
      intro x hx
      have hAnswer := hPaced.2 x hx
      have hRefusal := hKinds x (List.mem_of_getLast? hx)
      cases hKind : x.kind with
      | request => rfl
      | answer => exact absurd ⟨hKind, rfl⟩ hAnswer
      | refusal => exact absurd hKind hRefusal
    rw [List.length_append, List.length_singleton]
    have hLe := hOpen hLast
    refine ⟨by omega, fun hRequest => ?_⟩
    have hKind := hRequest ⟨.answer, p⟩ (by simp)
    cases hKind

end Lane

end TacPlus

end Soteria

------------------------------------------------------------
-- Every Step
------------------------------------------------------------

namespace Soteria

namespace TacPlus

variable {host : Host} {outs : List Output} {c c' : Conn}

@[simp] theorem exchangedStep_ended
    (id id' : SessionId) (xs : List Exchange) :
    exchangedStep id xs (.ended id') = xs := by
  simp [exchangedStep, Output.exchange]

@[simp] theorem exchangedStep_closed
    (id : SessionId) (xs : List Exchange) :
    exchangedStep id xs .closed = xs := by
  simp [exchangedStep, Output.exchange]

@[simp] theorem exchangedStep_delivered
    (id : SessionId) (xs : List Exchange) (raw p : Pak) :
    exchangedStep id xs (.delivered raw p) = xs := by
  simp [exchangedStep, Output.exchange]

theorem exchangedStep_some
    {id : SessionId} {xs : List Exchange} {o : Output}
    {x : Exchange} (hSome : o.exchange = some x) :
    exchangedStep id xs o =
      if x.pak.sessionId = id then xs ++ [x] else xs := by
  have hOpened : o ≠ .opened id := by
    rintro rfl
    cases hSome
  rw [exchangedStep, if_neg hOpened, hSome]
  by_cases hId : x.pak.sessionId = id <;> simp [hId]

theorem exchangedStep_accepted
    (id : SessionId) (xs : List Exchange) (p : Pak) :
    exchangedStep id xs (.accepted p) =
      if p.sessionId = id then xs ++ [⟨.request, p⟩] else xs :=
  exchangedStep_some (o := .accepted p) (x := ⟨.request, p⟩) rfl

theorem exchangedStep_opened
    (id id' : SessionId) (xs : List Exchange) :
    exchangedStep id' xs (.opened id) =
      if id = id' then [] else xs := by
  by_cases hId : id = id'
  · rw [exchangedStep, if_pos (by rw [hId]), if_pos hId]
  · rw [exchangedStep, if_neg (by simpa using hId), if_neg hId]
    simp [Output.exchange]

namespace Consistent

/- What is done in one session leaves the others alone. -/
theorem update
    (h : Consistent host outs c) (id : SessionId)
    {more : List Output}
    (hSessions : ∀ id' ≠ id, c'.sessions id' = c.sessions id')
    (hOthers : ∀ id' ≠ id, ∀ xs,
      more.foldl (exchangedStep id') xs = xs)
    (hLane : Lane host.maxRounds id (c'.sessions id)
      (more.foldl (exchangedStep id) (exchanged id outs))) :
    Consistent host (outs ++ more) c' := by
  intro id'
  rw [exchanged_append]
  by_cases hId : id' = id
  · rw [hId]
    exact hLane
  · rw [hOthers id' hId, hSessions id' hId]
    exact h id'

/- What is done in one session of the table. -/
theorem set
    (h : Consistent host outs c) (id : SessionId)
    (s : Option Session) {more : List Output}
    (hOthers : ∀ id' ≠ id, ∀ xs,
      more.foldl (exchangedStep id') xs = xs)
    (hLane : Lane host.maxRounds id s
      (more.foldl (exchangedStep id) (exchanged id outs))) :
    Consistent host (outs ++ more) (c.set id s) := by
  apply h.update id _ hOthers
  · rwa [Conn.set_sessions_self]
  · intro id' hId
    exact Conn.set_sessions_of_ne hId c s

theorem of_sessions
    (h : Consistent host outs c)
    (hSessions : c'.sessions = c.sessions) :
    Consistent host outs c' := by
  intro id
  rw [hSessions]
  exact h id

theorem close (h : Consistent host outs c) :
    Consistent host (outs ++ c.close.2) c.close.1 := by
  intro id
  rw [exchanged_append, Conn.close, List.foldl_cons,
    exchangedStep_closed]
  exact (h id).forget

theorem cleanupSession
    (h : Consistent host outs c) (id : SessionId) :
    Consistent host (outs ++ (c.cleanupSession id).2)
      (c.cleanupSession id).1 := by
  rw [Conn.cleanupSession]
  apply h.set id none
  · intro id' _ xs
    rw [List.foldl_cons, exchangedStep_ended, List.foldl_nil]
  · rw [List.foldl_cons, exchangedStep_ended]
    exact (h id).forget

/- A reply of a session in the table. -/
theorem send
    (h : Consistent host outs c) {id : SessionId} {s : Session}
    (hSession : c.sessions id = some s) (r : Reply)
    {out : Pak → Output} {kind : Kind}
    (hOut : ∀ p, (out p).exchange = some ⟨kind, p⟩)
    (hKind : kind = .answer ∨ r.final = true) :
    Consistent host (outs ++ (c.send out id s r).2)
      (c.send out id s r).1 := by
  have hReply := (hSession ▸ h id).reply
    kind (p := newPak id s r.type (r.body s.userMsg))
    rfl rfl rfl
  have hLast : ∀ id' xs, exchangedStep id' xs
      (out (newPak id s r.type (r.body s.userMsg))) =
        if id = id' then
          xs ++ [⟨kind, newPak id s r.type (r.body s.userMsg)⟩]
        else xs :=
    fun id' xs => exchangedStep_some (hOut _)
  rw [Conn.send]
  by_cases hFinal : r.final = true
  · simp only [if_pos hFinal]
    apply h.set id none
    · intro id' hId xs
      rw [List.foldl_cons, hLast, if_neg hId.symm,
        List.foldl_cons, exchangedStep_ended]
      rfl
    · rw [List.foldl_cons, hLast, if_pos rfl, List.foldl_cons,
        exchangedStep_ended]
      exact hReply.1
  · simp only [if_neg hFinal]
    apply h.set id (some { s with seqNo := s.seqNo + 1 })
    · intro id' hId xs
      rw [List.foldl_cons, hLast, if_neg hId.symm]
      rfl
    · rw [List.foldl_cons, hLast, if_pos rfl]
      exact hReply.2 (hKind.resolve_right hFinal)

theorem sendError
    (h : Consistent host outs c) (id : SessionId) (type : UInt8)
    (msg : List UInt8) :
    Consistent host (outs ++ (c.sendError id type msg).2)
      (c.sendError id type msg).1 := by
  rw [Conn.sendError]
  cases hSession : c.sessions id with
  | none => simpa using h
  | some s =>
      cases errorReply type msg with
      | none => simpa using h
      | some r =>
          exact h.send hSession r (fun p => rfl) (Or.inl rfl)

theorem andThen
    {r : Conn × List Output} {next : Conn → Conn × List Output}
    (h : Consistent host (outs ++ r.2) r.1)
    (hNext : ∀ {outs}, Consistent host outs r.1 →
      Consistent host (outs ++ (next r.1).2) (next r.1).1) :
    Consistent host (outs ++ (Conn.andThen r next).2)
      (Conn.andThen r next).1 := by
  rw [Conn.andThen, ← List.append_assoc]
  exact hNext h

theorem adopt (h : Consistent host outs c) (p : Pak) :
    Consistent host outs (c.adopt host p) := by
  apply h.of_sessions
  rw [Conn.adopt]
  split <;> split <;> rfl

theorem dispatch
    (h : Consistent host outs c) (md5 : Md5)
    (beyond : Nat → UInt8) (raw : Pak) :
    Consistent host
      (outs ++ (c.dispatch md5 host beyond raw).2)
      (c.dispatch md5 host beyond raw).1 := by
  rw [Conn.dispatch]
  split
  rename_i keys p bogus hTry
  have hKeys : Consistent host outs
      { c with keys := keys, keyFixed := true } :=
    h.of_sessions rfl
  simp only
  split
  · split
    · apply hKeys.update p.sessionId
      · intro id' _
        rfl
      · intro id' _ xs
        simp
      · rw [List.foldl_cons, exchangedStep_delivered]
        exact hKeys p.sessionId
    · exact hKeys.sendError _ _ _
  · exact hKeys.cleanupSession _

theorem process
    (h : Consistent host outs c) (md5 : Md5)
    (beyond : Nat → UInt8) (p : Pak) :
    Consistent host (outs ++ (c.process md5 host beyond p).2)
      (c.process md5 host beyond p).1 := by
  rw [Conn.process]
  split
  · exact (h.sendError _ _ _).andThen close
  · exact (h.adopt p).dispatch md5 beyond p

/- The next packet of a session in the table. -/
theorem accept
    (h : Consistent host outs c) {s : Session} {p : Pak}
    (hSession : c.sessions p.sessionId = some s)
    (hRounds : s.seqNo.toNat / 2 ≠ host.maxRounds)
    (hNext : s.seqNo + 1 = p.seqNo) :
    Consistent host (outs ++ [.accepted p])
      (c.set p.sessionId
        (some { s with seqNo := s.seqNo + 1 })) := by
  have hLane := (hSession ▸ h p.sessionId).receive
    host.rounds_le hRounds rfl hNext
  apply h.set p.sessionId
  · intro id' hId xs
    rw [List.foldl_cons, exchangedStep_accepted,
      if_neg hId.symm, List.foldl_nil]
  · rw [List.foldl_cons, exchangedStep_accepted, if_pos rfl]
    exact hLane

/- The first packet of a session. -/
theorem opened
    (h : Consistent host outs c) {p : Pak}
    (hFirst : p.seqNo = 1) :
    Consistent host
      (outs ++ [.opened p.sessionId, .accepted p])
      (c.set p.sessionId
        (some { version := p.version, seqNo := 1,
                userMsg := [] })) := by
  have hLane : Lane host.maxRounds p.sessionId
      (some { version := p.version, seqNo := 1, userMsg := [] })
      [⟨.request, p⟩] := by
    have hPos := host.rounds_pos
    refine ⟨?_, ?_, ?_, ?_, ?_, ?_, ?_, ?_⟩
    · simp [Numbered, hFirst]
    · rintro _ ⟨⟩
      rfl
    · simp
    · rintro _ ⟨⟩
      simp
    · simp
    · simp
    · intro _ _
      simp only [List.length_singleton]
      exact ⟨by omega, fun _ => by omega⟩
    · intro _
      simp only [List.length_singleton]
      omega
  apply h.set p.sessionId
  · intro id' hId xs
    rw [List.foldl_cons, List.foldl_cons, exchangedStep_opened,
      if_neg hId.symm, exchangedStep_accepted,
      if_neg hId.symm, List.foldl_nil]
  · rw [List.foldl_cons, List.foldl_cons, exchangedStep_opened,
      if_pos rfl, exchangedStep_accepted, if_pos rfl]
    exact hLane

theorem tacRead
    (h : Consistent host outs c) (md5 : Md5)
    (beyond : Nat → UInt8) (p : Pak) :
    Consistent host
      (outs ++ (TacPlus.tacRead md5 host beyond c p).2)
      (TacPlus.tacRead md5 host beyond c p).1 := by
  rw [TacPlus.tacRead]
  split
  · exact h.close
  · cases hSession : c.sessions p.sessionId with
    | some s =>
        simp only
        split
        · exact (h.send hSession _ (fun p => rfl)
            (Or.inr rfl)).andThen close
        · rename_i hRounds
          split
          · exact h.close
          · rename_i hNext
            rw [not_not] at hNext
            exact (h.accept hSession hRounds hNext).andThen
              fun h => h.process md5 beyond p
    | none =>
        simp only
        split
        · rename_i hFirst
          exact (h.opened hFirst).andThen
            fun h => h.process md5 beyond p
        · exact h.close

theorem step
    (h : Consistent host outs c) (md5 : Md5)
    (beyond : Nat → UInt8) (e : Event) :
    Consistent host
      (outs ++ (TacPlus.step md5 host beyond c e).2)
      (TacPlus.step md5 host beyond c e).1 := by
  rw [TacPlus.step.eq_def]
  split
  · simpa using h
  · cases e with
    | packet p => exact h.tacRead md5 beyond p
    | reply id r =>
        cases hSession : c.sessions id with
        | none => simpa [hSession] using h
        | some s =>
            simp only [hSession]
            exact h.send hSession r (fun p => rfl) (Or.inl rfl)
    | drop id =>
        cases hSession : c.sessions id with
        | none => simpa [hSession] using h
        | some s =>
            simp only [hSession]
            exact h.cleanupSession id
    | message id text =>
        cases hSession : c.sessions id with
        | none => simpa [hSession] using h
        | some s =>
            simp only [hSession]
            apply h.set id (some { s with userMsg := text })
            · intro id' _ xs
              rfl
            · exact (hSession ▸ h id).congr rfl rfl
    | hangup => exact h.close

end Consistent

theorem run_concat
    (md5 : Md5) (host : Host) (beyond : Nat → UInt8)
    (c : Conn) (events : List Event) (e : Event) :
    run md5 host beyond c (events ++ [e]) =
      Conn.andThen (run md5 host beyond c events)
        (step md5 host beyond · e) :=
  List.foldl_append

theorem consistent_run
    (md5 : Md5) (host : Host) (beyond : Nat → UInt8)
    (tls : Bool) (events : List Event) :
    Consistent host
      (run md5 host beyond (host.accept tls) events).2
      (run md5 host beyond (host.accept tls) events).1 := by
  induction events using List.reverseRecOn with
  | nil =>
      intro id
      refine ⟨rfl, nofun, nofun, nofun, nofun, nofun, nofun,
        fun _ => Nat.zero_le _⟩
  | append_singleton events e ih =>
      rw [run_concat]
      exact ih.step md5 beyond e

end TacPlus

end Soteria

------------------------------------------------------------
-- Numbers and Pads
------------------------------------------------------------

namespace Soteria

namespace TacPlus

/- In every run the packets of a session are numbered one after
   another, and the replies have the version of the first one. -/
theorem run_numbered
    (md5 : Md5) (host : Host) (beyond : Nat → UInt8)
    (tls : Bool) (events : List Event) (id : SessionId) :
    let r := run md5 host beyond (host.accept tls) events
    let xs := exchanged id r.2
    Numbered xs ∧ (∀ x ∈ xs, x.pak.sessionId = id) ∧
      (∀ x ∈ xs.head?, ∀ y ∈ xs, y.kind ≠ .request →
        y.pak.version = x.pak.version) ∧
      ∀ s, r.1.sessions id = some s →
        xs ≠ [] ∧ s.seqNo = UInt8.ofNat xs.length := by
  have h := consistent_run md5 host beyond tls events id
  refine ⟨h.numbered, h.ids, h.answers, fun s hSession => ?_⟩
  exact ⟨(h.begun (by rw [hSession]; rfl)).1, h.last s hSession⟩

theorem Numbered.nodup
    {xs : List Exchange} (h : Numbered xs)
    (hLength : xs.length ≤ 256) :
    (xs.map (·.pak.seqNo)).Nodup := by
  rw [h]
  apply List.Nodup.map_on _ List.nodup_range
  intro i hi j hj hij
  rw [List.mem_range] at hi hj
  have hNat := congrArg UInt8.toNat hij
  rw [UInt8.toNat_ofNat', UInt8.toNat_ofNat'] at hNat
  omega

/- Where every reply answers a packet, the numbers of a session
   do not come round, and its packets have different pads. -/
theorem run_pads
    (md5 : Md5) (host : Host) (beyond : Nat → UInt8)
    (tls : Bool) (events : List Event) (id : SessionId)
    (hPaced : Paced (exchanged id
      (run md5 host beyond (host.accept tls) events).2)) :
    let xs := exchanged id
      (run md5 host beyond (host.accept tls) events).2
    xs.length ≤ 2 * host.maxRounds + 2 ∧
      ∀ key, (xs.map fun x => padBase key x.pak).Nodup := by
  intro xs
  have h := consistent_run md5 host beyond tls events id
  have hLe := h.le hPaced
  have hRounds := host.rounds_le
  refine ⟨hLe, fun key => ?_⟩
  have hSeq := h.numbered.nodup (by omega)
  exact List.Nodup.of_map (fun base => base.getLast?) (by
    rw [List.map_map]
    have hMap : (xs.map ((fun base : List UInt8 => base.getLast?) ∘
        fun x => padBase key x.pak)) =
        (xs.map (·.pak.seqNo)).map some := by
      rw [List.map_map]
      apply List.map_congr_left
      intro x _
      simp [padBase]
    rw [hMap]
    exact hSeq.map fun _ _ => Option.some.inj)

/- A login that goes on past the only round that is allowed. -/
theorem run_pads_login :
    let host : Host :=
      { keys := [[1]], maxRounds := 1, singleConnection := false,
        badVersion := false, tlsObfuscated := false,
        headerLength := false, notObfuscated := false,
        rounds_pos := Nat.le_refl 1,
        rounds_le := Nat.le_of_ble_eq_true rfl }
    let md5 : Md5 := fun _ => Vector.replicate 16 0
    let start : Pak :=
      { version := 0xc0, type := 1, seqNo := 1, flags := 0,
        sessionId := [7], data := [1, 1, 1, 1, 0, 0, 0, 0] }
    let outs := (run md5 host (fun _ => 0) (host.accept false)
      [.packet start, .reply [7] (.authen 5 1 [80] []),
        .packet { start with seqNo := 3 }]).2
    (exchanged [7] outs).map (·.kind) =
        [.request, .answer, .refusal] ∧
      ∀ key, ((exchanged [7] outs).map
        fun x => padBase key x.pak).Nodup := by
  intro host md5 start outs
  refine ⟨by decide, ?_⟩
  exact (run_pads md5 host (fun _ => 0) false _ [7]
    (show (exchanged [7] outs).IsChain _ by decide)).2

end TacPlus

end Soteria

------------------------------------------------------------
-- Handled Packets
------------------------------------------------------------

namespace Soteria

namespace TacPlus

variable {host : Host} {outs more : List Output} {c c' : Conn}

/- A packet under a key, or as it is. -/
def openUnder (md5 : Md5) (key : Option Key) (p : Pak) : Pak :=
  match key with
  | some key => md5Xor md5 key p
  | none => p

/- Whether a packet that is not obfuscated was let in. -/
def Switched (host : Host) (tls : Bool) (outs : List Output) :
    Prop :=
  (tls = true ∨ host.notObfuscated = true) ∧
    ∃ q, .accepted q ∈ outs ∧ q.flags &&& unencryptedFlag ≠ 0

/- What is known about a packet that is handled. -/
structure Handled
    (md5 : Md5) (host : Host) (beyond : Nat → UInt8) (tls : Bool)
    (outs : List Output) (key : Option Key) (raw p : Pak) :
    Prop where
  accepted : .accepted raw ∈ outs
  sane : looksBogus host beyond p = false
  legal : legalVersion host p = true
  plain : raw.flags &&& unencryptedFlag ≠ 0 →
    tls = true ∨ host.notObfuscated = true
  opened : (p = openUnder md5 key raw ∧
      (key = none → host.keys = [])) ∨
    (p = raw ∧ Switched host tls outs)

/- The keys of a connection after what it has done. -/
structure Keyed
    (md5 : Md5) (host : Host) (beyond : Nat → UInt8) (tls : Bool)
    (outs : List Output) (c : Conn) (key : Option Key) :
    Prop where
  tls_eq : c.tls = tls
  mem : ∀ k, key = some k → k ∈ host.keys
  suffix : c.unencrypted = false →
    c.keys <:+ host.keys ∧ (c.keys = [] → host.keys = [])
  fixed : c.unencrypted = false → c.keyFixed = true →
    c.keys.head? = key
  switched : c.unencrypted = true → Switched host tls outs
  handled : ∀ raw p, .delivered raw p ∈ outs →
    c.keyFixed = true ∧
      Handled md5 host beyond tls outs key raw p

theorem Switched.mono
    {tls : Bool} (h : Switched host tls outs) :
    Switched host tls (outs ++ more) := by
  rcases h with ⟨hLet, q, hq, hFlag⟩
  exact ⟨hLet, q, List.mem_append_left _ hq, hFlag⟩

theorem Handled.mono
    {md5 : Md5} {beyond : Nat → UInt8} {tls : Bool}
    {key : Option Key} {raw p : Pak}
    (h : Handled md5 host beyond tls outs key raw p) :
    Handled md5 host beyond tls (outs ++ more) key raw p where
  accepted := List.mem_append_left _ h.accepted
  sane := h.sane
  legal := h.legal
  plain := h.plain
  opened := h.opened.imp id fun ⟨hEq, hSwitched⟩ =>
    ⟨hEq, hSwitched.mono⟩

namespace Keyed

variable {md5 : Md5} {beyond : Nat → UInt8} {tls : Bool}
variable {key : Option Key}

/- What does not touch the keys nor handles a packet. -/
theorem frame
    (h : Keyed md5 host beyond tls outs c key)
    (hTls : c'.tls = c.tls) (hKeys : c'.keys = c.keys)
    (hFixed : c'.keyFixed = c.keyFixed)
    (hPlain : c'.unencrypted = c.unencrypted)
    (hMore : ∀ raw p, .delivered raw p ∉ more) :
    Keyed md5 host beyond tls (outs ++ more) c' key where
  tls_eq := hTls.trans h.tls_eq
  mem := h.mem
  suffix := by
    rw [hPlain, hKeys]
    exact h.suffix
  fixed := by
    rw [hPlain, hKeys, hFixed]
    exact h.fixed
  switched := by
    rw [hPlain]
    exact fun hUnencrypted => (h.switched hUnencrypted).mono
  handled := by
    intro raw p hp
    rcases List.mem_append.mp hp with hp | hp
    · rw [hFixed]
      exact ⟨(h.handled raw p hp).1, (h.handled raw p hp).2.mono⟩
    · exact absurd hp (hMore raw p)

theorem close (h : Keyed md5 host beyond tls outs c key) :
    Keyed md5 host beyond tls (outs ++ c.close.2) c.close.1
      key :=
  h.frame rfl rfl rfl rfl (by simp [Conn.close])

theorem cleanupSession
    (h : Keyed md5 host beyond tls outs c key)
    (id : SessionId) :
    Keyed md5 host beyond tls
      (outs ++ (c.cleanupSession id).2)
      (c.cleanupSession id).1 key :=
  h.frame rfl rfl rfl rfl (by simp [Conn.cleanupSession])

theorem send
    (h : Keyed md5 host beyond tls outs c key)
    (id : SessionId) (s : Session) (r : Reply)
    {out : Pak → Output}
    (hOut : ∀ p raw q, out p ≠ .delivered raw q) :
    Keyed md5 host beyond tls (outs ++ (c.send out id s r).2)
      (c.send out id s r).1 key := by
  rw [Conn.send]
  split
  · exact h.frame rfl rfl rfl rfl
      (by simp [(hOut _ _ _).symm])
  · exact h.frame rfl rfl rfl rfl
      (by simp [(hOut _ _ _).symm])

theorem sendError
    (h : Keyed md5 host beyond tls outs c key)
    (id : SessionId) (type : UInt8) (msg : List UInt8) :
    Keyed md5 host beyond tls
      (outs ++ (c.sendError id type msg).2)
      (c.sendError id type msg).1 key := by
  rw [Conn.sendError]
  split
  · exact h.send id _ _ nofun
  · simpa using h

/- The key that a packet is opened with stays the one in use. -/
theorem opening
    (h : Keyed md5 host beyond tls outs c key) (raw : Pak)
    {r : List Key × Pak × Bool}
    (hr : r = if c.unencrypted then
        (c.keys, raw, looksBogus host beyond raw)
      else tryKeys md5 (looksBogus host beyond) c.keyFixed c.keys
        raw) :
    ∃ key', Keyed md5 host beyond tls outs
        { c with keys := r.1, keyFixed := true } key' ∧
      r.2.2 = looksBogus host beyond r.2.1 ∧
      ((r.2.1 = openUnder md5 key' raw ∧
          (key' = none → host.keys = [])) ∨
        (r.2.1 = raw ∧ Switched host tls outs)) := by
  by_cases hOpen : c.unencrypted = true
  · rw [if_pos hOpen] at hr
    subst hr
    have hNot : c.unencrypted ≠ false := by rw [hOpen]; nofun
    exact ⟨key, ⟨h.tls_eq, h.mem,
      fun hFalse => absurd hFalse hNot,
      fun hFalse => absurd hFalse hNot, h.switched,
      fun raw p hp => ⟨rfl, (h.handled raw p hp).2⟩⟩, rfl,
      Or.inr ⟨rfl, h.switched hOpen⟩⟩
  · rw [if_neg hOpen] at hr
    have hPlain := Bool.eq_false_iff.mpr hOpen
    rcases h.suffix hPlain with ⟨hSuffix, hEmpty⟩
    cases hKeys : c.keys with
    | nil =>
        rw [hKeys] at hr
        subst hr
        have hKey : c.keyFixed = true → key = none := by
          intro hFixed
          have hHead := h.fixed hPlain hFixed
          rw [hKeys] at hHead
          exact hHead.symm
        refine ⟨none, ⟨h.tls_eq, nofun, ?_, fun _ _ => rfl,
          h.switched, ?_⟩, rfl,
          Or.inl ⟨rfl, fun _ => hEmpty hKeys⟩⟩
        · exact fun _ => ⟨List.nil_suffix, fun _ =>
            hEmpty hKeys⟩
        · intro raw p hp
          rcases h.handled raw p hp with ⟨hFixed, hHandled⟩
          rw [hKey hFixed] at hHandled
          exact ⟨rfl, hHandled⟩
    | cons first keys =>
        rcases tryKeys_spec md5 (looksBogus host beyond)
          c.keyFixed first keys raw with
          ⟨before, k, rest, hSplit, hTry, -, -, hFixed⟩
        rw [hKeys, hTry] at hr
        subst hr
        have hMore : k :: rest <:+ host.keys := by
          refine List.IsSuffix.trans ?_ hSuffix
          rw [hKeys, hSplit]
          exact List.suffix_append before (k :: rest)
        have hKey : c.keyFixed = true → key = some k := by
          intro hYes
          have hHead := h.fixed hPlain hYes
          rw [hKeys, hSplit, hFixed hYes] at hHead
          exact hHead.symm
        refine ⟨some k, ⟨h.tls_eq, ?_, ?_, fun _ _ => rfl,
          h.switched, ?_⟩, rfl, Or.inl ⟨rfl, nofun⟩⟩
        · rintro _ ⟨⟩
          exact hMore.subset List.mem_cons_self
        · exact fun _ => ⟨hMore, nofun⟩
        · intro raw p hp
          rcases h.handled raw p hp with ⟨hYes, hHandled⟩
          rw [hKey hYes] at hHandled
          exact ⟨rfl, hHandled⟩

theorem dispatch
    (h : Keyed md5 host beyond tls outs c key) (raw : Pak)
    (hAccepted : .accepted raw ∈ outs)
    (hPlain : raw.flags &&& unencryptedFlag ≠ 0 →
      tls = true ∨ host.notObfuscated = true) :
    ∃ key', Keyed md5 host beyond tls
      (outs ++ (c.dispatch md5 host beyond raw).2)
      (c.dispatch md5 host beyond raw).1 key' := by
  rw [Conn.dispatch]
  split
  rename_i keys p bogus hTry
  rcases h.opening raw hTry.symm with
    ⟨key', hKeyed, hBogus, hOpened⟩
  refine ⟨key', ?_⟩
  simp only at hKeyed hBogus hOpened ⊢
  split
  · split
    · rename_i hLegal
      rw [Bool.and_eq_true, Bool.not_eq_true'] at hLegal
      refine ⟨hKeyed.tls_eq, hKeyed.mem, hKeyed.suffix,
        hKeyed.fixed, fun hYes => (hKeyed.switched hYes).mono,
        ?_⟩
      intro raw' p' hp'
      rcases List.mem_append.mp hp' with hp' | hp'
      · exact ⟨rfl, (hKeyed.handled raw' p' hp').2.mono⟩
      · cases List.mem_singleton.mp hp'
        refine ⟨rfl, List.mem_append_left _ hAccepted,
          hBogus.symm.trans hLegal.1, hLegal.2, hPlain, ?_⟩
        exact hOpened.imp id fun ⟨hEq, hSwitched⟩ =>
          ⟨hEq, hSwitched.mono⟩
    · exact hKeyed.sendError _ _ _
  · exact hKeyed.cleanupSession _

theorem adopt
    (h : Keyed md5 host beyond tls outs c key) (p : Pak)
    (hAccepted : .accepted p ∈ outs)
    (hPlain : p.flags &&& unencryptedFlag ≠ 0 →
      tls = true ∨ host.notObfuscated = true) :
    Keyed md5 host beyond tls outs (c.adopt host p) key := by
  have hFlags : ∀ {c : Conn} (flags : UInt8),
      Keyed md5 host beyond tls outs c key →
      Keyed md5 host beyond tls outs { c with flags := flags }
        key :=
    fun flags h => ⟨h.tls_eq, h.mem, h.suffix, h.fixed,
      h.switched, h.handled⟩
  have hPlainKeyed : p.flags &&& unencryptedFlag ≠ 0 →
      Keyed md5 host beyond tls outs
        { c with unencrypted := true, keys := [] } key :=
    fun hFlag => ⟨h.tls_eq, h.mem, nofun, nofun,
      fun _ => ⟨hPlain hFlag, p, hAccepted, hFlag⟩, h.handled⟩
  unfold Conn.adopt
  extract_lets c'
  have hFirst : Keyed md5 host beyond tls outs c' key := by
    simp only [c']
    split
    · rename_i hFlag
      exact hPlainKeyed hFlag
    · exact h
  split
  · exact hFlags _ hFirst
  · exact hFirst

theorem process
    (h : Keyed md5 host beyond tls outs c key) (p : Pak)
    (hAccepted : .accepted p ∈ outs) :
    ∃ key', Keyed md5 host beyond tls
      (outs ++ (c.process md5 host beyond p).2)
      (c.process md5 host beyond p).1 key' := by
  rw [Conn.process]
  split
  · refine ⟨key, ?_⟩
    rw [Conn.andThen, ← List.append_assoc]
    exact (h.sendError _ _ _).close
  · rename_i hRight
    have hPlain : p.flags &&& unencryptedFlag ≠ 0 →
        tls = true ∨ host.notObfuscated = true := by
      intro hFlag
      rw [← h.tls_eq]
      simp only [wrongObfuscation] at hRight
      by_contra hNot
      apply hRight
      simp only [not_or, Bool.not_eq_true] at hNot
      simp [hFlag, hNot.1, hNot.2]
    exact (h.adopt p hAccepted hPlain).dispatch p hAccepted
      hPlain

/- A packet with the next number. -/
theorem take
    (h : Keyed md5 host beyond tls outs c key) (p : Pak)
    (s : Session) {more : List Output}
    (hAccepted : .accepted p ∈ more)
    (hMore : ∀ raw q, .delivered raw q ∉ more) :
    ∃ key', Keyed md5 host beyond tls
      (outs ++ (Conn.andThen (c.set p.sessionId (some s), more)
        (Conn.process md5 host beyond · p)).2)
      (Conn.andThen (c.set p.sessionId (some s), more)
        (Conn.process md5 host beyond · p)).1 key' := by
  have hSet : Keyed md5 host beyond tls (outs ++ more)
      (c.set p.sessionId (some s)) key :=
    h.frame rfl rfl rfl rfl hMore
  rw [Conn.andThen, ← List.append_assoc]
  exact hSet.process p (List.mem_append_right _ hAccepted)

theorem tacRead
    (h : Keyed md5 host beyond tls outs c key) (p : Pak) :
    ∃ key', Keyed md5 host beyond tls
      (outs ++ (TacPlus.tacRead md5 host beyond c p).2)
      (TacPlus.tacRead md5 host beyond c p).1 key' := by
  rw [TacPlus.tacRead]
  split
  · exact ⟨key, h.close⟩
  · cases hSession : c.sessions p.sessionId with
    | some s =>
        simp only
        split
        · refine ⟨key, ?_⟩
          rw [Conn.andThen, ← List.append_assoc]
          refine (h.send _ s _ ?_).close
          intro _ _ _
          nofun
        · split
          · exact ⟨key, h.close⟩
          · exact h.take p _ (by simp) (by simp)
    | none =>
        simp only
        split
        · exact h.take p _ (by simp) (by simp)
        · exact ⟨key, h.close⟩

theorem step
    (h : Keyed md5 host beyond tls outs c key) (e : Event) :
    ∃ key', Keyed md5 host beyond tls
      (outs ++ (TacPlus.step md5 host beyond c e).2)
      (TacPlus.step md5 host beyond c e).1 key' := by
  rw [TacPlus.step.eq_def]
  split
  · exact ⟨key, by simpa using h⟩
  · cases e with
    | packet p => exact h.tacRead p
    | reply id r =>
        refine ⟨key, ?_⟩
        cases hSession : c.sessions id with
        | none => simpa [hSession] using h
        | some s =>
            simp only [hSession]
            exact h.send id s r nofun
    | drop id =>
        refine ⟨key, ?_⟩
        cases hSession : c.sessions id with
        | none => simpa [hSession] using h
        | some s =>
            simp only [hSession]
            exact h.cleanupSession id
    | message id text =>
        refine ⟨key, ?_⟩
        cases hSession : c.sessions id with
        | none => simpa [hSession] using h
        | some s =>
            simp only [hSession]
            exact h.frame rfl rfl rfl rfl (by simp)
    | hangup => exact ⟨key, h.close⟩

end Keyed

/- In every run the packets that are handled were accepted and
   make sense, and all of them were opened with one key of the
   host, unless an open packet was let in. -/
theorem run_handled
    (md5 : Md5) (host : Host) (beyond : Nat → UInt8)
    (tls : Bool) (events : List Event) :
    let outs := (run md5 host beyond (host.accept tls) events).2
    ∃ key, (∀ k, key = some k → k ∈ host.keys) ∧
      ∀ raw p, .delivered raw p ∈ outs →
        Handled md5 host beyond tls outs key raw p := by
  have hKeyed : ∃ key, Keyed md5 host beyond tls
      (run md5 host beyond (host.accept tls) events).2
      (run md5 host beyond (host.accept tls) events).1 key := by
    induction events using List.reverseRecOn with
    | nil =>
        exact ⟨none, rfl, nofun,
          fun _ => ⟨List.suffix_refl _, id⟩, nofun, nofun, nofun⟩
    | append_singleton events e ih =>
        rcases ih with ⟨key, h⟩
        rw [run_concat]
        exact h.step e
  rcases hKeyed with ⟨key, h⟩
  exact ⟨key, h.mem, fun raw p hp => (h.handled raw p hp).2⟩

end TacPlus

end Soteria
