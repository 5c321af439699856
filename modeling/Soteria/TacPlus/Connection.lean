import Mathlib.Logic.Function.Basic
import Soteria.TacPlus.Bodies

/-
  A TACACS+ connection.

  The packets of a connection belong to sessions, each with its
  own count of the packets exchanged. A packet that does not
  carry the next number ends the connection. The replies are
  sent by the code that handles requests, at once or after an
  answer of a backend, so that the sessions of a connection
  interleave in any way.

  Key definitions include:
    * `TacPlus.Reply`, `TacPlus.Reply.body`
    * `TacPlus.Conn`, `TacPlus.Event`, `TacPlus.Output`
    * `TacPlus.tacRead`, `TacPlus.step`, `TacPlus.run`
-/

------------------------------------------------------------
-- Replies
------------------------------------------------------------

namespace Soteria

namespace TacPlus

/- `TAC_PLUS_AUTHEN`, `TAC_PLUS_AUTHOR` and `TAC_PLUS_ACCT` -/
def typeAuthen : UInt8 := 0x01

def typeAuthor : UInt8 := 0x02

def typeAcct : UInt8 := 0x03

/- The `TAC_PLUS_AUTHEN_STATUS_...` that end a session. -/
def authenPass : UInt8 := 0x01

def authenFail : UInt8 := 0x02

def authenError : UInt8 := 0x07

def authenFollow : UInt8 := 0x21

/- `TAC_PLUS_AUTHOR_STATUS_ERROR` -/
def authorError : UInt8 := 0x11

/- `TAC_PLUS_ACCT_STATUS_ERROR` -/
def acctError : UInt8 := 0x02

/- The calls of `send_authen_reply`, `send_author_reply` and
   `send_acct_reply`. -/
inductive Reply where
| authen (status flags : UInt8) (msg data : List UInt8)
| author
    (status : UInt8) (msg data : List UInt8)
    (args : List (List UInt8))
| acct (status : UInt8) (msg data : List UInt8)
deriving DecidableEq

/- `htons` of a length. -/
def short (n : Nat) : List UInt8 :=
  [UInt8.ofNat (n / 256), UInt8.ofNat n]

def Reply.type : Reply → UInt8
| authen .. => typeAuthen
| author .. => typeAuthor
| acct .. => typeAcct

/- The message of an authorization reply, behind the one of the
   session where both fit. -/
def authorMsg (userMsg msg : List UInt8) : List UInt8 :=
  if userMsg.length + msg.length > 0xffff then msg.take 0xffff
  else userMsg ++ msg

/- The body of a reply. -/
def Reply.body (userMsg : List UInt8) : Reply → List UInt8
| authen status flags msg data =>
    [status, flags] ++ short (msg.take 0xffff).length ++
      short (data.take 0xffff).length ++
      msg.take 0xffff ++ data.take 0xffff
| author status msg data args =>
    [status, UInt8.ofNat args.length] ++
      short (authorMsg userMsg msg).length ++
      short (data.take 0xffff).length ++
      args.map (fun a => UInt8.ofNat a.length) ++
      authorMsg userMsg msg ++ data.take 0xffff ++ args.flatten
| acct status msg data =>
    short msg.length ++ short data.length ++ [status] ++
      msg ++ data

/- Whether `cleanup_session` follows the reply. -/
def Reply.final : Reply → Bool
| authen status _ _ _ =>
    status = authenPass || status = authenFail ||
      status = authenError || status = authenFollow
| author .. => true
| acct .. => true

/- The bytes of an ASCII text. -/
def ascii (s : String) : List UInt8 :=
  s.toList.map fun c => UInt8.ofNat c.toNat

/- The error replies of `tac_read` by the type of the packet. -/
def errorReply (type : UInt8) (msg : List UInt8) :
    Option Reply :=
  if type = typeAuthen then some (.authen authenError 0 msg [])
  else if type = typeAuthor then
    some (.author authorError msg [] [])
  else if type = typeAcct then some (.acct acctError msg [])
  else none

def hexDigit (n : Nat) : Char :=
  if n < 10 then Char.ofNat (48 + n) else Char.ofNat (87 + n)

/- `%.2x` -/
def hexByte (b : UInt8) : String :=
  String.ofList [hexDigit (b.toNat / 16), hexDigit (b.toNat % 16)]

def illegalPacket (p : Pak) : List UInt8 :=
  ascii ("Illegal packet (version=0x" ++ hexByte p.version ++
    " type=0x" ++ hexByte p.type ++ ")")

end TacPlus

end Soteria

------------------------------------------------------------
-- The State of a Connection
------------------------------------------------------------

namespace Soteria

namespace TacPlus

abbrev SessionId := List UInt8

/- `tac_host`, as far as packets are read by it; `max_rounds` is
   what the configuration admits. -/
structure Host where
  keys : List Key
  maxRounds : Nat
  singleConnection : Bool
  /- The `CLIENT_BUG_...` flags. -/
  badVersion : Bool
  tlsObfuscated : Bool
  headerLength : Bool
  notObfuscated : Bool
  rounds_pos : 1 ≤ maxRounds
  rounds_le : maxRounds ≤ 127

/- `tac_session` -/
structure Session where
  version : UInt8
  /- The number of the last packet exchanged. -/
  seqNo : UInt8
  userMsg : List UInt8
deriving DecidableEq

/- `struct context` -/
structure Conn where
  sessions : SessionId → Option Session
  /- From the key in use on. -/
  keys : List Key
  keyFixed : Bool
  unencrypted : Bool
  flags : UInt8
  tls : Bool
  closed : Bool

/- A connection from a host. -/
def Host.accept (host : Host) (tls : Bool) : Conn where
  sessions := fun _ => none
  keys := host.keys
  keyFixed := false
  unencrypted := false
  flags := 0
  tls := tls
  closed := false

/- What a step of a connection does. -/
inductive Output where
/- A session is put into the table. -/
| opened (id : SessionId)
/- A packet has the next number of its session. -/
| accepted (p : Pak)
/- A reply is on its way to the NAS. -/
| answered (p : Pak)
/- The reply to a packet past the limit of rounds. -/
| refused (p : Pak)
/- A received packet is handled, as it is once it is opened. -/
| delivered (raw p : Pak)
| ended (id : SessionId)
| closed
deriving DecidableEq

def Conn.set (c : Conn) (id : SessionId) (s : Option Session) :
    Conn :=
  { c with sessions := Function.update c.sessions id s }

@[simp] theorem Conn.set_sessions_self
    (c : Conn) (id : SessionId) (s : Option Session) :
    (c.set id s).sessions id = s :=
  Function.update_self _ _ _

theorem Conn.set_sessions_of_ne
    {id id' : SessionId} (hNe : id' ≠ id)
    (c : Conn) (s : Option Session) :
    (c.set id s).sessions id' = c.sessions id' :=
  Function.update_of_ne hNe _ _

/- `cleanup` -/
def Conn.close (c : Conn) : Conn × List Output :=
  ({ c with sessions := fun _ => none, closed := true },
    [.closed])

/- `cleanup_session` -/
def Conn.cleanupSession (c : Conn) (id : SessionId) :
    Conn × List Output :=
  (c.set id none, [.ended id])

/- `new_pak` -/
def newPak
    (id : SessionId) (s : Session) (type : UInt8)
    (data : List UInt8) :
    Pak where
  version := s.version
  type := type
  seqNo := s.seqNo + 1
  flags := unencryptedFlag
  sessionId := id
  data := data

/- A reply, and the end of the session where there is no more to
   come. -/
def Conn.send
    (c : Conn) (out : Pak → Output) (id : SessionId)
    (s : Session) (r : Reply) :
    Conn × List Output :=
  let p := newPak id s r.type (r.body s.userMsg)
  if r.final then (c.set id none, [out p, .ended id])
  else (c.set id (some { s with seqNo := s.seqNo + 1 }), [out p])

/- One thing after another. -/
def Conn.andThen
    (r : Conn × List Output)
    (next : Conn → Conn × List Output) :
    Conn × List Output :=
  ((next r.1).1, r.2 ++ (next r.1).2)

end TacPlus

end Soteria

------------------------------------------------------------
-- Reading a Packet
------------------------------------------------------------

namespace Soteria

namespace TacPlus

/- `TAC_PLUS_VER_DEFAULT` and `TAC_PLUS_VER_ONE` -/
def verDefault : UInt8 := 0xc0

def verOne : UInt8 := 0xc1

/- The `..._pak_looks_bogus` of the type of a packet. -/
def looksBogus
    (host : Host) (beyond : Nat → UInt8) (p : Pak) : Bool :=
  if p.type = typeAuthen then
    authenPakLooksBogus host.headerLength p.seqNo p.data beyond
  else if p.type = typeAuthor then
    authorPakLooksBogus host.headerLength p.data beyond
  else if p.type = typeAcct then
    accountingPakLooksBogus host.headerLength p.data beyond
  else false

/- The versions that a packet is handled with. -/
def legalVersion (host : Host) (p : Pak) : Bool :=
  if p.type = typeAuthen then
    p.version = verDefault || p.version = verOne
  else p.version = verDefault || host.badVersion

/- Whether the obfuscation of a packet is not the one of the
   connection. -/
def wrongObfuscation (host : Host) (c : Conn) (p : Pak) :
    Bool :=
  let unencrypted := p.flags &&& unencryptedFlag ≠ 0
  (c.tls && !unencrypted && !host.tlsObfuscated) ||
    (!c.tls && unencrypted && !host.notObfuscated)

/- The error reply for a session that is in the table. -/
def Conn.sendError
    (c : Conn) (id : SessionId) (type : UInt8)
    (msg : List UInt8) :
    Conn × List Output :=
  match c.sessions id, errorReply type msg with
  | some s, some r => c.send .answered id s r
  | _, _ => (c, [])

/- The flags of a packet that become those of the connection. -/
def Conn.adopt (host : Host) (c : Conn) (p : Pak) : Conn :=
  let c :=
    if p.flags &&& unencryptedFlag ≠ 0 then
      { c with unencrypted := true, keys := [] }
    else c
  if p.flags &&& singleConnectFlag ≠ 0 && host.singleConnection
  then { c with flags := c.flags ||| singleConnectFlag }
  else c

/- The loop over the keys, and what becomes of the packet that it
   ends with. -/
def Conn.dispatch
    (md5 : Md5) (host : Host) (beyond : Nat → UInt8)
    (c : Conn) (raw : Pak) :
    Conn × List Output :=
  let (keys, p, bogus) :=
    if c.unencrypted then
      (c.keys, raw, looksBogus host beyond raw)
    else tryKeys md5 (looksBogus host beyond) c.keyFixed c.keys raw
  let c := { c with keys := keys, keyFixed := true }
  if p.type = typeAuthen || p.type = typeAuthor ||
      p.type = typeAcct then
    if !bogus && legalVersion host p then
      (c, [.delivered raw p])
    else c.sendError p.sessionId p.type (illegalPacket p)
  else c.cleanupSession p.sessionId

/- A packet with the next number of a session. -/
def Conn.process
    (md5 : Md5) (host : Host) (beyond : Nat → UInt8)
    (c : Conn) (p : Pak) :
    Conn × List Output :=
  if wrongObfuscation host c p then
    let msg :=
      if c.tls then "Peers MUST NOT use Obfuscation with TLS."
      else "Peers MUST use Obfuscation."
    Conn.andThen (c.sendError p.sessionId p.type (ascii msg))
      Conn.close
  else (c.adopt host p).dispatch md5 host beyond p

/- `tac_read`, from where a packet is complete. The version and
   the length are already checked when its header is. -/
def tacRead
    (md5 : Md5) (host : Host) (beyond : Nat → UInt8)
    (c : Conn) (p : Pak) :
    Conn × List Output :=
  if p.version &&& 0xf0 ≠ verDefault || p.data.length > 0xffff
  then c.close
  else
    match c.sessions p.sessionId with
    | some s =>
        if s.seqNo.toNat / 2 = host.maxRounds then
          Conn.andThen
            (c.send .refused p.sessionId s
              (.authen authenError 0
                (ascii "Too many rounds.") []))
            Conn.close
        else if s.seqNo + 1 ≠ p.seqNo then c.close
        else
          Conn.andThen
            (c.set p.sessionId
              (some { s with seqNo := s.seqNo + 1 }),
              [.accepted p])
            (Conn.process md5 host beyond · p)
    | none =>
        if p.seqNo = 1 then
          -- `new_session`
          Conn.andThen
            (c.set p.sessionId
              (some { version := p.version, seqNo := 1,
                      userMsg := [] }),
              [.opened p.sessionId, .accepted p])
            (Conn.process md5 host beyond · p)
        else c.close

end TacPlus

end Soteria

------------------------------------------------------------
-- Runs
------------------------------------------------------------

namespace Soteria

namespace TacPlus

/- What happens to a connection. -/
inductive Event where
| packet (p : Pak)
/- A session is answered by the code that handles its packets. -/
| reply (id : SessionId) (r : Reply)
/- A session is given up: it is aborted or timed out. -/
| drop (id : SessionId)
/- The `user_msg` of a session is set. -/
| message (id : SessionId) (text : List UInt8)
/- The connection is closed by either side. -/
| hangup

def step
    (md5 : Md5) (host : Host) (beyond : Nat → UInt8)
    (c : Conn) (e : Event) :
    Conn × List Output :=
  if c.closed then (c, [])
  else
    match e with
    | .packet p => tacRead md5 host beyond c p
    | .reply id r =>
        match c.sessions id with
        | some s => c.send .answered id s r
        | none => (c, [])
    | .drop id =>
        match c.sessions id with
        | some _ => c.cleanupSession id
        | none => (c, [])
    | .message id text =>
        match c.sessions id with
        | some s =>
            (c.set id (some { s with userMsg := text }), [])
        | none => (c, [])
    | .hangup => c.close

/- The state that events lead to, and all that was done. -/
def run
    (md5 : Md5) (host : Host) (beyond : Nat → UInt8)
    (c : Conn) (events : List Event) :
    Conn × List Output :=
  events.foldl
    (fun r e => Conn.andThen r (step md5 host beyond · e))
    (c, [])

end TacPlus

end Soteria
