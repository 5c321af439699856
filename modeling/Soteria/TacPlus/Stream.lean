import Soteria.Foundation.Chunks
import Soteria.TacPlus.Connection

/-
  The bytes of a connection.

  A packet is read in two parts, its header and as many bytes as
  the header says. Every read may return less than it asks for;
  what was read is kept until the rest arrives. The packets to be
  sent are written in the same way.

  Key definitions include:
    * `TacPlus.serialize`
    * `TacPlus.Reader`, `TacPlus.reader`
    * `TacPlus.Writer`, `TacPlus.tacWrite`
    * `TacPlus.Writer.queue`
-/

------------------------------------------------------------
-- Reading
------------------------------------------------------------

namespace Soteria

namespace TacPlus

/- `TAC_PLUS_HDR_SIZE` -/
def hdrSize : Nat := 12

/- `htonl` of a length. -/
def long (n : Nat) : List UInt8 :=
  [UInt8.ofNat (n / 16777216), UInt8.ofNat (n / 65536),
    UInt8.ofNat (n / 256), UInt8.ofNat n]

def header (p : Pak) : List UInt8 :=
  [p.version, p.type, p.seqNo, p.flags] ++ p.sessionId ++
    long p.data.length

/- The bytes of a packet. -/
def serialize (p : Pak) : List UInt8 :=
  header p ++ p.data

/- `ntohl(hdr.datalength)` -/
def datalength (hdr : List UInt8) : Nat :=
  16777216 * hdr[8]!.toNat + 65536 * hdr[9]!.toNat +
    256 * hdr[10]!.toNat + hdr[11]!.toNat

/- The packet of a header and a body. -/
def pakOf (hdr body : List UInt8) : Pak where
  version := hdr[0]!
  type := hdr[1]!
  seqNo := hdr[2]!
  flags := hdr[3]!
  sessionId := (hdr.drop 4).take 4
  data := body

/- `ctx->hdr` and `ctx->in`, as far as they are filled. -/
structure Reader where
  hdr : List UInt8
  body : List UInt8
  closed : Bool
deriving DecidableEq

def Reader.start : Reader where
  hdr := []
  body := []
  closed := false

def Reader.close : Reader where
  hdr := []
  body := []
  closed := true

/- How many bytes the next `recv` asks for. -/
def Reader.room (r : Reader) : Nat :=
  if r.closed then 0
  else if r.hdr.length ≠ hdrSize then hdrSize - r.hdr.length
  else datalength r.hdr - r.body.length

/- What `tac_read` makes of the bytes that `recv` returned. -/
def Reader.recv (r : Reader) (bytes : List UInt8) :
    Reader × List Pak :=
  if r.hdr.length ≠ hdrSize then
    let hdr := r.hdr ++ bytes
    if hdr.length ≠ hdrSize then ({ r with hdr := hdr }, [])
    else if hdr[0]! &&& 0xf0 ≠ verDefault then (.close, [])
    else if datalength hdr > 0xffff then (.close, [])
    -- a `recv` of no bytes returns what the end of a stream does
    else if datalength hdr = 0 then (.close, [])
    else ({ r with hdr := hdr, body := [] }, [])
  else
    let body := r.body ++ bytes
    if body.length ≠ datalength r.hdr then
      ({ r with body := body }, [])
    else (.start, [pakOf r.hdr body])

def reader : Chunks.Machine Reader UInt8 Pak where
  room := Reader.room
  read := Reader.recv

/- The packets that are read as they were written. -/
structure Framed (p : Pak) : Prop where
  major : p.version &&& 0xf0 = verDefault
  id_length : p.sessionId.length = 4
  pos : 0 < p.data.length
  le : p.data.length ≤ 0xffff

end TacPlus

end Soteria

------------------------------------------------------------
-- However the Bytes Arrive
------------------------------------------------------------

namespace Soteria

namespace TacPlus

theorem reader_divisible : reader.Divisible := by
  intro r a b ha hb hRoom
  have ha := List.length_pos_iff.mpr ha
  have hb := List.length_pos_iff.mpr hb
  simp only [reader, Reader.room] at hRoom ⊢
  by_cases hClosed : r.closed = true
  · rw [if_pos hClosed] at hRoom
    omega
  rw [if_neg hClosed] at hRoom
  by_cases hHdr : r.hdr.length ≠ hdrSize
  · rw [if_pos hHdr] at hRoom
    -- the first part does not complete the header
    have hPart : (r.hdr ++ a).length ≠ hdrSize := by
      rw [List.length_append]
      omega
    have hFirst : r.recv a = ({ r with hdr := r.hdr ++ a }, []) := by
      simp only [Reader.recv, if_pos hHdr, if_pos hPart]
    rw [hFirst]
    refine ⟨?_, ?_⟩
    · rw [if_neg hClosed, if_pos hPart, List.length_append]
      omega
    · simp only [Reader.recv, if_pos hHdr, if_pos hPart,
        List.append_assoc, List.nil_append]
  · rw [if_neg hHdr] at hRoom
    have hPart : (r.body ++ a).length ≠ datalength r.hdr := by
      rw [List.length_append]
      omega
    have hFirst : r.recv a =
        ({ r with body := r.body ++ a }, []) := by
      simp only [Reader.recv, if_neg hHdr, if_pos hPart]
    rw [hFirst]
    refine ⟨?_, ?_⟩
    · simp only [if_neg hClosed, if_neg hHdr,
        List.length_append]
      omega
    · simp only [Reader.recv, if_neg hHdr, List.append_assoc,
        List.nil_append]

theorem length_header {p : Pak} (h : Framed p) :
    (header p).length = hdrSize := by
  simp [header, long, h.id_length, hdrSize]

theorem datalength_header {p : Pak} (h : Framed p) :
    datalength (header p) = p.data.length := by
  have hId := h.id_length
  have hLe := h.le
  match hBytes : p.sessionId, hId with
  | [a, b, c, d], _ =>
      simp [datalength, header, hBytes, long]
      omega

theorem pakOf_header {p : Pak} (h : Framed p) :
    pakOf (header p) p.data = p := by
  have hId := h.id_length
  rcases p with ⟨version, type, seqNo, flags, sessionId, data⟩
  match sessionId, hId with
  | [a, b, c, d], _ => rfl

theorem recv_header {p : Pak} (h : Framed p) :
    Reader.start.recv (header p) =
      ({ hdr := header p, body := [], closed := false }, []) := by
  have hPos := h.pos
  have hLe := h.le
  have hVersion : (header p)[0]! &&& 0xf0 = verDefault := h.major
  simp only [Reader.recv, Reader.start, List.nil_append,
    length_header h, datalength_header h, hVersion]
  rw [if_pos (by decide), if_neg (by simp), if_neg (by simp),
    if_neg (by omega), if_neg (by omega)]

theorem recv_data {p : Pak} (h : Framed p) :
    Reader.recv { hdr := header p, body := [], closed := false }
      p.data = (.start, [p]) := by
  simp only [Reader.recv, length_header h, datalength_header h,
    List.nil_append, pakOf_header h]
  rw [if_neg (by simp), if_neg (by simp)]

/- A packet that arrives in its two parts. -/
theorem reader_packet {p : Pak} (h : Framed p) :
    reader.Fits .start [header p, p.data] ∧
      reader.run .start [header p, p.data] = (.start, [p]) := by
  have hLength := length_header h
  have hPos := h.pos
  constructor
  · refine .cons ?_ ?_ (.cons ?_ ?_ (.nil _))
    · intro hNil
      rw [hNil] at hLength
      cases hLength
    · rw [hLength]
      exact Nat.le_refl hdrSize
    · exact List.length_pos_iff.mp hPos
    · change p.data.length ≤ (Reader.start.recv (header p)).1.room
      rw [recv_header h]
      simp [Reader.room, hLength, datalength_header h]
  · change ((Reader.recv (Reader.start.recv (header p)).1
      p.data).1, (Reader.start.recv (header p)).2 ++
        ((Reader.recv (Reader.start.recv (header p)).1
          p.data).2 ++ [])) = _
    rw [recv_header h, recv_data h]
    rfl

/- The packets are read where every read returns all it asks
   for. -/
theorem reader_whole
    (ps : List Pak) (hFramed : ∀ p ∈ ps, Framed p) :
    reader.Fits .start
        (ps.flatMap fun p => [header p, p.data]) ∧
      reader.run .start
        (ps.flatMap fun p => [header p, p.data]) =
          (.start, ps) := by
  induction ps with
  | nil => exact ⟨.nil _, rfl⟩
  | cons p ps ih =>
      rcases reader_packet (hFramed p List.mem_cons_self) with
        ⟨hFirst, hRun⟩
      rcases ih fun q hq =>
        hFramed q (List.mem_cons_of_mem p hq) with
        ⟨hRest, hRuns⟩
      rw [List.flatMap_cons]
      refine ⟨hFirst.append ?_, ?_⟩
      · rw [hRun]
        exact hRest
      · rw [Chunks.Machine.run_append, hRun, hRuns]
        rfl

theorem flatten_parts (ps : List Pak) :
    (ps.flatMap fun p => [header p, p.data]).flatten =
      ps.flatMap serialize := by
  induction ps with
  | nil => rfl
  | cons p ps ih =>
      rw [List.flatMap_cons, List.flatMap_cons, ← ih,
        List.flatten_append]
      simp [serialize]

/- However the bytes arrive, the reads return the same. -/
theorem reader_pieces
    (ps : List Pak) (pieces : List (List UInt8))
    (hFramed : ∀ p ∈ ps, Framed p)
    (hFits : reader.Fits .start pieces)
    (hBytes : pieces.flatten = ps.flatMap serialize) :
    reader.run .start pieces =
      reader.run .start
        (ps.flatMap fun p => [header p, p.data]) :=
  Chunks.Machine.run_congr reader_divisible hFits
    (reader_whole ps hFramed).1
    (hBytes.trans (flatten_parts ps).symm)

/- The packets of a NAS are read as they were written, whatever
   pieces their bytes arrive in. -/
theorem reader_stream
    (ps : List Pak) (pieces : List (List UInt8))
    (hFramed : ∀ p ∈ ps, Framed p)
    (hFits : reader.Fits .start pieces)
    (hBytes : pieces.flatten = ps.flatMap serialize) :
    reader.run .start pieces = (.start, ps) := by
  rw [reader_pieces ps pieces hFramed hFits hBytes]
  exact (reader_whole ps hFramed).2

theorem reader_stream_pieces :
    let p : Pak :=
      { version := 0xc0, type := 1, seqNo := 1, flags := 0,
        sessionId := [1, 2, 3, 4], data := [9, 8] }
    reader.run .start
        [[0xc0, 1], [1, 0, 1, 2, 3, 4, 0, 0, 0, 2], [9], [8]] =
      (.start, [p]) := by
  intro p
  refine reader_stream [p] _ ?_ ?_ (by decide)
  · intro q hq
    rw [List.mem_singleton.mp hq]
    exact ⟨by decide, rfl, by decide, by decide⟩
  · exact .cons nofun (by decide) (.cons nofun (by decide)
      (.cons nofun (by decide) (.cons nofun (by decide)
        (.nil _))))

end TacPlus

end Soteria

------------------------------------------------------------
-- Writing
------------------------------------------------------------

namespace Soteria

namespace TacPlus

/- `ctx->out`, with the offset of its first packet. -/
structure Writer where
  out : List (List UInt8)
  offset : Int
deriving DecidableEq

/- The byte of a packet at an offset, and before it whatever the
   memory has there. -/
def byteOf
    (before : Nat → UInt8) (pak : List UInt8) (i : Int) : UInt8 :=
  if i < 0 then before (-i).toNat else pak.getD i.toNat 0

/- One turn of the loop in `tac_write`, for what `write` returns:
   the bytes that went out, and the rest. As `write_ex` only asks
   for less than -1, a write that would block moves the offset
   back. -/
def tacWriteTurn
    (before : Nat → UInt8) (w : Writer) (len : Int) :
    List UInt8 × Writer :=
  match w.out with
  | [] => ([], w)
  | pak :: rest =>
      let sent := (List.range len.toNat).map fun (j : Nat) =>
        byteOf before pak (w.offset + j)
      if w.offset + len = pak.length then
        (sent, { out := rest, offset := 0 })
      else (sent, { w with offset := w.offset + len })

/- `tac_write`, for the results of its writes. -/
def tacWrite (before : Nat → UInt8) :
    Writer → List Int → List UInt8 × Writer
| w, [] => ([], w)
| w, len :: rest =>
    let (sent, w) := tacWriteTurn before w len
    let (more, w) := tacWrite before w rest
    (sent ++ more, w)

/- What `write` may return while there is something to write, but
   for the end of the connection. -/
inductive Returns (before : Nat → UInt8) :
    Writer → List Int → Prop
| nil (w : Writer) : Returns before w []
| cons
    {w : Writer} {pak : List UInt8} {rest : List (List UInt8)}
    {len : Int} {lens : List Int}
    (hOut : w.out = pak :: rest)
    (hLen : len = -1 ∨ 0 < len)
    (hRoom : w.offset + len ≤ pak.length)
    (hRest : Returns before (tacWriteTurn before w len).2 lens) :
    Returns before w (len :: lens)

/- The bytes that are left to write. -/
def Writer.left (w : Writer) : List UInt8 :=
  w.out.flatten.drop w.offset.toNat

theorem sent_eq
    (before : Nat → UInt8) (pak : List UInt8) {offset : Int}
    {len : Nat} (hPos : 0 ≤ offset)
    (hRoom : offset + len ≤ pak.length) :
    ((List.range len).map fun (j : Nat) =>
        byteOf before pak (offset + j)) =
      (pak.drop offset.toNat).take len := by
  apply List.ext_getElem
  · simp only [List.length_map, List.length_range,
      List.length_take, List.length_drop]
    omega
  · intro i hLeft _
    have hi : i < len := by simpa using hLeft
    have hIndex : (offset + i).toNat = offset.toNat + i := by
      omega
    simp only [List.getElem_map, List.getElem_range, byteOf,
      List.getElem_take, List.getElem_drop, hIndex]
    rw [if_neg (by omega), List.getD_eq_getElem?_getD,
      List.getElem?_eq_getElem (by omega), Option.getD_some]

/- What goes out is what was to be written, as long as no write
   would have blocked. -/
theorem tacWrite_sends
    (before : Nat → UInt8) (w : Writer) (lens : List Int)
    (hPos : 0 ≤ w.offset) (hReturns : Returns before w lens)
    (hNone : ∀ len ∈ lens, len ≠ -1) :
    (tacWrite before w lens).1 ++
        (tacWrite before w lens).2.left = w.left := by
  induction hReturns with
  | nil w => rfl
  | @cons w pak rest len lens hOut hLen hRoom _ ih =>
      have hSome : 0 < len := by
        rcases hLen with hLen | hLen
        · exact absurd hLen (hNone len List.mem_cons_self)
        · exact hLen
      have hTurn : 0 ≤ (tacWriteTurn before w len).2.offset ∧
          (tacWriteTurn before w len).1 ++
            (tacWriteTurn before w len).2.left = w.left := by
        have hFits : w.offset + (len.toNat : Int) ≤ pak.length := by
          omega
        have hSent := sent_eq before pak hPos hFits
        have hDrop : w.left =
            pak.drop w.offset.toNat ++ rest.flatten := by
          rw [Writer.left, hOut, List.flatten_cons,
            List.drop_append_of_le_length (by omega)]
        rw [tacWriteTurn, hOut]
        simp only [hSent]
        by_cases hEnd : w.offset + len = pak.length
        · rw [if_pos hEnd]
          refine ⟨Int.le_refl 0, ?_⟩
          have hTake : (pak.drop w.offset.toNat).take len.toNat =
              pak.drop w.offset.toNat := by
            apply List.take_of_length_le
            rw [List.length_drop]
            omega
          rw [hTake, hDrop]
          rfl
        · rw [if_neg hEnd]
          refine ⟨by simp only; omega, ?_⟩
          have hNext : (w.offset + len).toNat =
              w.offset.toNat + len.toNat := by omega
          have hLeft : Writer.left
              { out := pak :: rest, offset := w.offset + len } =
              (pak.drop w.offset.toNat).drop len.toNat ++
                rest.flatten := by
            simp only [Writer.left, List.flatten_cons, hNext,
              List.drop_drop]
            rw [List.drop_append_of_le_length (by omega)]
          rw [hLeft, hDrop, ← List.append_assoc,
            List.take_append_drop]
      have hRest := ih hTurn.1 fun l hl =>
        hNone l (List.mem_cons_of_mem len hl)
      rw [← hTurn.2, ← hRest, ← List.append_assoc]
      rfl

/- Every write that would have blocked makes one byte more go
   out. -/
theorem tacWrite_length
    (before : Nat → UInt8) (w : Writer) (lens : List Int)
    (hReturns : Returns before w lens) :
    ((tacWrite before w lens).1.length : Int) +
        ((tacWrite before w lens).2.out.flatten.length -
          (tacWrite before w lens).2.offset) =
      (w.out.flatten.length - w.offset) + lens.count (-1) := by
  induction hReturns with
  | nil w => simp [tacWrite]
  | @cons w pak rest len lens hOut hLen hRoom _ ih =>
      have hTurn : ((tacWriteTurn before w len).1.length : Int) =
            len.toNat ∧
          ((tacWriteTurn before w len).2.out.flatten.length -
            (tacWriteTurn before w len).2.offset : Int) =
          w.out.flatten.length - (w.offset + len) := by
        rw [tacWriteTurn, hOut]
        simp only
        split
        · simp only [List.length_map, List.length_range,
            List.flatten_cons, List.length_append]
          exact ⟨trivial, by omega⟩
        · simp
      have hCount : ((len :: lens).count (-1) : Int) =
          lens.count (-1) + (len.toNat - len) := by
        rcases hLen with rfl | hLen
        · simp
        · rw [List.count_cons_of_ne (by omega)]
          omega
      rw [hCount]
      have hSent : (tacWrite before w (len :: lens)).1.length =
          (tacWriteTurn before w len).1.length +
            (tacWrite before (tacWriteTurn before w len).2
              lens).1.length := List.length_append
      have hEnd : (tacWrite before w (len :: lens)).2 =
          (tacWrite before (tacWriteTurn before w len).2
            lens).2 := rfl
      rw [hSent, hEnd]
      omega

/- The packets of the queue go out one after another in whatever
   pieces they are written, but for one byte more for every write
   that would have blocked. -/
theorem tacWrite_run
    (before : Nat → UInt8) (out : List (List UInt8))
    (lens : List Int)
    (hReturns : Returns before { out := out, offset := 0 } lens) :
    let r := tacWrite before { out := out, offset := 0 } lens
    (-1 ∉ lens → r.1 ++ r.2.left = out.flatten) ∧
      (r.2.out = [] → r.2.offset = 0 →
        r.1.length = out.flatten.length + lens.count (-1)) := by
  intro r
  constructor
  · intro hNone
    exact tacWrite_sends before _ lens (Int.le_refl 0) hReturns
      fun len hLen hEq => hNone (hEq ▸ hLen)
  · intro hOut hOffset
    have h := tacWrite_length before _ lens hReturns
    change (r.1.length : Int) + (r.2.out.flatten.length -
      r.2.offset) = _ at h
    rw [hOut, hOffset] at h
    simp only [List.flatten_nil, List.length_nil] at h
    omega

/- A packet of three bytes and a write that would have blocked. -/
theorem tacWrite_run_blocked :
    tacWrite (fun _ => 0) { out := [[1, 2, 3]], offset := 0 }
        [2, -1, 2] =
      ([1, 2, 2, 3], { out := [], offset := 0 }) ∧
    [1, 2, 2, 3].length =
      [[1, 2, 3]].flatten.length + [2, -1, 2].count (-1) := by
  refine ⟨by decide, ?_⟩
  exact (tacWrite_run (fun _ => 0) [[1, 2, 3]] [2, -1, 2]
    (.cons rfl (by decide) (by decide)
      (.cons rfl (by decide) (by decide)
        (.cons rfl (by decide) (by decide) (.nil _))))).2
    (by decide) (by decide)

end TacPlus

end Soteria

------------------------------------------------------------
-- There and Back
------------------------------------------------------------

namespace Soteria

namespace TacPlus

theorem length_md5Xor (md5 : Md5) (key : Key) (p : Pak) :
    (md5Xor md5 key p).data.length = p.data.length := by
  rw [md5Xor]
  split
  · exact length_xorBlocks _ _ _ _ _
  · rfl

/- What is put into the queue for a reply is framed as it is. -/
theorem Framed.written
    {p : Pak} (h : Framed p) (md5 : Md5) (flags : UInt8)
    (key : Key) :
    Framed (writtenPak md5 flags false (some key) p) := by
  have hLength := length_md5Xor md5 key
    { p with flags := p.flags ||| flags }
  rw [writtenPak]
  simp only [Bool.false_eq_true, if_false]
  refine ⟨?_, ?_, ?_, ?_⟩
  · rw [md5Xor]
    split <;> exact h.major
  · rw [md5Xor]
    split <;> exact h.id_length
  · rw [hLength]
    exact h.pos
  · rw [hLength]
    exact h.le

/- The queue of a connection that is about to send replies. -/
def Writer.queue
    (md5 : Md5) (flags : UInt8) (key : Key) (replies : List Pak) :
    Writer where
  out := replies.map fun p =>
    serialize (writtenPak md5 flags false (some key) p)
  offset := 0

/- Where no write would have blocked, what the daemon sends is
   read as the replies, in their order and with the flags of the
   connection, by whoever frames packets as the daemon does and
   has the key. -/
theorem replies_read
    (md5 : Md5) (flags : UInt8) (key : Key)
    (before : Nat → UInt8) (replies : List Pak)
    (lens : List Int) (pieces : List (List UInt8))
    (hFramed : ∀ p ∈ replies, Framed p)
    (hReturns : Returns before
      (.queue md5 flags key replies) lens)
    (hNone : -1 ∉ lens)
    (hDone : (tacWrite before
      (.queue md5 flags key replies) lens).2.out = [])
    (hFits : reader.Fits .start pieces)
    (hBytes : pieces.flatten =
      (tacWrite before (.queue md5 flags key replies) lens).1) :
    (reader.run .start pieces).2.map (md5Xor md5 key) =
      replies.map fun p => { p with flags := p.flags ||| flags } := by
  let written := replies.map fun p =>
    writtenPak md5 flags false (some key) p
  have hWritten : ∀ p ∈ written, Framed p := by
    intro p hp
    rcases List.mem_map.mp hp with ⟨q, hq, rfl⟩
    exact (hFramed q hq).written md5 flags key
  -- everything went out, and nothing else
  have hSent := tacWrite_sends before _ lens (Int.le_refl 0)
    hReturns fun len hLen hEq => hNone (hEq ▸ hLen)
  have hLeft : (tacWrite before
      (.queue md5 flags key replies) lens).2.left = [] := by
    rw [Writer.left, hDone]
    exact List.drop_nil
  have hQueue : (Writer.queue md5 flags key replies).left =
      written.flatMap serialize := by
    simp [Writer.left, Writer.queue, written, List.flatMap_def,
      Function.comp_def]
  rw [hLeft, List.append_nil, hQueue] at hSent
  rw [reader_pieces written pieces hWritten hFits
    (hBytes.trans hSent), (reader_whole written hWritten).2]
  simp only [written, List.map_map]
  apply List.map_congr_left
  intro p _
  exact writtenPak_read md5 flags key p

theorem replies_read_one :
    let md5 : Md5 := fun _ => Vector.replicate 16 1
    let reply : Pak :=
      { version := 0xc0, type := 1, seqNo := 2, flags := 1,
        sessionId := [1, 2, 3, 4], data := [9, 8] }
    let pieces : List (List UInt8) :=
      [[0xc0, 1, 2], [0, 1, 2, 3, 4, 0, 0, 0, 2], [8, 9]]
    (reader.run .start pieces).2.map (md5Xor md5 [1]) =
      [reply] := by
  intro md5 reply pieces
  refine (replies_read md5 0 [1] (fun _ => 0) [reply] [5, 9]
    pieces ?_ ?_ (by decide) (by decide) ?_
    (by decide)).trans (by decide)
  · intro p hp
    rw [List.mem_singleton.mp hp]
    exact ⟨by decide, rfl, by decide, by decide⟩
  · exact .cons rfl (by decide) (by decide)
      (.cons rfl (by decide) (by decide) (.nil _))
  · exact .cons (List.cons_ne_nil _ _) (by decide)
      (.cons (List.cons_ne_nil _ _) (by decide)
        (.cons (List.cons_ne_nil _ _) (by decide) (.nil _)))

end TacPlus

end Soteria
