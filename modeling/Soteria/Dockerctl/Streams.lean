import Mathlib.Data.List.Basic

/-
  The output of a command in a container, which comes as one
  stream of frames.

  What is left of a stream is a list of bytes; in how many
  pieces it arrives does not matter to `io.ReadFull` and
  `io.CopyN`.

  Key definitions include:
    * `bigEndian`, `demuxStream`
    * `Frame`, `encode`, `arrived`
    * `demuxStream_encode`
-/

------------------------------------------------------------
-- Splitting a Stream
------------------------------------------------------------

namespace Soteria

namespace Dockerctl

abbrev Bytes := List UInt8

/- `binary.BigEndian.Uint32`. -/
def bigEndian (a b c d : UInt8) : Nat :=
  a.toNat * 16777216 + b.toNat * 65536 + c.toNat * 256 +
    d.toNat

/- What was written to the two buffers. -/
structure Buffers where
  stdout : Bytes
  stderr : Bytes
deriving DecidableEq

/- The bytes go to the buffer of their stream. -/
def Buffers.write
    (buffers : Buffers)
    (id : UInt8)
    (bytes : Bytes) : Buffers :=
  if id = 2 then
    { buffers with stderr := buffers.stderr ++ bytes }
  else { buffers with stdout := buffers.stdout ++ bytes }

/-
  The loop of `demuxStream`. It ends where there is no whole
  header, or where a payload is cut off.
-/
def demuxLoop (buffers : Buffers) : Bytes → Buffers
| id :: _ :: _ :: _ :: a :: b :: c :: d :: rest =>
    let size := bigEndian a b c d
    if size = 0 then demuxLoop buffers rest
    else
      let written := buffers.write id (rest.take size)
      if rest.length < size then written
      else demuxLoop written (rest.drop size)
| _ => buffers
termination_by stream => stream.length
decreasing_by
  · simp only [List.length_cons]
    omega
  · simp only [List.length_cons, List.length_drop]
    omega

/- `demuxStream`: the output and the errors. -/
def demuxStream (stream : Bytes) : Bytes × Bytes :=
  let buffers := demuxLoop ⟨[], []⟩ stream
  (buffers.stdout, buffers.stderr)

end Dockerctl

end Soteria

------------------------------------------------------------
-- Frames
------------------------------------------------------------

namespace Soteria

namespace Dockerctl

/- A frame, whose payload fits into its size field. -/
structure Frame where
  id : UInt8
  payload : Bytes
  fits : payload.length < 4294967296

/- A size as four bytes. -/
def sizeBytes (n : Nat) : Bytes :=
  [UInt8.ofNat (n / 16777216), UInt8.ofNat (n / 65536),
    UInt8.ofNat (n / 256), UInt8.ofNat n]

/- A frame as it is sent. -/
def Frame.encoded (frame : Frame) : Bytes :=
  [frame.id, 0, 0, 0] ++ sizeBytes frame.payload.length ++
    frame.payload

def encode (frames : List Frame) : Bytes :=
  frames.flatMap Frame.encoded

/-
  The payload bytes of each frame that are among the first
  `n` bytes of the stream.
-/
def arrived : Nat → List Frame → List (UInt8 × Bytes)
| _, [] => []
| n, frame :: frames =>
    (frame.id, frame.payload.take (n - 8)) ::
      arrived (n - frame.encoded.length) frames

/- The bytes of the frames with such an id. -/
def bytesOf
    (p : UInt8 → Bool)
    (pieces : List (UInt8 × Bytes)) : Bytes :=
  (pieces.filter fun piece => p piece.1).flatMap Prod.snd

theorem bigEndian_sizeBytes
    {n : Nat}
    (hFits : n < 4294967296) :
    bigEndian (UInt8.ofNat (n / 16777216))
        (UInt8.ofNat (n / 65536)) (UInt8.ofNat (n / 256))
        (UInt8.ofNat n) = n := by
  unfold bigEndian
  simp only [UInt8.toNat_ofNat']
  omega

theorem encoded_length (frame : Frame) :
    frame.encoded.length = 8 + frame.payload.length := by
  unfold Frame.encoded sizeBytes
  simp only [List.length_append, List.length_cons,
    List.length_nil]

/- Writing the pieces to the buffers, one after another. -/
def Buffers.writeAll
    (buffers : Buffers)
    (pieces : List (UInt8 × Bytes)) : Buffers :=
  pieces.foldl (fun buffers piece =>
    buffers.write piece.1 piece.2) buffers

@[simp] theorem write_nil (buffers : Buffers) (id : UInt8) :
    buffers.write id [] = buffers := by
  unfold Buffers.write
  split
  · rw [List.append_nil]
  · rw [List.append_nil]

/- Of no bytes nothing has arrived. -/
theorem writeAll_arrived_zero
    (buffers : Buffers)
    (frames : List Frame) :
    buffers.writeAll (arrived 0 frames) = buffers := by
  induction frames with
  | nil => rfl
  | cons frame frames ih =>
      unfold arrived Buffers.writeAll
      rw [Nat.zero_sub, Nat.zero_sub, List.take_zero,
        List.foldl_cons, write_nil]
      exact ih

theorem demuxLoop_short
    (buffers : Buffers)
    {stream : Bytes}
    (hShort : stream.length < 8) :
    demuxLoop buffers stream = buffers := by
  unfold demuxLoop
  split
  · simp only [List.length_cons] at hShort
    omega
  · rfl

/- A frame of a stream that is longer than its header. -/
theorem demuxLoop_frame
    (buffers : Buffers)
    (frame : Frame)
    (rest : Bytes) :
    demuxLoop buffers
        ([frame.id, 0, 0, 0] ++
          sizeBytes frame.payload.length ++ rest) =
      if frame.payload.length = 0 then
        demuxLoop buffers rest
      else
        let written :=
          buffers.write frame.id
            (rest.take frame.payload.length)
        if rest.length < frame.payload.length then written
        else
          demuxLoop written
            (rest.drop frame.payload.length) := by
  unfold sizeBytes
  rw [List.append_assoc, List.cons_append, List.cons_append,
    List.cons_append, List.cons_append, List.nil_append,
    List.cons_append, List.cons_append, List.cons_append,
    List.cons_append, List.nil_append, demuxLoop,
    bigEndian_sizeBytes frame.fits]

theorem take_encoded
    (frame : Frame)
    (rest : Bytes)
    {n : Nat}
    (hLong : 8 ≤ n) :
    (frame.encoded ++ rest).take n =
      [frame.id, 0, 0, 0] ++
        sizeBytes frame.payload.length ++
          (frame.payload ++ rest).take (n - 8) := by
  unfold Frame.encoded
  rw [List.append_assoc, List.take_append,
    List.take_of_length_le (by simpa [sizeBytes] using hLong)]
  simp [sizeBytes]

/-
  The loop writes the payload bytes of a stream that is cut
  off anywhere.
-/
theorem demuxLoop_encode
    (frames : List Frame)
    (n : Nat)
    (buffers : Buffers) :
    demuxLoop buffers ((encode frames).take n) =
      buffers.writeAll (arrived n frames) := by
  induction frames generalizing n buffers with
  | nil =>
      unfold encode
      rw [List.flatMap_nil, List.take_nil]
      exact demuxLoop_short buffers (by simp)
  | cons frame frames ih =>
      have hLength := encoded_length frame
      have hArrived :
          buffers.writeAll (arrived n (frame :: frames)) =
            (buffers.write frame.id
              (frame.payload.take (n - 8))).writeAll
                (arrived (n - frame.encoded.length)
                  frames) := rfl
      have hEncode :
          encode (frame :: frames) =
            frame.encoded ++ encode frames := rfl
      rw [hArrived, hEncode]
      by_cases hHeader : n < 8
      · have hNone : n - 8 = 0 := by omega
        have hBehind : n - frame.encoded.length = 0 := by
          omega
        rw [hNone, hBehind, List.take_zero, write_nil,
          writeAll_arrived_zero]
        apply demuxLoop_short
        rw [List.length_take]
        omega
      · rw [take_encoded frame _ (by omega), demuxLoop_frame]
        by_cases hEmpty : frame.payload.length = 0
        · have hNil : frame.payload = [] :=
            List.length_eq_zero_iff.mp hEmpty
          have hBehind : n - frame.encoded.length = n - 8 := by
            omega
          rw [if_pos hEmpty, hNil, hBehind, List.take_nil,
            write_nil, List.nil_append]
          exact ih (n - 8) buffers
        · have hTaken :
              ((frame.payload ++ encode frames).take
                (n - 8)).take frame.payload.length =
                  frame.payload.take (n - 8) := by
            rw [List.take_take, Nat.min_comm,
              ← List.take_take, List.take_left]
          have hBehind :
              n - frame.encoded.length =
                n - 8 - frame.payload.length := by
            omega
          rw [if_neg hEmpty, hTaken, hBehind]
          dsimp only
          by_cases hCut : n - 8 < frame.payload.length
          · have hZero : n - 8 - frame.payload.length = 0 := by
              omega
            rw [hZero, writeAll_arrived_zero, if_pos]
            rw [List.length_take]
            omega
          -- the payload is there, and the stream behind it
          -- is cut off later
          · rw [List.drop_take, List.drop_left]
            split
            case isTrue hShort =>
              rw [List.length_take, List.length_append]
                at hShort
              omega
            case isFalse => exact ih _ _

/- What the pieces add to each of the two buffers. -/
theorem writeAll_eq
    (buffers : Buffers)
    (pieces : List (UInt8 × Bytes)) :
    buffers.writeAll pieces =
      ⟨buffers.stdout ++ bytesOf (· != 2) pieces,
        buffers.stderr ++ bytesOf (· == 2) pieces⟩ := by
  induction pieces generalizing buffers with
  | nil => simp [Buffers.writeAll, bytesOf]
  | cons piece pieces ih =>
      have hStep :
          buffers.writeAll (piece :: pieces) =
            (buffers.write piece.1 piece.2).writeAll
              pieces := rfl
      rw [hStep, ih]
      by_cases hId : piece.1 = 2
      · simp [Buffers.write, bytesOf, hId]
      · simp [Buffers.write, bytesOf, hId]

/-
  Of a stream of frames that is cut off anywhere, the errors
  are the payload bytes with id 2 that arrived, and the output
  is those of all other frames.
-/
theorem demuxStream_encode
    (frames : List Frame)
    (n : Nat) :
    demuxStream ((encode frames).take n) =
      (bytesOf (· != 2) (arrived n frames),
        bytesOf (· == 2) (arrived n frames)) := by
  unfold demuxStream
  rw [demuxLoop_encode, writeAll_eq]
  rfl

example :
    demuxStream
        ((encode [⟨1, [5, 6], by decide⟩, ⟨1, [], by decide⟩,
          ⟨2, [7, 8, 9], by decide⟩]).take 28) =
      ([5, 6], [7, 8]) := by
  decide +kernel

end Dockerctl

end Soteria
