import FramedSnappy.Proofs.Frame.Reading
import FramedSnappy.Proofs.Guarded.Access
import FramedSnappy.Reader.Weight

/-! One frame, taken by a reader that looks at the range of every access first. As long as the queue
is in range, such a reader finds nothing out of range and does what every reader does. The length of
the frame and what the codec has announced have seen to that. -/
namespace FramedSnappy

theorem Source.read_body_length {source after : Source} {length : Nat} {data : Bytes}
    (h : source.readBody length = (.ok data, after)) : data.length = length := by
  rcases Nat.lt_or_ge source.front.length length with short | enough
  · obtain ⟨other, cut, -⟩ := read_body_short short
    cases h.symm.trans cut
  · obtain ⟨other, read, -⟩ := read_body_enough enough
    cases h.symm.trans read
    exact List.length_take_of_le enough

namespace Guarded

open Reader (lengthLimit)

variable {κ : Type}

/-- The data of the frame is read into a window of exactly its length. -/
def takeBody (reader : Reader κ) (length : Nat) : Outcome Error Bytes × Reader κ :=
  match reader.body.reserve length with
  | .error e => (.failed e, reader)
  | .ok scratch =>
    match scratch.front length with
    | none => (.overrun, reader)
    | some window =>
      match reader.source.readBody window.length with
      | (.error e, source) => (.failed e, { reader with source, body := scratch })
      | (.ok data, source) =>
        (.done data, { reader with source, body := scratch.store length data })

def accept (reader : Reader κ) (header : Frame.Header) (masked : UInt32) (decoded : Bytes) :
    Outcome Error Progress × Reader κ :=
  match reader.policy.check masked decoded with
  | .error e => (.failed e, reader.report (.corruptBlock e))
  | .ok () =>
    match append reader.pending decoded with
    | none => (.overrun, reader)
    | some pending =>
      (.done .block, { reader with pending }.report
        (.decodedFrame header.chunkType.toByte header.length decoded.length))

/-- A guarded call does what the plain one does, unless the queue is out of range already. The plain
one does not bring it there. -/
structure Agrees {ε α : Type} (reader : Reader κ) (guarded plain : Outcome ε α × Reader κ) :
    Prop where
  same : guarded = plain ∨ guarded.1 = .overrun ∧ ¬ reader.pending.Sound
  sound : reader.pending.Sound → plain.2.pending.Sound

section

variable {ε α : Type} {reader other : Reader κ} {guarded plain result : Outcome ε α × Reader κ}

theorem Agrees.of_sound (h : Agrees reader guarded plain) (sound : reader.pending.Sound) :
    guarded = plain := by
  rcases h.same with same | ⟨-, unsound⟩
  · exact same
  · exact absurd sound unsound

/-- An answer that a guarded call gives is the answer of the plain one. -/
theorem Agrees.going (h : Agrees reader guarded plain) (known : guarded = result)
    (going : result.1 ≠ .overrun) :
    plain = result ∧ (reader.pending.Sound → result.2.pending.Sound) := by
  rcases h.same with same | ⟨past, -⟩
  · have given := same.symm.trans known
    exact ⟨given, given ▸ h.sound⟩
  · exact absurd (known ▸ past) going

theorem agrees_unsound (unsound : ¬ reader.pending.Sound) (past : guarded.1 = .overrun) :
    Agrees reader guarded plain :=
  ⟨.inr ⟨past, unsound⟩, fun sound => absurd sound unsound⟩

theorem Agrees.of_pending (h : Agrees other guarded plain)
    (sound : reader.pending.Sound → other.pending.Sound) : Agrees reader guarded plain where
  same := h.same.imp_right fun ⟨past, unsound⟩ => ⟨past, mt sound unsound⟩
  sound start := h.sound (sound start)

theorem agrees_refl (sound : reader.pending.Sound → plain.2.pending.Sound) :
    Agrees reader plain plain :=
  ⟨.inl rfl, sound⟩

end

theorem take_body_eq (reader : Reader κ) (length : Nat) :
    takeBody reader length =
      match reader.takeBody length with
      | (.error e, after) => (.failed e, after)
      | (.ok data, after) => (.done data, after) := by
  unfold takeBody Reader.takeBody
  cases reserved : reader.body.reserve length with
  | error e => rfl
  | ok scratch =>
    have room := room_of_reserve reserved
    simp only [front_of_room room, Scratch.length_window room]
    rcases reader.source.readBody length with ⟨_ | data, source⟩ <;> rfl

theorem take_body_length {reader after : Reader κ} {length : Nat} {data : Bytes}
    (h : reader.takeBody length = (.ok data, after)) : data.length = length := by
  unfold Reader.takeBody at h
  split at h
  · cases h
  · split at h
    · cases h
    · rename_i read
      cases h
      exact Source.read_body_length read

theorem pending_take_body (reader : Reader κ) (length : Nat) :
    (reader.takeBody length).2.pending = reader.pending := by
  unfold Reader.takeBody
  split
  · rfl
  · split <;> rfl

theorem pending_refuse_frame (reader : Reader κ) (tag : UInt8) (length : Nat) :
    (reader.refuseFrame tag length).2.pending = reader.pending := by
  have kept := Reader.pending_skip_body reader length
  unfold Reader.refuseFrame
  split <;> (rename_i h; simpa [h] using kept)

theorem accept_agrees (reader : Reader κ) (header : Frame.Header) (masked : UInt32)
    (decoded : Bytes) :
    Agrees reader (accept reader header masked decoded) (reader.accept header masked decoded) := by
  unfold accept Reader.accept
  cases reader.policy.check masked decoded with
  | error e => exact agrees_refl id
  | ok passed =>
    constructor
    · by_cases sound : reader.pending.Sound
      · rw [append_sound sound]
        exact .inl rfl
      · rw [append_unsound sound]
        exact .inr ⟨rfl, sound⟩
    · exact fun _ => ByteQueue.sound_append _ _

theorem split_checksum {frame : Bytes} (enough : ¬ frame.length < Frame.checksumSize) :
    ∃ first second third fourth,
      frame.take Frame.checksumSize = [first, second, third, fourth] ∧
      Bytes.splitExactly Frame.checksumSize frame =
        some ([first, second, third, fourth], frame.drop Frame.checksumSize) := by
  obtain ⟨first, second, third, fourth, rest, rfl⟩ := Bytes.four_in_front (Nat.not_lt.mp enough)
  exact ⟨first, second, third, fourth, rfl, rfl⟩

variable [Codec κ]

def decompress (reader : Reader κ) (block : Bytes) : Outcome Error Bytes × Reader κ :=
  match Codec.decodedLength reader.codec block with
  | (.error e, codec) => (.failed e, { reader with codec })
  | (.ok size, codec) =>
    let reader := { reader with codec }
    if size > Frame.blockLimit then
      (.failed (.blockTooLarge size Frame.blockLimit), reader)
    else match reader.decoded.reserve size with
      | .error e => (.failed e, reader)
      | .ok scratch =>
        match scratch.front size with
        | none => (.overrun, reader)
        | some window =>
          let reply := Codec.decompress reader.codec block window
          let reader :=
            { reader with codec := reply.codec, decoded := scratch.store size reply.written }
          match reply.count with
          | .error e => (.failed e, reader)
          | .ok count =>
            match slice (reply.window window) 0 count with
            | none => (.overrun, reader)
            | some decoded => (.done decoded, reader)

def decodeBlock (reader : Reader κ) (chunkType : ChunkType) (block : Bytes) :
    Outcome Error Bytes × Reader κ :=
  match chunkType with
  | .compressed => decompress reader block
  | _ => (.done block, reader)

/-- The four bytes of the checksum are looked at one by one. -/
def takeBlock (reader : Reader κ) (header : Frame.Header) : Outcome Error Progress × Reader κ :=
  let limit := lengthLimit header.chunkType
  if header.length > limit then (.failed (.blockTooLarge header.length limit), reader)
  else if header.length < Frame.checksumSize then
    (.failed (.noRoomForChecksum header.length), reader)
  else match takeBody reader header.length with
    | (.failed e, reader) => (.failed e, reader)
    | (.overrun, reader) => (.overrun, reader)
    | (.done frame, reader) =>
      match Bytes.splitExactly Frame.checksumSize frame with
      | some ([first, second, third, fourth], block) =>
        match decodeBlock reader header.chunkType block with
        | (.failed e, reader) => (.failed e, reader)
        | (.overrun, reader) => (.overrun, reader)
        | (.done decoded, reader) =>
          let masked := UInt32.ofNat (Bytes.ofLittleEndian [first, second, third, fourth])
          accept reader header masked decoded
      | _ => (.overrun, reader)

def takeFrame (reader : Reader κ) (header : Frame.Header) : Outcome Error Progress × Reader κ :=
  if ¬ reader.identified ∧ header.chunkType ≠ .streamIdentifier then
    let tag := header.chunkType.toByte
    (.failed (.missingStreamIdentifier tag), reader.report (.frameBeforeStreamIdentifier tag))
  else match header.chunkType with
    | .streamIdentifier => reader.takeIdentifier header.length
    | .compressed => takeBlock reader header
    | .uncompressed => takeBlock reader header
    | .padding => reader.skipFrame header
    | .skippable _ => reader.skipFrame header
    | .unskippable tag => reader.refuseFrame tag header.length

def advance (reader : Reader κ) : Outcome Error Progress × Reader κ :=
  match reader.source.readHeader with
  | (.error e, source) => (.failed e, { reader with source })
  | (.ok none, source) => (.done .ended, { reader with source })
  | (.ok (some header), source) => takeFrame { reader with source } header

theorem decompress_eq (reader : Reader κ) (block : Bytes) :
    decompress reader block = reader.decompress block := by
  unfold decompress Reader.decompress
  rcases Codec.decodedLength reader.codec block with ⟨_ | size, codec⟩
  · rfl
  · dsimp only
    split
    · rfl
    · cases reserved : reader.decoded.reserve size with
      | error e => rfl
      | ok scratch =>
        have room := room_of_reserve reserved
        have width := Scratch.length_window room
        simp only [front_of_room room]
        cases (Codec.decompress codec block (scratch.window size)).count with
        | error e => rfl
        | ok count =>
          dsimp only
          have same : ((Codec.decompress codec block (scratch.window size)).window
              (scratch.window size)).length = size := by
            rw [Codec.Reply.window, Bytes.length_overlay, width]
          rcases Nat.lt_or_ge size count with outside | inside
          · rw [if_pos outside, slice_front_none (same.symm ▸ outside)]
          · rw [if_neg (Nat.not_lt.mpr inside), Scratch.store_window _ room inside,
              slice_front (same.symm ▸ inside)]
            rfl

theorem decode_block_eq (reader : Reader κ) (chunkType : ChunkType) (block : Bytes) :
    decodeBlock reader chunkType block = reader.decodeBlock chunkType block := by
  cases chunkType with
  | compressed => exact decompress_eq reader block
  | _ => rfl

theorem pending_decompress (reader : Reader κ) (block : Bytes) :
    (reader.decompress block).2.pending = reader.pending := by
  unfold Reader.decompress
  split
  · rfl
  · dsimp only
    split
    · rfl
    · split
      · rfl
      · split
        · rfl
        · split <;> rfl

theorem pending_decode_block (reader : Reader κ) (chunkType : ChunkType) (block : Bytes) :
    (reader.decodeBlock chunkType block).2.pending = reader.pending := by
  unfold Reader.decodeBlock
  split
  · exact pending_decompress reader block
  · rfl

theorem take_block_agrees (reader : Reader κ) (header : Frame.Header) :
    Agrees reader (takeBlock reader header) (reader.takeBlock header) := by
  unfold takeBlock Reader.takeBlock
  dsimp only
  split
  · exact agrees_refl id
  · split
    · exact agrees_refl id
    · rename_i enough
      have kept := pending_take_body reader header.length
      rw [take_body_eq]
      rcases taken : reader.takeBody header.length with ⟨_ | frame, middle⟩
      · rw [taken] at kept
        exact agrees_refl (kept.symm ▸ id)
      · obtain ⟨first, second, third, fourth, front, split⟩ :=
          split_checksum ((take_body_length taken).symm ▸ enough)
        have still := pending_decode_block middle header.chunkType (frame.drop Frame.checksumSize)
        rw [taken] at kept
        simp only [split, front, decode_block_eq]
        generalize middle.decodeBlock header.chunkType _ = result at still ⊢
        have same := still.trans kept
        rcases result with ⟨decoded | _ | _, after⟩
        · exact (accept_agrees after header _ decoded).of_pending (same.symm ▸ id)
        · exact agrees_refl (same.symm ▸ id)
        · exact agrees_refl (same.symm ▸ id)

theorem take_frame_agrees (reader : Reader κ) (header : Frame.Header) :
    Agrees reader (takeFrame reader header) (reader.takeFrame header) := by
  obtain ⟨chunkType, length⟩ := header
  unfold takeFrame Reader.takeFrame
  split
  · exact agrees_refl id
  · cases chunkType with
    | streamIdentifier =>
      exact agrees_refl ((Reader.pending_take_identifier reader length).symm ▸ id)
    | compressed => exact take_block_agrees reader _
    | uncompressed => exact take_block_agrees reader _
    | padding => exact agrees_refl ((Reader.pending_skip_frame reader _).symm ▸ id)
    | skippable tag => exact agrees_refl ((Reader.pending_skip_frame reader _).symm ▸ id)
    | unskippable tag => exact agrees_refl ((pending_refuse_frame reader tag length).symm ▸ id)

/-- A frame is taken without an access out of range. -/
theorem advance_agrees (reader : Reader κ) : Agrees reader (advance reader) reader.advance := by
  unfold advance Reader.advance
  rcases reader.source.readHeader with ⟨_ | _ | header, source⟩
  · exact agrees_refl id
  · exact agrees_refl id
  · exact (take_frame_agrees { reader with source } header).of_pending id

end Guarded

end FramedSnappy
