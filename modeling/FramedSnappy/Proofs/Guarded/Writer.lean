import FramedSnappy.Proofs.Frame.Header
import FramedSnappy.Proofs.Guarded.Access
import FramedSnappy.Writer.Stream

/-! A writer that looks at the range of every access first. What it finds in range does not depend
on its past, and all that it works with are blocks sent one by one. -/
namespace FramedSnappy

namespace Guarded

variable {κ : Type}

def blankHeader : Bytes := List.replicate (Frame.headerSize + Frame.checksumSize) 0

/-- Header and checksum are copied into the two halves of a blank one. -/
def dataHeader (chunkType : ChunkType) (masked : UInt32) (blockLength : Nat) :
    Outcome Error Bytes :=
  match Frame.Header.encode ⟨chunkType, Frame.dataLength blockLength⟩ with
  | .error e => .failed e
  | .ok header =>
    match slice blankHeader 0 Frame.headerSize,
      slice blankHeader Frame.headerSize blankHeader.length with
    | some front, some back =>
      match copy front header,
        copy back (Bytes.littleEndian Frame.checksumSize masked.toNat) with
      | some header, some checksum => .done (header ++ checksum)
      | _, _ => .overrun
    | _, _ => .overrun

def sendFrame (writer : Writer κ) (block : Bytes) (count : Nat) :
    Outcome Error Unit × Writer κ :=
  match dataHeader .compressed (Checksum.masked block) count with
  | .failed e => (.failed e, writer)
  | .overrun => (.overrun, writer)
  | .done header =>
    match writer.send header with
    | (.error e, writer) => (.failed e, writer)
    | (.ok (), writer) =>
      match writer.compressed.front count with
      | none => (.overrun, writer)
      | some payload =>
        match writer.send payload with
        | (.error e, writer) => (.failed e, writer)
        | (.ok (), writer) =>
          let writer := { writer with blocks := writer.blocks + 1 }
          (.done (), writer.report (.wroteCompressedFrame block.length count))

def compress [Codec κ] (writer : Writer κ) (block : Bytes) : Outcome Error Nat × Writer κ :=
  let (bound, codec) := Codec.bound writer.codec block.length
  let writer := { writer with codec }
  match writer.compressed.reserve bound with
  | .error e => (.failed e, writer)
  | .ok scratch =>
    match scratch.front bound with
    | none => (.overrun, writer)
    | some window =>
      let reply := Codec.compress writer.codec block window
      let writer :=
        { writer with codec := reply.codec, compressed := scratch.store bound reply.written }
      match reply.count with
      | .error e => (.failed e, writer)
      | .ok count =>
        if Frame.dataLength count > Frame.dataLimit then
          (.failed (.blockTooLarge (Frame.dataLength count) Frame.dataLimit), writer)
        else (.done count, writer)

def sendBlock [Codec κ] (writer : Writer κ) (block : Bytes) : Outcome Error Unit × Writer κ :=
  match compress writer block with
  | (.failed e, writer) => (.failed e, writer)
  | (.overrun, writer) => (.overrun, writer)
  | (.done count, writer) =>
    match writer.sendIdentifier with
    | (.error e, writer) => (.failed e, writer)
    | (.ok (), writer) => sendFrame writer block count

theorem data_header_eq (chunkType : ChunkType) (masked : UInt32) (blockLength : Nat) :
    dataHeader chunkType masked blockLength =
      match Frame.dataHeader chunkType masked blockLength with
      | .error e => .failed e
      | .ok bytes => .done bytes := by
  unfold dataHeader Frame.dataHeader
  cases encoded : Frame.Header.encode ⟨chunkType, Frame.dataLength blockLength⟩ with
  | error e => rfl
  | ok header =>
    have front : slice blankHeader 0 Frame.headerSize =
        some (List.replicate Frame.headerSize 0) := by decide
    have back : slice blankHeader Frame.headerSize blankHeader.length =
        some (List.replicate Frame.checksumSize 0) := by decide
    have length := Frame.Header.length_encode encoded
    have checksum := Bytes.length_little_endian Frame.checksumSize masked.toNat
    simp only [front, back, copy_of_length (length.trans List.length_replicate.symm),
      copy_of_length (checksum.trans List.length_replicate.symm)]

theorem send_frame_eq (writer : Writer κ) (block : Bytes) (count : Nat) :
    sendFrame writer block count = writer.sendFrame block count := by
  unfold sendFrame Writer.sendFrame
  rw [data_header_eq]
  cases Frame.dataHeader .compressed (Checksum.masked block) count with
  | error e => rfl
  | ok header =>
    dsimp only
    rcases writer.send header with ⟨_ | _, after⟩
    · rfl
    · dsimp only
      unfold Writer.sendPayload
      cases after.compressed.front count with
      | none => rfl
      | some payload =>
        dsimp only
        rcases after.send payload with ⟨_ | _, last⟩ <;> rfl

variable [Codec κ]

theorem compress_eq (writer : Writer κ) (block : Bytes) :
    compress writer block =
      match writer.compress block with
      | (.error e, after) => (.failed e, after)
      | (.ok count, after) => (.done count, after) := by
  unfold compress Writer.compress
  rcases Codec.bound writer.codec block.length with ⟨bound, codec⟩
  dsimp only
  cases reserved : writer.compressed.reserve bound with
  | error e => rfl
  | ok scratch =>
    simp only [front_of_room (room_of_reserve reserved)]
    cases (Codec.compress codec block (scratch.window bound)).count with
    | error e => rfl
    | ok count =>
      dsimp only
      split <;> rfl

/-- The bounds of the payload are the only ones that are left to the codec. -/
theorem send_block_eq (writer : Writer κ) (block : Bytes) :
    sendBlock writer block = writer.sendBlock block := by
  unfold sendBlock Writer.sendBlock
  rw [compress_eq]
  rcases writer.compress block with ⟨_ | count, middle⟩
  · rfl
  · dsimp only
    rcases middle.sendIdentifier with ⟨_ | _, after⟩
    · rfl
    · exact send_frame_eq after block count

def sendBlocks (writer : Writer κ) : List Bytes → Outcome Error Unit × Writer κ
  | [] => (.done (), writer)
  | block :: rest =>
    match sendBlock writer block with
    | (.done (), writer) => sendBlocks writer rest
    | stopped => stopped

def writeFrames (writer : Writer κ) (data : Bytes) : Outcome Error Unit × Writer κ :=
  sendBlocks writer (Bytes.pieces Frame.pieceSize Writer.piece_size_pos data)

def write (writer : Writer κ) (data : Bytes) : Outcome StreamError Unit × Writer κ :=
  match writeFrames writer data with
  | (result, writer) => (result.mapError Error.toStreamError, writer)

def writeAll (patience : Nat) (writer : Writer κ) (data : Bytes) :
    Outcome StreamError Unit × Writer κ :=
  if data.isEmpty then (.done (), writer)
  else match write writer data with
    | (.failed e, writer) =>
      match patience with
      | 0 => (.failed e, writer)
      | patience + 1 =>
        if e.interrupted then writeAll patience writer data else (.failed e, writer)
    | ended => ended

def performWriting (writer : Writer κ) : WriterOperation → WriterReply × Writer κ
  | .write data =>
    match write writer data with
    | (.done (), writer) => (.accepted data.length, writer)
    | (.failed e, writer) => (.streamFailed e, writer)
    | (.overrun, writer) => (.overrun, writer)
  | .writeFrames data =>
    match writeFrames writer data with
    | (.done (), writer) => (.accepted data.length, writer)
    | (.failed e, writer) => (.failed e, writer)
    | (.overrun, writer) => (.overrun, writer)
  | .writeAll data patience =>
    match writeAll patience writer data with
    | (.done (), writer) => (.silent, writer)
    | (.failed e, writer) => (.streamFailed e, writer)
    | (.overrun, writer) => (.overrun, writer)
  | .flush => writer.perform .flush
  | .raw data => writer.perform (.raw data)
  | .feed events => writer.perform (.feed events)

def runWriting (writer : Writer κ) : List WriterOperation → List (WriterReply × Writer κ)
  | [] => []
  | operation :: rest =>
    match performWriting writer operation with
    | (.overrun, writer) => [(.overrun, writer)]
    | (reply, writer) => (reply, writer) :: runWriting writer rest

theorem send_blocks_eq (writer : Writer κ) (blocks : List Bytes) :
    sendBlocks writer blocks = writer.sendBlocks blocks := by
  induction blocks generalizing writer with
  | nil => rfl
  | cons block rest ih =>
    rw [sendBlocks, Writer.sendBlocks, send_block_eq]
    rcases writer.sendBlock block with ⟨_ | _ | _, after⟩
    · exact ih after
    · rfl
    · rfl

theorem write_frames_eq (writer : Writer κ) (data : Bytes) :
    writeFrames writer data = writer.writeFrames data :=
  send_blocks_eq writer _

theorem write_eq (writer : Writer κ) (data : Bytes) : write writer data = writer.write data := by
  rw [write, write_frames_eq, Writer.write]

theorem write_all_eq (patience : Nat) (writer : Writer κ) (data : Bytes) :
    writeAll patience writer data = writer.writeAll patience data := by
  induction patience generalizing writer with
  | zero =>
    rewrite [writeAll, Writer.writeAll, write_eq]
    rfl
  | succ patience ih =>
    rewrite [writeAll, Writer.writeAll, write_eq]
    rcases writer.write data with ⟨_ | e | _, after⟩
    · rfl
    · dsimp only
      rw [ih]
    · rfl

theorem perform_writing_eq (writer : Writer κ) (operation : WriterOperation) :
    performWriting writer operation = writer.perform operation := by
  cases operation with
  | write data =>
    rewrite [performWriting, write_eq]
    rfl
  | writeFrames data =>
    rewrite [performWriting, write_frames_eq]
    rfl
  | writeAll data patience =>
    rewrite [performWriting, write_all_eq]
    rfl
  | _ => rfl

theorem run_writing_eq (writer : Writer κ) (operations : List WriterOperation) :
    runWriting writer operations = writer.run operations := by
  induction operations generalizing writer with
  | nil => rfl
  | cons operation rest ih =>
    rw [runWriting, perform_writing_eq, Writer.run]
    rcases writer.perform operation with ⟨reply, after⟩
    cases reply with
    | overrun => rfl
    | _ => exact congrArg (_ :: ·) (ih after)

end Guarded

end FramedSnappy
