import FramedSnappy.Codec.Basic
import FramedSnappy.Diagnostic
import FramedSnappy.Outcome
import FramedSnappy.Scratch
import FramedSnappy.Sink
import FramedSnappy.Checksum
import FramedSnappy.Frame.Header

/-! The writer cuts its input into blocks, compresses each of them, and sends it to the sink behind
a header. The stream identifier goes out in front of the first frame. Everything that can be
refused without the sink is refused before the sink is touched. -/
namespace FramedSnappy

structure Writer (κ : Type) where
  sink : Sink
  codec : κ
  compressed : Scratch
  /-- The whole stream identifier has been sent. -/
  identified : Bool
  blocks : Nat
  log : Array Diagnostic

namespace Writer

variable {κ : Type}

def ofSink (sink : Sink) (codec : κ) : Writer κ :=
  ⟨sink, codec, .empty Frame.compressedLimit, false, 0, #[]⟩

def report (writer : Writer κ) (diagnostic : Diagnostic) : Writer κ :=
  { writer with log := writer.log.push diagnostic }

/-- Leaves the compressed form of a block at the front of the scratch buffer, and answers with
the number of bytes the codec claims. -/
def compress [Codec κ] (writer : Writer κ) (block : Bytes) : Except Error Nat × Writer κ :=
  let (bound, codec) := Codec.bound writer.codec block.length
  let writer := { writer with codec }
  match writer.compressed.reserve bound with
  | .error e => (.error e, writer)
  | .ok scratch =>
    let reply := Codec.compress writer.codec block (scratch.window bound)
    let writer :=
      { writer with codec := reply.codec, compressed := scratch.store bound reply.written }
    match reply.count with
    | .error e => (.error e, writer)
    | .ok count =>
      if Frame.dataLength count > Frame.dataLimit then
        (.error (.blockTooLarge (Frame.dataLength count) Frame.dataLimit), writer)
      else (.ok count, writer)

def send (writer : Writer κ) (data : Bytes) : Except Error Unit × Writer κ :=
  match writer.sink.writeAll data with
  | (.error fault, sink) => (.error (.io fault), { writer with sink })
  | (.ok (), sink) => (.ok (), { writer with sink })

/-- An identifier that got stuck half way is sent again from its start. -/
def sendIdentifier (writer : Writer κ) : Except Error Unit × Writer κ :=
  if writer.identified then (.ok (), writer)
  else match writer.send Frame.streamIdentifier with
    | (.error e, writer) => (.error e, writer)
    | (.ok (), writer) => (.ok (), { writer with identified := true }.report .wroteStreamIdentifier)

/-- The payload is taken from the whole scratch buffer, however small the codec's window was. -/
def sendPayload (writer : Writer κ) (count : Nat) : Outcome Error Unit × Writer κ :=
  match writer.compressed.front count with
  | none => (.overrun, writer)
  | some payload =>
    match writer.send payload with
    | (.error e, writer) => (.failed e, writer)
    | (.ok (), writer) => (.done (), writer)

/-- Sends `count` bytes of the scratch buffer as the frame of a block. -/
def sendFrame (writer : Writer κ) (block : Bytes) (count : Nat) : Outcome Error Unit × Writer κ :=
  match Frame.dataHeader .compressed (Checksum.masked block) count with
  | .error e => (.failed e, writer)
  | .ok header =>
    match writer.send header with
    | (.error e, writer) => (.failed e, writer)
    | (.ok (), writer) =>
      match writer.sendPayload count with
      | (.done (), writer) =>
        let writer := { writer with blocks := writer.blocks + 1 }
        (.done (), writer.report (.wroteCompressedFrame block.length count))
      | stopped => stopped

def sendBlock [Codec κ] (writer : Writer κ) (block : Bytes) :
    Outcome Error Unit × Writer κ :=
  match writer.compress block with
  | (.error e, writer) => (.failed e, writer)
  | (.ok count, writer) =>
    match writer.sendIdentifier with
    | (.error e, writer) => (.failed e, writer)
    | (.ok (), writer) => writer.sendFrame block count

/-- The first block that cannot be sent ends the call. -/
def sendBlocks [Codec κ] (writer : Writer κ) : List Bytes → Outcome Error Unit × Writer κ
  | [] => (.done (), writer)
  | block :: rest =>
    match writer.sendBlock block with
    | (.done (), writer) => writer.sendBlocks rest
    | stopped => stopped

theorem piece_size_pos : 0 < Frame.pieceSize := by decide

/-- Frames all of the data, as one block after the other. -/
def writeFrames [Codec κ] (writer : Writer κ) (data : Bytes) :
    Outcome Error Unit × Writer κ :=
  writer.sendBlocks (Bytes.pieces Frame.pieceSize piece_size_pos data)

end Writer

end FramedSnappy
