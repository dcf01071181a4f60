import FramedSnappy.ByteQueue
import FramedSnappy.Checksum
import FramedSnappy.Codec.Basic
import FramedSnappy.Diagnostic
import FramedSnappy.Frame.Reading
import FramedSnappy.Outcome
import FramedSnappy.Scratch

/-! The reader takes one frame at a time from its source and queues the bytes of data frames. A
frame is judged in the order in which its bytes arrive: its type, its length, its body, what the
codec says of the body, and last the checksum. -/
namespace FramedSnappy

structure Reader (κ : Type) where
  source : Source
  codec : κ
  policy : ChecksumPolicy
  pending : ByteQueue
  /-- The data section of the current frame, checksum included. -/
  body : Scratch
  decoded : Scratch
  /-- A stream identifier has been accepted. -/
  identified : Bool
  /-- A frame has failed; no further one is looked at. -/
  poisoned : Bool
  log : Array Diagnostic

/-- How far one frame takes the reader. -/
inductive Progress where
  /-- The source ended between two frames. -/
  | ended
  /-- A frame without data has gone by. -/
  | passed
  /-- A data frame has been decoded; it may have been empty. -/
  | block
  deriving DecidableEq

namespace Reader

variable {κ : Type}

def ofSource (source : Source) (codec : κ) (policy : ChecksumPolicy) : Reader κ :=
  ⟨source, codec, policy, .empty, .empty Frame.dataLimit, .empty Frame.blockLimit, false, false,
    #[]⟩

def report (reader : Reader κ) (diagnostic : Diagnostic) : Reader κ :=
  { reader with log := reader.log.push diagnostic }

/-- The first identifier opens the stream, later ones only have to be correct. -/
def takeIdentifier (reader : Reader κ) (length : Nat) : Outcome Error Progress × Reader κ :=
  if length ≠ Frame.identifierBody.length then (.failed .invalidStreamIdentifier, reader)
  else match reader.source.readBody Frame.identifierBody.length with
    | (.error e, source) => (.failed e, { reader with source })
    | (.ok body, source) =>
      let reader := { reader with source }
      if body ≠ Frame.identifierBody then (.failed .invalidStreamIdentifier, reader)
      else if reader.identified then (.done .passed, reader)
      else (.done .passed, { reader with identified := true }.report .acceptedStreamIdentifier)

def skipBody (reader : Reader κ) (length : Nat) : Except Error Unit × Reader κ :=
  match reader.source.skipBody length with
  | (result, source) => (result, { reader with source })

def skipFrame (reader : Reader κ) (header : Frame.Header) : Outcome Error Progress × Reader κ :=
  match reader.skipBody header.length with
  | (.error e, reader) => (.failed e, reader)
  | (.ok (), reader) =>
    (.done .passed, reader.report (.skippedFrame header.chunkType.toByte header.length))

/-- A frame that must not be skipped is read to its end before it is refused. -/
def refuseFrame (reader : Reader κ) (tag : UInt8) (length : Nat) :
    Outcome Error Progress × Reader κ :=
  match reader.skipBody length with
  | (.error e, reader) => (.failed e, reader)
  | (.ok (), reader) =>
    (.failed (.unskippableChunk tag), reader.report (.unskippableFrame tag length))

/-- The longest data section a data frame may have. -/
def lengthLimit : ChunkType → Nat
  | .uncompressed => Frame.blockLimit + Frame.checksumSize
  | _ => Frame.dataLimit

def takeBody (reader : Reader κ) (length : Nat) : Except Error Bytes × Reader κ :=
  match reader.body.reserve length with
  | .error e => (.error e, reader)
  | .ok scratch =>
    match reader.source.readBody length with
    | (.error e, source) => (.error e, { reader with source, body := scratch })
    | (.ok data, source) => (.ok data, { reader with source, body := scratch.store length data })

/-- The codec sees a window of the length it has announced; what it claims to have written is taken
from there. -/
def decompress [Codec κ] (reader : Reader κ) (block : Bytes) :
    Outcome Error Bytes × Reader κ :=
  match Codec.decodedLength reader.codec block with
  | (.error e, codec) => (.failed e, { reader with codec })
  | (.ok size, codec) =>
    let reader := { reader with codec }
    if size > Frame.blockLimit then
      (.failed (.blockTooLarge size Frame.blockLimit), reader)
    else match reader.decoded.reserve size with
      | .error e => (.failed e, reader)
      | .ok scratch =>
        let reply := Codec.decompress reader.codec block (scratch.window size)
        let decoded := scratch.store size reply.written
        let reader := { reader with codec := reply.codec, decoded }
        match reply.count with
        | .error e => (.failed e, reader)
        | .ok count =>
          if count > size then (.overrun, reader) else (.done (decoded.window count), reader)

def decodeBlock [Codec κ] (reader : Reader κ) (chunkType : ChunkType) (block : Bytes) :
    Outcome Error Bytes × Reader κ :=
  match chunkType with
  | .compressed => reader.decompress block
  | _ => (.done block, reader)

/-- Queues a decoded block once its checksum has been looked at. -/
def accept (reader : Reader κ) (header : Frame.Header) (masked : UInt32) (decoded : Bytes) :
    Outcome Error Progress × Reader κ :=
  match reader.policy.check masked decoded with
  | .error e => (.failed e, reader.report (.corruptBlock e))
  | .ok () =>
    let reader := { reader with pending := reader.pending.append decoded }
    (.done .block,
      reader.report (.decodedFrame header.chunkType.toByte header.length decoded.length))

def takeBlock [Codec κ] (reader : Reader κ) (header : Frame.Header) :
    Outcome Error Progress × Reader κ :=
  let limit := lengthLimit header.chunkType
  if header.length > limit then (.failed (.blockTooLarge header.length limit), reader)
  else if header.length < Frame.checksumSize then
    (.failed (.noRoomForChecksum header.length), reader)
  else match reader.takeBody header.length with
    | (.error e, reader) => (.failed e, reader)
    | (.ok body, reader) =>
      match reader.decodeBlock header.chunkType (body.drop Frame.checksumSize) with
      | (.failed e, reader) => (.failed e, reader)
      | (.overrun, reader) => (.overrun, reader)
      | (.done decoded, reader) =>
        let masked := UInt32.ofNat (Bytes.ofLittleEndian (body.take Frame.checksumSize))
        reader.accept header masked decoded

/-- What follows a header. Before the first identifier nothing else is read. -/
def takeFrame [Codec κ] (reader : Reader κ) (header : Frame.Header) :
    Outcome Error Progress × Reader κ :=
  if ¬ reader.identified ∧ header.chunkType ≠ .streamIdentifier then
    let tag := header.chunkType.toByte
    (.failed (.missingStreamIdentifier tag), reader.report (.frameBeforeStreamIdentifier tag))
  else match header.chunkType with
    | .streamIdentifier => reader.takeIdentifier header.length
    | .compressed => reader.takeBlock header
    | .uncompressed => reader.takeBlock header
    | .padding => reader.skipFrame header
    | .skippable _ => reader.skipFrame header
    | .unskippable tag => reader.refuseFrame tag header.length

/-- One frame, or the end of the source in its place. -/
def advance [Codec κ] (reader : Reader κ) : Outcome Error Progress × Reader κ :=
  match reader.source.readHeader with
  | (.error e, source) => (.failed e, { reader with source })
  | (.ok none, source) => (.done .ended, { reader with source })
  | (.ok (some header), source) => { reader with source }.takeFrame header

end Reader

end FramedSnappy
