import FramedSnappy.Bytes

/-! Three kinds of failure. A `Fault` comes from the device below a stream. An `Error` is what the
format layer reports: a fault, or a violation of the format. A `StreamError` is what a client sees
who treats a reader or a writer as a plain byte stream. -/
namespace FramedSnappy

inductive FaultKind where
  | notFound
  | permissionDenied
  | connectionRefused
  | connectionReset
  | brokenPipe
  | alreadyExists
  | wouldBlock
  | invalidInput
  | invalidData
  | timedOut
  | writeZero
  | interrupted
  | unexpectedEof
  | unsupported
  | outOfMemory
  | other
  deriving DecidableEq

structure Fault where
  kind : FaultKind
  text : String
  deriving DecidableEq

namespace Fault

/-- An interrupted call did nothing and may be made again. -/
def interrupted (fault : Fault) : Bool := fault.kind = .interrupted

/-- The source ended before an exact read was complete. -/
def shortRead : Fault := ⟨.unexpectedEof, "failed to fill whole buffer"⟩

/-- The sink took nothing while bytes were left. -/
def shortWrite : Fault := ⟨.writeZero, "failed to write whole buffer"⟩

end Fault

/-- Why a raw block could not be compressed or decompressed. -/
inductive BlockError where
  | tooBig (given max : Nat)
  | bufferTooSmall (given min : Nat)
  | empty
  | header
  | headerMismatch (expected got : Nat)
  | literal (length sourceLeft targetLeft : Nat)
  | copyRead (length sourceLeft : Nat)
  | copyWrite (length targetLeft : Nat)
  | offset (distance position : Nat)
  deriving DecidableEq

namespace BlockError

def message : BlockError → String
  | tooBig given max =>
    s!"snappy: input buffer (size = {given}) is larger than allowed (size = {max})"
  | bufferTooSmall given min =>
    s!"snappy: output buffer (size = {given}) is smaller than required (size = {min})"
  | empty => "snappy: corrupt input (empty)"
  | header => "snappy: corrupt input (invalid header)"
  | headerMismatch expected got =>
    s!"snappy: corrupt input (header mismatch; expected {expected} " ++
      s!"decompressed bytes but got {got})"
  | literal length sourceLeft targetLeft =>
    s!"snappy: corrupt input (expected literal read of length {length}; " ++
      s!"remaining src: {sourceLeft}; remaining dst: {targetLeft})"
  | copyRead length sourceLeft =>
    s!"snappy: corrupt input (expected copy read of length {length}; " ++
      s!"remaining src: {sourceLeft})"
  | copyWrite length targetLeft =>
    s!"snappy: corrupt input (expected copy write of length {length}; " ++
      s!"remaining dst: {targetLeft})"
  | offset distance position =>
    s!"snappy: corrupt input (expected valid offset but got offset {distance}; " ++
      s!"dst position: {position})"

end BlockError

inductive Error where
  | io (fault : Fault)
  | unexpectedEof
  | missingStreamIdentifier (chunkType : UInt8)
  | invalidStreamIdentifier
  | blockTooLarge (length max : Nat)
  | invalidFrame (reason : String)
  | checksumMismatch (expected calculated : UInt32)
  | unskippableChunk (chunkType : UInt8)
  | compression (cause : BlockError)
  | poisoned
  deriving DecidableEq

/-- Lower-case hexadecimal after `0x`, filled up with zeros to at least `width` digits. -/
def hexadecimal (width value : Nat) : String :=
  let digits := Nat.toDigits 16 value
  "0x" ++ String.ofList (List.replicate (width - digits.length) '0' ++ digits)

namespace Error

def message : Error → String
  | io fault => s!"I/O error: {fault.text}"
  | unexpectedEof => "Unexpected end of file while reading stream"
  | missingStreamIdentifier chunkType =>
    s!"Missing stream identifier: first frame has type {hexadecimal 2 chunkType.toNat}"
  | invalidStreamIdentifier => "Invalid stream identifier"
  | blockTooLarge length max => s!"Block too large: {length} bytes exceeds limit of {max}"
  | invalidFrame reason => s!"Invalid frame: {reason}"
  | checksumMismatch expected calculated =>
    s!"Checksum mismatch: expected {hexadecimal 8 expected.toNat}, " ++
      s!"got {hexadecimal 8 calculated.toNat}"
  | unskippableChunk chunkType => s!"Unskippable chunk of type {hexadecimal 2 chunkType.toNat}"
  | compression cause => s!"Compression error: {cause.message}"
  | poisoned => "Reader is unusable after a previous error"

/-- The text of the failure below this one, where there is one. -/
def source : Error → Option String
  | io fault => some fault.text
  | compression cause => some cause.message
  | _ => none

end Error

/-- A data frame is shorter than the checksum it has to open with. -/
def Error.noRoomForChecksum (length : Nat) : Error :=
  .invalidFrame s!"data frame of {length} bytes cannot hold its checksum"

/-- Inside a frame the end of the source is an error of the format; any other fault stays one. -/
def Fault.insideFrame (fault : Fault) : Error :=
  if fault.kind = .unexpectedEof then .unexpectedEof else .io fault

/-- A fault of the device passes through a byte stream as it is; an error of the format arrives
wrapped. -/
inductive StreamError where
  | fault (fault : Fault)
  | format (error : Error)
  deriving DecidableEq

namespace StreamError

def kind : StreamError → FaultKind
  | fault f => f.kind
  | format .unexpectedEof => .unexpectedEof
  | format _ => .invalidData

def message : StreamError → String
  | fault f => f.text
  | format e => e.message

def interrupted (e : StreamError) : Bool := e.kind = .interrupted

end StreamError

def Error.toStreamError : Error → StreamError
  | .io fault => .fault fault
  | e => .format e

end FramedSnappy
