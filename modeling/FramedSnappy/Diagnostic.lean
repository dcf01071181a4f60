import FramedSnappy.Error

/-! What a reader or a writer has to say about its work beyond its results: a level, a fixed text,
and named values. -/
namespace FramedSnappy

inductive Level where
  | trace
  | debug
  | warn
  deriving DecidableEq

inductive Diagnostic where
  | acceptedStreamIdentifier
  | frameBeforeStreamIdentifier (chunkType : UInt8)
  | skippedFrame (chunkType : UInt8) (length : Nat)
  | unskippableFrame (chunkType : UInt8) (length : Nat)
  | corruptBlock (error : Error)
  | decodedFrame (chunkType : UInt8) (length decodedLength : Nat)
  | wroteStreamIdentifier
  | wroteCompressedFrame (inputLength compressedLength : Nat)
  deriving DecidableEq

/-- A named value of a diagnostic. -/
inductive DiagnosticValue where
  | number (value : Nat)
  | text (value : String)
  deriving DecidableEq

namespace Diagnostic

def level : Diagnostic → Level
  | acceptedStreamIdentifier => .debug
  | frameBeforeStreamIdentifier _ => .warn
  | skippedFrame .. => .debug
  | unskippableFrame .. => .warn
  | corruptBlock _ => .warn
  | decodedFrame .. => .trace
  | wroteStreamIdentifier => .debug
  | wroteCompressedFrame .. => .trace

def message : Diagnostic → String
  | acceptedStreamIdentifier => "accepted stream identifier"
  | frameBeforeStreamIdentifier _ => "frame before stream identifier"
  | skippedFrame .. => "skipped frame"
  | unskippableFrame .. => "unskippable frame"
  | corruptBlock _ => "rejecting corrupt block"
  | decodedFrame .. => "decoded frame"
  | wroteStreamIdentifier => "wrote stream identifier"
  | wroteCompressedFrame .. => "wrote compressed frame"

def fields : Diagnostic → List (String × DiagnosticValue)
  | acceptedStreamIdentifier => []
  | frameBeforeStreamIdentifier chunkType => [("chunk_type", .number chunkType.toNat)]
  | skippedFrame chunkType length =>
    [("chunk_type", .number chunkType.toNat), ("len", .number length)]
  | unskippableFrame chunkType length =>
    [("chunk_type", .number chunkType.toNat), ("len", .number length)]
  | corruptBlock error => [("error", .text error.message)]
  | decodedFrame chunkType length decodedLength =>
    [("chunk_type", .number chunkType.toNat), ("len", .number length),
      ("decoded_len", .number decodedLength)]
  | wroteStreamIdentifier => []
  | wroteCompressedFrame inputLength compressedLength =>
    [("input_len", .number inputLength), ("compressed_len", .number compressedLength)]

end Diagnostic

end FramedSnappy
