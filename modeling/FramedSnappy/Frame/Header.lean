import FramedSnappy.Error
import FramedSnappy.Frame.ChunkType
import FramedSnappy.Frame.Limits

/-! Frame headers: a tag byte and a length in three little-endian bytes. A data frame adds the
masked checksum of its block, which the length counts in. -/
namespace FramedSnappy.Frame

structure Header where
  chunkType : ChunkType
  /-- The number of bytes after the header. -/
  length : Nat
  deriving DecidableEq

namespace Header

def parse (tag : UInt8) (field : Bytes) : Header :=
  ⟨.ofByte tag, Bytes.ofLittleEndian field⟩

/-- A header is four bytes, neither more nor fewer. -/
def decode : Bytes → Option Header
  | [tag, low, middle, high] => some (parse tag [low, middle, high])
  | _ => none

/-- Refused when three bytes cannot hold the length. -/
def encode (header : Header) : Except Error Bytes :=
  if header.length > lengthFieldLimit then .error (.blockTooLarge header.length lengthFieldLimit)
  else .ok (header.chunkType.toByte :: Bytes.littleEndian 3 header.length)

end Header

/-- What stands in front of a block of `blockLength` bytes: the header and the masked checksum. -/
def dataHeader (chunkType : ChunkType) (masked : UInt32) (blockLength : Nat) :
    Except Error Bytes :=
  match Header.encode ⟨chunkType, dataLength blockLength⟩ with
  | .error e => .error e
  | .ok header => .ok (header ++ Bytes.littleEndian checksumSize masked.toNat)

end FramedSnappy.Frame
