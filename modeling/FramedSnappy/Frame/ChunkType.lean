import FramedSnappy.Bytes

/-! The type tag of a frame. Every byte is the tag of exactly one type; a reserved type built by
hand may carry any byte, also one that reads back as another type. -/
namespace FramedSnappy

inductive ChunkType where
  | compressed
  | uncompressed
  /-- Reserved: a reader must not pass over it. -/
  | unskippable (tag : UInt8)
  /-- Reserved: a reader passes over it without looking inside. -/
  | skippable (tag : UInt8)
  | padding
  | streamIdentifier
  deriving DecidableEq

namespace ChunkType

def toByte : ChunkType → UInt8
  | compressed => 0x00
  | uncompressed => 0x01
  | unskippable tag => tag
  | skippable tag => tag
  | padding => 0xfe
  | streamIdentifier => 0xff

def ofByte (tag : UInt8) : ChunkType :=
  if tag = 0x00 then compressed
  else if tag = 0x01 then uncompressed
  else if tag < 0x80 then unskippable tag
  else if tag < 0xfe then skippable tag
  else if tag = 0xfe then padding
  else streamIdentifier

end ChunkType

end FramedSnappy
