import FramedSnappy.Bytes

/-! The sizes the framing format fixes, and the frame that opens every stream. -/
namespace FramedSnappy.Frame

/-- The most decoded bytes one data frame carries. -/
def blockLimit : Nat := 65536

def checksumSize : Nat := 4

/-- The most bytes a writer puts into one frame. -/
def pieceSize : Nat := blockLimit - checksumSize

/-- The longest compressed form of a block of `blockLimit` bytes. -/
def compressedLimit : Nat := 32 + blockLimit + blockLimit / 6

/-- The longest data section of a data frame, checksum included. -/
def dataLimit : Nat := compressedLimit + checksumSize

/-- The length of the data section of a frame whose block has `blockLength` bytes. A codec may claim
any size for its block, so the sum can lose a carry. -/
def dataLength (blockLength : Nat) : Nat := sizeSum blockLength checksumSize

/-- The largest length that three bytes hold. -/
def lengthFieldLimit : Nat := 0xffffff

def headerSize : Nat := 4

/-- A header and the checksum after it. -/
def dataHeaderSize : Nat := headerSize + checksumSize

/-- The text `sNaPpY`. -/
def identifierBody : Bytes := [0x73, 0x4e, 0x61, 0x50, 0x70, 0x59]

/-- The whole frame that opens a stream. -/
def streamIdentifier : Bytes := [0xff, 0x06, 0x00, 0x00] ++ identifierBody

theorem data_length_exact {blockLength : Nat} (fits : blockLength ≤ compressedLimit) :
    dataLength blockLength = blockLength + checksumSize :=
  size_sum_exact (Nat.lt_of_le_of_lt (Nat.add_le_add_right fits checksumSize) (by decide))

/-- No block that fits is refused. -/
theorem data_length_le {blockLength : Nat} (fits : blockLength ≤ compressedLimit) :
    dataLength blockLength ≤ dataLimit :=
  data_length_exact fits ▸ Nat.add_le_add_right fits checksumSize

theorem data_limit_le : dataLimit ≤ lengthFieldLimit := by decide

end FramedSnappy.Frame
