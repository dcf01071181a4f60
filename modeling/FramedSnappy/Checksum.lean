import FramedSnappy.Error

/-! The CRC-32C of a block, the masked form in which frames carry it, and the two policies a
reader may follow. The register is advanced one bit at a time, lowest bit first, so every step is
a shift and at most one exclusive or. -/
namespace FramedSnappy

namespace Checksum

/-- The Castagnoli polynomial with its bits reversed. -/
def polynomial : UInt32 := 0x82f63b78

def shift (register : UInt32) : UInt32 :=
  if register &&& 1 = 0 then register >>> 1 else (register >>> 1) ^^^ polynomial

def absorb (register : UInt32) (byte : UInt8) : UInt32 :=
  Nat.repeat shift 8 (register ^^^ byte.toUInt32)

/-- The register starts and ends complemented. -/
def crc32c (data : Bytes) : UInt32 :=
  data.foldl absorb 0xffffffff ^^^ 0xffffffff

def maskOffset : UInt32 := 0xa282ead8

/-- A checksum of data that itself holds checksums would be weak, so the stored form is rotated
right by fifteen bits and offset. -/
def mask (crc : UInt32) : UInt32 :=
  ((crc >>> 15) ||| (crc <<< 17)) + maskOffset

def unmask (masked : UInt32) : UInt32 :=
  let rotated := masked - maskOffset
  (rotated <<< 15) ||| (rotated >>> 17)

/-- The stored form of a block's checksum. -/
def masked (data : Bytes) : UInt32 := mask (crc32c data)

end Checksum

/-- What a reader does with the checksum of a block. -/
inductive ChecksumPolicy where
  | verify
  | skip
  deriving DecidableEq

namespace ChecksumPolicy

instance : Inhabited ChecksumPolicy := ⟨verify⟩

def ofBool (compare : Bool) : ChecksumPolicy := if compare then verify else skip

/-- Compares a stored checksum with the one of the decoded bytes, unless told not to look. -/
def check (policy : ChecksumPolicy) (masked : UInt32) (decoded : Bytes) : Except Error Unit :=
  match policy with
  | skip => .ok ()
  | verify =>
    let expected := Checksum.unmask masked
    let calculated := Checksum.crc32c decoded
    if calculated = expected then .ok () else .error (.checksumMismatch expected calculated)

end ChecksumPolicy

end FramedSnappy
