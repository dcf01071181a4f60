import FramedSnappy.Frame.Header
import FramedSnappy.Proofs.Bytes
import FramedSnappy.Proofs.Frame.ChunkType

/-! Headers written and read again. All that gets lost is the variant of a type built by hand: a byte
is read back as the one type that it is the tag of. -/
namespace FramedSnappy.Frame

namespace Header

variable {header : Header}

theorem encode_fits (fits : header.length ≤ lengthFieldLimit) :
    header.encode = .ok (header.chunkType.toByte :: Bytes.littleEndian 3 header.length) :=
  if_neg (Nat.not_lt.mpr fits)

theorem encode_long (long : lengthFieldLimit < header.length) :
    header.encode = .error (.blockTooLarge header.length lengthFieldLimit) :=
  if_pos long

theorem decode_written (tag : UInt8) {length : Nat} (fits : length ≤ lengthFieldLimit) :
    decode (tag :: Bytes.littleEndian 3 length) = some ⟨.ofByte tag, length⟩ := by
  have small : length < 256 ^ 3 := Nat.lt_succ_of_le fits
  have told := Bytes.of_little_endian small
  exact congrArg (fun length => some (⟨.ofByte tag, length⟩ : Header)) told

theorem fits_of_encode {bytes : Bytes} (h : header.encode = .ok bytes) :
    header.length ≤ lengthFieldLimit := by
  rcases Nat.lt_or_ge lengthFieldLimit header.length with long | fits
  · rw [encode_long long] at h
    cases h
  · exact fits

theorem length_encode {bytes : Bytes} (h : header.encode = .ok bytes) :
    bytes.length = headerSize := by
  rw [encode_fits (fits_of_encode h)] at h
  cases h
  rw [List.length_cons, Bytes.length_little_endian]
  rfl

end Header

variable {chunkType : ChunkType} {masked : UInt32} {blockLength : Nat}

theorem data_header_fits (fits : dataLength blockLength ≤ lengthFieldLimit) :
    dataHeader chunkType masked blockLength =
      .ok (chunkType.toByte :: Bytes.littleEndian 3 (dataLength blockLength) ++
        Bytes.littleEndian checksumSize masked.toNat) := by
  rw [dataHeader, Header.encode_fits fits]

/-- A reserved type with the byte of another one: the byte comes back, and with it the other type. -/
example :
    let header : Header := ⟨.skippable 0x00, 0x012345⟩
    header.encode = .ok [0x00, 0x45, 0x23, 0x01] ∧
      Header.decode [0x00, 0x45, 0x23, 0x01] = some ⟨.compressed, 0x012345⟩ := by
  decide

end FramedSnappy.Frame
