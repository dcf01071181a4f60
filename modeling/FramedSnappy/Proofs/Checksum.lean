import FramedSnappy.Checksum
import FramedSnappy.Proofs.Bytes

/-! Masking is a bijection of the 32-bit words, so for every block exactly one stored word is
right. -/
namespace FramedSnappy

namespace Checksum

/-- The low bits come back from the right shift and the high bits from the left shift. -/
theorem rotate_back (word : UInt32) :
    (((word >>> 15) ||| (word <<< 17)) <<< 15) ||| (((word >>> 15) ||| (word <<< 17)) >>> 17) =
      word := by
  apply UInt32.toBitVec_inj.mp
  apply BitVec.eq_of_getLsbD_eq
  intro i hi
  have above : word.toBitVec.getLsbD (15 + (17 + i)) = false :=
    BitVec.getLsbD_of_ge _ _ (by omega)
  by_cases low : i < 15
  · have inside : 17 + i < 32 := by omega
    have past : ¬ 17 + i < 17 := by omega
    simp [low, above, inside, past, BitVec.getLsbD_eq_getElem, hi]
  · have inside : i - 15 < 17 := by omega
    have same : 15 + (i - 15) = i := by omega
    have outside : ¬ 17 + i < 32 := by omega
    simp [low, above, inside, same, outside, hi]

theorem rotate_forth (word : UInt32) :
    (((word <<< 15) ||| (word >>> 17)) >>> 15) ||| (((word <<< 15) ||| (word >>> 17)) <<< 17) =
      word := by
  apply UInt32.toBitVec_inj.mp
  apply BitVec.eq_of_getLsbD_eq
  intro i hi
  have above : word.toBitVec.getLsbD (17 + (15 + i)) = false :=
    BitVec.getLsbD_of_ge _ _ (by omega)
  by_cases low : i < 17
  · have inside : 15 + i < 32 := by omega
    have past : ¬ 15 + i < 15 := by omega
    simp [low, above, inside, past, BitVec.getLsbD_eq_getElem, hi]
  · have inside : i - 17 < 15 := by omega
    have same : 17 + (i - 17) = i := by omega
    have outside : ¬ 15 + i < 32 := by omega
    simp [low, above, inside, same, outside, hi]

theorem unmask_mask (crc : UInt32) : unmask (mask crc) = crc := by
  simp only [unmask, mask, UInt32.add_sub_cancel]
  exact rotate_back crc

theorem mask_unmask (word : UInt32) : mask (unmask word) = word := by
  simp only [unmask, mask]
  rw [rotate_forth, UInt32.sub_add_cancel]

theorem crc_eq_unmask (word : UInt32) (content : Bytes) :
    crc32c content = unmask word ↔ word = masked content := by
  constructor
  · intro h
    rw [masked, h, mask_unmask]
  · rintro rfl
    rw [masked, unmask_mask]

end Checksum

namespace ChecksumPolicy

/-- The stored field of a block's checksum, where the policy looks at it. -/
def Accepts (policy : ChecksumPolicy) (field content : Bytes) : Prop :=
  policy = .verify → field = Bytes.littleEndian 4 (Checksum.masked content).toNat

theorem check_verify (word : UInt32) (content : Bytes) :
    verify.check word content =
      if Checksum.crc32c content = Checksum.unmask word then .ok ()
      else .error (.checksumMismatch (Checksum.unmask word) (Checksum.crc32c content)) := rfl

theorem check_eq_ok (policy : ChecksumPolicy) (word : UInt32) (content : Bytes) :
    policy.check word content = .ok () ↔ (policy = .verify → word = Checksum.masked content) := by
  cases policy with
  | skip => simp [check]
  | verify =>
    simp [check_verify, Checksum.crc_eq_unmask]

theorem check_field (policy : ChecksumPolicy) {field : Bytes} (content : Bytes)
    (four : field.length = 4) :
    policy.check (UInt32.ofNat (Bytes.ofLittleEndian field)) content = .ok () ↔
      policy.Accepts field content := by
  have small := Bytes.of_little_endian_lt field
  have read : (UInt32.ofNat (Bytes.ofLittleEndian field)).toNat = Bytes.ofLittleEndian field := by
    rw [UInt32.toNat_ofNat']
    exact Nat.mod_eq_of_lt (by rw [four] at small; omega)
  rw [check_eq_ok, Accepts]
  apply imp_congr_right
  intro _
  constructor
  · intro h
    rw [← h, read, ← four, Bytes.little_endian_of]
  · intro h
    apply UInt32.toNat_inj.mp
    rw [read, h, Bytes.of_little_endian (Checksum.masked content).toNat_lt]

/-- Masking and its inverse, which wrap where they have to, lose nothing. So exactly one stored word
passes for a block, and any other one fails with the two checksums compared, which differ. -/
theorem one_word_passes (word : UInt32) (content : Bytes) :
    Checksum.unmask (Checksum.mask word) = word ∧ Checksum.mask (Checksum.unmask word) = word ∧
      (verify.check word content = .ok () ↔ word = Checksum.masked content) ∧
      (verify.check word content =
          .error (.checksumMismatch (Checksum.unmask word) (Checksum.crc32c content)) ↔
        word ≠ Checksum.masked content) ∧
      (word ≠ Checksum.masked content ↔ Checksum.unmask word ≠ Checksum.crc32c content) := by
  have told := Checksum.crc_eq_unmask word content
  refine ⟨Checksum.unmask_mask word, Checksum.mask_unmask word, ?_, ?_, ?_⟩
  · simp [check_eq_ok]
  · simp [check_verify, told]
  · exact (not_congr told).symm.trans ne_comm

end ChecksumPolicy

end FramedSnappy
