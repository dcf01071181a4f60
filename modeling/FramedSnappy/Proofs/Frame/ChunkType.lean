import FramedSnappy.Frame.ChunkType

/-! Every byte is the tag of one chunk type, which gives the byte back. -/
namespace FramedSnappy.ChunkType

@[simp] theorem to_byte_of_byte (tag : UInt8) : (ofByte tag).toByte = tag := by
  unfold ofByte
  split
  · rename_i h
    exact h.symm
  · split
    · rename_i h
      exact h.symm
    · split
      · rfl
      · split
        · rfl
        · split
          · rename_i h
            exact h.symm
          · rename_i low padding
            apply UInt8.toNat_inj.mp
            have := tag.toNat_lt
            have : tag.toNat ≠ 254 := fun h => padding (UInt8.toNat_inj.mp h)
            have : ¬ tag.toNat < 254 := fun h => low h
            change 255 = tag.toNat
            omega

theorem of_byte_identifier (tag : UInt8) : ofByte tag = .streamIdentifier ↔ tag = 0xff := by
  constructor
  · intro h
    have back := to_byte_of_byte tag
    rw [h] at back
    exact back.symm
  · rintro rfl
    decide

theorem of_byte_high {tag : UInt8} (high : ¬ tag < 0x80) (other : tag ≠ 0xff) :
    ofByte tag = .padding ∨ ofByte tag = .skippable tag := by
  have identifier := mt (of_byte_identifier tag).mp other
  have packed : tag ≠ 0x00 := by
    rintro rfl
    exact high (by decide)
  have raw : tag ≠ 0x01 := by
    rintro rfl
    exact high (by decide)
  unfold ofByte at identifier ⊢
  rw [if_neg packed, if_neg raw, if_neg high] at identifier ⊢
  split
  · exact .inr rfl
  · rename_i past
    rw [if_neg past] at identifier
    split
    · exact .inl rfl
    · rename_i padding
      rw [if_neg padding] at identifier
      exact absurd rfl identifier

end FramedSnappy.ChunkType
