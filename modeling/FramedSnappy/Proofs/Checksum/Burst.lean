import FramedSnappy.Proofs.Checksum

/-! A checksum tells apart any two blocks of one length that differ only inside four consecutive
bytes. A step of the register is linear and loses nothing, so the bytes in front and behind have
no say; and absorbing up to four bytes one by one is absorbing them as one number. -/
namespace FramedSnappy.Checksum

theorem shift_eq (word : UInt32) :
    shift word = if word.toNat.testBit 0 then (word >>> 1) ^^^ polynomial else word >>> 1 := by
  have low : word &&& 1 = 0 ↔ word.toNat.testBit 0 = false := by
    rw [← UInt32.toNat_inj, UInt32.toNat_and, Nat.testBit_zero]
    change word.toNat &&& 1 = 0 ↔ _
    rw [Nat.and_one_is_mod, decide_eq_false_iff_not]
    omega
  cases bit : word.toNat.testBit 0 with
  | false => simp [shift, low, bit]
  | true => simp [shift, low, bit]

theorem to_nat_of_small {number : Nat} (small : number < 2 ^ 32) :
    (UInt32.ofNat number).toNat = number :=
  UInt32.toNat_ofNat_of_lt' small

theorem to_nat_half (word : UInt32) : (word >>> 1).toNat = word.toNat / 2 := by
  rw [UInt32.toNat_shiftRight]
  simp [Nat.shiftRight_eq_div_pow]

theorem shift_xor (left right : UInt32) : shift (left ^^^ right) = shift left ^^^ shift right := by
  simp only [shift_eq, UInt32.toNat_xor, Nat.testBit_xor, UInt32.shiftRight_xor]
  generalize left >>> 1 = low, right >>> 1 = high
  cases left.toNat.testBit 0 with
  | false =>
    cases right.toNat.testBit 0 with
    | false => rfl
    | true => exact UInt32.xor_assoc low high polynomial
  | true =>
    cases right.toNat.testBit 0 with
    | false =>
      change low ^^^ high ^^^ polynomial = low ^^^ polynomial ^^^ high
      rw [UInt32.xor_assoc, UInt32.xor_comm high, ← UInt32.xor_assoc]
    | true =>
      change low ^^^ high = low ^^^ polynomial ^^^ (high ^^^ polynomial)
      rw [UInt32.xor_comm high polynomial, ← UInt32.xor_assoc, UInt32.xor_assoc low,
        UInt32.xor_self, UInt32.xor_zero]

theorem shift_eq_zero {word : UInt32} (h : shift word = 0) : word = 0 := by
  have half := to_nat_half word
  have small := word.toNat_lt
  rw [shift_eq] at h
  cases bit : word.toNat.testBit 0 with
  | true =>
    -- the polynomial has its highest bit set, a word that has been shifted has not
    rw [bit, if_pos rfl, UInt32.xor_eq_zero_iff] at h
    rw [h] at half
    have high : polynomial.toNat = 0x82f63b78 := rfl
    omega
  | false =>
    rw [bit, if_neg Bool.false_ne_true] at h
    rw [h, UInt32.toNat_zero] at half
    rw [Nat.testBit_zero, decide_eq_false_iff_not] at bit
    apply UInt32.toNat_inj.mp
    rw [UInt32.toNat_zero]
    omega

theorem repeat_xor (count : Nat) (left right : UInt32) :
    Nat.repeat shift count (left ^^^ right) =
      Nat.repeat shift count left ^^^ Nat.repeat shift count right := by
  induction count with
  | zero => rfl
  | succ count ih => simp only [Nat.repeat, ih, shift_xor]

theorem repeat_inj {count : Nat} {left right : UInt32}
    (h : Nat.repeat shift count left = Nat.repeat shift count right) : left = right := by
  induction count with
  | zero => exact h
  | succ count ih =>
    have same := UInt32.xor_eq_zero_iff.mpr h
    simp only [Nat.repeat, ← shift_xor] at same
    exact ih (UInt32.xor_eq_zero_iff.mp (shift_eq_zero same))

theorem repeat_add (first second : Nat) (word : UInt32) :
    Nat.repeat shift (first + second) word =
      Nat.repeat shift first (Nat.repeat shift second word) := by
  induction first with
  | zero => rw [Nat.zero_add]; rfl
  | succ first ih => rw [Nat.succ_add, Nat.repeat, ih, Nat.repeat]

/-- Nothing is subtracted while the bits shifted out are zero. -/
theorem repeat_of_multiple {count number : Nat} (fits : 2 ^ count * number < 2 ^ 32) :
    Nat.repeat shift count (UInt32.ofNat (2 ^ count * number)) = UInt32.ofNat number := by
  induction count generalizing number with
  | zero => rw [Nat.pow_zero, Nat.one_mul]; rfl
  | succ count ih =>
    have more : 2 ^ (count + 1) * number = 2 ^ count * (2 * number) := by
      rw [Nat.pow_succ, Nat.mul_assoc]
    rw [more] at fits ⊢
    have small : 2 * number < 2 ^ 32 :=
      Nat.lt_of_le_of_lt (Nat.le_mul_of_pos_left _ (Nat.two_pow_pos count)) fits
    rw [Nat.repeat, ih fits, shift_eq, to_nat_of_small small]
    have even : (2 * number).testBit 0 = false := by
      rw [Nat.testBit_zero, decide_eq_false_iff_not]
      omega
    rw [even, if_neg Bool.false_ne_true]
    apply UInt32.toNat_inj.mp
    rw [to_nat_half, to_nat_of_small small, to_nat_of_small (by omega)]
    omega

theorem of_nat_low_high {low : Nat} (small : low < 256) (high : Nat) :
    UInt32.ofNat (low + 256 * high) = UInt32.ofNat low ^^^ UInt32.ofNat (256 * high) := by
  rw [← UInt32.ofNat_xor]
  congr 1
  apply Nat.eq_of_testBit_eq
  intro place
  rw [Nat.testBit_xor, Nat.add_comm low, show (256 : Nat) = 2 ^ 8 from rfl,
    Nat.testBit_two_pow_mul_add _ small, Nat.testBit_two_pow_mul]
  by_cases inside : place < 8
  · have below : ¬ 8 ≤ place := Nat.not_le.mpr inside
    simp [inside, below]
  · have above : 8 ≤ place := Nat.not_lt.mp inside
    have outside : low.testBit place = false := by
      apply Nat.testBit_lt_two_pow
      exact Nat.lt_of_lt_of_le small (Nat.pow_le_pow_right (Nat.two_pos) above)
    simp [inside, above, outside]

/-- A few bytes are absorbed like one number. -/
theorem absorb_all {data : Bytes} (few : data.length ≤ 4) (register : UInt32) :
    data.foldl absorb register =
      Nat.repeat shift (8 * data.length)
        (register ^^^ UInt32.ofNat (Bytes.ofLittleEndian data)) := by
  induction data generalizing register with
  | nil => exact (UInt32.xor_zero).symm
  | cons low rest ih =>
    have fewer : rest.length + 1 ≤ 4 := few
    have bound := Bytes.of_little_endian_lt rest
    have fits : 2 ^ 8 * Bytes.ofLittleEndian rest < 2 ^ 32 := by
      have : 256 ^ rest.length ≤ 256 ^ 3 := Nat.pow_le_pow_right (by decide) (by omega)
      omega
    have byte : low.toUInt32 = UInt32.ofNat low.toNat := by
      apply UInt32.toNat_inj.mp
      have := low.toNat_lt
      rw [UInt8.toNat_toUInt32, to_nat_of_small (by omega)]
    rw [List.foldl_cons, ih (by omega), List.length_cons, Nat.mul_add, repeat_add]
    congr 1
    rw [Bytes.ofLittleEndian, of_nat_low_high low.toNat_lt, ← repeat_of_multiple fits,
      absorb, ← repeat_xor, byte, UInt32.xor_assoc]
    rfl

theorem foldl_absorb_inj {data : Bytes} {left right : UInt32}
    (h : data.foldl absorb left = data.foldl absorb right) : left = right := by
  induction data generalizing left right with
  | nil => exact h
  | cons byte rest ih => exact (UInt32.xor_left_inj _).mp (repeat_inj (ih h))

/-- The bytes around the window are the same in both blocks. -/
theorem window_eq_of_crc {before behind old new : Bytes} (length : new.length = old.length)
    (few : old.length ≤ 4)
    (h : crc32c (before ++ new ++ behind) = crc32c (before ++ old ++ behind)) : new = old := by
  have registers := (UInt32.xor_left_inj _).mp h
  simp only [List.foldl_append] at registers
  have window := foldl_absorb_inj registers
  rw [absorb_all few, absorb_all (length ▸ few), length] at window
  have words := congrArg UInt32.toNat ((UInt32.xor_right_inj _).mp (repeat_inj window))
  have bound (data : Bytes) (short : data.length ≤ 4) : Bytes.ofLittleEndian data < 2 ^ 32 :=
    Nat.lt_of_lt_of_le (Bytes.of_little_endian_lt data) (Nat.pow_le_pow_right (by decide) short)
  rw [to_nat_of_small (bound _ few), to_nat_of_small (bound _ (length ▸ few))]
    at words
  exact Bytes.of_little_endian_inj length words

end FramedSnappy.Checksum
