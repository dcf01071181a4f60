import FramedSnappy.Proofs.Bytes
import FramedSnappy.Snappy.Decoding

/-! Elements on paper. What is written of an element is read as that element, so a block that
elements build up is decoded from what is written of them. And whatever is read was checked against
the bytes that are left, so no bytes at all decode to more than they have announced. -/
namespace FramedSnappy.Snappy

namespace Varint

theorem decode_encode {allowed value : Nat} (fits : value < 128 ^ (allowed + 1)) (rest : Bytes) :
    decode (allowed + 1) (encode value ++ rest) = some (value, rest) := by
  induction allowed generalizing value with
  | zero =>
    have small : value < 128 := by simpa using fits
    have byte : (UInt8.ofNat value).toNat = value := by
      rw [UInt8.toNat_ofNat']
      omega
    rw [encode, if_pos small]
    simp only [List.cons_append, List.nil_append, decode, byte, if_pos small]
  | succ allowed ih =>
    rw [encode]
    split
    · rename_i small
      have byte : (UInt8.ofNat value).toNat = value := by
        rw [UInt8.toNat_ofNat']
        omega
      simp only [List.cons_append, List.nil_append, decode, byte, if_pos small]
    · have byte : (UInt8.ofNat (value % 128 + 128)).toNat = value % 128 + 128 := by
        rw [UInt8.toNat_ofNat']
        omega
      have high : value / 128 < 128 ^ (allowed + 1) := by
        rw [Nat.pow_succ] at fits
        exact Nat.div_lt_of_lt_mul (by omega)
      have marked : ¬ value % 128 + 128 < 128 := by omega
      have whole : value % 128 + 128 - 128 + 128 * (value / 128) = value := by omega
      rw [List.cons_append, decode, byte, if_neg marked, ih high]
      exact congrArg (fun number => some (number, rest)) whole

theorem length_encode {allowed value : Nat} (fits : value < 128 ^ (allowed + 1)) :
    0 < (encode value).length ∧ (encode value).length ≤ allowed + 1 := by
  induction allowed generalizing value with
  | zero =>
    have small : value < 128 := by simpa using fits
    rw [encode, if_pos small]
    simp
  | succ allowed ih =>
    rw [encode]
    split
    · simp
    · have high : value / 128 < 128 ^ (allowed + 1) := by
        rw [Nat.pow_succ] at fits
        exact Nat.div_lt_of_lt_mul (by omega)
      have shorter := ih high
      simp only [List.length_cons]
      omega

end Varint

namespace Element

/-- The bytes that an element adds to a block. -/
def length : Element → Nat
  | literal bytes => bytes.length
  | copy _ length => length

/-- What can be written down behind `written` bytes of a block. -/
def Fits (written : Nat) : Element → Prop
  | literal bytes => 0 < bytes.length ∧ bytes.length ≤ 65536
  | copy offset length =>
    0 < offset ∧ offset ≤ written ∧ offset < 65536 ∧ 0 < length ∧ length ≤ 64

theorem size_repeat_back (offset length : Nat) (block : Array UInt8) :
    (repeatBack offset length block).size = block.size + length := by
  induction length generalizing block with
  | zero => rfl
  | succ length ih =>
    rw [repeatBack, ih, Array.size_push]
    omega

theorem repeat_back_add (offset first second : Nat) (block : Array UInt8) :
    repeatBack offset (first + second) block =
      repeatBack offset second (repeatBack offset first block) := by
  induction first generalizing block with
  | zero => rw [Nat.zero_add, repeatBack]
  | succ first ih => rw [Nat.succ_add, repeatBack, repeatBack, ih]

theorem size_append_to (element : Element) (block : Array UInt8) :
    (element.appendTo block).size = block.size + element.length := by
  cases element with
  | literal bytes => simp [appendTo, length, ← Array.length_toList]
  | copy offset count => exact size_repeat_back offset count block

section Reading

variable {written room : Nat}

theorem read_literal_body {bytes : Bytes} (space : bytes.length ≤ room) (rest : Bytes) :
    readLiteralBody room bytes.length (bytes ++ rest) = .ok (literal bytes, rest) := by
  rw [readLiteralBody, if_neg (Nat.not_lt.mpr space), Bytes.split_append rfl]

/-- Behind a short tag stand the bytes, behind another one their number. -/
theorem read_literal_spelled (width : Nat) {last : Nat} {bytes : Bytes} (wide : 0 < width)
    (fits : last < 256 ^ width) (count : bytes.length = last + 1) (space : bytes.length ≤ room)
    (rest : Bytes) :
    readLiteral room (59 + width) (Bytes.littleEndian width last ++ (bytes ++ rest)) =
      .ok (literal bytes, rest) := by
  have spelled : ¬ 59 + width < 60 := by omega
  rw [readLiteral, if_neg spelled, Nat.add_sub_cancel_left,
    Bytes.split_append (Bytes.length_little_endian width last)]
  dsimp only
  rw [Bytes.of_little_endian fits, ← count]
  exact read_literal_body space rest

theorem read_copy {length high width low : Nat} (fits : low < 256 ^ width)
    (some : 0 < high + low) (known : high + low ≤ written) (space : length ≤ room)
    (rest : Bytes) :
    readCopy written room length high width (Bytes.littleEndian width low ++ rest) =
      .ok (copy (high + low) length, rest) := by
  have valid : ¬ (high + low = 0 ∨ written < high + low) := by omega
  rw [readCopy, Bytes.split_append (Bytes.length_little_endian width low)]
  dsimp only
  rw [Bytes.of_little_endian fits, if_neg valid, if_neg (Nat.not_lt.mpr space)]

theorem tag_byte {code : Nat} (small : code < 256) : (UInt8.ofNat code).toNat = code := by
  rw [UInt8.toNat_ofNat']
  omega

theorem encode_literal (bytes : Bytes) :
    (literal bytes).encode = literalTag (bytes.length - 1) ++ bytes := rfl

theorem read_encode_literal {bytes : Bytes} (fits : (literal bytes).Fits written)
    (space : bytes.length ≤ room) (rest : Bytes) :
    ∃ tag body, (literal bytes).encode = tag :: body ∧
      read written room tag (body ++ rest) = .ok (literal bytes, rest) := by
  obtain ⟨some, most⟩ := fits
  have count : bytes.length = bytes.length - 1 + 1 := by omega
  rw [encode_literal]
  unfold literalTag
  by_cases short : bytes.length - 1 < 60
  · rw [if_pos short]
    refine ⟨_, _, rfl, ?_⟩
    have kind : (bytes.length - 1) * 4 % 4 = 0 := by omega
    have last : (bytes.length - 1) * 4 / 4 = bytes.length - 1 := by omega
    simp only [read, tag_byte (show (bytes.length - 1) * 4 < 256 by omega), kind, last, readLiteral,
      if_pos short, ← count]
    exact read_literal_body space rest
  · rw [if_neg short]
    by_cases medium : bytes.length - 1 < 256
    · rw [if_pos medium]
      refine ⟨_, _, rfl, ?_⟩
      exact read_literal_spelled 1 Nat.one_pos medium count space rest
    · rw [if_neg medium]
      refine ⟨_, _, rfl, ?_⟩
      have wide : bytes.length - 1 < 256 ^ 2 := by omega
      have written : List.append (Bytes.littleEndian 2 (bytes.length - 1)) bytes ++ rest =
          Bytes.littleEndian 2 (bytes.length - 1) ++ (bytes ++ rest) := List.append_assoc _ _ _
      rw [written]
      exact read_literal_spelled 2 Nat.two_pos wide count space rest

theorem read_encode_copy {offset length : Nat} (fits : (copy offset length).Fits written)
    (space : length ≤ room) (rest : Bytes) :
    ∃ tag body, (copy offset length).encode = tag :: body ∧
      read written room tag (body ++ rest) = .ok (copy offset length, rest) := by
  obtain ⟨back, known, near, some, most⟩ := fits
  unfold encode
  dsimp only
  split
  · rename_i small
    refine ⟨_, _, rfl, ?_⟩
    have tag : (UInt8.ofNat (offset / 256 * 32 + (length - 4) * 4 + 1)).toNat =
        offset / 256 * 32 + (length - 4) * 4 + 1 := tag_byte (by omega)
    have kind : (offset / 256 * 32 + (length - 4) * 4 + 1) % 4 = 1 := by omega
    have count : 4 + (offset / 256 * 32 + (length - 4) * 4 + 1) / 4 % 8 = length := by omega
    have high : (offset / 256 * 32 + (length - 4) * 4 + 1) / 32 * 256 + offset % 256 = offset := by
      omega
    have low : [UInt8.ofNat offset] = Bytes.littleEndian 1 (offset % 256) := by
      have same : UInt8.ofNat offset = UInt8.ofNat (offset % 256) := by
        apply UInt8.toNat_inj.mp
        simp
      rw [same]
      rfl
    have one : offset % 256 < 256 ^ 1 := by omega
    simp only [read, tag, kind, count, low]
    rw [read_copy one (by omega) (by omega) space rest, high]
  · refine ⟨_, _, rfl, ?_⟩
    have tag : (UInt8.ofNat ((length - 1) * 4 + 2)).toNat = (length - 1) * 4 + 2 :=
      tag_byte (by omega)
    have kind : ((length - 1) * 4 + 2) % 4 = 2 := by omega
    have count : 1 + ((length - 1) * 4 + 2) / 4 = length := by omega
    have wide : offset < 256 ^ 2 := by omega
    simp only [read, tag, kind, count]
    rw [read_copy wide (by omega) (by omega) space rest, Nat.zero_add]

/-- What is written of an element is read as that element. -/
theorem read_encode {element : Element} (fits : element.Fits written)
    (space : element.length ≤ room) (rest : Bytes) :
    ∃ tag body, element.encode = tag :: body ∧
      read written room tag (body ++ rest) = .ok (element, rest) := by
  cases element with
  | literal bytes => exact read_encode_literal fits space rest
  | copy offset length => exact read_encode_copy fits space rest

end Reading

section Room

variable {written room : Nat} {rest after : Bytes} {element : Element}

theorem read_literal_body_length {count : Nat}
    (h : readLiteralBody room count rest = .ok (element, after)) : element.length ≤ room := by
  unfold readLiteralBody at h
  split at h
  · contradiction
  · rename_i inside
    split at h
    · contradiction
    · rename_i split
      cases h
      have taken := Bytes.length_of_split split
      rw [length, taken]
      exact Nat.not_lt.mp inside

theorem read_literal_length {last : Nat} (h : readLiteral room last rest = .ok (element, after)) :
    element.length ≤ room := by
  unfold readLiteral at h
  split at h
  · exact read_literal_body_length h
  · split at h
    · contradiction
    · exact read_literal_body_length h

theorem read_copy_length {count high width : Nat}
    (h : readCopy written room count high width rest = .ok (element, after)) :
    element.length ≤ room := by
  unfold readCopy at h
  split at h
  · contradiction
  · dsimp only at h
    split at h
    · contradiction
    · split at h
      · contradiction
      · rename_i inside
        cases h
        exact Nat.not_lt.mp inside

/-- Nothing is believed that does not fit the room left. -/
theorem read_length {tag : UInt8} (h : read written room tag rest = .ok (element, after)) :
    element.length ≤ room := by
  unfold read at h
  dsimp only at h
  split at h
  · exact read_literal_length h
  · exact read_copy_length h
  · exact read_copy_length h
  · exact read_copy_length h

end Room

/-- Elements that build up a block, one behind the other, each in its place. -/
inductive Builds : Array UInt8 → List Element → Array UInt8 → Prop
  | done (block : Array UInt8) : Builds block [] block
  | next {block result : Array UInt8} {element : Element} {rest : List Element} :
      element.Fits block.size → Builds (element.appendTo block) rest result →
      Builds block (element :: rest) result

namespace Builds

variable {block middle result : Array UInt8} {elements more : List Element}

theorem append (first : Builds block elements middle) (second : Builds middle more result) :
    Builds block (elements ++ more) result := by
  induction first with
  | done block => exact second
  | next fits _ ih => exact .next fits (ih second)

theorem one {element : Element} (fits : element.Fits block.size) :
    Builds block [element] (element.appendTo block) :=
  .next fits (.done _)

theorem size_le (h : Builds block elements result) : block.size ≤ result.size := by
  induction h with
  | done block => exact Nat.le_refl _
  | next _ _ ih =>
    rw [size_append_to] at ih
    omega

end Builds

end Element

/-- A block is decoded from what is written of the elements that build it up. -/
theorem decode_elements_built {size : Nat} {block result : Array UInt8} {elements : List Element}
    (builds : Element.Builds block elements result) (room : result.size ≤ size) :
    decodeElements size (elements.flatMap Element.encode) block = .ok result := by
  induction builds with
  | done block =>
    rw [List.flatMap_nil, decodeElements]
  | @next block result element rest fits builds ih =>
    have space : element.length ≤ size - block.size := by
      have grown := builds.size_le
      rw [Element.size_append_to] at grown
      omega
    obtain ⟨tag, body, written, read⟩ :=
      Element.read_encode fits space (rest.flatMap Element.encode)
    rw [List.flatMap_cons, written, List.cons_append, decodeElements]
    split
    · rename_i e failed
      cases read.symm.trans failed
    · rename_i found after taken
      cases read.symm.trans taken
      exact ih room

/-- No bytes decode to more than there is room for. -/
theorem size_decode_elements {size : Nat} {elements : Bytes} {block result : Array UInt8}
    (inside : block.size ≤ size) (h : decodeElements size elements block = .ok result) :
    result.size ≤ size := by
  fun_induction decodeElements size elements block with
  | case1 block =>
    cases h
    exact inside
  | case2 => contradiction
  | case3 block tag rest element after read _ ih =>
    have small := Element.read_length read
    apply ih _ h
    rw [Element.size_append_to]
    omega

end FramedSnappy.Snappy
