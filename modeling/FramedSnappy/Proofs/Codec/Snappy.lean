import FramedSnappy.Codec.Snappy
import FramedSnappy.Proofs.Codec.Promise
import FramedSnappy.Proofs.Snappy.Matching

/-! The codec of the format keeps every promise that the framing asks for. A block comes back from
its compressed form, which fits the limit of a frame, and no input at all makes the decoder produce
another number of bytes than the one announced. -/
namespace FramedSnappy.Snappy

theorem max_encoded_length_eq {size : Nat} (small : size ≤ Frame.blockLimit) :
    maxEncodedLength size = 32 + size + size / 6 := by
  unfold Frame.blockLimit at small
  unfold maxEncodedLength maxInput
  dsimp only
  rw [if_neg]
  omega

theorem max_encoded_length_le {size : Nat} (small : size ≤ Frame.blockLimit) :
    maxEncodedLength size ≤ Frame.compressedLimit := by
  rw [max_encoded_length_eq small]
  unfold Frame.compressedLimit
  omega

section Block

variable {block : Bytes}

/-- Such a block is searched as a whole. -/
theorem encode_all_eq (small : block.length ≤ Frame.blockLimit) :
    encodeAll block = Varint.encode block.length ++
      if block = [] then [] else encodeElements block := by
  unfold encodeAll
  by_cases empty : block = []
  · rw [if_pos empty, empty, Bytes.pieces]
    rfl
  · have whole : Bytes.pieces 65536 (by decide) block = [block] := Bytes.pieces_short empty small
    rw [if_neg empty, whole, List.flatMap_cons, List.flatMap_nil, List.append_nil]

theorem elements_cover_block (small : block.length ≤ Frame.blockLimit) (some : block ≠ []) :
    Matching.Covers block.toArray 60 block.length (Matching.elements block.toArray) := by
  have begun : 0 < block.toArray.size := List.length_pos_iff.mpr some
  exact Matching.elements_cover begun small

theorem announced_fits (small : block.length ≤ Frame.blockLimit) :
    block.length < 128 ^ (2 + 1) := by
  unfold Frame.blockLimit at small
  omega

theorem length_encode_all (small : block.length ≤ Frame.blockLimit) :
    0 < (encodeAll block).length ∧ (encodeAll block).length ≤ maxEncodedLength block.length := by
  obtain ⟨begun, header⟩ := Varint.length_encode (announced_fits small)
  rw [encode_all_eq small, List.length_append, max_encoded_length_eq small]
  split
  · simp only [List.length_nil]
    omega
  · rename_i some
    have short := (elements_cover_block small some).short
    have elements : (encodeElements block).length =
        ((Matching.elements block.toArray).toList.flatMap Element.encode).length := rfl
    omega

theorem encode_eq (small : block.length ≤ Frame.blockLimit) {capacity : Nat}
    (room : maxEncodedLength block.length ≤ capacity) :
    encode capacity block = .ok (encodeAll block) := by
  have given : maxEncodedLength block.length ≠ 0 := by
    rw [max_encoded_length_eq small]
    omega
  unfold encode
  dsimp only
  rw [if_neg given, if_neg (Nat.not_lt.mpr room)]

theorem read_header_encode_all (small : block.length ≤ Frame.blockLimit) :
    readHeader (encodeAll block) =
      .ok (block.length, if block = [] then [] else encodeElements block) := by
  have wide : block.length < 128 ^ (4 + 1) :=
    Nat.lt_of_lt_of_le (announced_fits small) (Nat.pow_le_pow_right (by decide) (by decide))
  have fine : ¬ block.length > maxInput := by
    unfold Frame.blockLimit at small
    unfold maxInput
    omega
  rw [readHeader, encode_all_eq small, Varint.decode_encode wide]
  dsimp only
  rw [if_neg fine]

theorem decoded_length_of_header {input elements : Bytes} {size : Nat}
    (some : input ≠ []) (header : readHeader input = .ok (size, elements)) :
    decodedLength input = .ok size := by
  cases input with
  | nil => exact absurd rfl some
  | cons first more =>
    rw [decodedLength, header]
    exact nofun

theorem decoded_length_encode_all (small : block.length ≤ Frame.blockLimit) :
    decodedLength (encodeAll block) = .ok block.length :=
  decoded_length_of_header (List.ne_nil_of_length_pos (length_encode_all small).1)
    (read_header_encode_all small)

theorem decode_elements_encode_elements (small : block.length ≤ Frame.blockLimit)
    (some : block ≠ []) :
    decodeElements block.length (encodeElements block) #[] = .ok block.toArray := by
  have builds := (elements_cover_block small some).builds
  have whole : block.toArray.extract 0 block.length = block.toArray := Array.extract_size
  rw [whole] at builds
  exact decode_elements_built builds (Nat.le_refl _)

/-- Into any window that is long enough. -/
theorem decode_encode_all (small : block.length ≤ Frame.blockLimit) {capacity : Nat}
    (room : block.length ≤ capacity) : decode capacity (encodeAll block) = .ok block := by
  have filled : ¬ (encodeAll block).isEmpty = true := by
    rw [List.isEmpty_iff]
    exact List.ne_nil_of_length_pos (length_encode_all small).1
  have decoded : decodeElements block.length (if block = [] then [] else encodeElements block) #[] =
      .ok block.toArray := by
    split
    · rename_i empty
      rw [empty, decodeElements]
    · rename_i some
      exact decode_elements_encode_elements small some
  rw [decode, if_neg filled, read_header_encode_all small]
  dsimp only
  rw [if_neg (Nat.not_lt.mpr room), decoded]
  exact if_neg (Nat.lt_irrefl _)

end Block

/-- Whatever the input, no other number of bytes comes out than the one announced. -/
theorem length_of_decode {capacity : Nat} {input bytes : Bytes}
    (h : decode capacity input = .ok bytes) :
    decodedLength input = .ok bytes.length ∧ bytes.length ≤ capacity := by
  unfold decode at h
  split at h
  · contradiction
  · rename_i some
    rw [List.isEmpty_iff] at some
    split at h
    · contradiction
    · rename_i size elements header
      split at h
      · contradiction
      · rename_i room
        split at h
        · contradiction
        · rename_i block decoded
          split at h
          · contradiction
          · rename_i full
            cases h
            have inside : block.size ≤ size := size_decode_elements (Nat.zero_le _) decoded
            have whole : block.size = size := Nat.le_antisymm inside (Nat.not_lt.mp full)
            rw [decoded_length_of_header some header, Array.length_toList, whole]
            exact ⟨rfl, Nat.not_lt.mp room⟩

section Promise

variable (codec : Snappy)

theorem decompress_result (input window : Bytes) :
    (Codec.decompress codec input window).result window =
      match decode window.length input with
      | .error e => .failed (.compression e)
      | .ok bytes => .done bytes := by
  simp only [Codec.decompress]
  split
  · rename_i e refused
    rw [refused]
    rfl
  · rename_i bytes decoded
    rw [decoded]
    exact Codec.Reply.result_written (length_of_decode decoded).2 codec

theorem decoded_length_block {block : Bytes} (small : block.length ≤ Frame.blockLimit) :
    (Codec.decodedLength codec (encodeAll block)).1 = .ok block.length := by
  simp only [Codec.decodedLength, decoded_length_encode_all small]

theorem compress_block {block window : Bytes} (small : block.length ≤ Frame.blockLimit)
    (room : (Codec.bound codec block.length).1 ≤ window.length) :
    (Codec.compress codec block window).result window = .done (encodeAll block) := by
  have fits : (encodeAll block).length ≤ window.length :=
    Nat.le_trans (length_encode_all small).2 room
  simp only [Codec.compress, encode_eq small room]
  exact Codec.Reply.result_written fits codec

theorem decompress_block {block window : Bytes} (small : block.length ≤ Frame.blockLimit)
    (room : block.length ≤ window.length) :
    (Codec.decompress codec (encodeAll block) window).result window = .done block := by
  rw [decompress_result, decode_encode_all small room]

theorem piece_small {block : Bytes} (piece : Codec.Piece block) :
    block.length ≤ Frame.blockLimit :=
  Nat.le_trans piece.2 (Nat.sub_le _ _)

theorem packs : Codec.Packs codec encodeAll where
  bound _ _ _ piece :=
    ⟨(length_encode_all (piece_small piece)).2, max_encoded_length_le (piece_small piece)⟩
  compress _ _ _ piece _ length := compress_block _ (piece_small piece) (Nat.le_of_eq length.symm)

theorem restores : Codec.Restores codec encodeAll where
  announce now _ _ piece := decoded_length_block now (piece_small piece)
  restore _ _ _ piece _ length := decompress_block _ (piece_small piece) (Nat.le_of_eq length.symm)

theorem input_only : Codec.InputOnly codec where
  length _ _ _ := rfl
  bytes now other _ _ block window clean same := by
    rw [decompress_result, decompress_result, same]
  inside now _ block window := by
    rw [decompress_result]
    split <;> exact nofun

end Promise

end FramedSnappy.Snappy
