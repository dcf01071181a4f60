import FramedSnappy.Bytes
import Mathlib.Algebra.Group.Nat.Defs
import Mathlib.Data.List.Basic

/-! The layouts lose nothing: a field of fixed width holds exactly the numbers that fit it, a window
keeps its length, and consecutive pieces are the bytes they were cut from. -/
namespace FramedSnappy.Bytes

@[simp] theorem length_little_endian (width value : Nat) :
    (littleEndian width value).length = width := by
  induction width generalizing value with
  | zero => rfl
  | succ width ih => simp [littleEndian, ih]

theorem of_little_endian_lt (data : Bytes) : ofLittleEndian data < 256 ^ data.length := by
  induction data with
  | nil => simp [ofLittleEndian]
  | cons low rest ih =>
    have := low.toNat_lt
    simp only [ofLittleEndian, List.length_cons, Nat.pow_succ]
    omega

theorem of_little_endian {width value : Nat} (fits : value < 256 ^ width) :
    ofLittleEndian (littleEndian width value) = value := by
  induction width generalizing value with
  | zero =>
    simp only [Nat.pow_zero, Nat.lt_one_iff] at fits
    simp [littleEndian, ofLittleEndian, fits]
  | succ width ih =>
    have rest : value / 256 < 256 ^ width := by
      rw [Nat.pow_succ] at fits
      exact Nat.div_lt_of_lt_mul (by omega)
    simp only [littleEndian, ofLittleEndian, ih rest, UInt8.toNat_ofNat']
    omega

theorem little_endian_of (data : Bytes) :
    littleEndian data.length (ofLittleEndian data) = data := by
  induction data with
  | nil => rfl
  | cons low rest ih =>
    have small := low.toNat_lt
    have front : UInt8.ofNat (low.toNat + 256 * ofLittleEndian rest) = low := by
      apply UInt8.toNat_inj.mp
      rw [UInt8.toNat_ofNat']
      omega
    have back : (low.toNat + 256 * ofLittleEndian rest) / 256 = ofLittleEndian rest := by omega
    simp only [ofLittleEndian, List.length_cons, littleEndian, front, back, ih]

theorem of_little_endian_inj {left right : Bytes} (length : left.length = right.length)
    (h : ofLittleEndian left = ofLittleEndian right) : left = right := by
  rw [← little_endian_of left, ← little_endian_of right, h, length]

@[simp] theorem length_overlay (written window : Bytes) :
    (overlay written window).length = window.length := by
  simp only [overlay, List.length_append, List.length_take, List.length_drop]
  omega

theorem flatten_pieces (size : Nat) (positive : 0 < size) (data : Bytes) :
    (pieces size positive data).flatten = data := by
  fun_induction pieces size positive data with
  | case1 => rfl
  | case2 first rest ih => rw [List.flatten_cons, ih, List.take_append_drop]

theorem mem_pieces {size : Nat} {positive : 0 < size} {data piece : Bytes}
    (h : piece ∈ pieces size positive data) : piece ≠ [] ∧ piece.length ≤ size := by
  fun_induction pieces size positive data with
  | case1 => simp at h
  | case2 first rest ih =>
    rcases List.mem_cons.mp h with rfl | later
    · refine ⟨?_, List.length_take_le _ _⟩
      obtain ⟨size, rfl⟩ := Nat.exists_eq_succ_of_ne_zero (Nat.ne_of_gt positive)
      simp
    · exact ih later

theorem pieces_short {size : Nat} {positive : 0 < size} {data : Bytes} (some : data ≠ [])
    (short : data.length ≤ size) : pieces size positive data = [data] := by
  cases data with
  | nil => exact absurd rfl some
  | cons first rest =>
    rw [pieces, List.take_of_length_le short, List.drop_of_length_le short, pieces]

theorem pieces_append {size : Nat} {positive : 0 < size} {first : Bytes}
    (whole : size ∣ first.length) (second : Bytes) :
    pieces size positive (first ++ second) =
      pieces size positive first ++ pieces size positive second := by
  fun_induction pieces size positive first with
  | case1 => rfl
  | case2 byte rest ih =>
    have full : size ≤ (byte :: rest).length := Nat.le_of_dvd (Nat.succ_pos _) whole
    have behind : size ∣ ((byte :: rest).drop size).length := by
      rw [List.length_drop]
      exact Nat.dvd_sub whole (Nat.dvd_refl size)
    rw [List.cons_append, pieces, ← List.cons_append, List.take_append_of_le_length full,
      List.drop_append_of_le_length full, ih behind, List.cons_append]

theorem length_of_split {count : Nat} {data front rest : Bytes}
    (h : splitExactly count data = some (front, rest)) : front.length = count := by
  unfold splitExactly at h
  dsimp only at h
  split at h
  · rename_i whole
    cases h
    exact whole
  · contradiction

theorem split_append {count : Nat} {front : Bytes} (whole : front.length = count) (rest : Bytes) :
    splitExactly count (front ++ rest) = some (front, rest) := by
  subst whole
  simp [splitExactly]

theorem collect_append (got : Array UInt8) (front back : Bytes) :
    got ++ (front ++ back) = got ++ front ++ back := by
  apply Array.toList_inj.mp
  simp

section

variable {delimiter : UInt8} {data : Bytes}

theorem up_to_of_not_mem (absent : delimiter ∉ data) : upTo delimiter data = (data, false) := by
  unfold upTo
  rw [List.idxOf?_eq_none_iff.mpr absent]

theorem up_to_of_mem (there : delimiter ∈ data) :
    ∃ line rest, upTo delimiter data = (line, true) ∧ line ++ rest = data := by
  unfold upTo
  cases found : data.idxOf? delimiter with
  | none => exact absurd there (List.idxOf?_eq_none_iff.mp found)
  | some position => exact ⟨_, _, rfl, List.take_append_drop _ _⟩

/-- By the place of the first delimiter, which is behind all bytes when there is none. -/
theorem up_to_eq (delimiter : UInt8) (data : Bytes) :
    upTo delimiter data = (data.take (data.idxOf delimiter + 1), decide (delimiter ∈ data)) := by
  have place := List.idxOf_eq_getD_idxOf? delimiter data
  by_cases there : delimiter ∈ data
  · obtain ⟨position, found⟩ := Option.isSome_iff_exists.mp (List.isSome_idxOf?.mpr there)
    rw [found, Option.getD_some] at place
    rw [upTo, found, place, decide_eq_true there]
  · rw [up_to_of_not_mem there, List.idxOf_eq_length_iff.mpr there, decide_eq_false there,
      List.take_of_length_le (Nat.le_succ _)]

end

theorem four_in_front {data : Bytes} (enough : 4 ≤ data.length) :
    ∃ first second third fourth rest, data = first :: second :: third :: fourth :: rest := by
  match data, enough with
  | first :: second :: third :: fourth :: rest, _ => exact ⟨_, _, _, _, _, rfl⟩

end FramedSnappy.Bytes
