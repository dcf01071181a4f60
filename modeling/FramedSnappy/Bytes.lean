/-! Byte strings, and the two layouts the format builds from them: little-endian fields of a
fixed width, and consecutive pieces of a fixed size. Sizes and positions have 64 bits. -/
namespace FramedSnappy

abbrev Bytes := List UInt8

/-- The sum of two sizes. A carry is lost. -/
def sizeSum (size other : Nat) : Nat := (size + other) % UInt64.size

theorem size_sum_exact {size other : Nat} (fits : size + other < UInt64.size) :
    sizeSum size other = size + other :=
  Nat.mod_eq_of_lt fits

namespace Bytes

/-- A value too large for the width keeps its low bytes only. -/
def littleEndian : Nat → Nat → Bytes
  | 0, _ => []
  | width + 1, value => UInt8.ofNat value :: littleEndian width (value / 256)

def ofLittleEndian : Bytes → Nat
  | [] => 0
  | low :: rest => low.toNat + 256 * ofLittleEndian rest

/-- The first `count` bytes and the rest, or nothing when there are fewer. -/
def splitExactly (count : Nat) (data : Bytes) : Option (Bytes × Bytes) :=
  let front := data.take count
  if front.length = count then some (front, data.drop count) else none

/-- The bytes up to and including the first `delimiter`, and whether there is one. -/
def upTo (delimiter : UInt8) (data : Bytes) : Bytes × Bool :=
  match data.idxOf? delimiter with
  | none => (data, false)
  | some position => (data.take (position + 1), true)

/-- The front of `window` replaced by `written`, of which nothing runs past the end. -/
def overlay (written window : Bytes) : Bytes :=
  written.take window.length ++ window.drop written.length

/-- Consecutive pieces of `size` bytes, of which only the last one may be shorter. -/
def pieces (size : Nat) (positive : 0 < size) : Bytes → List Bytes
  | [] => []
  | first :: rest =>
    (first :: rest).take size :: pieces size positive ((first :: rest).drop size)
termination_by data => data.length
decreasing_by simp only [List.length_drop, List.length_cons]; omega

theorem split_exactly_rest {count : Nat} {data front rest : Bytes}
    (h : splitExactly count data = some (front, rest)) : rest.length ≤ data.length := by
  simp only [splitExactly] at h
  split at h
  · cases h
    simp
  · contradiction

theorem up_to_nonempty (delimiter first : UInt8) (more : Bytes) :
    0 < (upTo delimiter (first :: more)).1.length := by
  unfold upTo
  split
  · exact Nat.succ_pos _
  · exact Nat.succ_pos _

theorem up_to_within (delimiter : UInt8) (data : Bytes) :
    (upTo delimiter data).1.length ≤ data.length := by
  unfold upTo
  split
  · exact Nat.le_refl _
  · exact List.length_take_le' _ _

end Bytes

end FramedSnappy
