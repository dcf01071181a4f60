import FramedSnappy.Bytes

/-! Decoded bytes on their way to the caller, stored together with those already handed over: the
cursor separates the two. Its view is the list of the bytes behind the cursor. -/
namespace FramedSnappy

structure ByteQueue where
  stored : Array UInt8
  cursor : Nat
  deriving DecidableEq

namespace ByteQueue

def empty : ByteQueue := ⟨#[], 0⟩

def length (queue : ByteQueue) : Nat := queue.stored.size - queue.cursor

def isEmpty (queue : ByteQueue) : Bool := queue.stored.size ≤ queue.cursor

/-- The bytes not yet handed over. -/
def toList (queue : ByteQueue) : Bytes :=
  (queue.stored.extract queue.cursor queue.stored.size).toList

/-- New bytes go behind those waiting; what was handed over is dropped first. -/
def append (queue : ByteQueue) (bytes : Bytes) : ByteQueue :=
  ⟨queue.stored.extract queue.cursor queue.stored.size ++ bytes, 0⟩

/-- Where the cursor comes to behind `count` more bytes. The end of what is stored can be counted, a
position past it may be too large for that. -/
def position (queue : ByteQueue) (count : Nat) : Nat :=
  if count ≤ queue.length then queue.cursor + count else sizeSum queue.cursor count

/-- Passes over `count` bytes, or over all that wait. A sum that has lost its carry takes the cursor
back, and bytes that were handed over wait again. -/
def consume (queue : ByteQueue) (count : Nat) : ByteQueue :=
  let cursor := min (queue.position count) queue.stored.size
  if queue.stored.size ≤ cursor then empty else { queue with cursor }

/-- Passing over `count` bytes takes the cursor back. -/
def Wraps (queue : ByteQueue) (count : Nat) : Prop :=
  queue.length < count ∧ UInt64.size ≤ queue.cursor + count

instance (queue : ByteQueue) (count : Nat) : Decidable (queue.Wraps count) :=
  inferInstanceAs (Decidable (_ ∧ _))

/-- Hands over up to `count` bytes. -/
def take (queue : ByteQueue) (count : Nat) : Bytes × ByteQueue :=
  let count := min count queue.length
  ((queue.stored.extract queue.cursor (queue.cursor + count)).toList, queue.consume count)

theorem not_wraps_of_le {queue : ByteQueue} {count : Nat} (within : count ≤ queue.length) :
    ¬ queue.Wraps count :=
  fun wraps => absurd wraps.1 (Nat.not_lt.mpr within)

theorem position_exact {queue : ByteQueue} {count : Nat} (exact : ¬ queue.Wraps count) :
    queue.position count = queue.cursor + count := by
  unfold position
  split
  · rfl
  · rename_i past
    exact size_sum_exact (Nat.not_le.mp fun carry => exact ⟨Nat.not_le.mp past, carry⟩)

theorem length_consume {queue : ByteQueue} {count : Nat} (exact : ¬ queue.Wraps count) :
    (queue.consume count).length = queue.length - count := by
  simp only [consume, position_exact exact]
  split
  · simp only [length, empty, Array.size_empty]
    omega
  · simp only [length]
    omega

theorem length_take (queue : ByteQueue) (count : Nat) :
    (queue.take count).1.length = min count queue.length := by
  simp only [take, length, Array.length_toList, Array.size_extract]
  omega

theorem length_after_take (queue : ByteQueue) (count : Nat) :
    (queue.take count).2.length = queue.length - count := by
  simp only [take, length_consume (not_wraps_of_le (Nat.min_le_right _ _))]
  omega

theorem is_empty_iff (queue : ByteQueue) : queue.isEmpty = true ↔ queue.length = 0 := by
  simp only [isEmpty, length, decide_eq_true_eq]
  omega

theorem to_list_eq_drop (queue : ByteQueue) :
    queue.toList = queue.stored.toList.drop queue.cursor := by
  rw [toList, Array.toList_extract, List.extract_eq_take_drop]
  exact List.take_of_length_le (by simp)

theorem to_list_append (queue : ByteQueue) (bytes : Bytes) :
    (queue.append bytes).toList = queue.toList ++ bytes := by
  simp [toList, append]

theorem to_list_consume {queue : ByteQueue} {count : Nat} (exact : ¬ queue.Wraps count) :
    (queue.consume count).toList = queue.toList.drop count := by
  simp only [to_list_eq_drop, consume, position_exact exact, List.drop_drop]
  split
  · rename_i past
    rw [List.drop_of_length_le (i := queue.cursor + count)]
    · rfl
    · rw [Array.length_toList]
      omega
  · congr 1
    dsimp only
    omega

theorem to_list_take (queue : ByteQueue) (count : Nat) :
    (queue.take count).1 = queue.toList.take count := by
  simp only [take, to_list_eq_drop, Array.toList_extract, List.extract_eq_take_drop, length]
  rw [Nat.add_sub_cancel_left, ← Array.length_toList, ← List.length_drop]
  exact (List.take_eq_take_min ..).symm

theorem length_to_list (queue : ByteQueue) : queue.toList.length = queue.length := by
  simp [toList, length]

end ByteQueue

end FramedSnappy
