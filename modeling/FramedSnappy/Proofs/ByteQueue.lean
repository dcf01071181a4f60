import FramedSnappy.ByteQueue

/-! What a queue does, told by the list of the bytes that wait in it. -/
namespace FramedSnappy.ByteQueue

@[simp] theorem to_list_empty : empty.toList = [] := rfl

theorem is_empty_to_list (queue : ByteQueue) : queue.isEmpty = true ↔ queue.toList = [] := by
  rw [is_empty_iff, ← length_to_list, List.length_eq_zero_iff]

theorem to_list_take_rest (queue : ByteQueue) (count : Nat) :
    (queue.take count).2.toList = queue.toList.drop count := by
  dsimp only [take]
  rw [to_list_consume (not_wraps_of_le (Nat.min_le_right ..)), ← length_to_list]
  rcases Nat.le_total count queue.toList.length with fewer | more
  · rw [Nat.min_eq_left fewer]
  · rw [Nat.min_eq_right more, List.drop_length, List.drop_of_length_le more]

theorem consume_all (queue : ByteQueue) : queue.consume queue.length = .empty := by
  unfold consume
  rw [position_exact (not_wraps_of_le (Nat.le_refl _))]
  unfold length
  dsimp only
  split
  · rfl
  · omega

theorem length_append (queue : ByteQueue) (bytes : Bytes) :
    (queue.append bytes).length = queue.length + bytes.length := by
  rw [← length_to_list, to_list_append, List.length_append, length_to_list]

theorem to_list_suffix (queue : ByteQueue) : queue.toList <:+ queue.stored.toList := by
  rw [to_list_eq_drop]
  exact List.drop_suffix _ _

/-- Nothing is stored that was not stored before. -/
theorem stored_consume (queue : ByteQueue) (count : Nat) :
    (queue.consume count).stored.toList <:+ queue.stored.toList := by
  unfold consume
  dsimp only
  split
  · exact List.nil_suffix
  · exact List.suffix_refl _

theorem size_consume (queue : ByteQueue) (count : Nat) :
    (queue.consume count).stored.size ≤ queue.stored.size := by
  rw [← Array.length_toList, ← Array.length_toList]
  exact (stored_consume queue count).length_le

/-- The cursor stands on a byte, or nothing is stored. -/
def Tidy (queue : ByteQueue) : Prop :=
  queue.cursor < queue.stored.size ∨ queue.cursor = 0 ∧ queue.stored.size = 0

variable {queue : ByteQueue} {count : Nat}

theorem tidy_empty : Tidy empty := .inr ⟨rfl, rfl⟩

theorem tidy_append (queue : ByteQueue) (bytes : Bytes) : (queue.append bytes).Tidy := by
  have start : (queue.append bytes).cursor = 0 := rfl
  unfold Tidy
  omega

theorem tidy_consume (queue : ByteQueue) (count : Nat) : (queue.consume count).Tidy := by
  unfold consume
  dsimp only
  split
  · exact tidy_empty
  · exact .inl (by dsimp only; omega)

namespace Tidy

theorem inside (tidy : queue.Tidy) : queue.cursor ≤ queue.stored.size := by
  unfold Tidy at tidy
  omega

theorem length_add_cursor (tidy : queue.Tidy) :
    queue.length + queue.cursor = queue.stored.size :=
  Nat.sub_add_cancel tidy.inside

/-- No front is kept behind which nothing waits. -/
theorem eq_empty (tidy : queue.Tidy) (dry : queue.length = 0) : queue = .empty := by
  have whole := tidy.length_add_cursor
  obtain ⟨stored, cursor⟩ := queue
  simp only [Tidy] at tidy
  dsimp only at whole
  obtain rfl : cursor = 0 := by omega
  obtain rfl : stored = #[] := Array.eq_empty_of_size_eq_zero (by omega)
  rfl

theorem eq_empty_of_dry (tidy : queue.Tidy) (dry : queue.toList = []) : queue = .empty :=
  tidy.eq_empty ((is_empty_iff _).mp ((is_empty_to_list _).mpr dry))

end Tidy

/-- What a client that takes bytes once can leave of a queue. -/
inductive Passed (queue : ByteQueue) : ByteQueue → Prop
  | none : Passed queue queue
  | over (count : Nat) : Passed queue (queue.consume count)

theorem passed_empty (queue : ByteQueue) : queue.Passed .empty := by
  rw [← consume_all queue]
  exact .over queue.length

end FramedSnappy.ByteQueue
