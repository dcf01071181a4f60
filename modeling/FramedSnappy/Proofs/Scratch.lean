import FramedSnappy.Proofs.Bytes
import FramedSnappy.Scratch

/-! A scratch buffer hands out windows of exactly the length asked for, up to its limit, and what
is written into a window is found at the front of the buffer. -/
namespace FramedSnappy

namespace Scratch

/-- With nothing missing there is nothing to add. -/
theorem reserve_eq {scratch : Scratch} {length : Nat} (h : length ≤ scratch.limit) :
    scratch.reserve length = .ok { scratch with
      data := scratch.data ++ List.replicate (length - scratch.data.length) 0 } := by
  unfold reserve
  rw [if_neg (Nat.not_lt.mpr h)]
  split
  · rename_i enough
    rw [Nat.sub_eq_zero_of_le enough, List.replicate_zero, List.append_nil]
  · rfl

theorem reserve_of_le {scratch : Scratch} {length : Nat} (h : length ≤ scratch.limit) :
    ∃ grown, scratch.reserve length = .ok grown ∧ grown.limit = scratch.limit ∧
      length ≤ grown.data.length := by
  refine ⟨_, reserve_eq h, rfl, ?_⟩
  simp only [List.length_append, List.length_replicate]
  omega

theorem length_window {scratch : Scratch} {length : Nat} (h : length ≤ scratch.data.length) :
    (scratch.window length).length = length :=
  List.length_take_of_le h

theorem window_of_front {scratch : Scratch} {count : Nat} {bytes : Bytes}
    (h : scratch.front count = some bytes) : scratch.window count = bytes := by
  unfold front at h
  split at h
  · exact Option.some.inj h
  · cases h

theorem store_window {scratch : Scratch} {length count : Nat} (written : Bytes)
    (room : length ≤ scratch.data.length) (inside : count ≤ length) :
    (scratch.store length written).window count =
      (Bytes.overlay written (scratch.window length)).take count := by
  simp only [store, window]
  refine List.take_append_of_le_length ?_
  rw [Bytes.length_overlay, List.length_take_of_le room]
  exact inside

@[simp] theorem length_store (scratch : Scratch) (length : Nat) (written : Bytes) :
    (scratch.store length written).data.length = scratch.data.length := by
  simp only [store, window, List.length_append, Bytes.length_overlay, List.length_take,
    List.length_drop]
  omega

end Scratch

end FramedSnappy
