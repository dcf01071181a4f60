import FramedSnappy.Proofs.ByteQueue
import FramedSnappy.Proofs.Scratch

/-! Accesses to stored bytes that look at their range before they are made, and that have no result
outside of it. A queue stays in range as long as its cursor is not past its end. -/
namespace FramedSnappy

namespace Guarded

def difference (whole part : Nat) : Option Nat :=
  if part ≤ whole then some (whole - part) else none

/-- The bytes from `start` up to `stop`. -/
def slice (data : Bytes) (start stop : Nat) : Option Bytes :=
  if start ≤ stop ∧ stop ≤ data.length then some (data.extract start stop) else none

/-- What `target` holds when `bytes` have been copied into it. -/
def copy (target bytes : Bytes) : Option Bytes :=
  if bytes.length = target.length then some bytes else none

theorem slice_front {data : Bytes} {count : Nat} (inside : count ≤ data.length) :
    slice data 0 count = some (data.take count) := by
  simp [slice, inside]

theorem slice_front_none {data : Bytes} {count : Nat} (outside : data.length < count) :
    slice data 0 count = none := by
  simp [slice, outside]

theorem copy_of_length {target bytes : Bytes} (same : bytes.length = target.length) :
    copy target bytes = some bytes := if_pos same

theorem room_of_reserve {scratch grown : Scratch} {length : Nat}
    (h : scratch.reserve length = .ok grown) : length ≤ grown.data.length := by
  have small : length ≤ scratch.limit := by
    unfold Scratch.reserve at h
    split at h
    · cases h
    · omega
  obtain ⟨other, reserved, -, room⟩ := Scratch.reserve_of_le small
  cases h.symm.trans reserved
  exact room

theorem front_of_room {scratch : Scratch} {length : Nat} (room : length ≤ scratch.data.length) :
    scratch.front length = some (scratch.window length) := if_pos room

end Guarded

namespace ByteQueue

def Sound (queue : ByteQueue) : Prop := queue.cursor ≤ queue.stored.size

instance (queue : ByteQueue) : Decidable queue.Sound := Nat.decLe _ _

variable {queue : ByteQueue}

theorem sound_empty : Sound empty := Nat.le_refl _

theorem sound_append (queue : ByteQueue) (bytes : Bytes) : (queue.append bytes).Sound :=
  Nat.zero_le _

theorem sound_consume (queue : ByteQueue) (count : Nat) : (queue.consume count).Sound := by
  unfold consume
  dsimp only
  split
  · exact sound_empty
  · exact Nat.min_le_right _ _

end ByteQueue

namespace Guarded

open ByteQueue (Sound)

def waiting (queue : ByteQueue) : Option Nat := difference queue.stored.size queue.cursor

def readable (queue : ByteQueue) : Option Bytes :=
  slice queue.stored.toList queue.cursor queue.stored.size

/-- What has been handed over is cut off the front, if there is any of it. -/
def append (queue : ByteQueue) (bytes : Bytes) : Option ByteQueue :=
  if queue.cursor = 0 then some ⟨queue.stored ++ bytes, 0⟩
  else match slice queue.stored.toList 0 queue.cursor with
    | none => none
    | some front =>
      some ⟨queue.stored.extract front.length queue.stored.size ++ bytes, 0⟩

/-- Copies into the front of a buffer as many bytes as it takes. -/
def take (queue : ByteQueue) (buffer : Bytes) : Option (Bytes × ByteQueue) :=
  match waiting queue with
  | none => none
  | some waits =>
    let count := min buffer.length waits
    match slice buffer 0 count, slice queue.stored.toList queue.cursor (queue.cursor + count) with
    | some target, some bytes =>
      match copy target bytes with
      | none => none
      | some copied => some (copied, queue.consume count)
    | _, _ => none

variable {queue : ByteQueue}

theorem waiting_sound (sound : queue.Sound) : waiting queue = some queue.length := if_pos sound

theorem waiting_unsound (unsound : ¬ queue.Sound) : waiting queue = none := if_neg unsound

theorem readable_sound (sound : queue.Sound) : readable queue = some queue.toList := by
  unfold readable slice
  rw [if_pos ⟨sound, Nat.le_of_eq Array.length_toList.symm⟩, ByteQueue.toList, Array.toList_extract]

theorem readable_unsound (unsound : ¬ queue.Sound) : readable queue = none :=
  if_neg fun range => unsound range.1

theorem append_sound (sound : queue.Sound) (bytes : Bytes) :
    append queue bytes = some (queue.append bytes) := by
  unfold append ByteQueue.append
  split
  · rename_i start
    simp [start]
  · have inside : queue.cursor ≤ queue.stored.toList.length := by rwa [Array.length_toList]
    rw [slice_front inside]
    dsimp only
    rw [List.length_take_of_le inside]

theorem append_unsound (unsound : ¬ queue.Sound) (bytes : Bytes) : append queue bytes = none := by
  have past : queue.stored.size < queue.cursor := Nat.lt_of_not_le unsound
  unfold append
  rw [if_neg (Nat.ne_zero_of_lt past), slice_front_none (by simpa using past)]

theorem take_sound (sound : queue.Sound) (buffer : Bytes) :
    take queue buffer = some (queue.take buffer.length) := by
  have waits : queue.cursor + queue.length = queue.stored.size := Nat.add_sub_of_le sound
  unfold take ByteQueue.take
  rw [waiting_sound sound]
  generalize counted : min buffer.length queue.length = count
  have room : count ≤ buffer.length := counted ▸ Nat.min_le_left _ _
  have there : count ≤ queue.length := counted ▸ Nat.min_le_right _ _
  have inside : queue.cursor + count ≤ queue.stored.toList.length := by
    rw [Array.length_toList]
    omega
  have bytes : slice queue.stored.toList queue.cursor (queue.cursor + count) =
      some (queue.stored.extract queue.cursor (queue.cursor + count)).toList := by
    rw [slice, if_pos ⟨Nat.le_add_right _ _, inside⟩, Array.toList_extract]
  have same : (queue.stored.extract queue.cursor (queue.cursor + count)).toList.length =
      (buffer.take count).length := by
    rw [Array.length_toList] at inside
    simp only [Array.length_toList, Array.size_extract, List.length_take]
    omega
  simp only [counted, slice_front room, bytes, copy_of_length same]

end Guarded

end FramedSnappy
