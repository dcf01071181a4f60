import FramedSnappy.Proofs.Reader.Operation

/-! How much waits in the queue of a reader. A refill puts at most one data frame behind what was
waiting, and a read asks for one only when it will take all of that. So no more than one block
waits between operations, though the queue says nothing of a limit; but a cursor that has wrapped
makes more wait. -/
namespace FramedSnappy

open FramedSnappy.Frame (blockLimit)

theorem Frame.Yields.length_le {decode : Bytes → Outcome Error Bytes} {policy : ChecksumPolicy}
    {frame : Frame} {content : Bytes} (yields : frame.Yields decode policy (some content))
    (decodes : ∀ block content, decode block = .done content → content.length ≤ blockLimit) :
    content.length ≤ blockLimit := by
  cases yields with
  | compressed _ _ _ decoded _ => exact decodes _ _ decoded
  | uncompressed _ _ most _ =>
    rw [Frame.block, List.length_drop]
    omega

namespace ByteQueue

/-- At most one block has come behind what was waiting. -/
structure Fills (before after : ByteQueue) : Prop where
  length : after.length ≤ before.length + blockLimit
  size : after.stored.size ≤ max before.stored.size (before.length + blockLimit)

theorem Fills.trans {before middle last : ByteQueue} (first : Fills before middle)
    (rest : Fills middle last) (fewer : middle.length ≤ before.length) : Fills before last := by
  have length := rest.length
  have size := rest.size
  have grown := first.size
  constructor
  · omega
  · omega

/-- How much a queue holds between operations: no more than one block that waits, behind no more than
another one that has been handed over. -/
structure Slim (queue : ByteQueue) : Prop where
  length : queue.length ≤ blockLimit
  size : queue.stored.size ≤ 2 * blockLimit

theorem Slim.consume {queue : ByteQueue} (slim : queue.Slim) {count : Nat}
    (exact : ¬ queue.Wraps count) : (queue.consume count).Slim := by
  constructor
  · rw [length_consume exact]
    exact Nat.le_trans (Nat.sub_le _ _) slim.length
  · exact Nat.le_trans (size_consume queue count) slim.size

theorem Slim.fills {before after : ByteQueue} (slim : before.Slim) (fills : Fills before after)
    (fewer : after.length ≤ blockLimit) : after.Slim := by
  have waiting := slim.length
  have stored := slim.size
  have larger := fills.size
  exact ⟨fewer, by omega⟩

/-- A read that had to wait for the new block leaves less than that block. -/
theorem Slim.take {before after : ByteQueue} (slim : before.Slim) (fills : Fills before after)
    {count : Nat} (wanted : before.length < count) : (after.take count).2.Slim := by
  have waiting := slim.length
  have stored := slim.size
  have longer := fills.length
  have larger := fills.size
  have kept := size_consume after (min count after.length)
  constructor
  · rw [length_after_take]
    omega
  · dsimp only [ByteQueue.take]
    omega

end ByteQueue

open ByteQueue (Fills Slim)

namespace Reader

variable {κ : Type} {reader : Reader κ}

/-- What a refill has done to the queue. Only a refill that says so leaves more bytes waiting. -/
structure Refills (before : ByteQueue) (result : Outcome Error Bool × Reader κ) : Prop where
  fit : result.2.Fit
  fills : Fills before result.2.pending
  filled : result.1 = .done true → 0 < result.2.pending.length
  dry : result.1 ≠ .done true → result.2.pending.length ≤ before.length

theorem Refills.after {before middle : ByteQueue} {result : Outcome Error Bool × Reader κ}
    (first : Fills before middle) (fewer : middle.length ≤ before.length)
    (rest : Refills middle result) : Refills before result where
  fit := rest.fit
  fills := first.trans rest.fills fewer
  filled := rest.filled
  dry undone := Nat.le_trans (rest.dry undone) fewer

variable [Codec κ]

end Reader

end FramedSnappy
