import FramedSnappy.Reader.Weight

/-! The reader as a byte stream and as a sequence of blocks. Frames are decoded only when the bytes
that wait do not do, and decoding stops at the first data frame that leaves some waiting. The
loops end because a decoded frame makes the source lighter, handing bytes over shortens the queue,
and a failure can be met only once. -/
namespace FramedSnappy.Reader

variable {κ : Type}

def serve (reader : Reader κ) (size : Nat) : Bytes × Reader κ :=
  let served := reader.pending.take size
  (served.1, { reader with pending := served.2 })

def consume (reader : Reader κ) (count : Nat) : Reader κ :=
  { reader with pending := reader.pending.consume count }

variable [Codec κ]

/-- Whether bytes wait in the end; if not, the source ended between two frames. -/
def decodeUntilPending (reader : Reader κ) : Outcome Error Bool × Reader κ :=
  match h : reader.advance with
  | (.failed e, after) => (.failed e, { after with poisoned := true })
  | (.overrun, after) => (.overrun, after)
  | (.done .ended, after) => (.done false, after)
  | (.done .passed, after) =>
    have : after.source.weight < reader.source.weight := advance_shrinks h nofun
    after.decodeUntilPending
  | (.done .block, after) =>
    have : after.source.weight < reader.source.weight := advance_shrinks h nofun
    if after.pending.isEmpty then after.decodeUntilPending else (.done true, after)
termination_by reader.source.weight

def refill (reader : Reader κ) : Outcome Error Bool × Reader κ :=
  if reader.poisoned then (.failed .poisoned, reader) else reader.decodeUntilPending

/-- Up to `size` bytes. Even if some wait, more are decoded when the buffer has room for more. -/
def read (reader : Reader κ) (size : Nat) : Outcome StreamError Bytes × Reader κ :=
  if reader.pending.length < size then
    match reader.refill with
    | (.failed e, reader) => (.failed e.toStreamError, reader)
    | (.overrun, reader) => (.overrun, reader)
    | (.done _, reader) =>
      match reader.serve size with
      | (bytes, reader) => (.done bytes, reader)
  else
    match reader.serve size with
    | (bytes, reader) => (.done bytes, reader)

/-- All bytes that wait, after decoding some if none do. They stay in the queue. -/
def peek (reader : Reader κ) : Outcome StreamError Bytes × Reader κ :=
  if reader.pending.isEmpty then
    match reader.refill with
    | (.failed e, reader) => (.failed e.toStreamError, reader)
    | (.overrun, reader) => (.overrun, reader)
    | (.done _, reader) => (.done reader.pending.toList, reader)
  else (.done reader.pending.toList, reader)

theorem decode_until_pending_true {reader after : Reader κ}
    (h : reader.decodeUntilPending = (.done true, after)) :
    after.source.weight < reader.source.weight := by
  fun_induction decodeUntilPending reader with
  | case1 => cases h
  | case2 => cases h
  | case3 => cases h
  | case4 _ _ _ shrinks ih => exact Nat.lt_trans (ih h) shrinks
  | case5 _ _ _ shrinks _ ih => exact Nat.lt_trans (ih h) shrinks
  | case6 _ _ _ shrinks =>
    cases h
    exact shrinks

theorem decode_until_pending_false {reader after : Reader κ}
    (h : reader.decodeUntilPending = (.done false, after)) :
    after.source.weight ≤ reader.source.weight ∧ after.pending.length ≤ reader.pending.length := by
  fun_induction decodeUntilPending reader with
  | case1 => cases h
  | case2 => cases h
  | case3 reader _ hn =>
    cases h
    have weight := advance_weight reader
    rw [hn] at weight
    exact ⟨weight, Nat.le_of_eq (congrArg _ (pending_advance hn nofun))⟩
  | case4 _ _ hn shrinks ih =>
    obtain ⟨weight, length⟩ := ih h
    rw [pending_advance hn nofun] at length
    exact ⟨Nat.le_trans weight (Nat.le_of_lt shrinks), length⟩
  | case5 _ _ _ shrinks empty ih =>
    obtain ⟨weight, length⟩ := ih h
    rw [(ByteQueue.is_empty_iff _).1 empty] at length
    exact ⟨Nat.le_trans weight (Nat.le_of_lt shrinks), Nat.le_trans length (Nat.zero_le _)⟩
  | case6 => cases h

theorem decode_until_pending_failed {reader after : Reader κ} {e : Error}
    (h : reader.decodeUntilPending = (.failed e, after)) :
    after.source.weight ≤ reader.source.weight ∧ after.poisoned = true := by
  fun_induction decodeUntilPending reader with
  | case1 reader _ _ hn =>
    cases h
    have weight := advance_weight reader
    rw [hn] at weight
    exact ⟨weight, rfl⟩
  | case2 => cases h
  | case3 => cases h
  | case4 _ _ _ shrinks ih => exact ⟨Nat.le_trans (ih h).1 (Nat.le_of_lt shrinks), (ih h).2⟩
  | case5 _ _ _ shrinks _ ih => exact ⟨Nat.le_trans (ih h).1 (Nat.le_of_lt shrinks), (ih h).2⟩
  | case6 => cases h

end FramedSnappy.Reader
