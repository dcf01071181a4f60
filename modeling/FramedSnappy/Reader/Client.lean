import FramedSnappy.Reader.Stream

/-! What clients build from single reads: exact reads, reads up to a delimiter, reads to the end of
the stream, and a visit of every block. Interrupted reads are made again by the first two. The
visit hands over whole queues, and a block that was not accepted stays where it is. -/
namespace FramedSnappy

inductive VisitError where
  /-- The visitor did not accept the last block it saw. -/
  | refused (error : Error)
  /-- A frame could not be decoded. -/
  | failed (error : Error)
  deriving DecidableEq

namespace Reader

variable {κ : Type}

/-- One until the first frame fails. -/
def spare (reader : Reader κ) : Nat := if reader.poisoned then 0 else 1

/-- A round of a loop makes the source lighter; or it keeps the source and meets the first failure;
or it keeps both and shortens the queue. -/
abbrev Lighter (after before : Reader κ) : Prop :=
  Prod.Lex (· < ·) (Prod.Lex (· < ·) (· < ·))
    (after.source.weight, after.spare, after.pending.length)
    (before.source.weight, before.spare, before.pending.length)

theorem lighter_of_spare {after before : Reader κ}
    (weight : after.source.weight ≤ before.source.weight) (spare : after.spare < before.spare) :
    after.Lighter before := by
  rcases Nat.lt_or_eq_of_le weight with less | same
  · exact .left _ _ less
  · rw [Lighter, same]
    exact .right _ (.left _ _ spare)

theorem consume_lighter {reader : Reader κ} {count : Nat} (nonzero : 0 < count)
    (within : count ≤ reader.pending.length) : (reader.consume count).Lighter reader := by
  refine .right _ (.right _ ?_)
  simp only [consume, ByteQueue.length_consume (ByteQueue.not_wraps_of_le within)]
  omega

/-- The same without the failure. -/
abbrev Shorter (after before : Reader κ) : Prop :=
  Prod.Lex (· < ·) (· < ·) (after.source.weight, after.pending.length)
    (before.source.weight, before.pending.length)

theorem shorter_of_length {after before : Reader κ}
    (weight : after.source.weight ≤ before.source.weight)
    (length : after.pending.length < before.pending.length) : after.Shorter before := by
  rcases Nat.lt_or_eq_of_le weight with less | same
  · exact .left _ _ less
  · rw [Shorter, same]
    exact .right _ length

theorem serve_length {reader after : Reader κ} {size : Nat} {first : UInt8} {more : Bytes}
    (h : reader.serve size = (first :: more, after)) :
    after.source = reader.source ∧ after.pending.length < reader.pending.length := by
  have taken := ByteQueue.length_take reader.pending size
  have kept := ByteQueue.length_after_take reader.pending size
  simp only [serve, Prod.mk.injEq] at h
  obtain ⟨bytes, rfl⟩ := h
  rw [bytes, List.length_cons] at taken
  refine ⟨rfl, ?_⟩
  dsimp only
  omega

variable [Codec κ]

theorem refill_true {reader after : Reader κ}
    (h : reader.refill = (.done true, after)) :
    after.source.weight < reader.source.weight := by
  unfold refill at h
  split at h
  · cases h
  · exact decode_until_pending_true h

theorem refill_false {reader after : Reader κ}
    (h : reader.refill = (.done false, after)) :
    after.source.weight ≤ reader.source.weight ∧ after.pending.length ≤ reader.pending.length := by
  unfold refill at h
  split at h
  · cases h
  · exact decode_until_pending_false h

/-- A failure that says anything but that the reader has failed before is its first. -/
theorem refill_failed {reader after : Reader κ} {e : Error}
    (h : reader.refill = (.failed e, after)) (other : e ≠ .poisoned) :
    after.source.weight ≤ reader.source.weight ∧ after.spare < reader.spare := by
  unfold refill at h
  split at h
  · cases h
    exact absurd rfl other
  · rename_i fresh
    obtain ⟨weight, poisoned⟩ := decode_until_pending_failed h
    exact ⟨weight, by simp [spare, poisoned, fresh]⟩

theorem not_poisoned_of_interrupted {e : Error} (h : e.toStreamError.interrupted = true) :
    e ≠ .poisoned := by
  rintro rfl
  exact absurd h (by decide)

theorem read_shorter {reader after : Reader κ} {size : Nat} {first : UInt8} {more : Bytes}
    (h : reader.read size = (.done (first :: more), after)) : after.Shorter reader := by
  unfold read at h
  split at h
  · split at h
    · cases h
    · cases h
    · rename_i waiting filled hf
      simp only [Prod.mk.injEq, Outcome.done.injEq] at h
      obtain ⟨source, length⟩ := serve_length (Prod.ext h.1 h.2)
      cases waiting with
      | true =>
        refine .left _ _ ?_
        rw [source]
        exact refill_true hf
      | false =>
        obtain ⟨weight, kept⟩ := refill_false hf
        refine shorter_of_length ?_ (Nat.lt_of_lt_of_le length kept)
        rw [source]
        exact weight
  · simp only [Prod.mk.injEq, Outcome.done.injEq] at h
    obtain ⟨source, length⟩ := serve_length (Prod.ext h.1 h.2)
    exact shorter_of_length (Nat.le_of_eq (congrArg Source.weight source)) length

theorem refill_of_read_failed {reader after : Reader κ} {size : Nat} {e : StreamError}
    (h : reader.read size = (.failed e, after)) :
    reader.pending.length < size ∧
      ∃ why, reader.refill = (.failed why, after) ∧ e = why.toStreamError := by
  unfold read at h
  split at h
  · rename_i short
    split at h
    · rename_i failed
      cases h
      exact ⟨short, _, failed, rfl⟩
    · cases h
    · cases h
  · cases h

theorem refill_of_peek_failed {reader after : Reader κ} {e : StreamError}
    (h : reader.peek = (.failed e, after)) :
    reader.pending.isEmpty = true ∧
      ∃ why, reader.refill = (.failed why, after) ∧ e = why.toStreamError := by
  unfold peek at h
  split at h
  · rename_i dry
    split at h
    · rename_i failed
      cases h
      exact ⟨dry, _, failed, rfl⟩
    · cases h
    · cases h
  · cases h

theorem read_failed {reader after : Reader κ} {size : Nat} {e : StreamError}
    (h : reader.read size = (.failed e, after)) (again : e.interrupted = true) :
    after.spare < reader.spare := by
  obtain ⟨-, why, failed, rfl⟩ := refill_of_read_failed h
  exact (refill_failed failed (not_poisoned_of_interrupted again)).2

theorem peek_failed {reader after : Reader κ} {e : StreamError}
    (h : reader.peek = (.failed e, after)) (again : e.interrupted = true) :
    after.Lighter reader := by
  obtain ⟨-, why, failed, rfl⟩ := refill_of_peek_failed h
  obtain ⟨weight, spare⟩ := refill_failed failed (not_poisoned_of_interrupted again)
  exact lighter_of_spare weight spare

theorem peek_consume_lighter {reader after : Reader κ} {first : UInt8} {more : Bytes}
    {count : Nat} (h : reader.peek = (.done (first :: more), after)) (nonzero : 0 < count)
    (within : count ≤ (first :: more).length) : (after.consume count).Lighter reader := by
  unfold peek at h
  split at h
  · rename_i dry
    split at h
    · cases h
    · cases h
    · rename_i waiting filled hf
      simp only [Prod.mk.injEq, Outcome.done.injEq] at h
      obtain ⟨bytes, rfl⟩ := h
      cases waiting with
      | true =>
        have less := refill_true hf
        exact .left _ _ less
      | false =>
        have kept := (refill_false hf).2
        rw [(ByteQueue.is_empty_iff _).1 dry, ← ByteQueue.length_to_list, bytes] at kept
        exact absurd kept (Nat.not_succ_le_zero _)
  · simp only [Prod.mk.injEq, Outcome.done.injEq] at h
    obtain ⟨bytes, rfl⟩ := h
    refine consume_lighter nonzero ?_
    rwa [← ByteQueue.length_to_list, bytes]

/-- Bytes are added to `got` until none is wanted. What was collected is lost with a failure. -/
def gather (reader : Reader κ) (wanted : Nat) (got : Array UInt8) :
    Outcome StreamError Bytes × Reader κ :=
  if wanted = 0 then (.done got.toList, reader)
  else match h : reader.read wanted with
    | (.failed e, after) =>
      if again : e.interrupted then
        have : after.spare < reader.spare := read_failed h again
        after.gather wanted got
      else (.failed e, after)
    | (.overrun, after) => (.overrun, after)
    | (.done [], after) => (.failed (.fault .shortRead), after)
    | (.done (first :: more), after) =>
      after.gather (wanted - (more.length + 1)) (got ++ first :: more)
termination_by (wanted, reader.spare)

/-- All of `count` bytes; an early end of the stream is a failure. -/
def readExact (reader : Reader κ) (count : Nat) : Outcome StreamError Bytes × Reader κ :=
  reader.gather count #[]

/-- The bytes up to and including the first `delimiter`, or up to the end of the stream; they are
added to `got`, which a failure leaves as far as it has come. -/
def collectUntil (reader : Reader κ) (delimiter : UInt8) (got : Array UInt8) :
    Outcome StreamError Unit × Array UInt8 × Reader κ :=
  match h : reader.peek with
  | (.failed e, after) =>
    if again : e.interrupted then
      have := peek_failed h again
      after.collectUntil delimiter got
    else (.failed e, got, after)
  | (.overrun, after) => (.overrun, got, after)
  | (.done [], after) => (.done (), got, after)
  | (.done (first :: more), after) =>
    let line := Bytes.upTo delimiter (first :: more)
    have := peek_consume_lighter h (Bytes.up_to_nonempty delimiter first more)
      (Bytes.up_to_within delimiter (first :: more))
    let after := after.consume line.1.length
    let got := got ++ line.1
    if line.2 then (.done (), got, after) else after.collectUntil delimiter got
termination_by (reader.source.weight, reader.spare, reader.pending.length)
decreasing_by all_goals exact this

def readUntil (reader : Reader κ) (delimiter : UInt8) :
    Outcome StreamError Unit × Array UInt8 × Reader κ :=
  reader.collectUntil delimiter #[]

structure Collected (κ : Type) where
  ending : Outcome StreamError Unit
  bytes : Array UInt8
  calls : Nat
  reader : Reader κ

/-- Reads until a call hands nothing over or fails. The n-th buffer has `sizes n` bytes. -/
def collectAll (reader : Reader κ) (sizes : Nat → Nat) (got : Array UInt8) (calls : Nat) :
    Collected κ :=
  match h : reader.read (sizes calls) with
  | (.failed e, after) => ⟨.failed e, got, calls + 1, after⟩
  | (.overrun, after) => ⟨.overrun, got, calls + 1, after⟩
  | (.done [], after) => ⟨.done (), got, calls + 1, after⟩
  | (.done (first :: more), after) =>
    have := read_shorter h
    after.collectAll sizes (got ++ first :: more) (calls + 1)
termination_by (reader.source.weight, reader.pending.length)
decreasing_by exact this

def drain (reader : Reader κ) (sizes : Nat → Nat) : Collected κ := reader.collectAll sizes #[] 0

def readAll (reader : Reader κ) (size : Nat) : Collected κ := reader.drain fun _ => size

/-- Decides about a block, given all blocks of the visit so far and this one at their end. -/
abbrev Visitor := Array Bytes → Option Error

def visitRest (reader : Reader κ) (visitor : Visitor) (seen : Array Bytes) :
    Outcome VisitError Unit × Array Bytes × Reader κ :=
  match h : reader.refill with
  | (.failed e, after) => (.failed (.failed e), seen, after)
  | (.overrun, after) => (.overrun, seen, after)
  | (.done false, after) => (.done (), seen, after)
  | (.done true, after) =>
    have : after.source.weight < reader.source.weight := refill_true h
    let seen := seen.push after.pending.toList
    match visitor seen with
    | some e => (.failed (.refused e), seen, after)
    | none => { after with pending := .empty }.visitRest visitor seen
termination_by reader.source.weight

/-- Visits the bytes that wait as one block, and then every block to come that is not empty. -/
def visitBlocks (reader : Reader κ) (visitor : Visitor) :
    Outcome VisitError Unit × Array Bytes × Reader κ :=
  if reader.pending.isEmpty then reader.visitRest visitor #[]
  else
    let seen := #[reader.pending.toList]
    match visitor seen with
    | some e => (.failed (.refused e), seen, reader)
    | none => { reader with pending := .empty }.visitRest visitor seen

end Reader

end FramedSnappy
