import FramedSnappy.Proofs.Reader.Recording
import FramedSnappy.Proofs.Reader.Serving
import FramedSnappy.Proofs.Reader.Turns

/-! Every byte of which the log says that it has been decoded has been handed over or still waits, once
as long as the cursor of the queue does not wrap. -/
namespace FramedSnappy.Reader

open FramedSnappy.Frame (Parsed)
open Diagnostic (decodedBytes total)

variable {κ : Type} {reader middle after : Reader κ} {count : Nat}

/-- From one state to another, the queue has grown by what the log has come to tell of, and has
shrunk by `count`. -/
def Settles (reader : Reader κ) (count : Nat) (after : Reader κ) : Prop :=
  total decodedBytes reader.log.toList + count + after.pending.length =
    total decodedBytes after.log.toList + reader.pending.length

namespace Settles

theorem refl (reader : Reader κ) : reader.Settles 0 reader := rfl

theorem trans {more : Nat} (first : reader.Settles count middle)
    (second : middle.Settles more after) : reader.Settles (count + more) after := by
  unfold Settles at *
  omega

/-- Nothing has been handed over in the first part. -/
theorem still (first : reader.Settles 0 middle) (second : middle.Settles count after) :
    reader.Settles count after := by
  simpa using first.trans second

theorem of_queue {queue : ByteQueue} (h : count + queue.length = reader.pending.length) :
    reader.Settles count { reader with pending := queue } := by
  rw [Settles, Nat.add_assoc, h]

theorem consume (exact : ¬ reader.pending.Wraps count) :
    reader.Settles (reader.pending.toList.take count).length (reader.consume count) := by
  refine of_queue ?_
  rw [List.length_take, ByteQueue.length_to_list, ByteQueue.length_consume exact]
  omega

theorem serve (reader : Reader κ) (size : Nat) :
    reader.Settles (reader.serve size).1.length (reader.serve size).2 := by
  refine of_queue ?_
  have taken := ByteQueue.length_take reader.pending size
  have kept := ByteQueue.length_after_take reader.pending size
  simp only [Reader.serve]
  omega

theorem empty (reader : Reader κ) :
    reader.Settles reader.pending.toList.length { reader with pending := .empty } := by
  refine of_queue ?_
  rw [ByteQueue.length_to_list]
  rfl

end Settles

variable [Codec κ]

section Refill

variable {frames : List Parsed} {content : Bytes}

theorem Fetches.payload {result : Outcome Error Bool × Reader κ}
    (h : Fetches reader frames content result) : Frame.payload frames = content := by
  cases h with
  | filled _ idle _ carries _ =>
    simp [Frame.payload_append, payload_idle idle, Parsed.data, carries]
  | ended _ idle _ => exact payload_idle idle
  | broken _ idle _ => exact payload_idle idle
  | overrun _ idle _ => exact payload_idle idle

theorem Alarms.weightless {stand : Reader κ} {e : Error} {loud : List Diagnostic}
    (h : stand.Alarms e loud) : total decodedBytes loud = 0 := by
  obtain ⟨-, rfl⟩ | ⟨-, event, rfl, level⟩ := h
  · rfl
  · cases event <;> first | rfl | cases level

/-- A refill reports its frames, and behind them at most an event that stands for no bytes. -/
theorem Fetches.log {result : Outcome Error Bool × Reader κ} (fit : reader.Fit)
    (h : Fetches reader frames content result) (inside : result.1 ≠ .overrun) :
    ∃ loud, total decodedBytes loud = 0 ∧ result.2.log.toList =
      reader.log.toList ++ Frame.diagnostics reader.identified frames ++ loud := by
  cases h with
  | filled advances _ passes _ _ =>
    exact ⟨[], rfl, by rw [(advances.on passes).log, List.append_nil]⟩
  | ended advances _ told =>
    exact ⟨[], rfl, by rw [advance_ended_log told, advances.log, List.append_nil]⟩
  | broken advances _ told =>
    obtain ⟨loud, log, alarms⟩ := advance_alarms (advances.reaches.fit fit) told
    exact ⟨loud, alarms.weightless, by rw [← advances.log]; exact log⟩
  | overrun => exact absurd rfl inside

end Refill

section Client

/-- What an exact read takes from the queue, whether or not it gets all that is wanted. -/
def gathered (reader : Reader κ) (wanted : Nat) : Bytes :=
  if wanted = 0 then []
  else match h : reader.read wanted with
    | (.failed e, after) =>
      if again : e.interrupted then
        have : after.spare < reader.spare := read_failed h again
        after.gathered wanted
      else []
    | (.overrun, _) => []
    | (.done [], _) => []
    | (.done (first :: more), after) =>
      first :: more ++ after.gathered (wanted - (more.length + 1))
termination_by (wanted, reader.spare)

end Client

section Operations

/-- What an operation takes from the queue for its caller. An exact read that fails does not reply
with what it has come to take. -/
def delivers (reader : Reader κ) : ReaderOperation → Bytes
  | .readExact count => reader.gathered count
  | operation => reader.taken operation

end Operations

end FramedSnappy.Reader
