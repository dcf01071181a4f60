import FramedSnappy.Proofs.Diagnostic
import FramedSnappy.Proofs.Sink.Bytewise
import FramedSnappy.Proofs.Writer.Window

/-! The log of a writer tells of the identifier and of every frame once all of their bytes are out.
As long as no operation fails, nothing else is in the sink. -/
namespace FramedSnappy

/-- What an operation adds to the sink past the writer. -/
def WriterOperation.past : WriterOperation → Bytes
  | raw data => data
  | _ => []

namespace Writer

open Diagnostic (framedBytes isWrittenFrame total)

variable {κ : Type} {writer middle after : Writer κ} {data : Bytes} {e : Error}

/-- What holds of the log in every state of a writer. -/
structure Tally (writer : Writer κ) : Prop where
  heralded : Heralded .wroteStreamIdentifier (isWrittenFrame · = true) writer.log.toList
  known : .wroteStreamIdentifier ∈ writer.log.toList ↔ writer.identified = true
  counted : writer.log.toList.countP isWrittenFrame = writer.blocks

/-- The bytes that the log stands for. -/
def volume (writer : Writer κ) : Nat :=
  (if writer.identified then Frame.streamIdentifier.length else 0) +
    total framedBytes writer.log.toList

/-- From one state to another, the sink has got what the log has come to tell of, and `count` bytes
past the writer. -/
def Balances (writer : Writer κ) (count : Nat) (after : Writer κ) : Prop :=
  after.sink.received.size + writer.volume = writer.sink.received.size + count + after.volume

namespace Balances

theorem refl (writer : Writer κ) : writer.Balances 0 writer := rfl

theorem trans {count more : Nat} (first : writer.Balances count middle)
    (second : middle.Balances more after) : writer.Balances (count + more) after := by
  unfold Balances at *
  omega

end Balances

section Sending

theorem send_ok (h : writer.send data = (.ok (), after)) :
    ∃ sink, after = { writer with sink } ∧
      sink.received.size = writer.sink.received.size + data.length := by
  unfold send at h
  rcases wrote : writer.sink.writeAll data with ⟨_ | _, sink⟩
  · rw [wrote] at h
    cases h
  · rw [wrote] at h
    cases h
    have received := congrArg List.length (Sink.write_all_received wrote)
    rw [List.length_append, Array.length_toList, Array.length_toList] at received
    exact ⟨sink, rfl, received⟩

theorem send_identifier_ok (h : writer.sendIdentifier = (.ok (), after)) :
    writer.identified = true ∧ after = writer ∨
    writer.identified = false ∧ ∃ sink,
      after = { writer with sink, identified := true }.report .wroteStreamIdentifier ∧
      sink.received.size = writer.sink.received.size + Frame.streamIdentifier.length := by
  unfold sendIdentifier at h
  split at h
  · rename_i known
    cases h
    exact .inl ⟨known, rfl⟩
  · rename_i new
    split at h
    · cases h
    · rename_i sent
      obtain ⟨sink, rfl, received⟩ := send_ok sent
      cases h
      exact .inr ⟨Bool.eq_false_iff.mpr new, sink, rfl, received⟩

/-- The call has gone through, or it has been interrupted. -/
def Orderly : Outcome StreamError Unit → Prop
  | .done () => True
  | .failed e => e.interrupted = true
  | .overrun => False

/-- How sending the frame of a block ends. An event tells of the whole frame, and there is none for
a part of it. -/
inductive Posts (writer : Writer κ) (block : Bytes) (count : Nat) :
    Outcome Error Unit × Writer κ → Prop
  | whole {sink : Sink} : sink.received.size = writer.sink.received.size + (8 + count) →
      Posts writer block count
        (.done (), { writer with sink, blocks := writer.blocks + 1 }.report
          (.wroteCompressedFrame block.length count))
  | torn {result : Outcome Error Unit} {sink : Sink} :
      ¬ Orderly (result.mapError Error.toStreamError) →
      Posts writer block count (result, { writer with sink })

end Sending

/-- What a call has to do with the log: it keeps the log in step with the writer, and with the sink
as well unless a frame has been torn. -/
structure Enters (writer : Writer κ) (result : Outcome Error Unit × Writer κ) : Prop where
  tally : writer.Tally → result.2.Tally
  balances : Orderly (result.1.mapError Error.toStreamError) → writer.Balances 0 result.2

namespace Enters

variable {result : Outcome Error Unit × Writer κ}

theorem nothing (writer : Writer κ) : writer.Enters (.done (), writer) := ⟨id, fun _ => .refl writer⟩

theorem trans (first : writer.Enters (.done (), middle)) (second : middle.Enters result) :
    writer.Enters result :=
  ⟨fun start => second.tally (first.tally start),
    fun orderly => (first.balances trivial).trans (second.balances orderly)⟩

theorem compressed (writer : Writer κ) (outcome : Outcome Error Unit) (codec : κ)
    (compressed : Scratch) : writer.Enters (outcome, { writer with codec, compressed }) :=
  ⟨fun start => ⟨start.heralded, start.known, start.counted⟩, fun _ => rfl⟩

theorem torn {outcome : Outcome Error Unit} {sink : Sink}
    (stopped : ¬ Orderly (outcome.mapError Error.toStreamError)) :
    writer.Enters (outcome, { writer with sink }) :=
  ⟨fun start => ⟨start.heralded, start.known, start.counted⟩, fun orderly => absurd orderly stopped⟩

theorem identifier (h : writer.sendIdentifier = (.ok (), after)) :
    after.identified = true ∧ writer.Enters (.done (), after) := by
  obtain ⟨known, rfl⟩ | ⟨new, sink, rfl, received⟩ := send_identifier_ok h
  · exact ⟨known, .nothing after⟩
  · refine ⟨rfl, fun start => ⟨?_, ?_, ?_⟩, fun _ => ?_⟩
    · simp only [report, Array.toList_push]
      exact start.heralded.push (fun _ => mt start.known.mp (Bool.eq_false_iff.mp new))
        Bool.noConfusion
    · simp [report]
    · simp [report, start.counted, isWrittenFrame]
    · simp only [Balances, volume, report, new, received, Array.toList_push,
        Diagnostic.total_append, Diagnostic.total_singleton, framedBytes, Bool.false_eq_true,
        if_true, if_false]
      omega

theorem frame (known : writer.identified = true) {block : Bytes} {count : Nat}
    (h : writer.Posts block count result) : writer.Enters result := by
  cases h with
  | torn stopped => exact .torn stopped
  | whole received =>
    refine ⟨fun start => ⟨?_, ?_, ?_⟩, fun _ => ?_⟩
    · simp only [report, Array.toList_push]
      exact start.heralded.push Diagnostic.noConfusion fun _ => start.known.mpr known
    · simpa [report] using start.known
    · simp [report, start.counted, isWrittenFrame]
    · simp only [Balances, volume, report, known, received, Array.toList_push,
        Diagnostic.total_append, Diagnostic.total_singleton, framedBytes, if_true]
      omega

end Enters

variable [Codec κ]

end Writer

end FramedSnappy
