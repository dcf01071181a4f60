import FramedSnappy.Proofs.Codec.Scripted
import FramedSnappy.Proofs.Sink.Portions
import FramedSnappy.Proofs.Writer.Operation
import Mathlib.Data.List.Forall2

/-! Writers whose sinks take the same bytes in other portions cannot be told apart. -/
namespace FramedSnappy.Writer

variable {κ : Type}

/-- The writers are the same but for their sinks. -/
inductive Alike (writer : Writer κ) : Writer κ → Prop
  | intro {sink : Sink} : writer.sink.Alike sink → Alike writer { writer with sink }

/-- What can be seen of a step: its answer, what the sink has received, how many blocks have been
written, what has been reported, and how often the sink has been flushed. -/
def observed (step : WriterReply × Writer κ) :
    WriterReply × Array UInt8 × Nat × Array Diagnostic × Nat :=
  (step.1, step.2.sink.received, step.2.blocks, step.2.log, step.2.sink.flushes)

theorem observed_eq {one other : WriterReply × Writer κ} (h : Agree Alike one other) :
    observed one = observed other := by
  cases h with
  | intro answer alike =>
    cases alike with
    | intro sinks => simp only [observed, sinks.received, sinks.flushes]

namespace Alike

variable {writer other : Writer κ}

theorem send (h : writer.Alike other) (data : Bytes) :
    Agree Alike (writer.send data) (other.send data) := by
  cases h with
  | intro sinks =>
    unfold Writer.send
    refine (sinks.write_all data).elim fun answer left right alike => ?_
    cases answer with
    | ok => exact .intro _ (.intro alike)
    | error fault => exact .intro _ (.intro alike)

theorem send_identifier (h : writer.Alike other) :
    Agree Alike writer.sendIdentifier other.sendIdentifier := by
  have known : writer.identified = other.identified := by
    cases h with
    | intro sinks => rfl
  unfold sendIdentifier
  rw [← known]
  split
  · exact .intro _ h
  · refine (h.send Frame.streamIdentifier).elim fun answer left right alike => ?_
    cases answer with
    | error e => exact .intro _ alike
    | ok =>
      cases alike with
      | intro sinks => exact .intro _ (.intro sinks)

theorem send_payload (h : writer.Alike other) (count : Nat) :
    Agree Alike (writer.sendPayload count) (other.sendPayload count) := by
  have same : writer.compressed = other.compressed := by
    cases h with
    | intro sinks => rfl
  unfold sendPayload
  rw [← same]
  split
  · exact .intro _ h
  · rename_i payload _
    refine (h.send payload).elim fun answer left right alike => ?_
    cases answer with
    | error e => exact .intro _ alike
    | ok => exact .intro _ alike

theorem send_frame (h : writer.Alike other) (block : Bytes) (count : Nat) :
    Agree Alike (writer.sendFrame block count) (other.sendFrame block count) := by
  unfold sendFrame
  split
  · exact .intro _ h
  · rename_i header _
    refine (h.send header).elim fun answer left right alike => ?_
    cases answer with
    | error e => exact .intro _ alike
    | ok =>
      dsimp only
      refine (alike.send_payload count).elim fun answer left right alike => ?_
      cases answer with
      | failed e => exact .intro _ alike
      | overrun => exact .intro _ alike
      | done =>
        cases alike with
        | intro sinks => exact .intro _ (.intro sinks)

theorem flush (h : writer.Alike other) : Agree Alike writer.flush other.flush := by
  cases h with
  | intro sinks =>
    unfold Writer.flush
    exact sinks.flush.elim fun answer left right alike => .intro _ (.intro alike)

variable [Codec κ]

theorem compress (h : writer.Alike other) (block : Bytes) :
    Agree Alike (writer.compress block) (other.compress block) := by
  cases h with
  | intro sinks =>
    unfold Writer.compress
    rcases Codec.bound writer.codec block.length with ⟨bound, codec⟩
    dsimp only
    cases writer.compressed.reserve bound with
    | error e => exact .intro _ (.intro sinks)
    | ok scratch =>
      dsimp only
      cases (Codec.compress codec block (scratch.window bound)).count with
      | error e => exact .intro _ (.intro sinks)
      | ok count =>
        dsimp only
        split
        · exact .intro _ (.intro sinks)
        · exact .intro _ (.intro sinks)

theorem send_block (h : writer.Alike other) (block : Bytes) :
    Agree Alike (writer.sendBlock block) (other.sendBlock block) := by
  unfold sendBlock
  refine (h.compress block).elim fun answer left right alike => ?_
  cases answer with
  | error e => exact .intro _ alike
  | ok count =>
    dsimp only
    refine alike.send_identifier.elim fun answer left right alike => ?_
    cases answer with
    | error e => exact .intro _ alike
    | ok => exact alike.send_frame block count

theorem send_blocks (h : writer.Alike other) (blocks : List Bytes) :
    Agree Alike (writer.sendBlocks blocks) (other.sendBlocks blocks) := by
  induction blocks generalizing writer other with
  | nil => exact .intro _ h
  | cons block rest ih =>
    unfold sendBlocks
    refine (h.send_block block).elim fun answer left right alike => ?_
    cases answer with
    | done => exact ih alike
    | failed e => exact .intro _ alike
    | overrun => exact .intro _ alike

theorem write (h : writer.Alike other) (data : Bytes) :
    Agree Alike (writer.write data) (other.write data) := by
  unfold Writer.write writeFrames
  exact (h.send_blocks _).elim fun answer left right alike => .intro _ alike

theorem write_all (h : writer.Alike other) (patience : Nat) (data : Bytes) :
    Agree Alike (writer.writeAll patience data) (other.writeAll patience data) := by
  induction patience generalizing writer other with
  | zero =>
    unfold writeAll
    split
    · exact .intro _ h
    · refine (h.write data).elim fun answer left right alike => ?_
      cases answer <;> exact .intro _ alike
  | succ patience ih =>
    unfold writeAll
    split
    · exact .intro _ h
    · refine (h.write data).elim fun answer left right alike => ?_
      cases answer with
      | done => exact .intro _ alike
      | overrun => exact .intro _ alike
      | failed e =>
        dsimp only
        split
        · exact ih alike
        · exact .intro _ alike

theorem perform (h : writer.Alike other) {operation : WriterOperation}
    (plain : operation.Plain) :
    Agree Alike (writer.perform operation) (other.perform operation) := by
  cases operation with
  | write data =>
    dsimp only [Writer.perform]
    refine (h.write data).elim fun answer left right alike => ?_
    cases answer <;> exact .intro _ alike
  | writeFrames data =>
    dsimp only [Writer.perform, writeFrames]
    refine (h.send_blocks _).elim fun answer left right alike => ?_
    cases answer <;> exact .intro _ alike
  | writeAll data patience =>
    dsimp only [Writer.perform]
    refine (h.write_all patience data).elim fun answer left right alike => ?_
    cases answer <;> exact .intro _ alike
  | flush =>
    dsimp only [Writer.perform]
    refine h.flush.elim fun answer left right alike => ?_
    cases answer <;> exact .intro _ alike
  | raw data => exact plain.elim
  | feed events => exact plain.elim

theorem run (h : writer.Alike other) {operations : List WriterOperation}
    (plain : ∀ operation ∈ operations, operation.Plain) :
    (writer.run operations).map observed = (other.run operations).map observed := by
  induction operations generalizing writer other with
  | nil => rfl
  | cons operation rest ih =>
    rw [run_cons, run_cons]
    have agree := h.perform (plain operation List.mem_cons_self)
    have same := observed_eq agree
    generalize writer.perform operation = one, other.perform operation = two at agree same ⊢
    cases agree with
    | intro answer states =>
      rw [List.map_cons, List.map_cons, same]
      dsimp only
      split
      · rfl
      · rw [ih states fun later mem => plain later (List.mem_cons_of_mem _ mem)]

end Alike

variable [Codec κ]

/-- How many bytes a sink takes in one call and which calls it interrupts cannot be seen in any step
of any run, as long as it is stopped at the same bytes. -/
theorem run_portioned {events others : List SinkEvent} {limit limit' : Option Nat}
    (same : SinkEvent.stops 0 events = SinkEvent.stops 0 others) (fed : limit ≠ some 0)
    (fed_too : limit' ≠ some 0) (flushFaults : List (Option Fault)) (codec : κ)
    {operations : List WriterOperation} (plain : ∀ operation ∈ operations, operation.Plain) :
    ((ofSink (.ofEvents events limit flushFaults) codec).run operations).map observed =
      ((ofSink (.ofEvents others limit' flushFaults) codec).run operations).map observed := by
  have sinks : (Sink.ofEvents events limit flushFaults).Alike
      (.ofEvents others limit' flushFaults) := ⟨fed, fed_too, same, rfl, rfl, rfl⟩
  have start : (ofSink (.ofEvents events limit flushFaults) codec).Alike
      (ofSink (.ofEvents others limit' flushFaults) codec) := .intro sinks
  exact start.run plain

/-- One sink takes a header in two portions with an interruption in between, the other one takes
single bytes. Both fail in the payload, and go on. -/
theorem cut_header_portioned :
    let broken : Fault := ⟨.brokenPipe, "cable pulled"⟩
    let cut : List SinkEvent :=
      [.accept 12, .fail ⟨.interrupted, ""⟩, .accept 0, .accept 7, .fail broken, .accept 5]
    let whole : List SinkEvent := [.accept 19, .fail broken]
    let operations : List WriterOperation := [.write [0x61, 0x62], .flush, .writeAll [0x63]]
    let one := ofSink (.ofEvents cut none [some broken]) Codec.Scripted.honest
    let other := ofSink (.ofEvents whole (some 1) [some broken]) Codec.Scripted.honest
    (one.run operations).map observed = (other.run operations).map observed := by
  intro broken cut whole operations one other
  have same : SinkEvent.stops 0 cut = SinkEvent.stops 0 whole := by decide
  have fed : (none : Option Nat) ≠ some 0 := nofun
  have fed_too : some 1 ≠ some 0 := by decide
  have plain : ∀ operation ∈ operations, operation.Plain := by
    simp [operations, WriterOperation.Plain]
  exact run_portioned same fed fed_too [some broken] Codec.Scripted.honest plain

end FramedSnappy.Writer
