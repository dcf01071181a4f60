import FramedSnappy.Proofs.Reader.Lockstep
import FramedSnappy.Proofs.Reader.Queue
import FramedSnappy.Proofs.Writer.Operation

/-! Bounds for everything that a reader or a writer stores, whatever its source or its sink, its
codec and its caller do, unless the caller makes the cursor of the queue wrap. The limits of a
reader's scratch buffers are never met: with larger ones it would do the same. -/
namespace FramedSnappy

namespace Scratch

/-- The same bytes, at most `most` of them, under two limits that allow as many. -/
structure Raised (most : Nat) (scratch other : Scratch) : Prop where
  data : scratch.data = other.data
  length : scratch.data.length ≤ most
  limit : most ≤ scratch.limit
  limit_too : most ≤ other.limit

end Scratch

namespace Reader

variable {κ : Type}

def limitsRaised : Likeness :=
  ⟨(· = ·), Scratch.Raised Frame.dataLimit, Scratch.Raised Frame.blockLimit, (· = ·)⟩

theorem Like.stored {reader other : Reader κ} (h : reader.Like limitsRaised other) :
    reader.body.data.length ≤ Frame.dataLimit ∧
      reader.decoded.data.length ≤ Frame.blockLimit := by
  cases h with
  | intro sources policies bodies decodeds => exact ⟨bodies.length, decodeds.length⟩

variable [Codec κ]

end Reader

namespace Writer

variable {κ : Type}

/-- The scratch buffer keeps its limit and keeps to it. -/
structure Compact (writer : Writer κ) : Prop where
  limit : writer.compressed.limit = Frame.compressedLimit
  length : writer.compressed.data.length ≤ Frame.compressedLimit

theorem compact_of_sink (sink : Sink) (codec : κ) : (ofSink sink codec).Compact :=
  ⟨rfl, Nat.zero_le _⟩

variable {writer : Writer κ}

theorem Compact.of_eq (h : writer.Compact) {after : Writer κ}
    (same : after.compressed = writer.compressed) : after.Compact :=
  ⟨same ▸ h.limit, same ▸ h.length⟩

theorem send_compressed (writer : Writer κ) (data : Bytes) :
    (writer.send data).2.compressed = writer.compressed := by
  unfold send
  rcases writer.sink.writeAll data with ⟨_ | _, sink⟩ <;> rfl

theorem send_identifier_compressed (writer : Writer κ) :
    writer.sendIdentifier.2.compressed = writer.compressed := by
  have sent := send_compressed writer Frame.streamIdentifier
  unfold sendIdentifier
  split
  · rfl
  · generalize writer.send Frame.streamIdentifier = result at sent ⊢
    rcases result with ⟨_ | _, after⟩ <;> exact sent

theorem send_payload_compressed (writer : Writer κ) (count : Nat) :
    (writer.sendPayload count).2.compressed = writer.compressed := by
  unfold sendPayload
  split
  · rfl
  · rename_i payload _
    have sent := send_compressed writer payload
    generalize writer.send payload = result at sent ⊢
    rcases result with ⟨_ | _, after⟩ <;> exact sent

theorem send_frame_compressed (writer : Writer κ) (block : Bytes) (count : Nat) :
    (writer.sendFrame block count).2.compressed = writer.compressed := by
  unfold sendFrame
  split
  · rfl
  · rename_i header _
    have sent := send_compressed writer header
    generalize writer.send header = result at sent ⊢
    rcases result with ⟨_ | _, after⟩
    · exact sent
    · have followed := send_payload_compressed after count
      dsimp only
      generalize after.sendPayload count = result at followed ⊢
      rcases result with ⟨_ | _ | _, last⟩ <;> exact followed.trans sent

variable [Codec κ]

theorem Compact.compress (h : writer.Compact) (block : Bytes) :
    (writer.compress block).2.Compact := by
  have limit := h.limit
  have length := h.length
  unfold Writer.compress
  rcases Codec.bound writer.codec block.length with ⟨bound, codec⟩
  dsimp only
  by_cases small : bound ≤ writer.compressed.limit
  · obtain ⟨grown, reserved, same, room⟩ : ∃ grown, writer.compressed.reserve bound = .ok grown ∧
        grown.limit = Frame.compressedLimit ∧ grown.data.length ≤ Frame.compressedLimit := by
      refine ⟨_, Scratch.reserve_eq small, limit, ?_⟩
      simp only [List.length_append, List.length_replicate]
      omega
    have stored (codec : κ) (written : Bytes) :
        ({ writer with codec, compressed := grown.store bound written } : Writer κ).Compact :=
      ⟨same, Nat.le_trans (Nat.le_of_eq (Scratch.length_store ..)) room⟩
    rw [reserved]
    dsimp only
    cases (Codec.compress codec block (grown.window bound)).count with
    | error e => exact stored _ _
    | ok count =>
      dsimp only
      split
      · exact stored _ _
      · exact stored _ _
  · have refused : writer.compressed.reserve bound =
        .error (.blockTooLarge bound writer.compressed.limit) := if_pos (Nat.not_le.mp small)
    rw [refused]
    exact ⟨limit, length⟩

theorem Compact.send_block (h : writer.Compact) (block : Bytes) :
    (writer.sendBlock block).2.Compact := by
  have packed := h.compress block
  unfold sendBlock
  generalize writer.compress block = result at packed ⊢
  rcases result with ⟨_ | count, after⟩
  · exact packed
  · have opened := packed.of_eq (send_identifier_compressed after)
    dsimp only
    generalize after.sendIdentifier = result at opened ⊢
    rcases result with ⟨_ | _, last⟩
    · exact opened
    · exact opened.of_eq (send_frame_compressed last block count)

theorem Compact.send_blocks (h : writer.Compact) (blocks : List Bytes) :
    (writer.sendBlocks blocks).2.Compact := by
  induction blocks generalizing writer with
  | nil => exact h
  | cons block rest ih =>
    have sent := h.send_block block
    unfold sendBlocks
    generalize writer.sendBlock block = result at sent ⊢
    rcases result with ⟨_ | _ | _, after⟩
    · exact ih sent
    · exact sent
    · exact sent

theorem Compact.write (h : writer.Compact) (data : Bytes) : (writer.write data).2.Compact :=
  h.send_blocks _

theorem Compact.write_all (h : writer.Compact) (patience : Nat) (data : Bytes) :
    (writer.writeAll patience data).2.Compact := by
  revert h
  refine write_all_elim ?_ ?_ patience writer
  · intro writer h
    exact h.write data
  · intro writer middle e result failed _ rest h
    have wrote := h.write data
    rw [failed] at wrote
    exact rest wrote

theorem Compact.perform (h : writer.Compact) (operation : WriterOperation) :
    (writer.perform operation).2.Compact := by
  cases operation with
  | write data =>
    have wrote := h.write data
    simp only [Writer.perform]
    generalize writer.write data = result at wrote ⊢
    rcases result with ⟨_ | _ | _, after⟩ <;> exact wrote
  | writeFrames data =>
    have wrote : (writer.writeFrames data).2.Compact := h.send_blocks _
    simp only [Writer.perform]
    generalize writer.writeFrames data = result at wrote ⊢
    rcases result with ⟨_ | _ | _, after⟩ <;> exact wrote
  | writeAll data patience =>
    have wrote := h.write_all patience data
    simp only [Writer.perform]
    generalize writer.writeAll patience data = result at wrote ⊢
    rcases result with ⟨_ | _ | _, after⟩ <;> exact wrote
  | flush =>
    simp only [Writer.perform, Writer.flush]
    rcases writer.sink.flush with ⟨_ | _, sink⟩
    · exact ⟨h.limit, h.length⟩
    · exact ⟨h.limit, h.length⟩
  | raw data => exact ⟨h.limit, h.length⟩
  | feed events => exact ⟨h.limit, h.length⟩

theorem Compact.perform_all (h : writer.Compact) (operations : List WriterOperation) :
    (writer.performAll operations).Compact := by
  induction operations generalizing writer with
  | nil => exact h
  | cons operation rest ih => exact ih (h.perform operation)

end Writer

end FramedSnappy
