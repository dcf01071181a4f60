import FramedSnappy.Proofs.Frame.Stream
import FramedSnappy.Proofs.Writer.Sending

/-! What a sink holds: the identifier, once it has been sent, the frame of every block, and then
perhaps the front of one more item that a failure has cut short. -/
namespace FramedSnappy

namespace Frame

/-- The two kinds of frames a writer sends. -/
inductive Written (form : Bytes → Bytes) : Parsed → Prop
  | identifier {frame : Frame} : frame.bytes = streamIdentifier → Written form ⟨frame, none⟩
  | block {frame : Frame} {block : Bytes} : frame.bytes = packed form block → Codec.Piece block →
      (form block).length ≤ compressedLimit → Written form ⟨frame, some block⟩

theorem exists_identifier : ∃ frame : Frame, frame.bytes = streamIdentifier :=
  ⟨⟨0xff, identifierBody, by decide⟩, by decide⟩

theorem exists_packed {form : Bytes → Bytes} {block : Bytes}
    (fits : (form block).length ≤ compressedLimit) :
    ∃ frame : Frame, frame.bytes = packed form block := by
  have length :
      (Bytes.littleEndian checksumSize (Checksum.masked block).toNat ++ form block).length =
        dataLength (form block).length := by
    rw [List.length_append, Bytes.length_little_endian, Nat.add_comm, data_length_exact fits]
  have small := Nat.le_trans (data_length_le fits) data_limit_le
  refine ⟨⟨0x00, _, length ▸ small⟩, ?_⟩
  simp only [bytes, packed, around, front, length, List.cons_append, List.append_assoc]

theorem exists_written {form : Bytes → Bytes} {blocks : List Bytes}
    (pieces : ∀ block ∈ blocks, Codec.Piece block)
    (fits : ∀ block, Codec.Piece block → (form block).length ≤ compressedLimit) :
    ∃ frames, blocks.flatMap (packed form) = wire frames ∧ Frame.blocks frames = blocks ∧
      ∀ parsed ∈ frames, Written form parsed := by
  induction blocks with
  | nil => exact ⟨[], rfl, rfl, nofun⟩
  | cons block rest ih =>
    have piece := pieces block List.mem_cons_self
    obtain ⟨frames, wire, same, written⟩ :=
      ih fun other mem => pieces other (List.mem_cons_of_mem _ mem)
    obtain ⟨frame, bytes⟩ := exists_packed (fits block piece)
    refine ⟨⟨frame, some block⟩ :: frames, ?_, ?_, ?_⟩
    · rw [List.flatMap_cons, wire, wire_cons, bytes]
    · rw [blocks_cons, same]
      exact if_neg piece.1
    · intro parsed mem
      rcases List.mem_cons.mp mem with rfl | later
      · exact .block bytes piece (fits block piece)
      · exact written parsed later

end Frame

namespace Writer

variable {κ : Type} {form : Bytes → Bytes} {blocks more : List Bytes} {writer after : Writer κ}

/-- The frames of `blocks` and then `tail`. -/
structure Holds (form : Bytes → Bytes) (blocks : List Bytes) (tail : Bytes) (writer : Writer κ) :
    Prop where
  pieces : ∀ block ∈ blocks, Codec.Piece block
  opened : blocks ≠ [] → writer.identified = true
  received : writer.sink.received.toList =
    (if writer.identified then Frame.streamIdentifier else []) ++
      blocks.flatMap (Frame.packed form) ++ tail

/-- No item has been left half written. -/
def Whole (form : Bytes → Bytes) (blocks : List Bytes) (writer : Writer κ) : Prop :=
  writer.Holds form blocks []

theorem whole_of_fresh {sink : Sink} (fresh : sink.received = #[]) (codec : κ) :
    (ofSink sink codec).Whole form [] :=
  ⟨nofun, (absurd rfl ·), by simp [ofSink, fresh]⟩

theorem Holds.no_blocks {tail : Bytes} (h : writer.Holds form blocks tail)
    (new : writer.identified = false) : blocks = [] :=
  Decidable.byContradiction fun some => Bool.eq_false_iff.mp new (h.opened some)

theorem Whole.received_due (h : writer.Whole form blocks) :
    writer.sink.received.toList ++ writer.due =
      Frame.streamIdentifier ++ blocks.flatMap (Frame.packed form) := by
  rw [h.received, List.append_nil]
  cases known : writer.identified with
  | true => simp [due_known known]
  | false => simp [due_new known, h.no_blocks known]

theorem Whole.delivers (h : writer.Whole form blocks) (pieces : ∀ block ∈ more, Codec.Piece block)
    (known : after.identified = true ↔ writer.identified = true ∨ more ≠ [])
    (delivers : writer.Delivers (writer.stream form more) after) :
    after.Whole form (blocks ++ more) := by
  by_cases filled : more = []
  · have same : after.identified = writer.identified :=
      Bool.eq_iff_iff.mpr (known.trans (by simp [filled]))
    have received := delivers.received
    rw [filled, stream_nil, List.append_nil] at received
    rw [filled, List.append_nil]
    exact ⟨h.pieces, same ▸ h.opened, received.trans (same ▸ h.received)⟩
  · have identified := known.mpr (.inr filled)
    refine ⟨?_, fun _ => identified, ?_⟩
    · intro block mem
      exact (List.mem_append.mp mem).elim (h.pieces block) (pieces block)
    · rw [delivers.received, stream_some filled, ← List.append_assoc, h.received_due,
        identified]
      simp

/-- The front of a list of items is some of them and perhaps the front of one more. -/
theorem flat_map_cut {form : Bytes → Bytes} {blocks : List Bytes} {taken left : Bytes}
    (split : blocks.flatMap form = taken ++ left) :
    ∃ sent rest torn, blocks = sent ++ rest ∧ taken = sent.flatMap form ++ torn ∧
      (torn = [] ∨ ∃ block ∈ blocks, torn <+: form block ∧ torn ≠ form block) := by
  induction blocks generalizing taken with
  | nil =>
    obtain ⟨rfl, rfl⟩ := List.append_eq_nil_iff.mp split.symm
    exact ⟨[], [], [], rfl, rfl, .inl rfl⟩
  | cons block rest ih =>
    rw [List.flatMap_cons] at split
    rcases List.append_eq_append_iff.mp split with ⟨behind, rfl, more⟩ | ⟨missing, whole, -⟩
    · obtain ⟨sent, unsent, torn, rfl, rfl, cut⟩ := ih more
      refine ⟨block :: sent, unsent, torn, rfl, (List.append_assoc _ _ _).symm, cut.imp_right ?_⟩
      rintro ⟨other, mem, front⟩
      exact ⟨other, List.mem_cons_of_mem _ mem, front⟩
    · by_cases complete : taken = form block
      · exact ⟨[block], rest, [], rfl, by simp [complete], .inl rfl⟩
      · exact ⟨[], block :: rest, taken, rfl, rfl,
          .inr ⟨block, List.mem_cons_self, ⟨missing, whole.symm⟩, complete⟩⟩

theorem Whole.tears_frame (h : writer.Whole form blocks)
    (pieces : ∀ block ∈ more, Codec.Piece block)
    (fits : ∀ block, Codec.Piece block → (form block).length ≤ Frame.compressedLimit)
    (identified : after.identified = true) {taken left : Bytes}
    (split : more.flatMap (Frame.packed form) = taken ++ left)
    (received : after.sink.received.toList =
      writer.sink.received.toList ++ (writer.due ++ taken)) :
    ∃ sent torn, after.Holds form sent torn ∧
      (torn = [] ∨ ∃ frame : Frame, torn <+: frame.bytes ∧ torn ≠ frame.bytes) := by
  obtain ⟨sent, rest, torn, rfl, rfl, cut⟩ := flat_map_cut split
  refine ⟨blocks ++ sent, torn, ⟨?_, fun _ => identified, ?_⟩, cut.imp_right ?_⟩
  · intro block mem
    rcases List.mem_append.mp mem with early | late
    · exact h.pieces block early
    · exact pieces block (List.mem_append_left _ late)
  · rw [received, ← List.append_assoc, h.received_due, identified]
    simp
  · rintro ⟨block, mem, front, incomplete⟩
    obtain ⟨frame, bytes⟩ := Frame.exists_packed (fits block (pieces block mem))
    exact ⟨frame, bytes ▸ front, bytes ▸ incomplete⟩

/-- A failure leaves whole items and perhaps one that is cut short. -/
theorem Whole.tears (h : writer.Whole form blocks) (pieces : ∀ block ∈ more, Codec.Piece block)
    (fits : ∀ block, Codec.Piece block → (form block).length ≤ Frame.compressedLimit)
    (tears : writer.Tears (writer.stream form more) after) :
    ∃ sent torn, after.Holds form sent torn ∧
      (torn = [] ∨ ∃ frame : Frame, torn <+: frame.bytes ∧ torn ≠ frame.bytes) := by
  obtain ⟨taken, left, split, some, received, known⟩ := tears.received
  by_cases opened : writer.due <+: taken
  · have filled : more ≠ [] := by
      rintro rfl
      exact some (List.append_eq_nil_iff.mp split.symm).2
    have identified := known.mpr opened
    obtain ⟨behind, rfl⟩ := opened
    rw [stream_some filled, List.append_assoc] at split
    exact h.tears_frame pieces fits identified (List.append_cancel_left split) received
  · have late : after.identified = false := Bool.eq_false_iff.mpr (mt known.mp opened)
    have early : writer.identified = false :=
      Bool.eq_false_iff.mpr fun known => opened (due_known known ▸ List.nil_prefix)
    rw [due_new early] at opened
    obtain ⟨front, short⟩ := stream_cut early split opened
    obtain ⟨frame, bytes⟩ := Frame.exists_identifier
    refine ⟨[], taken, ⟨?_, (absurd rfl ·), ?_⟩, .inr ⟨frame, bytes ▸ front, ?_⟩⟩
    · exact fun _ mem => absurd mem List.not_mem_nil
    · rw [received, h.received, early, late, h.no_blocks early]
      rfl
    · rintro rfl
      exact Nat.lt_irrefl _ (bytes ▸ short)

theorem Holds.frames {tail : Bytes} (h : writer.Holds form blocks tail)
    (fits : ∀ block, Codec.Piece block → (form block).length ≤ Frame.compressedLimit) :
    ∃ frames, writer.sink.received.toList = Frame.wire frames ++ tail ∧
      Frame.blocks frames = blocks ∧ (∀ parsed ∈ frames, Frame.Written form parsed) ∧
      (∀ parsed ∈ frames.head?, parsed.frame.tag = 0xff) := by
  obtain ⟨frames, wire, same, written⟩ := Frame.exists_written h.pieces fits
  have received := h.received
  cases known : writer.identified with
  | false =>
    rw [known] at received
    obtain rfl := h.no_blocks known
    exact ⟨[], by simpa using received, rfl, nofun, nofun⟩
  | true =>
    rw [known] at received
    obtain ⟨frame, bytes⟩ := Frame.exists_identifier
    refine ⟨⟨frame, none⟩ :: frames, ?_, ?_, ?_, ?_⟩
    · rw [received, wire, Frame.wire_cons, bytes]
      rfl
    · rw [Frame.blocks_cons, same]
      exact if_pos rfl
    · intro parsed mem
      rcases List.mem_cons.mp mem with rfl | later
      · exact .identifier bytes
      · exact written parsed later
    · intro parsed mem
      cases mem
      exact (List.cons.inj bytes).1

end Writer

end FramedSnappy
