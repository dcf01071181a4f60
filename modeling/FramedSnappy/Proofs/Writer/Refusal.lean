import FramedSnappy.Proofs.Codec.Scripted
import FramedSnappy.Proofs.Writer.Storing

/-! A block that its codec refuses is refused before anything of it is sent. So no failure but the
sink's own leaves an item half written, and nothing is lost by going on after one. -/
namespace FramedSnappy

open FramedSnappy.Codec (Packing Attempt)

/-- What stands in front of the payload is the header that `Frame.dataHeader` makes for it, and
reading it gives a length within the limits. -/
structure Codec.Packing.Framed (packing : Packing) : Prop where
  header : ∃ header, packing.frame = header ++ packing.payload ∧
    Frame.dataHeader .compressed (Checksum.masked packing.block) packing.payload.length =
      .ok header
  length : ∃ length,
    Frame.Header.decode (packing.frame.take Frame.headerSize) = some ⟨.compressed, length⟩ ∧
    length = packing.payload.length + Frame.checksumSize ∧
    Frame.checksumSize ≤ length ∧ length ≤ Frame.dataLimit

theorem Frame.Carried.framed {packing : Packing} (carried : Frame.Carried packing) :
    packing.Framed := by
  have exact := Frame.data_length_exact carried.small
  have most := Frame.data_length_le carried.small
  constructor
  · exact ⟨_, rfl, Frame.data_header_front most _⟩
  · refine ⟨_, ?_, exact, exact ▸ Nat.le_add_left _ _, most⟩
    rw [Codec.Packing.frame, Frame.around, Frame.front, List.append_assoc,
      List.take_left' (by simp [Frame.headerSize])]
    exact Frame.Header.decode_written 0x00 (Nat.le_trans most Frame.data_limit_le)

namespace Writer

variable {κ lam : Type} [Codec κ] [Codec lam] {writer : Writer κ} {packings : List Packing}

theorem Stores.encodes (h : writer.Stores packings) (bounded : Codec.Bounded writer.codec)
    {block : Bytes} (piece : Codec.Piece block) {size : Nat} {after : Writer κ}
    (packed : writer.compress block = (.ok size, after)) :
    ∃ header, Frame.dataHeader .compressed (Checksum.masked block) size = .ok header := by
  have prepares := compress_prepares h.fit bounded piece
  rw [packed] at prepares
  cases prepares with
  | packed answers _ _ => exact ⟨_, Frame.data_header_front (Frame.data_length_le answers.fits) _⟩

theorem Stores.usable (h : writer.Stores packings) {form : Bytes → Bytes}
    (promise : Codec.Packs writer.codec form) {operation : WriterOperation}
    (call : operation.Call) : (writer.perform operation).1 = operation.success := by
  obtain ⟨last, after, performed, serves⟩ := h.call promise.bounded call
  obtain ⟨whole, -⟩ := serves.packs promise fun _ => Bytes.mem_pieces
  rw [performed, whole]
  rfl

/-- One attempt for every call, and at every point of the history the sink holds what has been
packed by then. -/
theorem Stores.perform_calls (h : writer.Stores packings) (bounded : Codec.Bounded writer.codec)
    {history : List WriterOperation} (calls : ∀ operation ∈ history, operation.Call) :
    ∃ attempts : List Attempt,
      (writer.run history).map (·.1) =
        List.zipWith WriterOperation.reply history (attempts.map (·.refusal)) ∧
      attempts.map (·.blocks) = history.map (·.blocks) ∧
      ∀ count,
        Codec.Course writer.codec (attempts.take count)
          (writer.performAll (history.take count)).codec ∧
        (writer.performAll (history.take count)).Stores
          (packings ++ (attempts.take count).flatMap (·.packings)) := by
  induction history generalizing writer packings with
  | nil =>
    refine ⟨[], rfl, rfl, fun count => ?_⟩
    rw [List.take_nil, List.take_nil, List.flatMap_nil, List.append_nil]
    exact ⟨.done _, h⟩
  | cons operation rest ih =>
    obtain ⟨last, middle, performed, serves⟩ := h.call bounded (calls operation List.mem_cons_self)
    have stores : middle.Stores (packings ++ last.packings) := by simpa using serves.stores
    obtain ⟨attempts, replies, blocks, points⟩ := ih stores (bounded.later serves.later)
      fun other mem => calls other (List.mem_cons_of_mem _ mem)
    refine ⟨last :: attempts, ?_, ?_, ?_⟩
    · have goes : operation.reply last.refusal ≠ .overrun := by
        cases operation <;> cases last.refusal <;> exact nofun
      rw [run_cons, performed, if_neg goes, List.map_cons, replies]
      rfl
    · rw [List.map_cons, List.map_cons, blocks, serves.same last (List.mem_singleton.mpr rfl)]
    · intro count
      cases count with
      | zero =>
        rw [List.take_zero, List.take_zero, List.flatMap_nil, List.append_nil]
        exact ⟨.done _, h⟩
      | succ count =>
        obtain ⟨behind, held⟩ := points count
        have goes_on : writer.performAll ((operation :: rest).take (count + 1)) =
            middle.performAll (rest.take count) := by
          rw [List.take_succ_cons, performAll, List.foldl_cons, performed]
          rfl
        rw [goes_on, List.take_succ_cons, List.flatMap_cons, ← List.append_assoc]
        exact ⟨.next serves.runs behind, held⟩

/-- Every call makes one attempt, which the codec alone decides. Wherever the history is looked at,
the sink holds one identifier and the frames of what has been packed by then, or nothing at all; all
of it can be read; and a call that has been refused is in the way of no later one. -/
theorem refusals_tear_nothing {codec : κ} (bounded : Codec.Bounded codec) {sink : Sink}
    (willing : sink.Willing) (fresh : sink.received = #[]) {history : List WriterOperation}
    (calls : ∀ operation ∈ history, operation.Call) :
    let first := ofSink sink codec
    ∃ attempts : List Attempt,
      (first.run history).map (·.1) =
        List.zipWith WriterOperation.reply history (attempts.map (·.refusal)) ∧
      attempts.map (·.blocks) = history.map (·.blocks) ∧
      (∀ attempt ∈ attempts, ∃ unsent, attempt.blocks = attempt.front ++ unsent ∧
        (attempt.refusal = none ↔ unsent = [])) ∧
      ∀ count,
        let writer := first.performAll (history.take count)
        let packings := (attempts.take count).flatMap (·.packings)
        Codec.Course codec (attempts.take count) writer.codec ∧
        writer.sink.received.toList = Frame.image packings ∧
        writer.blocks = packings.length ∧
        (∀ packing ∈ packings, packing.Framed) ∧
        (∀ block size after, Codec.Piece block → writer.compress block = (.ok size, after) →
          ∃ header, Frame.dataHeader .compressed (Checksum.masked block) size = .ok header) ∧
        (∀ form operation, Codec.Packs writer.codec form → operation.Call →
          (writer.perform operation).1 = operation.success) ∧
        ∀ other : lam, (∀ packing ∈ packings, Codec.Restored other packing) →
          ∀ policy, Reader.Recovers other policy writer.sink.received.toList
            (packings.map (·.block)) := by
  intro first
  have start : first.Stores [] := stores_of_fresh willing fresh codec
  have contained : Codec.Bounded first.codec := bounded
  obtain ⟨attempts, replies, blocks, points⟩ := start.perform_calls contained calls
  refine ⟨attempts, replies, blocks, ?_, ?_⟩
  · obtain ⟨course, -⟩ := points attempts.length
    rw [List.take_length] at course
    exact fun attempt mem => course.split mem
  · intro count writer packings
    obtain ⟨course, held⟩ := points count
    have stores : writer.Stores packings := held
    have inside : Codec.Bounded writer.codec := contained.later course.later
    refine ⟨course, stores.received, stores.blocks, ?_, ?_, ?_, ?_⟩
    · exact fun packing mem => (stores.carried packing mem).framed
    · exact fun block size after piece packed => stores.encodes inside piece packed
    · exact fun form operation promise call => stores.usable promise call
    · intro other restored policy
      rw [stores.received]
      exact Reader.recovers_image stores.carried restored policy

/-- The second of three calls is refused, and the others have framed their byte. -/
theorem refusal_between_blocks :
    let history : List WriterOperation := [.writeFrames [1], .writeFrames [2], .writeFrames [3]]
    let codec := Codec.Scripted.faltering 2 (.compression .empty)
    let writer := ofSink .plain codec
    (writer.run history).map (·.1) = [.accepted 1, .failed (.compression .empty), .accepted 1] ∧
    ∃ packings : List Packing, packings.length = 2 ∧
      (writer.performAll history).sink.received.toList = Frame.image packings := by
  intro history codec writer
  have calls : ∀ operation ∈ history, operation.Call := by simp [history, WriterOperation.Call]
  obtain ⟨attempts, -, -, -, points⟩ := @refusals_tear_nothing _ Codec.Scripted _ _ codec
    (Codec.Scripted.bounded_faltering _ _) _ Sink.plain_willing rfl _ calls
  obtain ⟨-, received, blocks, -⟩ := points history.length
  have framed : (writer.performAll history).blocks = 2 := by decide +kernel
  constructor
  · decide +kernel
  · exact ⟨_, blocks.symm.trans framed, received⟩

end Writer

end FramedSnappy
