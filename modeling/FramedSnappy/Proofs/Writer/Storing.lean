import FramedSnappy.Proofs.Agreement
import FramedSnappy.Proofs.Writer.Operation

/-! A writer in front of a sink that never fails. What the sink holds, and what a call replies, is
then for the codec alone to decide: one identifier, and one frame for every block it has packed. -/
namespace FramedSnappy

open FramedSnappy.Codec (Packing Attempt pack)

def Codec.Packing.frame (packing : Packing) : Bytes := Frame.around packing.block packing.payload

namespace Frame

/-- The frames of `packings` behind one identifier. Where there are none, there is nothing. -/
def image (packings : List Packing) : Bytes :=
  if packings = [] then [] else streamIdentifier ++ packings.flatMap (·.frame)

/-- A packing that one frame can carry. -/
structure Carried (packing : Packing) : Prop where
  piece : Codec.Piece packing.block
  small : packing.payload.length ≤ compressedLimit

theorem image_snoc (packings : List Packing) (packing : Packing) :
    image (packings ++ [packing]) =
      streamIdentifier ++ packings.flatMap (·.frame) ++ packing.frame := by
  simp [image]

theorem exists_carried {packings : List Packing}
    (carried : ∀ packing ∈ packings, Carried packing) :
    ∃ frames, packings.flatMap (·.frame) = wire frames ∧
      Frame.blocks frames = packings.map (·.block) ∧
      ∀ parsed ∈ frames, ∃ packing ∈ packings, parsed.frame.bytes = packing.frame ∧
        parsed.content = some packing.block := by
  induction packings with
  | nil => exact ⟨[], rfl, rfl, nofun⟩
  | cons packing rest ih =>
    have first := carried packing List.mem_cons_self
    obtain ⟨frames, wire, same, found⟩ :=
      ih fun other mem => carried other (List.mem_cons_of_mem _ mem)
    obtain ⟨frame, bytes⟩ : ∃ frame : Frame, frame.bytes = packing.frame :=
      @exists_packed (fun _ => packing.payload) packing.block first.small
    refine ⟨⟨frame, some packing.block⟩ :: frames, ?_, ?_, ?_⟩
    · rw [List.flatMap_cons, wire, wire_cons, bytes]
    · rw [blocks_cons, same]
      exact if_neg first.piece.1
    · intro parsed mem
      rcases List.mem_cons.mp mem with rfl | later
      · exact ⟨packing, List.mem_cons_self, bytes, rfl⟩
      · obtain ⟨other, among, rest⟩ := found parsed later
        exact ⟨other, List.mem_cons_of_mem _ among, rest⟩

end Frame

section Reading

variable {lam : Type} [Codec lam] {other : lam} {packings : List Packing}

/-- Whatever codec has packed the blocks, a reader only needs one that restores them. -/
theorem Reader.recovers_image (carried : ∀ packing ∈ packings, Frame.Carried packing)
    (restored : ∀ packing ∈ packings, Codec.Restored other packing) (policy : ChecksumPolicy) :
    Reader.Recovers other policy (Frame.image packings) (packings.map (·.block)) := by
  intro source carries
  have fit := fit_of_source source other policy
  by_cases none : packings = []
  · subst none
    have faces : (ofSource source other policy).Faces [] [] :=
      ⟨fit, carries, .inr nofun, fun _ _ => nofun, fun _ _ => Frame.blocked_nil _⟩
    exact faces.gives
  · obtain ⟨frames, wire, same, found⟩ := Frame.exists_carried carried
    obtain ⟨opening, bytes⟩ := Frame.exists_identifier
    have faces : (ofSource source other policy).Faces (⟨opening, .none⟩ :: frames) [] := by
      refine ⟨fit, ?_, .inr ?_, ?_, fun _ _ => Frame.blocked_nil _⟩
      · rw [Frame.image, if_neg none, wire] at carries
        rw [Frame.wire_cons, bytes, List.append_nil]
        exact carries
      · intro parsed mem
        cases mem
        exact (List.cons.inj bytes).1
      · intro now keeps parsed mem
        rcases List.mem_cons.mp mem with rfl | later
        · exact Frame.yields_identifier bytes _ _
        · obtain ⟨packing, among, framed, content⟩ := found parsed later
          rw [content]
          have good := carried packing among
          exact Frame.yields_around framed good.small
            (decode_packing (restored packing among) good.piece (keeps.fit fit) keeps.codec) policy
    have blocks : Frame.blocks (⟨opening, .none⟩ :: frames) = packings.map (·.block) := by
      rw [Frame.blocks_cons, same]
      exact if_pos rfl
    exact blocks ▸ faces.gives

end Reading

/-- The reply to an operation whose last attempt ends like this. -/
def WriterOperation.reply (operation : WriterOperation) : Option Error → WriterReply
  | none => operation.success
  | some e =>
    match operation with
    | writeFrames _ => .failed e
    | _ => .streamFailed e.toStreamError

namespace Writer

variable {κ : Type}

/-- The sink has been sent the frames of `packings` and nothing else but the identifier. -/
structure Stores (packings : List Packing) (writer : Writer κ) : Prop where
  fit : writer.Fit
  willing : writer.sink.Willing
  carried : ∀ packing ∈ packings, Frame.Carried packing
  received : writer.sink.received.toList = Frame.image packings
  identified : writer.identified = true ↔ packings ≠ []
  blocks : writer.blocks = packings.length

variable {writer : Writer κ} {packings : List Packing}

theorem stores_of_fresh {sink : Sink} (willing : sink.Willing) (fresh : sink.received = #[])
    (codec : κ) : (ofSink sink codec).Stores [] :=
  ⟨rfl, willing, nofun, congrArg _ fresh, by simp [ofSink], rfl⟩

theorem Stores.received_due (h : writer.Stores packings) :
    writer.sink.received.toList ++ writer.due =
      Frame.streamIdentifier ++ packings.flatMap (·.frame) := by
  rw [h.received]
  cases known : writer.identified with
  | true => simp [due_known known, Frame.image, h.identified.mp known]
  | false =>
    have none : packings = [] := Decidable.byContradiction fun some =>
      Bool.eq_false_iff.mp known (h.identified.mpr some)
    simp [due_new known, Frame.image, none]

/-- One more frame goes out whole. -/
theorem Stores.send_item (h : writer.Stores packings) {packing : Packing}
    (carried : Frame.Carried packing)
    (front : writer.compressed.front packing.payload.length = some packing.payload) :
    ∃ after, writer.sendItem packing.block packing.payload.length = (.done (), after) ∧
      after.codec = writer.codec ∧ after.Stores (packings ++ [packing]) := by
  have able := Sink.write_all_willing h.willing (writer.due ++ packing.frame)
  have emits := send_item_emits (Frame.data_length_le carried.small) front packing.block
  generalize writer.sendItem packing.block packing.payload.length = result at emits ⊢
  cases emits with
  | torn wrote => cases able.1.symm.trans (congrArg Prod.fst wrote)
  | @whole after wrote codec compressed identified blocks =>
    rw [Codec.Packing.frame, wrote] at able
    refine ⟨after, rfl, codec, ?_, able.2, ?_, ?_, ?_, ?_⟩
    · rw [Fit, compressed]
      exact h.fit
    · intro other mem
      rcases List.mem_append.mp mem with early | last
      · exact h.carried other early
      · rw [List.mem_singleton.mp last]
        exact carried
    · rw [Sink.write_all_received wrote, ← List.append_assoc, h.received_due, Frame.image_snoc]
      rfl
    · simp [identified]
    · rw [blocks, h.blocks, List.length_append]
      rfl

variable [Codec κ]

/-- The writer has gone through attempts at `blocks`, all of them interrupted but the last one, and
holds what they have packed besides what it held before. -/
structure Serves (writer : Writer κ) (packings : List Packing) (blocks : List Bytes)
    (retried : List Attempt) (last : Attempt) (after : Writer κ) : Prop where
  course : Codec.Course writer.codec (retried ++ [last]) after.codec
  same : ∀ attempt ∈ retried ++ [last], attempt.blocks = blocks
  again : ∀ attempt ∈ retried, attempt.Interrupted
  stores : after.Stores (packings ++ (retried ++ [last]).flatMap (·.packings))

/-- Compressing touches nothing that the sink could see. -/
inductive Prepares (writer : Writer κ) (block : Bytes) : Except Error Nat × Writer κ → Prop
  | refused {codec : κ} {compressed : Scratch} {e : Error} :
      Codec.Answers writer.codec block (.error e) codec →
      compressed.limit = writer.compressed.limit →
      Prepares writer block (.error e, { writer with codec, compressed })
  | packed {codec : κ} {compressed : Scratch} {payload : Bytes} :
      Codec.Answers writer.codec block (.ok payload) codec →
      compressed.limit = writer.compressed.limit →
      compressed.front payload.length = some payload →
      Prepares writer block (.ok payload.length, { writer with codec, compressed })

theorem compress_prepares (fit : writer.Fit) (bounded : Codec.Bounded writer.codec) {block : Bytes}
    (piece : Codec.Piece block) : Prepares writer block (writer.compress block) := by
  by_cases small : (Codec.bound writer.codec block.length).1 ≤ writer.compressed.limit
  · obtain ⟨window, compressed, length, limit, answered⟩ := compress_reserved bounded piece small
    rcases answered with ⟨e, failed, answer⟩ | ⟨payload, done, front, answer⟩
    all_goals
      rw [answer]
      have room : window.length ≤ Frame.compressedLimit := by
        rw [length, ← fit]
        exact small
    · exact .refused (.failed length room failed) limit
    · have within := (Codec.Reply.of_result done).2.1
      have fits := Frame.data_length_le (Nat.le_trans within room)
      rw [if_neg (Nat.not_lt.mpr fits)]
      exact .packed (.packed length room done) limit front
  · have large := Nat.not_le.mp small
    rw [compress_unreserved large, fit]
    exact .refused (.unreserved (fit ▸ large)) rfl

theorem Stores.send_blocks (h : writer.Stores packings) (bounded : Codec.Bounded writer.codec)
    {blocks : List Bytes} (pieces : ∀ block ∈ blocks, Codec.Piece block) :
    ∃ (last : Attempt) (after : Writer κ), writer.sendBlocks blocks = (last.outcome, after) ∧
      last.blocks = blocks ∧ last.Runs writer.codec after.codec ∧
      after.Stores (packings ++ last.packings) := by
  induction blocks generalizing writer packings with
  | nil => exact ⟨⟨[], [], none⟩, writer, rfl, rfl, .ended _, by simpa using h⟩
  | cons block rest ih =>
    have piece := pieces block List.mem_cons_self
    have prepares := compress_prepares h.fit bounded piece
    unfold sendBlocks
    rw [send_block_eq]
    generalize writer.compress block = prepared at prepares ⊢
    cases prepares with
    | refused answers limit =>
      refine ⟨⟨block :: rest, [], some _⟩, _, rfl, rfl, .refused answers, ?_⟩
      rw [List.append_nil]
      exact ⟨limit.trans h.fit, h.willing, h.carried, h.received, h.identified, h.blocks⟩
    | @packed codec compressed payload answers limit front =>
      let packed : Writer κ := { writer with codec, compressed }
      have ready : packed.Stores packings :=
        ⟨limit.trans h.fit, h.willing, h.carried, h.received, h.identified, h.blocks⟩
      have carried : Frame.Carried ⟨block, payload⟩ := ⟨piece, answers.fits⟩
      obtain ⟨middle, sent, same, stores⟩ := ready.send_item carried front
      have kept : middle.codec = codec := same
      have later : Codec.Bounded middle.codec := kept ▸ bounded.later answers.later
      obtain ⟨last, after, outcome, blocks, runs, behind⟩ :=
        ih stores later fun other mem => pieces other (List.mem_cons_of_mem _ mem)
      refine ⟨⟨block :: last.blocks, ⟨block, payload⟩ :: last.packings, last.refusal⟩, after,
        ?_, ?_, ?_, ?_⟩
      · dsimp only at sent ⊢
        rw [sent]
        exact outcome
      · rw [blocks]
      · exact .packed answers (kept ▸ runs)
      · simpa using behind

section Operation

variable {blocks : List Bytes} {retried : List Attempt} {last : Attempt} {middle after : Writer κ}

theorem Serves.later (h : writer.Serves packings blocks retried last after) :
    Codec.Later writer.codec after.codec := h.course.later

theorem Serves.runs (h : writer.Serves packings blocks [] last after) :
    last.Runs writer.codec after.codec := by
  have course : Codec.Course writer.codec [last] after.codec := h.course
  cases course with
  | next runs ended =>
    cases ended
    exact runs

/-- The first attempt is the only one, because nothing interrupts it. -/
theorem Serves.packs {form : Bytes → Bytes} (h : writer.Serves packings blocks retried last after)
    (promise : Codec.Packs writer.codec form) (pieces : ∀ block ∈ blocks, Codec.Piece block) :
    last.refusal = none ∧ after.Stores (packings ++ blocks.map (pack form)) := by
  have packs := h.course.packs promise fun attempt mem => h.same attempt mem ▸ pieces
  cases retried with
  | nil =>
    obtain ⟨whole, packed⟩ := packs last List.mem_cons_self
    have stores := h.stores
    rw [List.nil_append, List.flatMap_singleton, packed, h.same last List.mem_cons_self] at stores
    exact ⟨whole, stores⟩
  | cons first rest =>
    obtain ⟨e, refused, -⟩ := h.again first List.mem_cons_self
    cases refused.symm.trans (packs first List.mem_cons_self).1

/-- An interrupted attempt goes before. -/
theorem Serves.retry {first : Attempt} (served : writer.Serves packings blocks [] first middle)
    (again : first.Interrupted)
    (rest : middle.Serves (packings ++ first.packings) blocks retried last after) :
    writer.Serves packings blocks (first :: retried) last after := by
  constructor
  · exact .next served.runs rest.course
  · intro attempt mem
    rcases List.mem_cons.mp mem with rfl | behind
    · exact served.same attempt List.mem_cons_self
    · exact rest.same attempt behind
  · intro attempt mem
    rcases List.mem_cons.mp mem with rfl | behind
    · exact again
    · exact rest.again attempt behind
  · have stores := rest.stores
    rwa [List.append_assoc, ← List.flatMap_cons] at stores

theorem Stores.write_frames (h : writer.Stores packings) (bounded : Codec.Bounded writer.codec)
    (data : Bytes) :
    ∃ (last : Attempt) (after : Writer κ), writer.writeFrames data = (last.outcome, after) ∧
      writer.Serves packings (Bytes.pieces Frame.pieceSize piece_size_pos data) [] last after := by
  have pieces : ∀ block ∈ Bytes.pieces Frame.pieceSize piece_size_pos data, Codec.Piece block :=
    fun _ => Bytes.mem_pieces
  obtain ⟨last, after, outcome, same, runs, stores⟩ := h.send_blocks bounded pieces
  exact ⟨last, after, outcome, .one runs, by simpa using same, nofun, by simpa using stores⟩

theorem Stores.write (h : writer.Stores packings) (bounded : Codec.Bounded writer.codec)
    (data : Bytes) :
    ∃ (last : Attempt) (after : Writer κ),
      writer.write data = (last.outcome.mapError Error.toStreamError, after) ∧
      writer.Serves packings (Bytes.pieces Frame.pieceSize piece_size_pos data) [] last after := by
  obtain ⟨last, after, wrote, serves⟩ := h.write_frames bounded data
  exact ⟨last, after, by rw [Writer.write, wrote], serves⟩

theorem Stores.write_all (h : writer.Stores packings) (bounded : Codec.Bounded writer.codec)
    (patience : Nat) (data : Bytes) :
    ∃ (retried : List Attempt) (last : Attempt) (after : Writer κ),
      writer.writeAll patience data = (last.outcome.mapError Error.toStreamError, after) ∧
      writer.Serves packings (Bytes.pieces Frame.pieceSize piece_size_pos data) retried last
        after := by
  revert packings bounded
  show ∀ packings : List Packing, _
  refine write_all_elim ?_ ?_ patience writer
  · intro writer packings h bounded
    exact ⟨[], h.write bounded data⟩
  · intro writer middle e result failed interrupted ih packings h bounded
    obtain ⟨first, after, wrote, serves⟩ := h.write bounded data
    rw [failed, Prod.mk.injEq] at wrote
    obtain ⟨outcome, rfl⟩ := wrote
    have stores : middle.Stores (packings ++ first.packings) := by simpa using serves.stores
    obtain ⟨retried, last, after, ended, rest⟩ := ih _ stores (bounded.later serves.later)
    have refused := Attempt.interrupted_of_outcome outcome.symm interrupted
    exact ⟨first :: retried, last, after, ended, serves.retry refused rest⟩

/-- A call of its own makes one attempt. -/
theorem Stores.call (h : writer.Stores packings) (bounded : Codec.Bounded writer.codec)
    {operation : WriterOperation} (call : operation.Call) :
    ∃ (last : Attempt) (after : Writer κ),
      writer.perform operation = (operation.reply last.refusal, after) ∧
      writer.Serves packings operation.blocks [] last after := by
  cases operation with
  | write data =>
    obtain ⟨last, after, wrote, serves⟩ := h.write bounded data
    refine ⟨last, after, ?_, serves⟩
    unfold Attempt.outcome at wrote
    rw [perform, wrote]
    cases last.refusal <;> rfl
  | writeFrames data =>
    obtain ⟨last, after, wrote, serves⟩ := h.write_frames bounded data
    refine ⟨last, after, ?_, serves⟩
    unfold Attempt.outcome at wrote
    rw [perform, wrote]
    cases last.refusal <;> rfl
  | _ => exact call.elim

theorem Stores.flush (h : writer.Stores packings) :
    ∃ after, writer.perform .flush = (.silent, after) ∧ after.codec = writer.codec ∧
      after.Stores packings := by
  obtain ⟨flushed, able, received⟩ := Sink.flush_willing h.willing
  rcases answer : writer.sink.flush with ⟨result, sink⟩
  rw [answer] at flushed able received
  obtain rfl : result = .ok () := flushed
  refine ⟨{ writer with sink }, ?_, rfl, h.fit, able, h.carried, ?_, h.identified, h.blocks⟩
  · simp [perform, Writer.flush, answer]
  · exact (congrArg _ received).trans h.received

theorem Stores.perform (h : writer.Stores packings) (bounded : Codec.Bounded writer.codec)
    {operation : WriterOperation} (plain : operation.Plain) :
    ∃ (retried : List Attempt) (last : Attempt) (after : Writer κ),
      writer.perform operation = (operation.reply last.refusal, after) ∧
      writer.Serves packings operation.blocks retried last after := by
  cases operation with
  | write data => exact ⟨[], h.call bounded trivial⟩
  | writeFrames data => exact ⟨[], h.call bounded trivial⟩
  | writeAll data patience =>
    obtain ⟨retried, last, after, wrote, serves⟩ := h.write_all bounded patience data
    refine ⟨retried, last, after, ?_, serves⟩
    unfold Attempt.outcome at wrote
    rw [Writer.perform, wrote]
    cases last.refusal <;> rfl
  | flush =>
    obtain ⟨after, flushed, kept, stores⟩ := h.flush
    refine ⟨[], ⟨[], [], none⟩, after, flushed, .one (kept ▸ .ended _), ?_, ?_, ?_⟩
    · simp [WriterOperation.blocks, WriterOperation.data, Bytes.pieces]
    · exact fun attempt mem => absurd mem List.not_mem_nil
    · simpa using stores
  | raw data => exact plain.elim
  | feed events => exact plain.elim

end Operation

end Writer

end FramedSnappy
