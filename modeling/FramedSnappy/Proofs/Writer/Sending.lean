import FramedSnappy.Proofs.Writer.Plan

/-! What a writer sends for a list of blocks if its codec packs them, and what of it reaches the
sink. -/
namespace FramedSnappy

def Frame.packed (form : Bytes → Bytes) (block : Bytes) : Bytes := around block (form block)

namespace Writer

variable {κ : Type}

def Fit (writer : Writer κ) : Prop := writer.compressed.limit = Frame.compressedLimit

def stream (writer : Writer κ) (form : Bytes → Bytes) (blocks : List Bytes) : Bytes :=
  writer.intended (blocks.map (Frame.packed form))

structure Delivers (writer : Writer κ) (data : Bytes) (after : Writer κ) : Prop where
  received : after.sink.received.toList = writer.sink.received.toList ++ data
  willing : writer.sink.Willing → after.sink.Willing

/-- The sink has failed before the last byte of `data`. The writer remembers no more of what came
before the failure than whether the identifier was complete. -/
structure Tears (writer : Writer κ) (data : Bytes) (after : Writer κ) : Prop where
  received : ∃ taken left, data = taken ++ left ∧ left ≠ [] ∧
    after.sink.received.toList = writer.sink.received.toList ++ taken ∧
    (after.identified = true ↔ writer.due <+: taken)
  unwilling : ¬ writer.sink.Willing

variable {writer after : Writer κ} {data : Bytes} {form : Bytes → Bytes}

theorem stream_nil (writer : Writer κ) (form : Bytes → Bytes) : writer.stream form [] = [] := rfl

theorem stream_some {blocks : List Bytes} (filled : blocks ≠ []) :
    writer.stream form blocks = writer.due ++ blocks.flatMap (Frame.packed form) := by
  rw [stream, intended, if_neg (mt List.map_eq_nil_iff.mp filled), List.flatMap]

theorem delivers_of_write (wrote : writer.sink.writeAll data = (.ok (), after.sink)) :
    writer.Delivers data after := by
  refine ⟨Sink.write_all_received wrote, fun willing => ?_⟩
  have able := (Sink.write_all_willing willing data).2
  rwa [wrote] at able

theorem tears_of_write {frames : List Bytes} {frame : Bytes} {f : Fault}
    (wrote : writer.sink.writeAll data = (.error f, after.sink))
    (cut : writer.Cut frames frame after) : writer.Tears data after := by
  obtain ⟨taken, left, split, received, ending⟩ := Sink.write_all_takes writer.sink data
  rw [wrote] at received ending
  have some : left ≠ [] := by
    rcases ending with ⟨done, -⟩ | ⟨-, -, some⟩
    · cases done
    · exact some
  obtain ⟨part, -, -, arrived, identified⟩ := cut.gained
  rw [List.append_cancel_left (arrived.symm.trans received)] at identified
  refine ⟨⟨taken, left, split, some, received, identified.trans ?_⟩, fun willing => ?_⟩
  · cases known : writer.identified with
    | true => simp [due_known known]
    | false => simp [due_new known]
  · have able := (Sink.write_all_willing willing data).1
    rw [wrote] at able
    cases able

theorem stream_opens (new : writer.identified = false) {blocks : List Bytes} {taken left : Bytes}
    (split : writer.stream form blocks = taken ++ left) : ∀ byte ∈ taken.head?, byte = 0xff := by
  intro byte mem
  cases taken with
  | nil => cases mem
  | cons first rest =>
    cases mem
    by_cases none : blocks = []
    · rw [none, stream_nil] at split
      cases split
    · rw [stream_some none, due_new new] at split
      exact (List.cons.inj split).1.symm

theorem stream_cut (new : writer.identified = false) {blocks : List Bytes} {taken left : Bytes}
    (split : writer.stream form blocks = taken ++ left)
    (short : ¬ Frame.streamIdentifier <+: taken) :
    taken <+: Frame.streamIdentifier ∧ taken.length < Frame.streamIdentifier.length := by
  have front : taken <+: Frame.streamIdentifier := by
    by_cases none : blocks = []
    · rw [none, stream_nil] at split
      rw [(List.append_eq_nil_iff.mp split.symm).1]
      exact List.nil_prefix
    · rw [stream_some none, due_new new] at split
      rcases List.append_eq_append_iff.mp split with ⟨behind, rfl, -⟩ | ⟨missing, whole, -⟩
      · exact absurd (List.prefix_append _ _) short
      · exact ⟨missing, whole.symm⟩
  refine ⟨front, Nat.lt_of_le_of_ne front.length_le fun same => short ?_⟩
  exact (front.eq_of_length same).symm ▸ List.prefix_refl _

variable [Codec κ]

theorem compress_packs (fit : writer.Fit) (promise : Codec.Packs writer.codec form) {block : Bytes}
    (piece : Codec.Piece block) :
    ∃ codec compressed,
      writer.compress block = (.ok (form block).length, { writer with codec, compressed }) ∧
      Codec.Later writer.codec codec ∧ compressed.limit = Frame.compressedLimit ∧
      compressed.window (form block).length = form block := by
  have start : Codec.Later writer.codec writer.codec := .now
  obtain ⟨inside, small⟩ := promise.bound writer.codec start block piece
  have packs := promise.compress writer.codec start block piece
  have compresses := compress_compresses promise.bounded piece
  generalize writer.compress block = result at compresses ⊢
  cases compresses with
  | unreserved _ large => exact absurd (fit ▸ large) (Nat.not_lt.mpr small)
  | failed _ _ length failed => cases failed.symm.trans (packs _ length)
  | oversized _ _ length done large =>
    cases done.symm.trans (packs _ length)
    exact absurd large (Nat.not_lt.mpr (Frame.data_length_le (Nat.le_trans inside small)))
  | packed later limit length done _ front =>
    cases done.symm.trans (packs _ length)
    exact ⟨_, _, rfl, later, limit.trans fit, Scratch.window_of_front front⟩

/-- A codec that packs every block leaves no doubt about the plan. -/
theorem plan_packs (fit : writer.Fit) (promise : Codec.Packs writer.codec form)
    {blocks : List Bytes} (pieces : ∀ block ∈ blocks, Codec.Piece block) :
    writer.plan blocks = ⟨blocks.map (Frame.packed form), none⟩ := by
  induction blocks generalizing writer with
  | nil => rfl
  | cons block rest ih =>
    obtain ⟨codec, compressed, packed, later, limit, window⟩ :=
      compress_packs fit promise (pieces block List.mem_cons_self)
    have behind := @ih { writer with codec, compressed } limit (promise.later later)
      fun other mem => pieces other (List.mem_cons_of_mem _ mem)
    simp only [plan, packed, window, behind, List.map_cons, Frame.packed]

inductive Sends (form : Bytes → Bytes) (writer : Writer κ) (blocks : List Bytes) :
    Outcome Error Unit × Writer κ → Prop
  | all {after : Writer κ} : after.Fit → Codec.Later writer.codec after.codec →
      (after.identified = true ↔ writer.identified = true ∨ blocks ≠ []) →
      writer.Delivers (writer.stream form blocks) after → Sends form writer blocks (.done (), after)
  | torn {after : Writer κ} {e : Error} : after.Fit → Codec.Later writer.codec after.codec →
      writer.Tears (writer.stream form blocks) after → Sends form writer blocks (.failed e, after)

theorem send_blocks_sends (fit : writer.Fit) (promise : Codec.Packs writer.codec form)
    {blocks : List Bytes} (pieces : ∀ block ∈ blocks, Codec.Piece block) :
    Sends form writer blocks (writer.sendBlocks blocks) := by
  have carries := send_blocks_carries promise.bounded pieces
  rw [plan_packs fit promise pieces] at carries
  generalize writer.sendBlocks blocks = result at carries ⊢
  cases carries with
  | all wrote identified _ retains =>
    refine .all (retains.limit.trans fit) retains.codec ?_ ?_
    · simpa using identified
    · exact delivers_of_write wrote
  | torn split wrote cut retains =>
    refine .torn (retains.limit.trans fit) retains.codec ?_
    exact tears_of_write wrote cut

theorem write_frames_sends (fit : writer.Fit) (promise : Codec.Packs writer.codec form)
    (data : Bytes) :
    Sends form writer (Bytes.pieces Frame.pieceSize piece_size_pos data)
      (writer.writeFrames data) :=
  send_blocks_sends fit promise fun _ => Bytes.mem_pieces

end Writer

end FramedSnappy
