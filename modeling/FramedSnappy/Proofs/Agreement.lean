import FramedSnappy.Proofs.Reader.Acceptance
import FramedSnappy.Proofs.Reader.Drain
import FramedSnappy.Proofs.Writer.Whole

/-! A reader in front of a writer's frames. The two codecs only have to agree on the packed form of
a block. -/
namespace FramedSnappy

namespace Frame

theorem tag_body_of_bytes {frame : Frame} {tag : UInt8} {field body : Bytes}
    (three : field.length = 3) (h : frame.bytes = tag :: field ++ body) :
    frame.tag = tag ∧ frame.body = body := by
  unfold bytes at h
  obtain ⟨tags, rest⟩ := List.cons.inj h
  exact ⟨tags, (List.append_inj rest (by simp [three])).2⟩

variable {κ : Type} [Codec κ] {codec : κ} {form : Bytes → Bytes}

theorem yields_around {frame : Frame} {block payload : Bytes}
    (bytes : frame.bytes = around block payload) (small : payload.length ≤ compressedLimit)
    {decode : Bytes → Outcome Error Bytes} (decoded : decode payload = .done block)
    (policy : ChecksumPolicy) : frame.Yields decode policy (some block) := by
  rw [around, front, List.append_assoc] at bytes
  obtain ⟨tag, body⟩ := tag_body_of_bytes (Bytes.length_little_endian 3 _) bytes
  have four : (Bytes.littleEndian checksumSize (Checksum.masked block).toNat).length =
      checksumSize := Bytes.length_little_endian _ _
  have length : frame.body.length = checksumSize + payload.length := by
    rw [body, List.length_append, four]
  have content : frame.block = payload := by rw [Frame.block, body, List.drop_left' four]
  have field : frame.field = Bytes.littleEndian 4 (Checksum.masked block).toNat := by
    rw [Frame.field, body, List.take_left' four]
    rfl
  apply Yields.compressed tag
  · omega
  · unfold dataLimit
    omega
  · rw [content]
    exact decoded
  · exact fun _ => field

theorem yields_identifier {frame : Frame} (bytes : frame.bytes = streamIdentifier)
    (decode : Bytes → Outcome Error Bytes) (policy : ChecksumPolicy) :
    frame.Yields decode policy none := by
  obtain ⟨tag, body⟩ := @tag_body_of_bytes frame 0xff [6, 0, 0] identifierBody rfl bytes
  exact .identifier tag body

/-- A codec that restores the packed form is content with every frame of a writer. -/
theorem Written.yields {parsed : Parsed} (written : Written form parsed)
    (promise : Codec.Restores codec form) {reader : Reader κ} (fit : reader.Fit)
    (later : Codec.Later codec reader.codec) (policy : ChecksumPolicy) :
    parsed.frame.Yields reader.decode policy parsed.content := by
  cases written with
  | identifier bytes => exact yields_identifier bytes _ _
  | block bytes piece small =>
    exact yields_around bytes small (Reader.decode_restored promise fit later piece) policy

end Frame

open FramedSnappy.Frame (Parsed)

variable {κ : Type} [Codec κ] {form : Bytes → Bytes}

theorem Reader.faces_of_written {codec : κ} (promise : Codec.Restores codec form) {source : Source}
    {policy : ChecksumPolicy} {frames : List Parsed} {rest : Bytes}
    (said : source.signals = (Frame.wire frames ++ rest).map .byte)
    (written : ∀ parsed ∈ frames, Frame.Written form parsed)
    (opens : ∀ parsed ∈ frames.head?, parsed.frame.tag = 0xff)
    (blocked : ∀ decode, Frame.Blocked decode policy (! frames.isEmpty) rest) :
    (ofSource source codec policy).Faces frames rest := by
  have fit := fit_of_source source codec policy
  refine ⟨fit, said, .inr opens, ?_, fun now _ => blocked now.decode⟩
  intro now keeps parsed mem
  exact (written parsed mem).yields promise (keeps.fit fit) keeps.codec policy

/-- Reading comes to a good end either way: a visit shows `blocks` one by one, and a loop of reads
with buffers of any sizes collects all their bytes. -/
def Reader.Gives (reader : Reader κ) (blocks : List Bytes) : Prop :=
  (∀ visitor, (∀ seen, visitor seen = none) →
    (reader.visitBlocks visitor).1 = .done () ∧
    (reader.visitBlocks visitor).2.1.toList = blocks) ∧
  ∀ sizes, (∀ call, 0 < sizes call) →
    ∃ after, Reader.Drains reader sizes blocks.flatten after

/-- What `bytes` come to for a new reader, however its source cuts them. -/
def Reader.Recovers (codec : κ) (policy : ChecksumPolicy) (bytes : Bytes) (blocks : List Bytes) :
    Prop :=
  ∀ source, source.signals = bytes.map .byte → (ofSource source codec policy).Gives blocks

theorem Reader.Faces.gives {source : Source} {codec : κ} {policy : ChecksumPolicy}
    {frames : List Parsed} (faces : (ofSource source codec policy).Faces frames []) :
    (ofSource source codec policy).Gives (Frame.blocks frames) := by
  constructor
  · intro visitor accepts
    exact Reader.visit_whole faces rfl rfl accepts
  · intro sizes positive
    have owes : (ofSource source codec policy).owed frames = (Frame.blocks frames).flatten := by
      rw [Frame.flatten_blocks]
      rfl
    exact owes ▸ Reader.drains_whole faces rfl positive

theorem Writer.Whole.reads {lam : Type} {other : κ} {blocks : List Bytes} {writer : Writer lam}
    (whole : writer.Whole form blocks)
    (fits : ∀ block, Codec.Piece block → (form block).length ≤ Frame.compressedLimit)
    (restores : Codec.Restores other form) {source : Source}
    (carries : source.signals = writer.sink.received.toList.map .byte) (policy : ChecksumPolicy) :
    let reader := Reader.ofSource source other policy
    (∀ visitor, (∀ seen, visitor seen = none) →
      (reader.visitBlocks visitor).1 = .done () ∧
      (reader.visitBlocks visitor).2.1.toList = blocks) ∧
    ∀ sizes, (∀ call, 0 < sizes call) →
      ∃ after, Reader.Drains reader sizes blocks.flatten after := by
  intro reader
  obtain ⟨frames, wire, same, written, opens⟩ := whole.frames fits
  have said : source.signals = (Frame.wire frames ++ []).map .byte := wire ▸ carries
  have faces : reader.Faces frames [] :=
    Reader.faces_of_written restores said written opens fun _ => Frame.blocked_nil _
  exact same ▸ faces.gives

end FramedSnappy
