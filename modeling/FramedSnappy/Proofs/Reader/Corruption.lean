import FramedSnappy.Proofs.Checksum.Burst
import FramedSnappy.Proofs.Codec.Scripted
import FramedSnappy.Proofs.Reader.Beside
import FramedSnappy.Proofs.Reader.Failure

/-! Damage to a stream that a verifying reader accepts. Up to the damaged frame a reader of the
damaged stream does what the first one did. The damaged frame is decoded, and then rejected for its
checksum before any of its bytes is queued. -/
namespace FramedSnappy

open FramedSnappy.Frame (Parsed)

namespace Frame

variable {decode : Bytes → Outcome Error Bytes} {policy : ChecksumPolicy}

/-- The same data frame with other bytes, and what it would carry if its checksum were right. -/
inductive Parsed.Damages (hit : Parsed) : Parsed → Prop
  | block {frame : Frame} {front old new behind : Bytes} :
      hit.frame.tag = 0x01 → frame.tag = hit.frame.tag → frame.field = hit.frame.field →
      hit.frame.block = front ++ old ++ behind → frame.block = front ++ new ++ behind →
      new.length = old.length → old.length ≤ 4 → new ≠ old →
      Damages hit ⟨frame, some frame.block⟩
  | field {frame : Frame} :
      hit.frame.tag = 0x00 ∨ hit.frame.tag = 0x01 → frame.tag = hit.frame.tag →
      frame.block = hit.frame.block → frame.field.length = checksumSize →
      frame.field ≠ hit.frame.field → Damages hit ⟨frame, hit.content⟩

theorem length_body (frame : Frame) :
    frame.body.length = frame.field.length + frame.block.length := by
  rw [← List.length_append]
  exact congrArg List.length (List.take_append_drop checksumSize frame.body).symm

theorem Yields.length_field {frame : Frame} {content : Bytes}
    (yields : frame.Yields decode policy (some content)) : frame.field.length = checksumSize := by
  cases yields with
  | compressed _ least _ _ _ => exact List.length_take_of_le least
  | uncompressed _ least _ _ => exact List.length_take_of_le least

/-- Without its checksum a data frame carries whatever its block decodes to. -/
theorem Yields.with_field {frame other : Frame} {content : Bytes}
    (yields : frame.Yields decode policy (some content)) (tag : other.tag = frame.tag)
    (block : other.block = frame.block) (four : other.field.length = checksumSize) :
    other.Yields decode .skip (some content) := by
  have same : other.body.length = frame.body.length := by
    rw [length_body, length_body, block, four, yields.length_field]
  cases yields with
  | compressed packed least most decoded _ =>
    exact .compressed (tag.trans packed) (same ▸ least) (same ▸ most) (block ▸ decoded) nofun
  | uncompressed raw least most _ =>
    rw [← block]
    exact .uncompressed (tag.trans raw) (same ▸ least) (same ▸ most) nofun

theorem Yields.with_block {frame other : Frame} {content : Bytes}
    (yields : frame.Yields decode policy (some content)) (raw : frame.tag = 0x01)
    (tag : other.tag = frame.tag) (field : other.field = frame.field)
    (length : other.block.length = frame.block.length) :
    content = frame.block ∧ other.Yields decode .skip (some other.block) := by
  have same : other.body.length = frame.body.length := by
    rw [length_body, length_body, field, length]
  cases yields with
  | compressed packed => cases packed.symm.trans raw
  | uncompressed _ least most _ =>
    exact ⟨rfl, .uncompressed (tag.trans raw) (same ▸ least) (same ▸ most) nofun⟩

theorem Yields.crc {frame : Frame} {content : Bytes}
    (yields : frame.Yields decode .verify (some content)) :
    Checksum.crc32c content = Checksum.unmask frame.masked := by
  have checked := yields.check
  rw [ChecksumPolicy.check_verify] at checked
  split at checked
  · assumption
  · cases checked

theorem Yields.exists_content {frame : Frame} {content : Option Bytes}
    (yields : frame.Yields decode policy content) (carries : frame.tag = 0x00 ∨ frame.tag = 0x01) :
    ∃ bytes, content = some bytes := by
  cases yields with
  | identifier tag _ =>
    rw [tag] at carries
    exact absurd carries (by decide)
  | skipped high _ =>
    rcases carries with tag | tag <;> rw [tag] at high <;> exact absurd high (by decide)
  | compressed _ _ _ _ _ => exact ⟨_, rfl⟩
  | uncompressed _ _ _ _ => exact ⟨_, rfl⟩

/-- A damaged block is decoded like any other, but its checksum is wrong. -/
theorem Parsed.Damages.found {hit damaged : Parsed} (h : hit.Damages damaged)
    (yields : hit.frame.Yields decode .verify hit.content) :
    ∃ content, damaged = ⟨damaged.frame, some content⟩ ∧
      damaged.frame.tag = hit.frame.tag ∧
      damaged.frame.Yields decode .skip (some content) ∧
      Checksum.crc32c content ≠ Checksum.unmask damaged.frame.masked := by
  cases h with
  | @block frame front old new behind raw tag field was is length few other =>
    obtain ⟨content, carried⟩ := yields.exists_content (.inr raw)
    rw [carried] at yields
    have same : frame.block.length = hit.frame.block.length := by simp [was, is, length]
    obtain ⟨rfl, loose⟩ := yields.with_block raw tag field same
    refine ⟨frame.block, rfl, tag, loose, fun right => other ?_⟩
    apply Checksum.window_eq_of_crc length few
    have stored : frame.masked = hit.frame.masked := by rw [masked, masked, field]
    rw [← is, ← was, right, stored, yields.crc]
  | @field frame carries tag block four other =>
    obtain ⟨content, carried⟩ := yields.exists_content carries
    rw [carried] at yields ⊢
    refine ⟨content, rfl, tag, yields.with_field tag block four, fun right => other ?_⟩
    have mine : ChecksumPolicy.Accepts .verify frame.field content :=
      (ChecksumPolicy.check_field _ content four).mp (if_pos right)
    have yours : ChecksumPolicy.Accepts .verify hit.frame.field content :=
      (ChecksumPolicy.check_field _ content yields.length_field).mp yields.check
    rw [mine rfl, yours rfl]

end Frame

namespace Reader

variable {κ : Type} [Codec κ]

/-- A frame that only has its checksum wrong. -/
theorem visit_rejects {reader : Reader κ} (fit : reader.Fit) (fresh : reader.poisoned = false)
    (verify : reader.policy = .verify) (empty : reader.pending = .empty) {frame : Frame}
    {content : Bytes} (opened : reader.identified = true ∨ frame.tag = 0xff)
    (yields : frame.Yields reader.decode .skip (some content))
    (wrong : Checksum.crc32c content ≠ Checksum.unmask frame.masked) {rest : Bytes}
    (said : reader.source.signals = (frame.bytes ++ rest).map .byte) (visitor : Visitor)
    (seen : Array Bytes) :
    ∃ after, reader.visitRest visitor seen =
        (.failed (.failed (.checksumMismatch (Checksum.unmask frame.masked)
          (Checksum.crc32c content))), seen, after) ∧
      Signal.bytes after.source.signals = rest ∧ after.poisoned = true ∧
      after.pending.toList = [] := by
  have answers := advance_answers fit
  have judged : reader.verdict = .broken (.checksumMismatch (Checksum.unmask frame.masked)
      (Checksum.crc32c content)) rest := by
    unfold verdict
    rw [Source.front_of_bytes said, yields.checked opened, verify, ChecksumPolicy.check_verify,
      if_neg wrong]
  rw [judged] at answers
  rw [visit_rest_step fit fresh]
  generalize reader.advance = result at answers ⊢
  obtain ⟨outcome, after⟩ := result
  obtain rfl := answers.outcome
  refine ⟨_, rfl, ?_, rfl, ?_⟩
  · have leaves := answers.leaves
    rw [Source.behind_of_bytes said] at leaves
    exact leaves.trans (List.append_nil _)
  · rw [show after.pending = reader.pending from answers.pending, empty]
    rfl

/-- The walk of a visit ends at such a frame, and so does everything else. -/
theorem Walks.visit_rejects {source : Source} {codec : κ} {before : List Parsed}
    {reader : Reader κ} (walk : Walks (ofSource source codec .verify) before reader)
    {frame : Frame} {content : Bytes} (opened : reader.identified = true ∨ frame.tag = 0xff)
    (yields : frame.Yields reader.decode .skip (some content))
    (wrong : Checksum.crc32c content ≠ Checksum.unmask frame.masked) {rest : Bytes}
    (said : reader.source.signals = (frame.bytes ++ rest).map .byte) {visitor : Visitor}
    (accepts : ∀ seen, visitor seen = none) :
    let visit := (ofSource source codec .verify).visitBlocks visitor
    visit.1 = .failed (.failed (.checksumMismatch (Checksum.unmask frame.masked)
      (Checksum.crc32c content))) ∧
    visit.2.1.toList = Frame.blocks before ∧ Signal.bytes visit.2.2.source.signals = rest ∧
      visit.2.2.Silent ∧ ∀ between, (visit.2.2.performAll between).pending.toList = [] := by
  have fit := fit_of_source source codec .verify
  have keeps := walk.reaches.keeps
  obtain ⟨after, rejected, left, poisoned, dry⟩ :=
    Reader.visit_rejects (keeps.fit fit) keeps.poisoned keeps.policy (walk.pending rfl) opened
      yields wrong said visitor ((#[] : Array Bytes) ++ Frame.blocks before)
  have visit := walk.visit fit rfl rfl visitor #[]
  rw [offer_accepted accepts] at visit
  have visited : (ofSource source codec .verify).visitBlocks visitor = _ := visit.trans rejected
  have tidy := tidy_kept.paced.visit_blocks ⟨fit, ByteQueue.tidy_empty⟩ visitor
  rw [visited] at tidy ⊢
  exact ⟨rfl, by simp, left, silent_for_good poisoned tidy.2 dry⟩

/-- Whatever bytes a verifying reader accepts: if one data frame gets another checksum, or one that
is not compressed gets other bytes inside a window of four, then a visit shows the blocks before
that frame, fails there, and nothing can be had from the reader any more. -/
theorem corruption_detected (codec : κ) {source : Source} {data : Bytes}
    (carries : source.signals = data.map .byte) {visitor : Visitor}
    (accepts : ∀ seen, visitor seen = none)
    (accepted : ((ofSource source codec .verify).visitBlocks visitor).1 = .done ()) :
    ∃ frames, data = Frame.wire frames ∧
      ((ofSource source codec .verify).visitBlocks visitor).2.1.toList = Frame.blocks frames ∧
      ∀ before hit behind damaged, frames = before ++ hit :: behind → hit.Damages damaged →
        ∀ other : Source,
          other.signals = (Frame.wire (before ++ damaged :: behind)).map .byte →
          let visit := (ofSource other codec .verify).visitBlocks visitor
          visit.1 = .failed (.failed (.checksumMismatch
            (Checksum.unmask damaged.frame.masked) (Checksum.crc32c damaged.data))) ∧
          visit.2.1.toList = Frame.blocks before ∧
          Signal.bytes visit.2.2.source.signals = Frame.wire behind ∧
          visit.2.2.Silent ∧
          ∀ between, (visit.2.2.performAll between).pending.toList = [] := by
  have fit := fit_of_source source codec .verify
  obtain ⟨frames, last, walk, whole, shown⟩ := exists_walk_of_accepted carries accepts accepted
  refine ⟨frames, whole, shown, ?_⟩
  rintro before hit behind damaged rfl damages other said
  -- the same walk leads the other reader to the damaged frame
  obtain ⟨middle, front, rest⟩ := walk.split
  rw [Frame.wire_append, List.map_append] at said
  obtain ⟨beside, walked, alike, there⟩ :=
    front.beside fit (like_of_source source other codec .verify) said
  have policy : middle.policy = .verify := front.reaches.keeps.policy
  -- there it is decoded to no avail
  cases rest with
  | step passes _ =>
    have yields := passes.takes.yields
    rw [policy, ← alike.decode] at yields
    obtain ⟨content, carried, tag, loose, wrong⟩ := damages.found yields
    have opened : beside.identified = true ∨ damaged.frame.tag = 0xff := by
      rw [tag, ← alike.identified]
      exact passes.takes.opened
    rw [show damaged.data = content by rw [carried]; rfl]
    exact walked.visit_rejects opened loose wrong there accepts

/-- Two bytes that are not compressed, with one byte of the checksum and the second one left open. -/
def pair (low second : UInt8) : Frame :=
  ⟨0x01, [low, 0xb0, 0xf0, 0xf4, 0x61, second], by simp [Frame.lengthFieldLimit]⟩

def visitPair (low second : UInt8) : Outcome VisitError Unit :=
  let data := Frame.streamIdentifier ++ (pair low second).bytes
  ((ofSource (.ofEvents [.deliver data] none) Codec.Scripted.honest .verify).visitBlocks
    fun _ => none).1

/-- A byte of the block is changed, or a byte of the checksum. -/
theorem changed_pair_detected :
    visitPair 0x1c 0x62 = .done () ∧
    visitPair 0x1c 0x63 = .failed (.failed (.checksumMismatch
      (Checksum.unmask (pair 0x1c 0x62).masked) (Checksum.crc32c [0x61, 0x63]))) ∧
    ∃ calculated, visitPair 0x1d 0x62 = .failed (.failed (.checksumMismatch
      (Checksum.unmask (pair 0x1d 0x62).masked) calculated)) := by
  have accepts : ∀ seen, (fun _ => none : Visitor) seen = none := fun _ => rfl
  have accepted : visitPair 0x1c 0x62 = .done () := by decide +kernel
  obtain ⟨frames, whole, -, detected⟩ := corruption_detected Codec.Scripted.honest
    (Source.signals_deliver (Frame.streamIdentifier ++ (pair 0x1c 0x62).bytes)) accepts accepted
  -- these are the frames
  let opening : Frame := ⟨0xff, Frame.identifierBody, by decide⟩
  have start : Frame.streamIdentifier = opening.bytes := (Frame.identifier_bytes rfl rfl).symm
  have split : Frame.streamIdentifier ++ (pair 0x1c 0x62).bytes =
      Frame.wire [⟨opening, none⟩, ⟨pair 0x1c 0x62, none⟩] := by
    simp [start]
  have cut := Frame.frames_of_wire (whole.symm.trans split)
  obtain ⟨first, more, rfl, same, cut⟩ := List.map_eq_cons_iff.mp cut
  obtain ⟨hit, none, rfl, stored, cut⟩ := List.map_eq_cons_iff.mp cut
  obtain rfl := List.map_eq_nil_iff.mp cut
  have said (damaged : Parsed) :
      (Source.ofEvents [.deliver (Frame.streamIdentifier ++ damaged.frame.bytes)] .none).signals =
        (Frame.wire ([first] ++ damaged :: [])).map .byte := by
    rw [Source.signals_deliver, start]
    simp [same]
  refine ⟨accepted, ?_, ?_⟩
  · have damages : hit.Damages ⟨pair 0x1c 0x63, some (pair 0x1c 0x63).block⟩ := by
      have was : hit.frame.block = [0x61] ++ [0x62] ++ [] := by rw [stored]; rfl
      have becomes : (pair 0x1c 0x63).block = [0x61] ++ [0x63] ++ [] := rfl
      refine .block ?_ ?_ ?_ was becomes rfl (by decide) (by decide)
      all_goals rw [stored]; rfl
    exact (detected [first] hit [] _ rfl damages _ (said _)).1
  · have damages : hit.Damages ⟨pair 0x1d 0x62, hit.content⟩ := by
      have other : (pair 0x1d 0x62).field ≠ hit.frame.field := by rw [stored]; decide
      refine .field (.inr ?_) ?_ ?_ rfl other
      all_goals rw [stored]; rfl
    exact ⟨_, (detected [first] hit [] _ rfl damages _ (said _)).1⟩

end Reader

end FramedSnappy
