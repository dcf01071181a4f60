import FramedSnappy.Proofs.Frame.ChunkType
import FramedSnappy.Proofs.Frame.Grammar
import FramedSnappy.Proofs.Reader.Decoding

/-! One frame of a reader, for every source and every codec: the result is the verdict on the
bytes that stand in front, and the reader goes on where the verdict leaves off. -/
namespace FramedSnappy

namespace Signal

theorem bytes_behind_tail (signals : List Signal) :
    bytes (behind signals).tail = bytes (behind signals) := by
  induction signals with
  | nil => rfl
  | cons signal rest ih =>
    cases signal with
    | byte value => simpa [behind] using ih
    | fault f => rfl
    | pause => rfl

end Signal

namespace Frame.Verdict

def outcome : Verdict → Outcome Error Progress
  | ended => .done .ended
  | passed none _ => .done .passed
  | passed (some _) _ => .done .block
  | broken e _ => .failed e
  | overrun _ => .overrun

def queue (pending : ByteQueue) : Verdict → ByteQueue
  | passed (some content) _ => pending.append content
  | _ => pending

def identify (identified : Bool) : Verdict → Bool
  | passed _ _ => true
  | _ => identified

/-- What the source has left to say. After a failure only its bytes are of interest. -/
def Leaves (behind signals : List Signal) : Verdict → Prop
  | ended => signals = behind.tail
  | passed _ rest => signals = rest.map .byte ++ behind
  | broken _ rest => Signal.bytes signals = rest ++ Signal.bytes behind
  | overrun rest => Signal.bytes signals = rest ++ Signal.bytes behind

variable {verdict : Verdict}

theorem of_ended (h : verdict.outcome = .done .ended) : verdict = ended := by
  rcases verdict with _ | ⟨_ | _, _⟩ | _ | _ <;> cases h
  rfl

theorem of_passed {progress : Progress} (h : verdict.outcome = .done progress)
    (there : progress ≠ .ended) : ∃ content rest, verdict = passed content rest := by
  rcases verdict with _ | ⟨_ | _, _⟩ | _ | _ <;> cases h
  · exact absurd rfl there
  · exact ⟨_, _, rfl⟩
  · exact ⟨_, _, rfl⟩

theorem of_failed {e : Error} (h : verdict.outcome = .failed e) :
    ∃ rest, verdict = broken e rest := by
  rcases verdict with _ | ⟨_ | _, _⟩ | _ | _ <;> cases h
  exact ⟨_, rfl⟩

theorem of_overrun (h : verdict.outcome = .overrun) : ∃ rest, verdict = overrun rest := by
  rcases verdict with _ | ⟨_ | _, _⟩ | _ | _ <;> cases h
  exact ⟨_, rfl⟩

end Frame.Verdict

namespace Reader

variable {κ : Type}

def verdict [Codec κ] (reader : Reader κ) : Frame.Verdict :=
  Frame.judge reader.decode reader.policy reader.identified
    (Signal.stop reader.source.behind) reader.source.front

/-- What no frame changes, and what a frame changes in ways that do not matter. -/
structure Keeps [Codec κ] (reader after : Reader κ) : Prop where
  policy : after.policy = reader.policy
  poisoned : after.poisoned = reader.poisoned
  codec : Codec.Later reader.codec after.codec
  body : after.body.limit = reader.body.limit
  decoded : after.decoded.limit = reader.decoded.limit
  source : after.source.Follows reader.source

/-- A call has come to the verdict. -/
structure Answers [Codec κ] (reader : Reader κ) (verdict : Frame.Verdict)
    (result : Outcome Error Progress × Reader κ) : Prop where
  outcome : result.1 = verdict.outcome
  keeps : reader.Keeps result.2
  pending : result.2.pending = verdict.queue reader.pending
  identified : result.2.identified = verdict.identify reader.identified
  leaves : verdict.Leaves reader.source.behind result.2.source.signals

variable [Codec κ]

theorem Keeps.refl (reader : Reader κ) : reader.Keeps reader :=
  ⟨rfl, rfl, .now, rfl, rfl, .refl _⟩

theorem Keeps.trans {reader after last : Reader κ} (first : reader.Keeps after)
    (second : after.Keeps last) : reader.Keeps last :=
  ⟨second.policy.trans first.policy, second.poisoned.trans first.poisoned,
    first.codec.trans second.codec, second.body.trans first.body,
    second.decoded.trans first.decoded, second.source.trans first.source⟩

theorem Keeps.fit {reader after : Reader κ} (h : reader.Keeps after) (fit : reader.Fit) :
    after.Fit :=
  ⟨h.body.trans fit.body, h.decoded.trans fit.decoded⟩

theorem keeps_source {reader : Reader κ} {source : Source} (h : source.Follows reader.source) :
    reader.Keeps { reader with source } :=
  ⟨rfl, rfl, .now, rfl, rfl, h⟩

theorem Keeps.report {reader after : Reader κ} (h : reader.Keeps after) (diagnostic : Diagnostic) :
    reader.Keeps (after.report diagnostic) :=
  ⟨h.policy, h.poisoned, h.codec, h.body, h.decoded, h.source⟩

theorem answers_unread (reader : Reader κ) (e : Error) :
    reader.Answers (.broken e reader.source.front) (.failed e, reader) where
  outcome := rfl
  keeps := .refl reader
  pending := rfl
  identified := rfl
  leaves := by
    simp only [Frame.Verdict.Leaves, Source.front, Source.behind]
    rw [← Signal.bytes_map (Signal.front reader.source.signals), ← Signal.bytes_append,
      Signal.front_append_behind]

theorem leaves_cut {source : Source} {behind : List Signal} {e : Error}
    (h : source.signals = (Signal.behind behind).tail) :
    (Frame.Verdict.broken e []).Leaves (Signal.behind behind) source.signals := by
  simp [Frame.Verdict.Leaves, h, Signal.bytes_behind_tail]

theorem leaves_rest {source : Source} {behind : List Signal} {e : Error} {rest : Bytes}
    (h : source.signals = rest.map .byte ++ behind) :
    (Frame.Verdict.broken e rest).Leaves behind source.signals := by
  simp [Frame.Verdict.Leaves, h, Signal.bytes_append]

theorem take_identifier_answers (reader : Reader κ) (length : Nat) :
    reader.Answers
      (Frame.judgeIdentifier (Signal.stop reader.source.behind) length reader.source.front)
      (reader.takeIdentifier length) := by
  unfold Frame.judgeIdentifier takeIdentifier
  by_cases fits : length = Frame.identifierBody.length
  · subst fits
    simp only [ne_eq, not_true_eq_false, if_false]
    by_cases short : reader.source.front.length < Frame.identifierBody.length
    · obtain ⟨source, read, said, follows⟩ := Source.read_body_short short
      rw [if_pos short, read]
      exact ⟨rfl, keeps_source follows, rfl, rfl, leaves_cut said⟩
    · obtain ⟨source, read, said, follows⟩ := Source.read_body_enough (Nat.not_lt.mp short)
      rw [if_neg short, read]
      dsimp only
      by_cases wrong : reader.source.front.take Frame.identifierBody.length = Frame.identifierBody
      · simp only [wrong, not_true_eq_false, if_false]
        by_cases known : reader.identified = true
        · rw [if_pos known]
          exact ⟨rfl, keeps_source follows, rfl, known, said⟩
        · rw [if_neg known]
          exact ⟨rfl, ⟨rfl, rfl, .now, rfl, rfl, follows⟩, rfl, rfl, said⟩
      · simp only [wrong, not_false_eq_true, if_true]
        exact ⟨rfl, keeps_source follows, rfl, rfl, leaves_rest said⟩
  · simp only [ne_eq, fits, not_false_eq_true, if_true]
    exact answers_unread reader _

theorem skip_body_answers (reader : Reader κ) (tag : UInt8) (length : Nat) :
    (∃ after, reader.skipBody length =
        (.error (Frame.cutShort (Signal.stop reader.source.behind)), after) ∧
      Frame.judgeSkipped (Signal.stop reader.source.behind) tag length reader.source.front =
        .broken (Frame.cutShort (Signal.stop reader.source.behind)) [] ∧
      reader.Answers (.broken (Frame.cutShort (Signal.stop reader.source.behind)) [])
        (.failed (Frame.cutShort (Signal.stop reader.source.behind)), after)) ∨
    (∃ source, reader.skipBody length = (.ok (), { reader with source }) ∧
      Frame.judgeSkipped (Signal.stop reader.source.behind) tag length reader.source.front =
        (if tag < 0x80 then .broken (.unskippableChunk tag) (reader.source.front.drop length)
          else .passed none (reader.source.front.drop length)) ∧
      source.Follows reader.source ∧
      source.signals = (reader.source.front.drop length).map .byte ++ reader.source.behind) := by
  unfold Frame.judgeSkipped skipBody
  by_cases short : reader.source.front.length < length
  · left
    obtain ⟨source, skipped, said, follows⟩ := Source.skip_body_short short
    rw [if_pos short, skipped]
    exact ⟨_, rfl, rfl, rfl, keeps_source follows, rfl, rfl, leaves_cut said⟩
  · right
    obtain ⟨source, skipped, said, follows⟩ := Source.skip_body_enough (Nat.not_lt.mp short)
    rw [if_neg short, skipped]
    exact ⟨source, rfl, rfl, follows, said⟩

theorem skip_frame_answers {reader : Reader κ} {header : Frame.Header} {tag : UInt8}
    (high : ¬ tag < 0x80) (known : reader.identified = true) :
    reader.Answers
      (Frame.judgeSkipped (Signal.stop reader.source.behind) tag header.length
        reader.source.front)
      (reader.skipFrame header) := by
  unfold skipFrame
  rcases skip_body_answers reader tag header.length with
    ⟨after, skipped, judged, answers⟩ | ⟨source, skipped, judged, follows, said⟩
  · rw [skipped, judged]
    exact answers
  · rw [skipped, judged, if_neg high]
    exact ⟨rfl, (keeps_source follows).report _, rfl, known, said⟩

theorem refuse_frame_answers {reader : Reader κ} {tag : UInt8} (low : tag < 0x80) (length : Nat) :
    reader.Answers
      (Frame.judgeSkipped (Signal.stop reader.source.behind) tag length reader.source.front)
      (reader.refuseFrame tag length) := by
  unfold refuseFrame
  rcases skip_body_answers reader tag length with
    ⟨after, skipped, judged, answers⟩ | ⟨source, skipped, judged, follows, said⟩
  · rw [skipped, judged]
    exact answers
  · rw [skipped, judged, if_pos low]
    exact ⟨rfl, (keeps_source follows).report _, rfl, rfl, leaves_rest said⟩

theorem decompress_keeps {reader : Reader κ} (fit : reader.Fit) (block : Bytes) :
    reader.Keeps (reader.decompress block).2 ∧
      (reader.decompress block).2.pending = reader.pending ∧
      (reader.decompress block).2.identified = reader.identified ∧
      (reader.decompress block).2.source = reader.source := by
  have start : Codec.Later reader.codec reader.codec := .now
  have asked := start.decodedLength block
  unfold decompress
  rcases answer : Codec.decodedLength reader.codec block with ⟨_ | size, codec⟩
  · rw [answer] at asked
    exact ⟨⟨rfl, rfl, asked, rfl, rfl, .refl _⟩, rfl, rfl, rfl⟩
  · rw [answer] at asked
    dsimp only at asked ⊢
    by_cases large : size > Frame.blockLimit
    · rw [if_pos large]
      exact ⟨⟨rfl, rfl, asked, rfl, rfl, .refl _⟩, rfl, rfl, rfl⟩
    · rw [if_neg large]
      obtain ⟨grown, reserved, limit, -⟩ :=
        Scratch.reserve_of_le (fit.decoded ▸ Nat.not_lt.mp large)
      simp only [reserved]
      have told := asked.decompress block (grown.window size)
      cases (Codec.decompress codec block (grown.window size)).count with
      | error e => exact ⟨⟨rfl, rfl, told, rfl, limit, .refl _⟩, rfl, rfl, rfl⟩
      | ok count =>
        dsimp only
        split <;> exact ⟨⟨rfl, rfl, told, rfl, limit, .refl _⟩, rfl, rfl, rfl⟩

theorem decode_block_fst (reader : Reader κ) (chunkType : ChunkType) (block : Bytes) :
    (reader.decodeBlock chunkType block).1 =
      if chunkType = .compressed then reader.decode block else .done block := by
  unfold decodeBlock decode
  split
  · simp
  · rename_i other
    rw [if_neg (by simpa using other)]

theorem decode_block_keeps {reader : Reader κ} (fit : reader.Fit) (chunkType : ChunkType)
    (block : Bytes) :
    reader.Keeps (reader.decodeBlock chunkType block).2 ∧
      (reader.decodeBlock chunkType block).2.pending = reader.pending ∧
      (reader.decodeBlock chunkType block).2.identified = reader.identified ∧
      (reader.decodeBlock chunkType block).2.source = reader.source := by
  unfold decodeBlock
  split
  · exact decompress_keeps fit block
  · exact ⟨.refl reader, rfl, rfl, rfl⟩

theorem take_body_enough {reader : Reader κ} (fit : reader.Fit) {length : Nat}
    (most : length ≤ Frame.dataLimit) (whole : ¬ reader.source.front.length < length) :
    ∃ source body, reader.takeBody length =
        (.ok (reader.source.front.take length), { reader with source, body }) ∧
      source.signals = (reader.source.front.drop length).map .byte ++ reader.source.behind ∧
      reader.Keeps { reader with source, body } := by
  obtain ⟨grown, reserved, limit, -⟩ := Scratch.reserve_of_le (fit.body ▸ most)
  obtain ⟨source, read, said, follows⟩ := Source.read_body_enough (Nat.not_lt.mp whole)
  refine ⟨source, grown.store length (reader.source.front.take length), ?_, said, ?_⟩
  · simp only [takeBody, reserved, read]
  · exact ⟨rfl, rfl, .now, limit, rfl, follows⟩

theorem take_body_short {reader : Reader κ} (fit : reader.Fit) {length : Nat}
    (most : length ≤ Frame.dataLimit) (short : reader.source.front.length < length) :
    ∃ source body, reader.takeBody length =
        (.error (Frame.cutShort (Signal.stop reader.source.behind)),
          { reader with source, body }) ∧
      source.signals = reader.source.behind.tail ∧ reader.Keeps { reader with source, body } := by
  obtain ⟨grown, reserved, limit, -⟩ := Scratch.reserve_of_le (fit.body ▸ most)
  obtain ⟨source, read, said, follows⟩ := Source.read_body_short short
  refine ⟨source, grown, ?_, said, ⟨rfl, rfl, .now, limit, rfl, follows⟩⟩
  simp only [takeBody, reserved, read]

theorem length_limit_of_byte {tag : UInt8} (carries : tag = 0x00 ∨ tag = 0x01) :
    lengthLimit (.ofByte tag) = Frame.lengthLimit tag ∧
      Frame.lengthLimit tag ≤ Frame.dataLimit ∧
      (ChunkType.ofByte tag = .compressed ↔ ¬ tag = 0x01) := by
  rcases carries with rfl | rfl <;> decide

theorem accept_answers {reader after : Reader κ} (keeps : reader.Keeps after)
    (pending : after.pending = reader.pending) (identified : after.identified = true)
    {rest : Bytes} (said : after.source.signals = rest.map .byte ++ reader.source.behind)
    (same : after.identified = reader.identified)
    (header : Frame.Header) (masked : UInt32) (content : Bytes) :
    reader.Answers
      (match reader.policy.check masked content with
        | .error e => .broken e rest
        | .ok () => .passed (some content) rest)
      (after.accept header masked content) := by
  unfold accept
  have checked : after.policy.check masked content = reader.policy.check masked content := by
    rw [keeps.policy]
  rcases result : reader.policy.check masked content with e | ⟨⟩
  · rw [checked, result]
    exact ⟨rfl, keeps.report _, pending, same, leaves_rest said⟩
  · rw [checked, result]
    refine ⟨rfl, ?_, congrArg (·.append content) pending, identified, said⟩
    exact ⟨keeps.policy, keeps.poisoned, keeps.codec, keeps.body, keeps.decoded, keeps.source⟩

theorem decode_block_answers {reader : Reader κ} (fit : reader.Fit) {source : Source}
    {body : Scratch} (keeps : reader.Keeps { reader with source, body }) {tag : UInt8}
    (carries : tag = 0x00 ∨ tag = 0x01) (known : reader.identified = true) {rest : Bytes}
    (said : source.signals = rest.map .byte ++ reader.source.behind) (block : Bytes)
    (header : Frame.Header) (masked : UInt32) :
    reader.Answers
      (match if tag = 0x01 then .done block else reader.decode block with
        | .failed e => .broken e rest
        | .overrun => .overrun rest
        | .done content =>
          match reader.policy.check masked content with
          | .error e => .broken e rest
          | .ok () => .passed (some content) rest)
      (match ({ reader with source, body } : Reader κ).decodeBlock (.ofByte tag) block with
        | (.failed e, after) => (.failed e, after)
        | (.overrun, after) => (.overrun, after)
        | (.done decoded, after) => after.accept header masked decoded) := by
  have decoding := decode_block_fst { reader with source, body } (.ofByte tag) block
  obtain ⟨kept, pending, identified, unread⟩ :=
    decode_block_keeps (keeps.fit fit) (.ofByte tag) block
  rcases decoded : decodeBlock { reader with source, body } (.ofByte tag) block with
    ⟨outcome, after⟩
  rw [decoded] at decoding kept pending identified unread
  have same : (if tag = 0x01 then .done block else reader.decode block) = outcome := by
    refine Eq.trans ?_ decoding.symm
    have moved : ({ reader with source, body } : Reader κ).decode = reader.decode :=
      decode_congr rfl rfl
    have compressed := (length_limit_of_byte carries).2.2
    by_cases raw : tag = 0x01
    · rw [if_pos raw, if_neg (fun h => compressed.mp h raw)]
    · rw [if_neg raw, if_pos (compressed.mpr raw), moved]
  have remains : after.source.signals = rest.map .byte ++ reader.source.behind := by
    rw [unread]
    exact said
  rw [same]
  cases outcome with
  | failed e => exact ⟨rfl, keeps.trans kept, pending, identified, leaves_rest remains⟩
  | overrun =>
    refine ⟨rfl, keeps.trans kept, pending, identified, ?_⟩
    rw [Frame.Verdict.Leaves, remains, Signal.bytes_append, Signal.bytes_map]
  | done content =>
    exact accept_answers (keeps.trans kept) pending (identified.trans known) remains identified
      header masked content

theorem take_block_answers {reader : Reader κ} (fit : reader.Fit) {tag : UInt8} {length : Nat}
    (carries : tag = 0x00 ∨ tag = 0x01) (known : reader.identified = true) :
    reader.Answers
      (Frame.judgeBlock reader.decode reader.policy (Signal.stop reader.source.behind) tag length
        reader.source.front)
      (reader.takeBlock ⟨.ofByte tag, length⟩) := by
  obtain ⟨limit, small, -⟩ := length_limit_of_byte carries
  unfold Frame.judgeBlock takeBlock
  simp only [limit]
  by_cases most : Frame.lengthLimit tag < length
  · rw [if_pos most, if_pos most]
    exact answers_unread reader _
  · rw [if_neg most, if_neg most]
    by_cases least : length < Frame.checksumSize
    · rw [if_pos least, if_pos least]
      exact answers_unread reader _
    · rw [if_neg least, if_neg least]
      have most : length ≤ Frame.dataLimit := Nat.le_trans (Nat.not_lt.mp most) small
      by_cases short : reader.source.front.length < length
      · obtain ⟨source, body, taken, said, keeps⟩ := take_body_short fit most short
        rw [if_pos short, taken]
        exact ⟨rfl, keeps, rfl, rfl, leaves_cut said⟩
      · obtain ⟨source, body, taken, said, keeps⟩ := take_body_enough fit most short
        rw [if_neg short, taken]
        have field : (reader.source.front.take length).take Frame.checksumSize =
            reader.source.front.take Frame.checksumSize := by
          rw [List.take_take, Nat.min_eq_left (Nat.not_lt.mp least)]
        simp only [field]
        exact decode_block_answers fit keeps carries known said _ _ _

theorem take_frame_answers {reader : Reader κ} (fit : reader.Fit) (tag : UInt8) (length : Nat) :
    reader.Answers
      (if ¬ reader.identified ∧ tag ≠ 0xff then
          .broken (.missingStreamIdentifier tag) reader.source.front
        else if tag = 0xff then
          Frame.judgeIdentifier (Signal.stop reader.source.behind) length reader.source.front
        else if tag = 0x00 ∨ tag = 0x01 then
          Frame.judgeBlock reader.decode reader.policy (Signal.stop reader.source.behind) tag length
            reader.source.front
        else
          Frame.judgeSkipped (Signal.stop reader.source.behind) tag length reader.source.front)
      (reader.takeFrame ⟨.ofByte tag, length⟩) := by
  unfold takeFrame
  have identifier : ChunkType.ofByte tag ≠ .streamIdentifier ↔ tag ≠ 0xff :=
    not_congr (ChunkType.of_byte_identifier tag)
  by_cases early : ¬ reader.identified = true ∧ tag ≠ 0xff
  · rw [if_pos early, if_pos ⟨early.1, identifier.mpr early.2⟩]
    dsimp only
    rw [ChunkType.to_byte_of_byte]
    have unread := answers_unread reader (.missingStreamIdentifier tag)
    exact ⟨rfl, unread.keeps.report _, rfl, rfl, unread.leaves⟩
  · have opened : ¬ (¬ reader.identified = true ∧ ChunkType.ofByte tag ≠ .streamIdentifier) :=
      fun h => early ⟨h.1, identifier.mp h.2⟩
    rw [if_neg early, if_neg opened]
    dsimp only
    by_cases opening : tag = 0xff
    · subst opening
      rw [if_pos rfl]
      exact take_identifier_answers reader length
    · have known : reader.identified = true :=
        Decidable.byContradiction fun new => early ⟨new, opening⟩
      rw [if_neg opening]
      by_cases carries : tag = 0x00 ∨ tag = 0x01
      · rw [if_pos carries]
        have answers := @take_block_answers _ _ _ fit tag length carries known
        rcases carries with rfl | rfl <;> exact answers
      · rw [if_neg carries]
        obtain ⟨packed, raw⟩ := not_or.mp carries
        by_cases low : tag < 0x80
        · rw [show ChunkType.ofByte tag = .unskippable tag by
            simp [ChunkType.ofByte, packed, raw, low]]
          exact refuse_frame_answers low length
        · have skipped := @skip_frame_answers _ _ reader ⟨.ofByte tag, length⟩ tag low known
          rcases ChunkType.of_byte_high low opening with padding | skippable
          · rw [padding] at skipped ⊢
            exact skipped
          · rw [skippable] at skipped ⊢
            exact skipped

/-- The verdict is what the reader comes to. -/
theorem advance_answers {reader : Reader κ} (fit : reader.Fit) :
    reader.Answers reader.verdict reader.advance := by
  unfold advance verdict
  by_cases short : reader.source.front.length < Frame.headerSize
  · by_cases empty : reader.source.front = []
    · obtain ⟨source, read, said, follows⟩ := Source.read_header_none empty
      rw [read, empty]
      have cut : (Frame.Verdict.broken .poisoned []).Leaves reader.source.behind source.signals :=
        leaves_cut said
      cases Signal.stop reader.source.behind with
      | none => exact ⟨rfl, keeps_source follows, rfl, rfl, said⟩
      | some f => exact ⟨rfl, keeps_source follows, rfl, rfl, cut⟩
    · obtain ⟨source, read, said, follows⟩ := Source.read_header_cut empty short
      rw [read, Frame.judge_cut empty short]
      exact ⟨rfl, keeps_source follows, rfl, rfl, leaves_cut said⟩
  · obtain ⟨tag, low, middle, high, rest, split⟩ := Bytes.four_in_front (Nat.not_lt.mp short)
    obtain ⟨source, read, said, follows⟩ := Source.read_header_full split
    have answers := @take_frame_answers _ _ { reader with source } ⟨fit.body, fit.decoded⟩ tag
      (Bytes.ofLittleEndian [low, middle, high])
    have behind : source.behind = reader.source.behind := by
      rw [Source.behind_of_signals said]
      rfl
    have front : source.front = rest := Source.front_of_signals said
    have decode : ({ reader with source } : Reader κ).decode = reader.decode :=
      decode_congr rfl rfl
    dsimp only at answers
    rw [front, behind, decode] at answers
    rw [read, split]
    exact ⟨answers.outcome, (keeps_source follows).trans answers.keeps, answers.pending,
      answers.identified, behind ▸ answers.leaves⟩

end Reader

end FramedSnappy
