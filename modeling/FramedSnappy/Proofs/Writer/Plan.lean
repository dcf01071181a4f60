import FramedSnappy.Proofs.Codec.Promise
import FramedSnappy.Proofs.Frame.Header
import FramedSnappy.Proofs.Scratch
import FramedSnappy.Proofs.Sink.Bytewise
import FramedSnappy.Writer.Stream

/-! What a call means to send, which depends on its codec alone, and what becomes of it at the
sink. If the codec stays inside its windows, a call does no more and no less than to write this
intended stream until the sink fails. -/
namespace FramedSnappy

namespace Frame

/-- What goes before a payload of `size` bytes. -/
def front (block : Bytes) (size : Nat) : Bytes :=
  0x00 :: Bytes.littleEndian 3 (dataLength size) ++
    Bytes.littleEndian checksumSize (Checksum.masked block).toNat

/-- The frame of a block around what the codec has made of it. -/
def around (block payload : Bytes) : Bytes := front block payload.length ++ payload

theorem data_header_front {size : Nat} (fits : dataLength size ≤ dataLimit) (block : Bytes) :
    dataHeader .compressed (Checksum.masked block) size = .ok (front block size) :=
  data_header_fits (Nat.le_trans fits data_limit_le)

end Frame

namespace Writer

variable {κ : Type}

/-- What still has to come before the next frame. -/
def due (writer : Writer κ) : Bytes := if writer.identified then [] else Frame.streamIdentifier

theorem due_known {writer : Writer κ} (known : writer.identified = true) : writer.due = [] :=
  if_pos known

theorem due_new {writer : Writer κ} (new : writer.identified = false) :
    writer.due = Frame.streamIdentifier := by
  simp [due, new]

/-- The bytes that carry `frames`. -/
def intended (writer : Writer κ) (frames : List Bytes) : Bytes :=
  if frames = [] then [] else writer.due ++ frames.flatten

/-- What still has to be sent of `frame` when `frames` have been sent before it. -/
def still (writer : Writer κ) (frames : List Bytes) (frame : Bytes) : Bytes :=
  (if frames = [] then writer.due else []) ++ frame

/-- The frames of a call, and the error that ends it if there is one, as far as the sink has no say
in it. -/
structure Plan where
  frames : List Bytes
  refusal : Option Error

def Plan.outcome (plan : Plan) : Outcome Error Unit :=
  match plan.refusal with
  | none => .done ()
  | some e => .failed e

theorem intended_nil (writer : Writer κ) :
    writer.sink.writeAll (writer.intended []) = (.ok (), writer.sink) := by
  rw [intended, if_pos rfl, Sink.writeAll]

theorem intended_cons (writer : Writer κ) (frame : Bytes) (frames : List Bytes) :
    writer.intended (frame :: frames) = writer.due ++ frame ++ frames.flatten := by
  simp [intended]

theorem intended_known {writer : Writer κ} (known : writer.identified = true) (frames : List Bytes) :
    writer.intended frames = frames.flatten := by
  cases frames with
  | nil => rfl
  | cons frame frames => rw [intended_cons, due_known known, List.nil_append, List.flatten_cons]

theorem still_known {writer : Writer κ} (known : writer.identified = true) (frames : List Bytes)
    (frame : Bytes) : writer.still frames frame = frame := by
  simp [still, due_known known]

section Send

variable {writer : Writer κ} {payload : Bytes}

theorem send_frame_eq (fits : Frame.dataLength payload.length ≤ Frame.dataLimit)
    (front : writer.compressed.front payload.length = some payload) (block : Bytes) :
    writer.sendFrame block payload.length =
      match writer.sink.writeAll (Frame.around block payload) with
      | (.ok (), sink) =>
        (.done (), { writer with sink, blocks := writer.blocks + 1 }.report
          (.wroteCompressedFrame block.length payload.length))
      | (.error f, sink) => (.failed (.io f), { writer with sink }) := by
  rw [Frame.around, Sink.write_all_append, sendFrame, Frame.data_header_front fits]
  dsimp only [send]
  rcases writer.sink.writeAll _ with ⟨f | _, sink⟩
  · rfl
  · simp only [sendPayload, front, send]
    rcases sink.writeAll payload with ⟨f | _, last⟩
    · rfl
    · rfl

/-- What `sendBlock` does once the block has been compressed. -/
def sendItem (writer : Writer κ) (block : Bytes) (count : Nat) : Outcome Error Unit × Writer κ :=
  match writer.sendIdentifier with
  | (.error e, after) => (.failed e, after)
  | (.ok (), after) => after.sendFrame block count

/-- A frame goes out behind what is due, as one write of both would send them. -/
inductive Emits (writer : Writer κ) (frame : Bytes) : Outcome Error Unit × Writer κ → Prop
  | whole {after : Writer κ} :
      writer.sink.writeAll (writer.due ++ frame) = (.ok (), after.sink) →
      after.codec = writer.codec → after.compressed = writer.compressed →
      after.identified = true → after.blocks = writer.blocks + 1 →
      Emits writer frame (.done (), after)
  | torn {after : Writer κ} {f : Fault} :
      writer.sink.writeAll (writer.due ++ frame) = (.error f, after.sink) →
      after.codec = writer.codec → after.compressed = writer.compressed →
      (after.identified = true ↔ (writer.sink.writeAll writer.due).1 = .ok ()) →
      after.blocks = writer.blocks → Emits writer frame (.failed (.io f), after)

theorem send_item_emits (fits : Frame.dataLength payload.length ≤ Frame.dataLimit)
    (front : writer.compressed.front payload.length = some payload) (block : Bytes) :
    Emits writer (Frame.around block payload) (writer.sendItem block payload.length) := by
  have joined := Sink.write_all_append writer.sink writer.due (Frame.around block payload)
  unfold sendItem sendIdentifier
  cases known : writer.identified with
  | true =>
    rw [if_pos rfl]
    have nothing : writer.sink.writeAll writer.due = (.ok (), writer.sink) := by
      rw [due_known known, Sink.writeAll]
    rw [nothing] at joined
    dsimp only at joined ⊢
    rw [send_frame_eq fits front]
    rcases h : writer.sink.writeAll (Frame.around block payload) with ⟨f | _, sink⟩
    all_goals rw [h] at joined
    · exact .torn joined rfl rfl (by simp [known, nothing]) rfl
    · exact .whole joined rfl rfl known rfl
  | false =>
    rw [if_neg Bool.false_ne_true, send, ← due_new known]
    rcases h : writer.sink.writeAll writer.due with ⟨f | _, sink⟩
    · rw [h] at joined
      exact .torn joined rfl rfl (by simp [known, h]) rfl
    · rw [h] at joined
      let middle : Writer κ :=
        { writer with sink, identified := true }.report .wroteStreamIdentifier
      have kept : middle.compressed.front payload.length = some payload := front
      have sent := send_frame_eq fits kept block
      dsimp only at joined ⊢
      rw [sent]
      rcases h' : sink.writeAll (Frame.around block payload) with ⟨f | _, last⟩
      all_goals
        rw [h'] at joined
        simp only [middle, report, h']
      · exact .torn joined rfl rfl (by simp [h]) rfl
      · exact .whole joined rfl rfl rfl rfl

end Send

section Cut

variable {writer middle after : Writer κ} {frame : Bytes} {frames : List Bytes}

/-- The sink has failed inside `frame`, or inside what was due in front of it, and all `frames`
before it are there. -/
structure Cut (writer : Writer κ) (frames : List Bytes) (frame : Bytes) (after : Writer κ) :
    Prop where
  gained : ∃ part, part <+: writer.still frames frame ∧ part ≠ writer.still frames frame ∧
    after.sink.received.toList =
      writer.sink.received.toList ++ (writer.intended frames ++ part) ∧
    (after.identified = true ↔
      writer.identified = true ∨ Frame.streamIdentifier <+: writer.intended frames ++ part)
  blocks : after.blocks = writer.blocks + frames.length

theorem Cut.first {f : Fault}
    (wrote : writer.sink.writeAll (writer.due ++ frame) = (.error f, after.sink))
    (identified : after.identified = true ↔ (writer.sink.writeAll writer.due).1 = .ok ())
    (blocks : after.blocks = writer.blocks) : writer.Cut [] frame after := by
  obtain ⟨taken, left, split, received, ending⟩ :=
    Sink.write_all_takes writer.sink (writer.due ++ frame)
  rw [wrote] at received ending
  have some : left ≠ [] := by
    rcases ending with ⟨done, -⟩ | ⟨-, -, some⟩
    · cases done
    · exact some
  have opened : (writer.sink.writeAll writer.due).1 = .ok () ↔ writer.due <+: taken :=
    Sink.write_all_ok_iff (by rw [wrote]; exact received)
  refine ⟨⟨taken, ⟨left, split.symm⟩, ?_, received, ?_⟩, blocks⟩
  · intro whole
    exact some (List.append_right_eq_self.mp (split.symm.trans whole.symm))
  · refine (identified.trans opened).trans ?_
    cases known : writer.identified with
    | true => simp [due_known known]
    | false => simp [due_new known, intended]

theorem Cut.cons {last : Bytes}
    (wrote : writer.sink.writeAll (writer.due ++ frame) = (.ok (), middle.sink))
    (known : middle.identified = true) (blocks : middle.blocks = writer.blocks + 1)
    (cut : middle.Cut frames last after) : writer.Cut (frame :: frames) last after := by
  obtain ⟨part, front, short, received, identified⟩ := cut.gained
  have still : writer.still (frame :: frames) last = last := rfl
  rw [still_known known] at front short
  rw [intended_known known] at received identified
  have arrived := Sink.write_all_received wrote
  refine ⟨⟨part, still ▸ front, still ▸ short, ?_, ?_⟩, ?_⟩
  · rw [received, arrived, intended_cons]
    simp only [List.append_assoc]
  · refine identified.trans (iff_of_true (.inl known) ?_)
    cases early : writer.identified with
    | true => exact .inl rfl
    | false =>
      rw [intended_cons, due_new early, List.append_assoc, List.append_assoc]
      exact .inr (List.prefix_append _ _)
  · rw [cut.blocks, blocks, List.length_cons]
    omega

end Cut

variable [Codec κ]

def plan (writer : Writer κ) : List Bytes → Plan
  | [] => ⟨[], none⟩
  | block :: rest =>
    match writer.compress block with
    | (.error e, _) => ⟨[], some e⟩
    | (.ok count, after) =>
      let later := after.plan rest
      ⟨Frame.around block (after.compressed.window count) :: later.frames, later.refusal⟩

section Compress

variable {writer other : Writer κ}

/-- Nothing else of a writer has a say in what it compresses. -/
theorem compress_congr (codec : writer.codec = other.codec)
    (compressed : writer.compressed = other.compressed) (block : Bytes) :
    (writer.compress block).1 = (other.compress block).1 ∧
      (writer.compress block).2.codec = (other.compress block).2.codec ∧
      (writer.compress block).2.compressed = (other.compress block).2.compressed := by
  unfold compress
  rw [codec, compressed]
  rcases Codec.bound other.codec block.length with ⟨bound, codec⟩
  dsimp only
  cases other.compressed.reserve bound with
  | error e => exact ⟨rfl, rfl, rfl⟩
  | ok scratch =>
    dsimp only
    cases (Codec.compress codec block (scratch.window bound)).count with
    | error e => exact ⟨rfl, rfl, rfl⟩
    | ok count =>
      dsimp only
      split
      · exact ⟨rfl, rfl, rfl⟩
      · exact ⟨rfl, rfl, rfl⟩

theorem plan_congr (codec : writer.codec = other.codec)
    (compressed : writer.compressed = other.compressed) (blocks : List Bytes) :
    writer.plan blocks = other.plan blocks := by
  induction blocks generalizing writer other with
  | nil => rfl
  | cons block rest ih =>
    obtain ⟨answer, codecs, scratches⟩ := compress_congr codec compressed block
    unfold plan
    rcases h : writer.compress block with ⟨result, after⟩
    rcases h' : other.compress block with ⟨result', after'⟩
    rw [h, h'] at answer codecs scratches
    dsimp only at answer codecs scratches
    subst answer
    cases result with
    | error e => rfl
    | ok count =>
      dsimp only
      rw [scratches, ih codecs scratches]

/-- What compressing a block comes to: no room for what the codec asks for, an error of the codec, a
result that does not fit a frame, or a payload at the front of the scratch buffer. -/
inductive Compresses (writer : Writer κ) (block : Bytes) : Except Error Nat × Writer κ → Prop
  | unreserved {codec : κ} {e : Error} : Codec.Later writer.codec codec →
      writer.compressed.limit < (Codec.bound writer.codec block.length).1 →
      Compresses writer block (.error e, { writer with codec })
  | failed {codec : κ} {compressed : Scratch} {window : Bytes} {e : Error} :
      Codec.Later writer.codec codec → compressed.limit = writer.compressed.limit →
      window.length = (Codec.bound writer.codec block.length).1 →
      (Codec.compress (Codec.bound writer.codec block.length).2 block window).result window =
        .failed e → Compresses writer block (.error e, { writer with codec, compressed })
  | oversized {codec : κ} {compressed : Scratch} {window payload : Bytes} {e : Error} :
      Codec.Later writer.codec codec → compressed.limit = writer.compressed.limit →
      window.length = (Codec.bound writer.codec block.length).1 →
      (Codec.compress (Codec.bound writer.codec block.length).2 block window).result window =
        .done payload → Frame.dataLimit < Frame.dataLength payload.length →
      Compresses writer block (.error e, { writer with codec, compressed })
  | packed {codec : κ} {compressed : Scratch} {window payload : Bytes} :
      Codec.Later writer.codec codec → compressed.limit = writer.compressed.limit →
      window.length = (Codec.bound writer.codec block.length).1 →
      (Codec.compress (Codec.bound writer.codec block.length).2 block window).result window =
        .done payload → Frame.dataLength payload.length ≤ Frame.dataLimit →
      compressed.front payload.length = some payload →
      Compresses writer block (.ok payload.length, { writer with codec, compressed })

theorem compress_unreserved {block : Bytes}
    (large : writer.compressed.limit < (Codec.bound writer.codec block.length).1) :
    writer.compress block =
      (.error (.blockTooLarge (Codec.bound writer.codec block.length).1 writer.compressed.limit),
        { writer with codec := (Codec.bound writer.codec block.length).2 }) := by
  simp only [compress, Scratch.reserve, gt_iff_lt, if_pos large]

/-- With room for what the codec asks for, its result in some window decides. -/
theorem compress_reserved (bounded : Codec.Bounded writer.codec) {block : Bytes}
    (piece : Codec.Piece block)
    (small : (Codec.bound writer.codec block.length).1 ≤ writer.compressed.limit) :
    ∃ (window : Bytes) (compressed : Scratch),
      let reply := Codec.compress (Codec.bound writer.codec block.length).2 block window
      let after : Writer κ := { writer with codec := reply.codec, compressed }
      window.length = (Codec.bound writer.codec block.length).1 ∧
      compressed.limit = writer.compressed.limit ∧
      ((∃ e, reply.result window = .failed e ∧ writer.compress block = (.error e, after)) ∨
        ∃ payload, reply.result window = .done payload ∧
          compressed.front payload.length = some payload ∧
          writer.compress block =
            (if Frame.dataLength payload.length > Frame.dataLimit then
              .error (.blockTooLarge (Frame.dataLength payload.length) Frame.dataLimit)
            else .ok payload.length, after)) := by
  obtain ⟨grown, reserved, limit, room⟩ := Scratch.reserve_of_le small
  have inside := bounded writer.codec .now block piece
  unfold compress
  generalize Codec.bound writer.codec block.length = asked at room reserved inside ⊢
  obtain ⟨bound, codec⟩ := asked
  dsimp only at room reserved inside ⊢
  rw [reserved]
  have length := Scratch.length_window room
  refine ⟨grown.window bound, grown.store bound
    (Codec.compress codec block (grown.window bound)).written, length, limit, ?_⟩
  dsimp only
  cases result : (Codec.compress codec block (grown.window bound)).result (grown.window bound) with
  | overrun => exact absurd result (inside _ length)
  | failed e =>
    rw [Codec.Reply.of_failed result]
    exact .inl ⟨e, rfl, rfl⟩
  | done payload =>
    obtain ⟨claim, claimed, content⟩ := Codec.Reply.of_result result
    rw [length] at claimed
    rw [claim]
    refine .inr ⟨payload, rfl, ?_, ?_⟩
    · have long : payload.length ≤ (grown.store bound
          (Codec.compress codec block (grown.window bound)).written).data.length := by
        rw [Scratch.length_store]
        exact Nat.le_trans claimed room
      rw [Scratch.front, if_pos long]
      exact congrArg some ((Scratch.store_window _ room claimed).trans content)
    · dsimp only
      split <;> rfl

theorem compress_compresses (bounded : Codec.Bounded writer.codec) {block : Bytes}
    (piece : Codec.Piece block) : Compresses writer block (writer.compress block) := by
  have start : Codec.Later writer.codec writer.codec := .now
  have asked := start.bound block.length
  by_cases small : (Codec.bound writer.codec block.length).1 ≤ writer.compressed.limit
  · obtain ⟨window, compressed, length, limit, answered⟩ := compress_reserved bounded piece small
    rcases answered with ⟨e, failed, answer⟩ | ⟨payload, done, front, answer⟩
    · rw [answer]
      exact .failed (asked.compress block window) limit length failed
    · rw [answer]
      split
      · rename_i long
        exact .oversized (asked.compress block window) limit length done long
      · rename_i fits
        exact .packed (asked.compress block window) limit length done (Nat.not_lt.mp fits) front
  · have large := Nat.not_le.mp small
    rw [compress_unreserved large]
    exact .unreserved asked large

end Compress

section Blocks

variable {writer middle after : Writer κ} {frame : Bytes}

structure Retains (writer after : Writer κ) : Prop where
  codec : Codec.Later writer.codec after.codec
  limit : after.compressed.limit = writer.compressed.limit

theorem Retains.trans (first : writer.Retains middle) (second : middle.Retains after) :
    writer.Retains after :=
  ⟨first.codec.trans second.codec, second.limit.trans first.limit⟩

/-- What becomes of a plan: its intended stream is written like any other bytes. -/
inductive Carries (writer : Writer κ) (plan : Plan) : Outcome Error Unit × Writer κ → Prop
  | all {after : Writer κ} :
      writer.sink.writeAll (writer.intended plan.frames) = (.ok (), after.sink) →
      (after.identified = true ↔ writer.identified = true ∨ plan.frames ≠ []) →
      after.blocks = writer.blocks + plan.frames.length → writer.Retains after →
      Carries writer plan (plan.outcome, after)
  | torn {frames behind : List Bytes} {frame : Bytes} {after : Writer κ} {f : Fault} :
      plan.frames = frames ++ frame :: behind →
      writer.sink.writeAll (writer.intended plan.frames) = (.error f, after.sink) →
      writer.Cut frames frame after → writer.Retains after →
      Carries writer plan (.failed (.io f), after)

/-- Compressing goes before, and nothing but its own results is different after it. -/
theorem Carries.start {codec : κ} {compressed : Scratch} {plan : Plan}
    {result : Outcome Error Unit × Writer κ}
    (retains : writer.Retains { writer with codec, compressed })
    (h : ({ writer with codec, compressed } : Writer κ).Carries plan result) :
    writer.Carries plan result := by
  cases h with
  | all ends identified count more => exact .all ends identified count (retains.trans more)
  | torn split ends cut more =>
    exact .torn split ends ⟨cut.gained, cut.blocks⟩ (retains.trans more)

theorem Carries.first {f : Fault} {later : Plan}
    (wrote : writer.sink.writeAll (writer.due ++ frame) = (.error f, after.sink))
    (cut : writer.Cut [] frame after) (retains : writer.Retains after) :
    writer.Carries ⟨frame :: later.frames, later.refusal⟩ (.failed (.io f), after) := by
  have joined := Sink.write_all_append writer.sink (writer.due ++ frame) later.frames.flatten
  rw [wrote, ← intended_cons] at joined
  exact .torn rfl joined cut retains

theorem Carries.cons {later : Plan} {result : Outcome Error Unit × Writer κ}
    (wrote : writer.sink.writeAll (writer.due ++ frame) = (.ok (), middle.sink))
    (known : middle.identified = true) (blocks : middle.blocks = writer.blocks + 1)
    (retains : writer.Retains middle) (rest : middle.Carries later result) :
    writer.Carries ⟨frame :: later.frames, later.refusal⟩ result := by
  have joined := Sink.write_all_append writer.sink (writer.due ++ frame) later.frames.flatten
  rw [wrote, ← intended_cons] at joined
  dsimp only at joined
  cases rest with
  | all ends identified count more =>
    rw [intended_known known] at ends
    refine .all (joined.trans ends) ?_ ?_ (retains.trans more)
    · exact identified.trans (iff_of_true (.inl known) (.inr nofun))
    · rw [count, blocks, List.length_cons]
      omega
  | torn split ends cut more =>
    rw [intended_known known] at ends
    exact .torn (congrArg (frame :: ·) split) (joined.trans ends)
      (.cons wrote known blocks cut) (retains.trans more)

theorem send_block_eq (writer : Writer κ) (block : Bytes) :
    writer.sendBlock block =
      match writer.compress block with
      | (.error e, after) => (.failed e, after)
      | (.ok count, after) => after.sendItem block count := rfl

theorem send_blocks_carries (bounded : Codec.Bounded writer.codec) {blocks : List Bytes}
    (pieces : ∀ block ∈ blocks, Codec.Piece block) :
    Carries writer (writer.plan blocks) (writer.sendBlocks blocks) := by
  induction blocks generalizing writer with
  | nil => exact .all (intended_nil writer) (by simp [plan]) rfl ⟨.now, rfl⟩
  | cons block rest ih =>
    have compresses := compress_compresses bounded (pieces block List.mem_cons_self)
    have others : ∀ other ∈ rest, Codec.Piece other := fun other mem =>
      pieces other (List.mem_cons_of_mem _ mem)
    unfold sendBlocks plan
    rw [send_block_eq]
    generalize writer.compress block = packed at compresses ⊢
    cases compresses with
    | unreserved later _ => exact .all (intended_nil writer) (by simp) rfl ⟨later, rfl⟩
    | failed later limit _ _ => exact .all (intended_nil writer) (by simp) rfl ⟨later, limit⟩
    | oversized later limit _ _ _ =>
      exact .all (intended_nil writer) (by simp) rfl ⟨later, limit⟩
    | @packed codec compressed window payload later limit _ _ fits front =>
      let packed : Writer κ := { writer with codec, compressed }
      have kept : packed.compressed.front payload.length = some payload := front
      have emits := send_item_emits fits kept block
      have window : compressed.window payload.length = payload := Scratch.window_of_front front
      dsimp only
      rw [window]
      generalize packed.sendItem block payload.length = sent at emits ⊢
      have prepared : writer.Retains packed := ⟨later, limit⟩
      refine .start prepared ?_
      cases emits with
      | torn wrote codecs scratches identified blocks =>
        exact .first wrote (.first wrote identified blocks)
          ⟨codecs ▸ .now, congrArg _ scratches⟩
      | whole wrote codecs scratches known blocks =>
        have retains : packed.Retains _ := ⟨codecs ▸ .now, congrArg _ scratches⟩
        have behind := ih ((bounded.later later).later retains.codec) others
        rw [plan_congr codecs scratches] at behind
        exact .cons wrote known blocks retains behind

theorem write_frames_carries (bounded : Codec.Bounded writer.codec) (data : Bytes) :
    Carries writer (writer.plan (Bytes.pieces Frame.pieceSize piece_size_pos data))
      (writer.writeFrames data) :=
  send_blocks_carries bounded fun _ => Bytes.mem_pieces

end Blocks

end Writer

end FramedSnappy
