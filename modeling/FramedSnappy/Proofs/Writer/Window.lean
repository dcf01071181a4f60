import FramedSnappy.Proofs.Codec.Scripted
import FramedSnappy.Proofs.Memory
import FramedSnappy.Proofs.Writer.Operation

/-! What a writer sends for a codec that claims more bytes than its window has. The payload of a
frame is cut from the whole scratch buffer, so such a claim lays hands on what earlier blocks have
left behind the window, and can reach past the end of the buffer when the header is already sent. -/
namespace FramedSnappy

/-- What a codec was lent for a block, and what it claims to have made of it. -/
structure Loan where
  block : Bytes
  /-- The window, as the codec has left it. -/
  window : Bytes
  /-- The scratch buffer behind the window, as earlier blocks have left it. -/
  behind : Bytes
  claim : Nat
  deriving DecidableEq

/-- The loans of a call up to the first one that ends it, and how it ends. -/
structure Ledger where
  loans : List Loan
  ending : Outcome Error Unit
  deriving DecidableEq

namespace Scratch

/-- After a window has been written, the buffer is the window and what has stood behind it. -/
theorem store_reserved {scratch grown : Scratch} {length : Nat}
    (reserved : scratch.reserve length = .ok grown) (written : Bytes) :
    let stored := grown.store length written
    stored.data = stored.window length ++ scratch.data.drop length := by
  intro stored
  have small : length ≤ scratch.limit := by
    by_contra large
    rw [reserve, if_pos (Nat.not_le.mp large)] at reserved
    cases reserved
  rw [reserve_eq small] at reserved
  cases reserved
  have room : length ≤ (scratch.data ++ List.replicate (length - scratch.data.length) 0).length := by
    simp only [List.length_append, List.length_replicate]
    omega
  have behind : stored.data.drop length = scratch.data.drop length := by
    refine (List.drop_left' ?_).trans ?_
    · rw [Bytes.length_overlay]
      exact length_window room
    · simp [List.drop_append]
  rw [← behind]
  exact (List.take_append_drop length stored.data).symm

end Scratch

namespace Frame

theorem length_front (block : Bytes) (size : Nat) : (front block size).length = 8 := by
  simp [front, checksumSize]

theorem front_inj {block other : Bytes} {size size' : Nat} (fits : size ≤ compressedLimit)
    (fits' : size' ≤ compressedLimit) (same : front block size = front other size') :
    size = size' := by
  have small {size : Nat} (fits : size ≤ compressedLimit) : dataLength size < 256 ^ 3 :=
    Nat.lt_succ_of_le (Nat.le_trans (data_length_le fits) data_limit_le)
  simp only [front, List.cons_append, List.cons.injEq, true_and] at same
  have lengths := (List.append_inj same (by simp)).1
  have equal := congrArg Bytes.ofLittleEndian lengths
  rw [Bytes.of_little_endian (small fits), Bytes.of_little_endian (small fits'),
    data_length_exact fits, data_length_exact fits'] at equal
  exact Nat.add_right_cancel equal

end Frame

namespace Loan

variable {loan : Loan} {payload : Bytes}

def stored (loan : Loan) : Bytes := loan.window ++ loan.behind

/-- What reaches the sink: a whole frame, or no more than its header if the scratch buffer ends before
the claim does. -/
def sent (loan : Loan) : Bytes :=
  Frame.front loan.block loan.claim ++
    if loan.claim ≤ loan.stored.length then loan.stored.take loan.claim else []

theorem sent_covered (covered : loan.claim ≤ loan.stored.length) :
    loan.sent = Frame.around loan.block (loan.stored.take loan.claim) := by
  rw [sent, if_pos covered, Frame.around, List.length_take_of_le covered]

theorem sent_uncovered (short : loan.stored.length < loan.claim) :
    loan.sent = Frame.front loan.block loan.claim := by
  rw [sent, if_neg (Nat.not_le.mpr short), List.append_nil]

theorem covered_of_inside (inside : loan.claim ≤ loan.window.length) :
    loan.claim ≤ loan.stored.length := by
  simp only [stored, List.length_append]
  omega

/-- A claim that stays inside the window takes nothing from behind it. -/
theorem payload_of_inside (inside : loan.claim ≤ loan.window.length) :
    loan.stored.take loan.claim <+: loan.window := by
  rw [stored, List.take_append_of_le_length inside]
  exact List.take_prefix _ _

/-- A claim that does not is paid with the bytes there, as long as there are any. -/
theorem sent_of_outside (outside : loan.window.length ≤ loan.claim) :
    loan.sent = if loan.claim ≤ loan.stored.length then
      Frame.around loan.block (loan.window ++ loan.behind.take (loan.claim - loan.window.length))
    else Frame.front loan.block loan.claim := by
  split
  · rename_i covered
    rw [sent_covered covered, stored, List.take_append, List.take_of_length_le outside]
  · rename_i short
    exact sent_uncovered (Nat.not_le.mp short)

/-- The buffer keeps to its limit, and what is claimed passes for the data of a frame. It does so too
if it is so much that the length of the frame has wrapped. -/
structure Fits (loan : Loan) : Prop where
  stored : loan.stored.length ≤ Frame.compressedLimit
  claim : Frame.dataLength loan.claim ≤ Frame.dataLimit

theorem Fits.inside_of_sent (fits : loan.Fits) {rest rest' : Bytes}
    (covered : loan.claim ≤ loan.stored.length) (within : payload <+: loan.window)
    (same : loan.sent ++ rest = Frame.around loan.block payload ++ rest') :
    loan.claim ≤ loan.window.length ∧ rest = rest' := by
  rw [sent_covered covered, Frame.around, Frame.around, List.append_assoc,
    List.append_assoc, List.length_take_of_le covered] at same
  obtain ⟨headers, behind⟩ := List.append_inj same (by simp only [Frame.length_front])
  have windowed : payload.length ≤ loan.stored.length :=
    (within.trans (List.prefix_append _ _)).length_le
  have size := Frame.front_inj (Nat.le_trans covered fits.stored)
    (Nat.le_trans windowed fits.stored) headers
  have whole : (loan.stored.take loan.claim).length = payload.length := by
    rw [List.length_take_of_le covered, size]
  exact ⟨size ▸ within.length_le, (List.append_inj behind whole).2⟩

end Loan

namespace Writer

variable {κ : Type} {writer other after : Writer κ} {block : Bytes} {claim : Nat}

theorem send_willing (willing : writer.sink.Willing) (data : Bytes) :
    ∃ sink, writer.send data = (.ok (), { writer with sink }) ∧ sink.Willing ∧
      sink.received.toList = writer.sink.received.toList ++ data := by
  obtain ⟨done, able⟩ := Sink.write_all_willing willing data
  rcases wrote : writer.sink.writeAll data with ⟨result, sink⟩
  rw [wrote] at done able
  obtain rfl : result = .ok () := done
  refine ⟨sink, ?_, able, Sink.write_all_received wrote⟩
  rw [send, wrote]

theorem send_identifier_willing (willing : writer.sink.Willing) :
    ∃ after, writer.sendIdentifier = (.ok (), after) ∧ after.sink.Willing ∧
      after.sink.received.toList = writer.sink.received.toList ++ writer.due ∧
      after.compressed = writer.compressed := by
  cases known : writer.identified with
  | true => exact ⟨writer, if_pos known, willing, by simp [due_known known], rfl⟩
  | false =>
    obtain ⟨sink, sent, able, received⟩ := send_willing willing Frame.streamIdentifier
    refine ⟨{ writer with sink, identified := true }.report .wroteStreamIdentifier, ?_, able, ?_, rfl⟩
    · rw [sendIdentifier, if_neg (Bool.eq_false_iff.mp known), sent]
    · rw [due_new known]
      exact received

/-- The buffer ends before the claim does, which shows when the header has been sent. -/
theorem send_item_overruns (willing : writer.sink.Willing)
    (fits : Frame.dataLength claim ≤ Frame.dataLimit)
    (short : writer.compressed.data.length < claim) (block : Bytes) :
    ∃ after, writer.sendItem block claim = (.overrun, after) ∧ after.sink.Willing ∧
      after.sink.received.toList =
        writer.sink.received.toList ++ (writer.due ++ Frame.front block claim) := by
  obtain ⟨middle, opened, able, identifier, kept⟩ := send_identifier_willing willing
  obtain ⟨sink, sent, able, header⟩ := send_willing able (Frame.front block claim)
  refine ⟨{ middle with sink }, ?_, able, ?_⟩
  · have none : middle.compressed.front claim = none := by
      rw [kept, Scratch.front, if_neg (Nat.not_le.mpr short)]
    simp only [sendItem, opened, sendFrame, Frame.data_header_front fits, sent, sendPayload, none]
  · rw [header, identifier, List.append_assoc]

/-- The scratch buffer holds as much as is claimed. -/
theorem send_item_covers {loan : Loan} (willing : writer.sink.Willing) (fits : loan.Fits)
    (lent : writer.compressed.data = loan.stored) (covered : loan.claim ≤ loan.stored.length) :
    ∃ after, writer.sendItem loan.block loan.claim = (.done (), after) ∧ after.sink.Willing ∧
      after.sink.received.toList = writer.sink.received.toList ++ (writer.due ++ loan.sent) ∧
      after.identified = true ∧ after.codec = writer.codec ∧
      after.compressed = writer.compressed := by
  have size : (loan.stored.take loan.claim).length = loan.claim := List.length_take_of_le covered
  have front : writer.compressed.front (loan.stored.take loan.claim).length =
      some (loan.stored.take loan.claim) := by
    rw [size, Scratch.front, lent, if_pos covered]
  have emits := send_item_emits (size.symm ▸ fits.claim) front loan.block
  obtain ⟨done, able⟩ := Sink.write_all_willing willing
    (writer.due ++ Frame.around loan.block (loan.stored.take loan.claim))
  rw [size] at emits
  generalize writer.sendItem loan.block loan.claim = result at emits ⊢
  cases emits with
  | whole wrote codec compressed identified _ =>
    rw [wrote] at able
    exact ⟨_, rfl, able, Loan.sent_covered covered ▸ Sink.write_all_received wrote, identified,
      codec, compressed⟩
  | torn wrote =>
    rw [wrote] at done
    cases done

variable [Codec κ]

/-- The loan that `compress` has made when it leaves `after`. -/
def loan (writer : Writer κ) (block : Bytes) (claim : Nat) (after : Writer κ) : Loan :=
  let bound := (Codec.bound writer.codec block.length).1
  ⟨block, after.compressed.window bound, writer.compressed.data.drop bound, claim⟩

def ledger (writer : Writer κ) : List Bytes → Ledger
  | [] => ⟨[], .done ()⟩
  | block :: rest =>
    match writer.compress block with
    | (.error e, _) => ⟨[], .failed e⟩
    | (.ok claim, after) =>
      let loan := writer.loan block claim after
      if claim ≤ loan.stored.length then
        let later := after.ledger rest
        ⟨loan :: later.loans, later.ending⟩
      else ⟨[loan], .overrun⟩

theorem ledger_congr (codec : writer.codec = other.codec)
    (compressed : writer.compressed = other.compressed) (blocks : List Bytes) :
    writer.ledger blocks = other.ledger blocks := by
  induction blocks generalizing writer other with
  | nil => rfl
  | cons block rest ih =>
    obtain ⟨answer, codecs, scratches⟩ := compress_congr codec compressed block
    unfold ledger
    rcases h : writer.compress block with ⟨result, after⟩
    rcases h' : other.compress block with ⟨result', after'⟩
    rw [h, h'] at answer codecs scratches
    dsimp only at answer codecs scratches
    subst answer
    cases result with
    | error e => rfl
    | ok claim =>
      have same : writer.loan block claim after = other.loan block claim after' := by
        simp only [loan, codec, compressed, scratches]
      dsimp only
      rw [same, ih codecs scratches]

/-- Whatever the codec does, the rest of the writer is left alone. -/
theorem compress_leaves (writer : Writer κ) (block : Bytes) :
    let after := (writer.compress block).2
    after.sink = writer.sink ∧ after.identified = writer.identified := by
  unfold compress
  rcases Codec.bound writer.codec block.length with ⟨bound, codec⟩
  dsimp only
  cases writer.compressed.reserve bound with
  | error e => exact ⟨rfl, rfl⟩
  | ok grown =>
    dsimp only
    cases (Codec.compress codec block (grown.window bound)).count with
    | error e => exact ⟨rfl, rfl⟩
    | ok count =>
      dsimp only
      split <;> exact ⟨rfl, rfl⟩

/-- The codec has been asked, has answered in its window, and its claim fits a frame. -/
theorem compress_asks (done : writer.compress block = (.ok claim, after)) :
    let (bound, codec) := Codec.bound writer.codec block.length
    ∃ grown, writer.compressed.reserve bound = .ok grown ∧
      let reply := Codec.compress codec block (grown.window bound)
      reply.count = .ok claim ∧ Frame.dataLength claim ≤ Frame.dataLimit ∧
      after = { writer with
        codec := reply.codec, compressed := grown.store bound reply.written } := by
  unfold compress at done
  generalize Codec.bound writer.codec block.length = asked at done ⊢
  obtain ⟨bound, codec⟩ := asked
  dsimp only at done ⊢
  cases reserved : writer.compressed.reserve bound with
  | error e =>
    rw [reserved] at done
    cases done
  | ok grown =>
    rw [reserved] at done
    refine ⟨grown, rfl, ?_⟩
    dsimp only at done ⊢
    cases answered : (Codec.compress codec block (grown.window bound)).count with
    | error e =>
      rw [answered] at done
      cases done
    | ok count =>
      rw [answered] at done
      dsimp only at done
      split at done
      · cases done
      · rename_i small
        cases done
        exact ⟨rfl, Nat.not_lt.mp small, rfl⟩

/-- The scratch buffer is the window and, behind it, what was there before. -/
theorem compress_lends (compact : writer.Compact) (done : writer.compress block = (.ok claim, after)) :
    let loan := writer.loan block claim after
    after.compressed.data = loan.stored ∧ loan.Fits := by
  have asks := compress_asks done
  have kept := compact.compress block
  rw [done] at kept
  intro loan
  dsimp only at asks
  obtain ⟨grown, reserved, -, fits, left⟩ := asks
  have data : after.compressed.data = loan.stored := by
    subst left
    exact Scratch.store_reserved reserved _
  exact ⟨data, data ▸ kept.length, fits⟩

/-- All that a call does at a sink that never fails. -/
structure Ships (writer : Writer κ) (ledger : Ledger) (result : Outcome Error Unit × Writer κ) :
    Prop where
  ending : result.1 = ledger.ending
  received : result.2.sink.received.toList =
    writer.sink.received.toList ++ writer.intended (ledger.loans.map (·.sent))
  willing : result.2.sink.Willing

theorem send_blocks_ships (compact : writer.Compact) (willing : writer.sink.Willing)
    (blocks : List Bytes) : writer.Ships (writer.ledger blocks) (writer.sendBlocks blocks) := by
  induction blocks generalizing writer with
  | nil => exact ⟨rfl, (List.append_nil _).symm, willing⟩
  | cons block rest ih =>
    obtain ⟨sink, identified⟩ := compress_leaves writer block
    have kept := compact.compress block
    unfold ledger sendBlocks
    rw [send_block_eq]
    rcases packed : writer.compress block with ⟨_ | claim, after⟩
    all_goals
      rw [packed] at sink identified kept
      dsimp only at sink identified kept ⊢
    case error e => exact ⟨rfl, by simp [sink, intended], sink ▸ willing⟩
    case ok =>
      obtain ⟨lent, fits⟩ := compress_lends compact packed
      have able : after.sink.Willing := sink ▸ willing
      have due : after.due = writer.due := by rw [Writer.due, identified, Writer.due]
      by_cases covered : claim ≤ (writer.loan block claim after).stored.length
      · obtain ⟨middle, sent, able, received, known, codec, compressed⟩ :=
          send_item_covers able fits lent covered
        have behind := ih (kept.of_eq compressed) able
        rw [ledger_congr codec compressed] at behind
        rw [if_pos covered]
        have sent : after.sendItem block claim = (.done (), middle) := sent
        rw [sent]
        refine ⟨behind.ending, ?_, behind.willing⟩
        rw [behind.received, received, intended_known known, List.map_cons, intended_cons, due, sink]
        simp only [List.append_assoc]
      · have short := lent ▸ Nat.not_le.mp covered
        have claimed : Frame.dataLength claim ≤ Frame.dataLimit := fits.claim
        obtain ⟨last, sent, able, received⟩ := send_item_overruns able claimed short block
        have only : (writer.loan block claim after).sent = Frame.front block claim :=
          Loan.sent_uncovered (Nat.not_le.mp covered)
        rw [if_neg covered, sent]
        refine ⟨rfl, ?_, able⟩
        rw [received, due, sink, List.map_cons, intended_cons, only]
        simp

theorem ledger_fits (compact : writer.Compact) {blocks : List Bytes} :
    ∀ loan ∈ (writer.ledger blocks).loans, loan.Fits := by
  induction blocks generalizing writer with
  | nil => exact nofun
  | cons block rest ih =>
    have kept := compact.compress block
    unfold ledger
    rcases packed : writer.compress block with ⟨_ | claim, after⟩
    case error e => exact nofun
    case ok =>
      rw [packed] at kept
      obtain ⟨-, fits⟩ := compress_lends compact packed
      dsimp only
      split
      · exact List.forall_mem_cons.mpr ⟨fits, ih kept⟩
      · exact List.forall_mem_cons.mpr ⟨fits, nofun⟩

theorem ledger_overrun (writer : Writer κ) (blocks : List Bytes) :
    (writer.ledger blocks).ending = .overrun ↔
      ∃ loan ∈ (writer.ledger blocks).loans, loan.stored.length < loan.claim := by
  induction blocks generalizing writer with
  | nil => simp [ledger]
  | cons block rest ih =>
    unfold ledger
    rcases writer.compress block with ⟨_ | claim, after⟩
    case error e => simp
    case ok =>
      dsimp only
      split
      · rename_i covered
        have paid : ¬ (writer.loan block claim after).stored.length < claim := Nat.not_lt.mpr covered
        simp only [List.mem_cons, exists_eq_or_imp, ih, loan] at paid ⊢
        simp [paid]
      · rename_i short
        simpa [loan] using Nat.not_le.mp short

/-- What one operation does comes to framing data and flushing. -/
theorem perform_keeps (holds : Writer κ → Prop)
    (frames : ∀ writer data, holds writer → holds (writer.writeFrames data).2)
    (flushes : ∀ writer, holds writer → holds writer.flush.2) {operation : WriterOperation}
    (plain : operation.Plain) (start : holds writer) : holds (writer.perform operation).2 := by
  have once (writer : Writer κ) (data : Bytes) (start : holds writer) :
      holds (writer.write data).2 := frames writer data start
  cases operation with
  | write data =>
    have wrote := once writer data start
    simp only [perform]
    generalize writer.write data = result at wrote ⊢
    rcases result with ⟨_ | _ | _, after⟩ <;> exact wrote
  | writeFrames data =>
    have wrote := frames writer data start
    simp only [perform]
    generalize writer.writeFrames data = result at wrote ⊢
    rcases result with ⟨_ | _ | _, after⟩ <;> exact wrote
  | writeAll data patience =>
    have wrote : holds (writer.writeAll patience data).2 := by
      revert start
      refine write_all_elim (fun writer start => once writer data start) ?_ patience writer
      intro writer middle e result failed _ rest start
      have wrote := once writer data start
      rw [failed] at wrote
      exact rest wrote
    simp only [perform]
    generalize writer.writeAll patience data = result at wrote ⊢
    rcases result with ⟨_ | _ | _, after⟩ <;> exact wrote
  | flush =>
    have flushed := flushes writer start
    simp only [perform]
    generalize writer.flush = result at flushed ⊢
    rcases result with ⟨_ | _, after⟩ <;> exact flushed
  | raw data => exact plain.elim
  | feed events => exact plain.elim

/-- The loans of `writeFrames`. -/
def account (writer : Writer κ) (data : Bytes) : Ledger :=
  writer.ledger (Bytes.pieces Frame.pieceSize piece_size_pos data)

/-- The call comes to an end, and all it has sent are frames whose payloads lie in the windows of
their blocks. -/
def Contained (writer : Writer κ) (data : Bytes) : Prop :=
  (writer.writeFrames data).1 ≠ .overrun ∧ ∃ payloads,
    List.Forall₂ (fun loan payload => payload <+: loan.window)
      (writer.account data).loans payloads ∧
    (writer.writeFrames data).2.sink.received.toList = writer.sink.received.toList ++
      writer.intended (List.zipWith (fun loan payload => Frame.around loan.block payload)
        (writer.account data).loans payloads)

theorem perform_all_steady (compact : writer.Compact) (willing : writer.sink.Willing)
    {history : List WriterOperation} (plain : ∀ operation ∈ history, operation.Plain) :
    (writer.performAll history).Compact ∧ (writer.performAll history).sink.Willing := by
  induction history generalizing writer with
  | nil => exact ⟨compact, willing⟩
  | cons operation rest ih =>
    obtain ⟨first, others⟩ := List.forall_mem_cons.mp plain
    obtain ⟨compact, willing⟩ := perform_keeps (fun now => now.Compact ∧ now.sink.Willing)
      (fun now data start =>
        ⟨start.1.send_blocks _, (send_blocks_ships start.1 start.2 _).willing⟩)
      (fun now start => ⟨start.1.of_eq rfl, (Sink.flush_willing start.2).2.1⟩) first
      ⟨compact, willing⟩
    exact ih compact willing others

theorem inside_of_frames {loans : List Loan} {payloads : List Bytes}
    (fits : ∀ loan ∈ loans, loan.Fits)
    (covered : ∀ loan ∈ loans, loan.claim ≤ loan.stored.length)
    (within : List.Forall₂ (fun loan payload => payload <+: loan.window) loans payloads)
    (same : (loans.map (·.sent)).flatten =
      (List.zipWith (fun loan payload => Frame.around loan.block payload) loans payloads).flatten) :
    ∀ loan ∈ loans, loan.claim ≤ loan.window.length := by
  induction within with
  | nil => exact nofun
  | @cons loan payload rest payloads front _ ih =>
    simp only [List.forall_mem_cons] at fits covered ⊢
    rw [List.map_cons, List.zipWith_cons_cons, List.flatten_cons, List.flatten_cons] at same
    obtain ⟨inside, behind⟩ := fits.1.inside_of_sent covered.1 front same
    exact ⟨inside, ih fits.2 covered.2 behind⟩

theorem frames_of_inside {loans : List Loan}
    (inside : ∀ loan ∈ loans, loan.claim ≤ loan.window.length) :
    ∃ payloads, List.Forall₂ (fun loan payload => payload <+: loan.window) loans payloads ∧
      loans.map (·.sent) =
        List.zipWith (fun loan payload => Frame.around loan.block payload) loans payloads := by
  induction loans with
  | nil => exact ⟨[], .nil, rfl⟩
  | cons loan rest ih =>
    obtain ⟨first, others⟩ := List.forall_mem_cons.mp inside
    obtain ⟨payloads, within, same⟩ := ih others
    refine ⟨loan.stored.take loan.claim :: payloads, .cons (Loan.payload_of_inside first) within, ?_⟩
    rw [List.map_cons, List.zipWith_cons_cons, same,
      Loan.sent_covered (Loan.covered_of_inside first)]

theorem Ships.contained_iff {data : Bytes} (compact : writer.Compact)
    (ships : writer.Ships (writer.account data) (writer.writeFrames data)) :
    writer.Contained data ↔
      ∀ loan ∈ (writer.account data).loans, loan.claim ≤ loan.window.length := by
  have fits : ∀ loan ∈ (writer.account data).loans, loan.Fits := ledger_fits compact
  have overrun : (writer.writeFrames data).1 = .overrun ↔
      ∃ loan ∈ (writer.account data).loans, loan.stored.length < loan.claim :=
    ships.ending ▸ ledger_overrun writer _
  unfold Contained
  rw [ships.received]
  generalize (writer.account data).loans = loans at fits overrun ⊢
  constructor
  · rintro ⟨ends, payloads, within, same⟩
    have covered : ∀ loan ∈ loans, loan.claim ≤ loan.stored.length := fun loan mem =>
      Nat.not_lt.mp fun short => ends (overrun.mpr ⟨loan, mem, short⟩)
    refine inside_of_frames fits covered within ?_
    have same := List.append_cancel_left same
    cases within with
    | nil => rfl
    | cons front more =>
      rw [List.map_cons, List.zipWith_cons_cons, intended_cons, intended_cons, List.append_assoc,
        List.append_assoc] at same
      exact List.append_cancel_left same
  · intro inside
    obtain ⟨payloads, within, same⟩ := frames_of_inside inside
    refine ⟨fun ends => ?_, payloads, within, by rw [same]⟩
    obtain ⟨loan, mem, short⟩ := overrun.mp ends
    exact absurd (Loan.covered_of_inside (inside loan mem)) (Nat.not_le.mpr short)

/-- A call at a sink that never fails sends one frame for every block that the codec has accepted, up
to an overrun if there is one. A claim past the window is paid with bytes of earlier blocks, or with a
lone header. So what is sent comes from the windows of its own blocks if and only if the codec claims
no more than its windows hold. -/
theorem contained_iff_inside (codec : κ) {sink : Sink} (willing : sink.Willing)
    {history : List WriterOperation} (plain : ∀ operation ∈ history, operation.Plain)
    (data : Bytes) :
    let writer := (ofSink sink codec).performAll history
    let loans := (writer.account data).loans
    let sent := writer.writeFrames data
    sent.1 = (writer.account data).ending ∧
    sent.2.sink.received.toList =
      writer.sink.received.toList ++ writer.intended (loans.map (·.sent)) ∧
    (∀ loan ∈ loans, loan.window.length ≤ loan.claim → loan.sent =
      if loan.claim ≤ loan.stored.length then
        Frame.around loan.block
          (loan.window ++ loan.behind.take (loan.claim - loan.window.length))
      else Frame.front loan.block loan.claim) ∧
    (sent.1 = .overrun ↔ ∃ loan ∈ loans, loan.stored.length < loan.claim) ∧
    (writer.Contained data ↔ ∀ loan ∈ loans, loan.claim ≤ loan.window.length) := by
  intro writer loans sent
  obtain ⟨compact, willing⟩ := perform_all_steady (compact_of_sink sink codec) willing plain
  have ships : writer.Ships (writer.account data) sent := send_blocks_ships compact willing _
  refine ⟨ships.ending, ships.received, fun loan _ => Loan.sent_of_outside, ?_,
    ships.contained_iff compact⟩
  rw [ships.ending]
  exact ledger_overrun writer _

/-- Claims one byte more than it has written, and fails at its first block. -/
def boastful : Codec.Scripted :=
  { Codec.Scripted.honest with
    compressShift := 1, failCompress := some (1, .compression .empty) }

theorem boastful_not_contained :
    let history : List WriterOperation := [.writeFrames [1, 2, 3, 4], .writeFrames [0x61, 0x62]]
    let writer := (ofSink .plain boastful).performAll history
    (writer.writeFrames [0x63]).1 ≠ .overrun ∧ ¬ writer.Contained [0x63] := by
  intro history writer
  have plain : ∀ operation ∈ history, operation.Plain := by
    simp [history, WriterOperation.Plain]
  obtain ⟨-, -, -, overrun, contained⟩ :=
    contained_iff_inside boastful Sink.plain_willing plain [0x63]
  have loans : (writer.account [0x63]).loans = [⟨[0x63], [0x39], [0x38, 0, 0], 2⟩] := by
    decide +kernel
  rw [loans] at overrun contained
  refine ⟨fun ends => ?_, fun held => ?_⟩
  · obtain ⟨loan, mem, short⟩ := overrun.mp ends
    obtain rfl := List.mem_singleton.mp mem
    exact absurd short (by decide)
  · exact absurd (contained.mp held _ (List.mem_singleton.mpr rfl)) (by decide)

/-- The third block is sent with the last byte of the second one, and a block of five bytes is given
up when its header is already in the sink. -/
theorem earlier_byte_sent :
    let history : List WriterOperation := [.writeFrames [1, 2, 3, 4], .writeFrames [0x61, 0x62]]
    let writer := (ofSink .plain boastful).performAll history
    let before := writer.sink.received.toList
    let third := writer.writeFrames [0x63]
    let long := writer.writeFrames [1, 2, 3, 4, 5]
    (third.1 = .done () ∧ ¬ writer.Contained [0x63] ∧
      third.2.sink.received.toList = before ++ Frame.around [0x63] [0x39, 0x38]) ∧
    long.1 = .overrun ∧ ¬ writer.Contained [1, 2, 3, 4, 5] ∧
      long.2.sink.received.toList = before ++ Frame.front [1, 2, 3, 4, 5] 6 := by
  intro history writer before third long
  have loans : (writer.account [0x63]).loans = [⟨[0x63], [0x39], [0x38, 0, 0], 2⟩] := by
    decide +kernel
  have steady : writer.Compact ∧ writer.sink.Willing :=
    perform_all_steady (compact_of_sink .plain boastful) Sink.plain_willing
      (by simp [history, WriterOperation.Plain])
  have ships : writer.Ships (writer.account [0x63]) third :=
    send_blocks_ships steady.1 steady.2 _
  have overrun : long.1 = .overrun := by decide +kernel
  refine ⟨⟨by decide +kernel, fun held => ?_, by decide +kernel⟩, overrun,
    fun held => held.1 overrun, by decide +kernel⟩
  have inside := (ships.contained_iff steady.1).mp held
  rw [loans] at inside
  exact absurd (inside _ (List.mem_singleton.mpr rfl)) (by decide)

end Writer

end FramedSnappy
