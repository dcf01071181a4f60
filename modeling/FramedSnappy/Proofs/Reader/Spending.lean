import FramedSnappy.Proofs.Reader.Rejection
import FramedSnappy.Proofs.Source.Spending

/-! Operations come to an end. Every loop of the reader, down to the one that makes an interrupted
call again, uses up what the source has to say, and goes on only when all its calls are paid for.
So one operation makes no more calls than it uses up bytes and hitches, and one besides. -/
namespace FramedSnappy.Reader

open FramedSnappy.Frame (Parsed)

variable {κ : Type}

section Steps

/-- One call of the source at most is not paid for, and none if the step gets done. -/
def Charges (reader : Reader κ) {ε α : Type} (result : Outcome ε α × Reader κ) : Prop :=
  reader.source.Charged (∃ value, result.1 = .done value) result.2.source

theorem take_identifier_charges (reader : Reader κ) (length : Nat) :
    reader.Charges (reader.takeIdentifier length) := by
  have charged := reader.source.read_body_charged Frame.identifierBody.length
  unfold takeIdentifier
  split
  · exact .refl reader.source
  · split
    · rename_i h
      rw [h] at charged
      exact .stop charged.most nofun
    · rename_i body source h
      rw [h] at charged
      have paid : reader.source.Pays 0 source := charged.all ⟨body, rfl⟩
      dsimp only
      split
      · exact .of_paid paid
      · split
        · exact .of_paid paid
        · exact .of_paid paid

theorem skip_body_charged (reader : Reader κ) (length : Nat) :
    reader.source.Charged ((reader.skipBody length).1 = .ok ())
      (reader.skipBody length).2.source :=
  reader.source.skip_body_by_charged 8192 length

theorem skip_frame_charges (reader : Reader κ) (header : Frame.Header) :
    reader.Charges (reader.skipFrame header) := by
  have charged := reader.skip_body_charged header.length
  unfold skipFrame
  split
  · rename_i h
    rw [h] at charged
    exact .stop charged.most nofun
  · rename_i h
    rw [h] at charged
    exact .of_paid (charged.all rfl)

theorem refuse_frame_charges (reader : Reader κ) (tag : UInt8) (length : Nat) :
    reader.Charges (reader.refuseFrame tag length) := by
  have charged := reader.skip_body_charged length
  unfold refuseFrame
  split
  · rename_i h
    rw [h] at charged
    exact .stop charged.most nofun
  · rename_i h
    rw [h] at charged
    exact .of_paid (charged.all rfl)

theorem take_body_charged (reader : Reader κ) (length : Nat) :
    reader.source.Charged (∃ body, (reader.takeBody length).1 = .ok body)
      (reader.takeBody length).2.source := by
  have charged := reader.source.read_body_charged length
  unfold takeBody
  split
  · exact .refl reader.source
  · split
    · rename_i h
      rw [h] at charged
      exact .stop charged.most nofun
    · rename_i body source h
      rw [h] at charged
      exact .of_paid (charged.all ⟨body, rfl⟩)

variable [Codec κ]

theorem take_block_charges (reader : Reader κ) (header : Frame.Header) :
    reader.Charges (reader.takeBlock header) := by
  have charged := reader.take_body_charged header.length
  unfold takeBlock
  dsimp only
  split
  · exact .refl reader.source
  · split
    · exact .refl reader.source
    · split
      · rename_i h
        rw [h] at charged
        exact .stop charged.most nofun
      · rename_i body taken h
        rw [h] at charged
        have paid : reader.source.Pays 0 taken.source := charged.all ⟨body, rfl⟩
        -- the source is left alone from here on
        have decoded := source_decode_block taken header.chunkType (body.drop Frame.checksumSize)
        rw [← decoded] at paid
        split
        · rename_i h
          rw [h] at paid
          exact .of_paid paid
        · rename_i h
          rw [h] at paid
          exact .of_paid paid
        · rename_i last content h
          rw [h] at paid
          rw [Charges, source_accept]
          exact .of_paid paid

theorem take_frame_charges (reader : Reader κ) (header : Frame.Header) :
    reader.Charges (reader.takeFrame header) := by
  unfold takeFrame
  split
  · exact .refl reader.source
  · split
    · exact take_identifier_charges reader header.length
    · exact take_block_charges reader header
    · exact take_block_charges reader header
    · exact skip_frame_charges reader header
    · exact skip_frame_charges reader header
    · exact refuse_frame_charges reader _ header.length

theorem advance_charged (reader : Reader κ) :
    reader.source.Charged (∃ progress, reader.advance.1 = .done progress ∧ progress ≠ .ended)
      reader.advance.2.source := by
  have charged := reader.source.read_header_charged
  unfold advance
  split
  · rename_i h
    rw [h] at charged
    exact .stop charged.most nofun
  · rename_i h
    rw [h] at charged
    refine .stop charged.most ?_
    rintro ⟨progress, ended, there⟩
    cases ended
    exact there rfl
  · rename_i header source h
    rw [h] at charged
    have frame : Source.Charged source _ _ := take_frame_charges { reader with source } header
    have paid : reader.source.Pays 0 source := charged.all ⟨header, rfl⟩
    exact (frame.imp fun ⟨progress, done, _⟩ => ⟨progress, done⟩).prepend paid

theorem advance_pays {reader after : Reader κ} {outcome : Outcome Error Progress}
    (h : reader.advance = (outcome, after)) : reader.source.Pays 1 after.source := by
  have charged := reader.advance_charged
  rw [h] at charged
  exact charged.most

/-- A frame that goes by leaves no call unpaid, so there is no limit to how many may do so. -/
theorem advance_paid {reader after : Reader κ} {progress : Progress}
    (h : reader.advance = (.done progress, after)) (there : progress ≠ .ended) :
    reader.source.Pays 0 after.source := by
  have charged := reader.advance_charged
  rw [h] at charged
  exact charged.all ⟨progress, rfl, there⟩

theorem decode_until_pending_charged {reader after : Reader κ} {outcome : Outcome Error Bool}
    (h : reader.decodeUntilPending = (outcome, after)) :
    reader.source.Charged (outcome = .done true) after.source := by
  fun_induction decodeUntilPending reader with
  | case1 reader e last told =>
    have pays := advance_pays told
    cases h
    exact .stop pays (by simp)
  | case2 reader last told =>
    cases h
    exact .stop (advance_pays told) (by simp)
  | case3 reader last told =>
    cases h
    exact .stop (advance_pays told) (by simp)
  | case4 reader last told _ ih => exact (ih h).prepend (advance_paid told (by simp))
  | case5 reader last told _ empty ih => exact (ih h).prepend (advance_paid told (by simp))
  | case6 reader last told _ some =>
    cases h
    exact .of_paid (advance_paid told (by simp))

theorem refill_charged {reader after : Reader κ} {outcome : Outcome Error Bool}
    (h : reader.refill = (outcome, after)) :
    reader.source.Charged (outcome = .done true) after.source := by
  unfold refill at h
  split at h
  · cases h
    exact .refl reader.source
  · exact decode_until_pending_charged h

end Steps

section Operations

variable [Codec κ]

theorem read_pays (reader : Reader κ) (size : Nat) :
    reader.source.Pays 1 (reader.read size).2.source := by
  unfold read
  split
  · rcases h : reader.refill with ⟨_ | _ | _, after⟩
    · exact (refill_charged h).most
    · exact (refill_charged h).most
    · exact (refill_charged h).most
  · exact .refl reader.source

theorem peek_pays (reader : Reader κ) : reader.source.Pays 1 reader.peek.2.source := by
  unfold peek
  split
  · rcases h : reader.refill with ⟨_ | _ | _, after⟩
    · exact (refill_charged h).most
    · exact (refill_charged h).most
    · exact (refill_charged h).most
  · exact .refl reader.source

theorem visit_rest_pays (reader : Reader κ) (visitor : Visitor) (seen : Array Bytes) :
    reader.source.Pays 1 (reader.visitRest visitor seen).2.2.source := by
  fun_induction visitRest reader visitor seen with
  | case1 reader seen e after h => exact (refill_charged h).most
  | case2 reader seen after h => exact (refill_charged h).most
  | case3 reader seen after h => exact (refill_charged h).most
  | case4 reader seen after h _ shown e told => exact (refill_charged h).most
  | case5 reader seen after h _ shown told ih => exact ((refill_charged h).all rfl).trans ih

theorem visit_blocks_pays (reader : Reader κ) (visitor : Visitor) :
    reader.source.Pays 1 (reader.visitBlocks visitor).2.2.source := by
  unfold visitBlocks
  split
  · exact reader.visit_rest_pays visitor _
  · dsimp only
    split
    · exact .refl reader.source
    · exact visit_rest_pays { reader with pending := .empty } visitor _

theorem perform_pays (reader : Reader κ) {operation : ReaderOperation}
    (direct : operation.Direct) : reader.source.Pays 1 (reader.perform operation).2.source := by
  cases operation with
  | read size => exact reader.read_pays size
  | peek => exact reader.peek_pays
  | consume count => exact .refl reader.source
  | visitBlocks visitor => exact reader.visit_blocks_pays visitor
  | _ => exact direct.elim

end Operations

section Frames

variable [Codec κ] {first now stand after : Reader κ} {operation : ReaderOperation}

/-- An operation that has come to `stand` ends there, or with the next frame, which is refused. -/
def Lands (stand after : Reader κ) : Prop :=
  after = stand ∨
    ∃ e last, stand.advance = (.failed e, last) ∧ after = { last with poisoned := true }

theorem Lands.delivered (h : stand.Lands after) :
    stand.source.delivered ≤ after.source.delivered := by
  rcases h with rfl | ⟨e, last, refused, rfl⟩
  · exact Nat.le_refl _
  · obtain ⟨calls, bytes, hitches, spent, -⟩ := advance_pays refused
    exact Nat.le.intro spent.delivered.symm

theorem Comes.lands (h : Comes first after) (able : first.Able) :
    ∃ frames stand, Leads first frames stand ∧ stand.Lands after := by
  rcases h with ⟨frames, leads⟩ | fallen
  · exact ⟨frames, after, leads, .inl rfl⟩
  · obtain ⟨frames, stand, e, last, refuses⟩ := fallen.refuses able
    exact ⟨frames, stand, refuses.leads, .inr ⟨e, last, refuses.refused, refuses.marked⟩⟩

theorem inward_of_direct (direct : operation.Direct) : operation.Inward := by
  cases operation with
  | feed events => exact direct.elim
  | rawRead size => exact direct.elim
  | _ => trivial

theorem perform_lands (safe : now.Safe) (direct : operation.Direct) :
    ∃ frames stand, Leads now frames stand ∧ stand.Lands (now.perform operation).2 := by
  cases poisoned : now.poisoned with
  | true =>
    obtain ⟨queue, performed, passed, -⟩ := perform_poisoned poisoned direct
    rw [performed]
    exact ⟨[], _, Leads.start.handed passed, .inl rfl⟩
  | false =>
    have able : now.Able := ⟨safe, poisoned⟩
    have comes := perform_comes able ⟨[], .start⟩ (inward_of_direct direct)
    exact comes.lands able

/-- From every reachable state a read, a peek or a visit comes to its end, whatever the source has
been made to say. It makes no more than one call for each byte that it takes and for each failure or
pause that it meets, and one besides. Every frame that it goes by has cost it a header, so that
neither empty frames nor interruptions can hold it up. -/
theorem operations_end {codec : κ} (inside : Codec.Inside codec) (policy : ChecksumPolicy)
    (source : Source) (before : List ReaderOperation) {operation : ReaderOperation}
    (direct : operation.Direct) :
    let now := (ofSource source codec policy).performAll before
    let after := (now.perform operation).2
    (now.perform operation).1 ≠ .overrun ∧
      ∃ calls bytes hitches, now.source.Spends calls bytes hitches after.source ∧
        calls ≤ bytes + hitches + 1 ∧
        ∃ frames stand, Leads now frames stand ∧ stand.Lands after ∧
          stand.source.delivered = now.source.delivered + (Frame.wire frames).length ∧
          (∀ parsed ∈ frames, Frame.headerSize ≤ parsed.frame.bytes.length) ∧
          Frame.headerSize * frames.length ≤ bytes := by
  intro now after
  have safe : now.Safe :=
    safe_kept.perform_all ⟨fit_of_source source codec policy, inside⟩ before
  obtain ⟨calls, bytes, hitches, spent, paid⟩ := now.perform_pays direct
  obtain ⟨frames, stand, leads, lands⟩ := perform_lands safe direct
  obtain ⟨-, passed⟩ := (leads.reaches safe.fit).remaining
  refine ⟨safe.perform operation, calls, bytes, hitches, spent, paid, frames, stand, leads, lands,
    passed, fun parsed _ => parsed.frame.header_size_le_bytes, ?_⟩
  calc Frame.headerSize * frames.length
    _ ≤ (Frame.wire frames).length := Frame.headers_le_wire frames
    _ ≤ bytes := by
      have further : stand.source.delivered ≤ after.source.delivered := lands.delivered
      have taken : after.source.delivered = now.source.delivered + bytes := spent.delivered
      omega

/-- Byte by byte, with two interruptions, and with nothing to show but what has waited. The call that
is left over finds the end of the source. -/
theorem idle_frames_visited :
    let idle := [0x80, 0, 0, 0] ++ Frame.streamIdentifier
    let again : SourceEvent := .fail ⟨.interrupted, ""⟩
    let source := Source.ofEvents
      [.deliver Codec.Scripted.sample, again, .deliver idle, again] (some 1)
    let now := (ofSource source Codec.Scripted.honest .verify).performAll [.read 1]
    let visit := now.perform (.visitBlocks fun _ => none)
    visit.1 = .visited #[[0x62]] none ∧
      now.source.Spends (idle.length + 2 + 1) idle.length 2 visit.2.source ∧
      ∃ frames stand, Leads now frames stand ∧ stand.Lands visit.2 ∧
        Frame.headerSize * frames.length ≤ idle.length := by
  intro idle again source now visit
  have direct : (ReaderOperation.visitBlocks fun _ => none).Direct := trivial
  obtain ⟨-, calls, bytes, hitches, spent, -, frames, stand, leads, lands, -, -, headers⟩ :=
    operations_end Codec.Scripted.honest_input_only.inside .verify source [.read 1] direct
  have spends : now.source.Spends (idle.length + 2 + 1) idle.length 2 visit.2.source :=
    ⟨by decide +kernel, by decide +kernel, by decide +kernel⟩
  have same : bytes = idle.length :=
    Nat.add_left_cancel (spent.delivered.symm.trans spends.delivered)
  exact ⟨by decide +kernel, spends, frames, stand, leads, lands, same ▸ headers⟩

end Frames

end FramedSnappy.Reader
