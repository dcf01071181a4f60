import FramedSnappy.Proofs.Frame.Rejection
import FramedSnappy.Proofs.Reader.Reporting

/-! Where a reader stands when a frame has been refused: how much it has taken from its source, what
it has asked of it, and what it still holds. -/
namespace FramedSnappy.Reader

open FramedSnappy.Frame (Parsed)

variable {κ : Type} [Codec κ] {first now after stand last : Reader κ} {frames : List Parsed}
  {e : Error}

theorem take_frame_barred {tag : UInt8} {length : Nat}
    (barred : Frame.Barred stand.identified tag length e) :
    ∃ log, stand.takeFrame ⟨.ofByte tag, length⟩ = (.failed e, { stand with log }) := by
  unfold takeFrame
  cases barred with
  | early new other =>
    have early : ¬ stand.identified = true ∧ ChunkType.ofByte tag ≠ .streamIdentifier :=
      ⟨Bool.eq_false_iff.mp new, mt (ChunkType.of_byte_identifier tag).mp other⟩
    rw [if_pos early]
    dsimp only
    rw [ChunkType.to_byte_of_byte]
    exact ⟨_, rfl⟩
  | identifier opening wrong =>
    subst opening
    rw [if_neg fun early => early.2 rfl]
    exact ⟨stand.log, if_pos wrong⟩
  | long known carries long =>
    rw [if_neg fun early => early.1 known]
    rcases carries with rfl | rfl
    · exact ⟨stand.log, if_pos long⟩
    · exact ⟨stand.log, if_pos long⟩
  | short known carries short =>
    have small : ∀ limit, Frame.checksumSize ≤ limit → ¬ length > limit := fun limit least =>
      Nat.not_lt.mpr (Nat.le_trans (Nat.le_of_lt short) least)
    rw [if_neg fun early => early.1 known]
    rcases carries with rfl | rfl
    · exact ⟨stand.log, (if_neg (small Frame.dataLimit (by decide))).trans (if_pos short)⟩
    · have raw : Frame.checksumSize ≤ Frame.blockLimit + Frame.checksumSize := by decide
      exact ⟨stand.log, (if_neg (small _ raw)).trans (if_pos short)⟩

/-- A frame whose header is refused costs its header, and nothing else of the reader is touched. -/
theorem advance_barred {tag low middle high : UInt8} {body : Bytes}
    (front : stand.source.front = tag :: low :: middle :: high :: body)
    (barred : Frame.Barred stand.identified tag (Bytes.ofLittleEndian [low, middle, high]) e) :
    ∃ log, stand.advance =
      (.failed e, { stand with source := stand.source.readHeader.2, log }) := by
  obtain ⟨source, read, -, -⟩ := Source.read_header_full front
  obtain ⟨log, refused⟩ := @take_frame_barred _ _ { stand with source } _ _ _ barred
  refine ⟨log, ?_⟩
  rw [advance, read]
  exact refused

/-- The frames before have been accepted, the one that `stand` stands in front of is refused, and the
reader is marked. The refill that has come there has left what waits as it has found it. -/
structure Refuses (first : Reader κ) (frames : List Parsed) (stand : Reader κ) (e : Error)
    (last after : Reader κ) : Prop where
  leads : Leads first frames stand
  refused : stand.advance = (.failed e, last)
  marked : after = { last with poisoned := true }
  pending : after.pending = stand.pending
  refill : ∃ earlier passed now, frames = earlier ++ passed ∧ Leads first earlier now ∧
    Advances now passed stand ∧ now.refill = (.failed e, after) ∧
    after.pending.toList = now.pending.toList

theorem Leads.refuses (h : Leads first frames now) (able : first.Able)
    (failed : now.refill = (.failed e, after)) :
    ∃ frames stand last, Refuses first frames stand e last after := by
  obtain ⟨⟨fit, -⟩, fresh⟩ := h.able able
  obtain ⟨more, content, fetches⟩ := refill_fetches fit fresh
  rw [failed] at fetches
  cases fetches with
  | @broken _ stand last _ advances _ refused =>
    have there := (h.on advances).able able
    have kept : last.pending = stand.pending := (advance_failed there.fit refused).2
    refine ⟨frames ++ more, stand, last, h.on advances, refused, rfl, kept, ?_⟩
    exact ⟨frames, more, now, rfl, h, advances, failed, (refill_failed_leaves fit failed).2⟩

theorem Fallen.refuses (able : first.Able) (h : Fallen first after) :
    ∃ frames stand e last, Refuses first frames stand e last after := by
  obtain ⟨earlier, now, e, leads, failed⟩ := h
  obtain ⟨frames, stand, last, refuses⟩ := leads.refuses able failed
  exact ⟨frames, stand, e, last, refuses⟩

namespace Refuses

theorem verdict (h : Refuses first frames stand e last after) (able : first.Able) :
    ∃ left, stand.verdict = .broken e left ∧
      Signal.bytes last.source.signals = left ++ Signal.bytes stand.source.behind := by
  have breaks := (advance_failed (h.leads.able able).fit h.refused).1
  exact breaks.verdict

/-- Of all that the source says, the reader has taken the frames and some bytes of the next one. -/
theorem delivered (h : Refuses first frames stand e last after) (able : first.Able)
    {taken : Bytes}
    (said : Signal.bytes stand.source.signals = taken ++ Signal.bytes last.source.signals) :
    after.source.delivered =
      first.source.delivered + (Frame.wire frames).length + taken.length := by
  have keeps := (advance_answers (h.leads.able able).fit).keeps
  rw [h.refused] at keeps
  obtain ⟨-, begun⟩ := keeps.source.remaining said
  obtain ⟨-, passed⟩ := (h.leads.reaches able.fit).remaining
  rw [h.marked, begun, passed]

/-- Behind a header the verdict tells what the frame has cost. -/
theorem cost (h : Refuses first frames stand e last after) (able : first.Able)
    {tag low middle high : UInt8} {body : Bytes}
    (said : stand.source.signals = (tag :: low :: middle :: high :: body).map .byte) :
    let length := Bytes.ofLittleEndian [low, middle, high]
    let offset := first.source.delivered + (Frame.wire frames).length
    Frame.Barred stand.identified tag length e ∧
        { stand with source := stand.source.readHeader.2, log := last.log } = last ∧
        after.source.delivered = offset + Frame.headerSize ∨
      (∀ e, ¬ Frame.Barred stand.identified tag length e) ∧
        ∃ count, Frame.Spoiled stand.decode stand.policy tag length body e count ∧
          after.source.delivered = offset + Frame.headerSize + count := by
  intro length offset
  have front := Source.front_of_bytes said
  have behind := Source.behind_of_bytes said
  obtain ⟨left, judged, rest⟩ := h.verdict able
  rw [Reader.verdict, front, behind] at judged
  rw [behind] at rest
  have all : Signal.bytes stand.source.signals = tag :: low :: middle :: high :: body := by
    rw [said, Signal.bytes_map]
  rcases Frame.refused_of_judge judged with ⟨barred, rfl⟩ | ⟨sound, count, spoiled, rfl⟩
  · left
    obtain ⟨log, refused⟩ := advance_barred front barred
    obtain ⟨-, same⟩ := Prod.mk.inj (h.refused.symm.trans refused)
    refine ⟨barred, by rw [same], ?_⟩
    have taken : Signal.bytes stand.source.signals =
        [tag, low, middle, high] ++ Signal.bytes last.source.signals := by
      rw [all, rest, Signal.bytes, List.append_nil]
      rfl
    exact h.delivered able taken
  · right
    refine ⟨sound, count, spoiled, ?_⟩
    have taken : Signal.bytes stand.source.signals =
        ([tag, low, middle, high] ++ body.take count) ++ Signal.bytes last.source.signals := by
      rw [all, rest, Signal.bytes, List.append_nil, List.append_assoc, List.take_append_drop]
      rfl
    rw [h.delivered able taken, List.length_append, List.length_take_of_le spoiled.count_le,
      ← Nat.add_assoc]
    rfl

/-- Where not even a header is left, the rest is gone. -/
theorem cost_torn (h : Refuses first frames stand e last after) (able : first.Able) {rest : Bytes}
    (said : stand.source.signals = rest.map .byte) (short : rest.length < Frame.headerSize) :
    after.source.delivered =
      first.source.delivered + (Frame.wire frames).length + rest.length := by
  have front := Source.front_of_bytes said
  have behind := Source.behind_of_bytes said
  obtain ⟨left, judged, remains⟩ := h.verdict able
  rw [Reader.verdict, front, behind] at judged
  rw [behind] at remains
  have begun : rest ≠ [] := by
    rintro rfl
    cases judged
  have gone : left = [] := by
    rw [Frame.judge_cut begun short] at judged
    cases judged
    rfl
  refine h.delivered able ?_
  rw [said, Signal.bytes_map, remains, gone]
  exact (List.append_nil rest).symm

end Refuses

/-- Wherever the first bad frame of a byte string stands, and whoever comes to it: a header that is
refused by itself has cost four bytes, and the source and the buffers are as its reading has left
them; any other refused frame has cost its header and its data section, or what there is of it. What
waits is left alone. -/
theorem refused_frame_costs {codec : κ} (inside : Codec.Inside codec) (policy : ChecksumPolicy)
    {source : Source} {data : Bytes} (said : source.signals = data.map .byte)
    {before : List ReaderOperation} (inward : ∀ operation ∈ before, operation.Inward)
    {operation : ReaderOperation} (own : operation.Inward) :
    let first := ofSource source codec policy
    let now := first.performAll before
    let after := (now.perform operation).2
    now.poisoned = false → after.poisoned = true →
    ∃ frames stand e last rest, Refuses first frames stand e last after ∧
      data = Frame.wire frames ++ rest ∧
      let offset := source.delivered + (Frame.wire frames).length
      (rest.length < Frame.headerSize → after.source.delivered = offset + rest.length) ∧
      ∀ tag low middle high body, rest = tag :: low :: middle :: high :: body →
        let length := Bytes.ofLittleEndian [low, middle, high]
        let identified := ! frames.isEmpty
        Frame.Barred identified tag length e ∧
            { stand with source := stand.source.readHeader.2, log := last.log } = last ∧
            after.source.delivered = offset + Frame.headerSize ∨
          (∀ e, ¬ Frame.Barred identified tag length e) ∧
            ∃ count, Frame.Spoiled stand.decode policy tag length body e count ∧
              after.source.delivered = offset + Frame.headerSize + count := by
  intro first now after fresh poisoned
  have able : first.Able := ⟨⟨fit_of_source source codec policy, inside⟩, rfl⟩
  have going : Going first now := perform_all_going able ⟨[], .start⟩ inward fresh
  have fallen : Fallen first after := by
    rcases perform_comes able going own with on | fallen
    · cases poisoned.symm.trans (on.able able).fresh
    · exact fallen
  obtain ⟨frames, stand, e, last, refuses⟩ := fallen.refuses able
  have reaches := refuses.leads.reaches able.fit
  obtain ⟨passed, suffix⟩ := reaches.suffix
  have behind : ∃ rest : Bytes, stand.source.signals = rest.map .byte := by
    have all : data.map Signal.byte = passed ++ stand.source.signals :=
      (suffix.trans said).symm
    obtain ⟨-, rest, -, -, same⟩ := List.map_eq_append_iff.mp all
    exact ⟨rest, same.symm⟩
  obtain ⟨rest, stands⟩ := behind
  have split : data = Frame.wire frames ++ rest := by
    have told := reaches.said
    rwa [stands, Signal.bytes_map, show first.source.signals = _ from said, Signal.bytes_map]
      at told
  refine ⟨frames, stand, e, last, rest, refuses, split, ?_, ?_⟩
  · exact refuses.cost_torn able stands
  · rintro tag low middle high body rfl
    have known : stand.identified = ! frames.isEmpty := reaches.identified
    have checks : stand.policy = policy := reaches.keeps.policy
    rcases refuses.cost able stands with ⟨barred, same, paid⟩ | ⟨sound, count, spoiled, paid⟩
    · exact .inl ⟨known ▸ barred, same, paid⟩
    · exact .inr ⟨known ▸ sound, count, checks ▸ spoiled, paid⟩

/-- Behind two bytes of content a frame announces more than a frame may have. One of the two still
waits when the second read has come there. -/
theorem oversized_frame_costs_header :
    let data := Codec.Scripted.sample ++ [0x00, 0xff, 0xff, 0xff, 0x01]
    let first :=
      ofSource (.ofEvents [.deliver data] (some 3)) Codec.Scripted.honest .verify
    let now := first.performAll [.read 1]
    let after := (now.perform (.read 5)).2
    (∃ frames stand e last, Refuses first frames stand e last after) ∧
      after.source.delivered = Codec.Scripted.sample.length + Frame.headerSize ∧
      after.pending.toList = [0x62] := by
  intro data first now after
  have said : Source.signals (.ofEvents [.deliver data] (some 3)) = data.map .byte := by
    decide +kernel
  have inward : ∀ operation ∈ [.read 1], ReaderOperation.Inward operation := by
    simp [ReaderOperation.Inward]
  have own : (ReaderOperation.read 5).Inward := trivial
  obtain ⟨frames, stand, e, last, -, refuses, -⟩ :=
    refused_frame_costs Codec.Scripted.honest_input_only.inside .verify said inward own
      (by decide +kernel) (by decide +kernel)
  exact ⟨⟨frames, stand, e, last, refuses⟩, by decide +kernel, by decide +kernel⟩

end FramedSnappy.Reader
