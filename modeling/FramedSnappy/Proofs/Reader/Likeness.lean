import FramedSnappy.Proofs.Source.Delivery
import FramedSnappy.Reader.Basic

/-! Two readers that are the same but for their sources, their buffers and their policies. A frame
on which the sources deliver the same, and the buffers make the same room, takes both readers to
the check of the same block, or else to the same end; only at the check does the policy matter. -/
namespace FramedSnappy

/-- The sources give the same answers on a data section, whether it is read or passed over. -/
structure Source.Supplies (near far : Source → Source → Prop) (length : Nat) : Prop where
  unread : ∀ {source other}, near source other → far source other
  body : ∀ {source other}, near source other →
    Agree far (source.readBody length) (other.readBody length)
  skip : ∀ {source other}, near source other →
    Agree far (source.skipBody length) (other.skipBody length)

/-- No part of a frame tells the sources apart. -/
structure Source.Interchangeable (alike : Source → Source → Prop) : Prop where
  header : ∀ {source other}, alike source other →
    Agree alike source.readHeader other.readHeader
  data : ∀ length, Source.Supplies alike alike length
  feed : ∀ {source other}, alike source other → ∀ events,
    alike (source.feed events) (other.feed events)

theorem Source.interchangeable_eq : Interchangeable (· = ·) where
  header same := same ▸ agree_of_eq rfl rfl
  data _ := ⟨id, fun same => same ▸ agree_of_eq rfl rfl, fun same => same ▸ agree_of_eq rfl rfl⟩
  feed same _ := same ▸ rfl

/-- The buffers hold the same, and make room for up to `most` bytes alike. -/
structure Scratch.Interchangeable (most : Nat) (alike : Scratch → Scratch → Prop) : Prop where
  data : ∀ {scratch other}, alike scratch other → scratch.data = other.data
  reserve : ∀ {scratch other length}, alike scratch other → length ≤ most →
    (∃ e, scratch.reserve length = .error e ∧ other.reserve length = .error e) ∨
    (∃ grown grown', scratch.reserve length = .ok grown ∧ other.reserve length = .ok grown' ∧
      alike grown grown')
  store : ∀ {scratch other length written}, alike scratch other →
    alike (scratch.store length written) (other.store length written)

theorem Scratch.interchangeable_eq (most : Nat) : Interchangeable most (· = ·) where
  data same := congrArg _ same
  reserve := by
    intro scratch other length same _
    subst same
    cases scratch.reserve length with
    | error e => exact .inl ⟨e, rfl, rfl⟩
    | ok grown => exact .inr ⟨grown, grown, rfl, rfl, rfl⟩
  store same := by rw [same]

/-- In what respects two readers may differ. -/
structure Likeness where
  sources : Source → Source → Prop
  bodies : Scratch → Scratch → Prop
  decodeds : Scratch → Scratch → Prop
  policies : ChecksumPolicy → ChecksumPolicy → Prop

namespace Likeness

def withSources (like : Likeness) (sources : Source → Source → Prop) : Likeness :=
  { like with sources }

structure Roomy (like : Likeness) : Prop where
  bodies : Scratch.Interchangeable Frame.dataLimit like.bodies
  decodeds : Scratch.Interchangeable Frame.blockLimit like.decodeds

end Likeness

namespace Reader

variable {κ : Type}

inductive Like (like : Likeness) (reader : Reader κ) : Reader κ → Prop
  | intro {source : Source} {policy : ChecksumPolicy} {body decoded : Scratch} :
      like.sources reader.source source → like.policies reader.policy policy →
      like.bodies reader.body body → like.decodeds reader.decoded decoded →
      Like like reader { reader with source, policy, body, decoded }

/-- In the middle of a frame nothing has been reported yet. -/
def Midway (like : Likeness) (log : Array Diagnostic) (reader other : Reader κ) : Prop :=
  reader.Like like other ∧ reader.log = log

/-- How two calls on one frame go: to the check of one block, or to an end of which a corrupt block
is not the reason. -/
inductive Meets (like : Likeness) (log : Array Diagnostic) :
    Outcome Error Progress × Reader κ → Outcome Error Progress × Reader κ → Prop
  | checked {reader other : Reader κ} (header : Frame.Header) (masked : UInt32)
      (content : Bytes) : Midway like log reader other →
      Meets like log (reader.accept header masked content) (other.accept header masked content)
  | ended (answer : Outcome Error Progress) {reader other : Reader κ} :
      reader.Like like other → (∀ e, reader.log ≠ log.push (.corruptBlock e)) →
      Meets like log (answer, reader) (answer, other)

variable {like : Likeness} {log : Array Diagnostic} {reader other : Reader κ}
  {far : Source → Source → Prop} {length : Nat}

theorem Like.report (h : reader.Like like other) (diagnostic : Diagnostic) :
    (reader.report diagnostic).Like like (other.report diagnostic) := by
  cases h with
  | intro sources policies bodies decodeds => exact .intro sources policies bodies decodeds

theorem Like.unread (h : reader.Like like other)
    (supply : Source.Supplies like.sources far length) :
    reader.Like (like.withSources far) other := by
  cases h with
  | intro sources policies bodies decodeds =>
    exact .intro (supply.unread sources) policies bodies decodeds

theorem Midway.silent (h : Midway like log reader other) (answer : Outcome Error Progress) :
    Meets like log (answer, reader) (answer, other) := by
  apply Meets.ended answer h.1
  intro e said
  rw [h.2] at said
  have := congrArg Array.size said
  simp at this

theorem Midway.report (h : Midway like log reader other) (answer : Outcome Error Progress)
    {diagnostic : Diagnostic} (fine : ∀ e, diagnostic ≠ .corruptBlock e) :
    Meets like log (answer, reader.report diagnostic) (answer, other.report diagnostic) := by
  apply Meets.ended answer (h.1.report diagnostic)
  intro e said
  rw [Reader.report, h.2] at said
  exact fine e (Array.push_eq_push.mp said).1

theorem Midway.skip_body (h : Midway like log reader other)
    (supply : Source.Supplies like.sources far length) :
    Agree (Midway (like.withSources far) log) (reader.skipBody length)
      (other.skipBody length) := by
  obtain ⟨h, same⟩ := h
  cases h with
  | intro sources policies bodies decodeds =>
    unfold Reader.skipBody
    exact (supply.skip sources).elim fun answer left right far =>
      .intro answer ⟨.intro far policies bodies decodeds, same⟩

theorem Midway.take_identifier (h : Midway like log reader other)
    (supply : Source.Supplies like.sources far length) :
    Meets (like.withSources far) log (reader.takeIdentifier length)
      (other.takeIdentifier length) := by
  obtain ⟨h, same⟩ := h
  unfold Reader.takeIdentifier
  by_cases six : length = Frame.identifierBody.length
  · subst six
    rw [if_neg (not_not_intro rfl), if_neg (not_not_intro rfl)]
    cases h with
    | intro sources policies bodies decodeds =>
      dsimp only
      refine (supply.body sources).elim fun answer left right far => ?_
      have midway : Midway (like.withSources _) log { reader with source := left } _ :=
        ⟨.intro far policies bodies decodeds, same⟩
      cases answer with
      | error e => exact midway.silent _
      | ok body =>
        dsimp only
        split
        · exact midway.silent _
        · split
          · exact midway.silent _
          · have known : Midway (like.withSources _) log
                { reader with source := left, identified := true } _ :=
              ⟨.intro far policies bodies decodeds, same⟩
            exact known.report _ nofun
  · rw [if_pos six, if_pos six]
    exact Midway.silent ⟨h.unread supply, same⟩ _

theorem Midway.skip_frame (h : Midway like log reader other) (header : Frame.Header)
    (supply : Source.Supplies like.sources far header.length) :
    Meets (like.withSources far) log (reader.skipFrame header) (other.skipFrame header) := by
  unfold Reader.skipFrame
  refine (h.skip_body supply).elim fun answer left right midway => ?_
  cases answer with
  | error e => exact midway.silent _
  | ok _ => exact midway.report _ nofun

theorem Midway.refuse_frame (h : Midway like log reader other) (tag : UInt8)
    (supply : Source.Supplies like.sources far length) :
    Meets (like.withSources far) log (reader.refuseFrame tag length)
      (other.refuseFrame tag length) := by
  unfold Reader.refuseFrame
  refine (h.skip_body supply).elim fun answer left right midway => ?_
  cases answer with
  | error e => exact midway.silent _
  | ok _ => exact midway.report _ nofun

theorem Midway.take_body (h : Midway like log reader other) (room : like.Roomy)
    (most : length ≤ Frame.dataLimit) (supply : Source.Supplies like.sources far length) :
    Agree (Midway (like.withSources far) log) (reader.takeBody length)
      (other.takeBody length) := by
  obtain ⟨h, same⟩ := h
  cases h with
  | intro sources policies bodies decodeds =>
    unfold Reader.takeBody
    dsimp only
    rcases room.bodies.reserve bodies most with
      ⟨e, mine, yours⟩ | ⟨grown, grown', mine, yours, grows⟩
    · rw [mine, yours]
      exact .intro _ ⟨.intro (supply.unread sources) policies bodies decodeds, same⟩
    · rw [mine, yours]
      dsimp only
      refine (supply.body sources).elim fun answer left right far => ?_
      cases answer with
      | error e => exact .intro _ ⟨.intro far policies grows decodeds, same⟩
      | ok data => exact .intro _ ⟨.intro far policies (room.bodies.store grows) decodeds, same⟩

theorem Like.policies (h : reader.Like like other) : like.policies reader.policy other.policy := by
  cases h with
  | intro _ policies _ _ => exact policies

theorem Like.identified (h : reader.Like like other) : reader.identified = other.identified := by
  cases h with
  | intro _ _ _ _ => rfl

theorem Like.with_queue (h : reader.Like like other) (queue : ByteQueue) :
    ({ reader with pending := queue } : Reader κ).Like like { other with pending := queue } := by
  cases h with
  | intro sources policies bodies decodeds => exact .intro sources policies bodies decodeds

theorem Like.accept (h : reader.Like like other) {masked : UInt32} {content : Bytes}
    (same : reader.policy.check masked content = other.policy.check masked content)
    (header : Frame.Header) :
    Agree (Like like) (reader.accept header masked content)
      (other.accept header masked content) := by
  unfold Reader.accept
  rw [← same]
  cases h with
  | intro sources policies bodies decodeds =>
    cases reader.policy.check masked content with
    | error e => exact .intro _ (.intro sources policies bodies decodeds)
    | ok _ => exact .intro _ (.intro sources policies bodies decodeds)

variable [Codec κ]

theorem Midway.decompress (h : Midway like log reader other) (room : like.Roomy) (block : Bytes) :
    Agree (Midway like log) (reader.decompress block) (other.decompress block) := by
  obtain ⟨h, same⟩ := h
  cases h with
  | @intro source policy body decoded sources policies bodies decodeds =>
    unfold Reader.decompress
    dsimp only
    rcases Codec.decodedLength reader.codec block with ⟨e | size, codec⟩
    · exact .intro _ ⟨.intro sources policies bodies decodeds, same⟩
    · dsimp only
      by_cases large : size > Frame.blockLimit
      · rw [if_pos large, if_pos large]
        exact .intro _ ⟨.intro sources policies bodies decodeds, same⟩
      · rw [if_neg large, if_neg large]
        rcases room.decodeds.reserve decodeds (Nat.not_lt.mp large) with
          ⟨e, mine, yours⟩ | ⟨grown, grown', mine, yours, grows⟩
        · rw [mine, yours]
          exact .intro _ ⟨.intro sources policies bodies decodeds, same⟩
        · have window : grown.window size = grown'.window size :=
            congrArg (List.take size) (room.decodeds.data grows)
          have stored (written : Bytes) : like.decodeds (grown.store size written)
              (grown'.store size written) := room.decodeds.store grows
          rw [mine, yours]
          dsimp only
          rw [window]
          generalize Codec.decompress codec block (grown'.window size) = reply
          have behind (count : Nat) : (grown.store size reply.written).window count =
              (grown'.store size reply.written).window count :=
            congrArg (List.take count) (room.decodeds.data (stored _))
          cases reply.count with
          | error e => exact .intro _ ⟨.intro sources policies bodies (stored _), same⟩
          | ok count =>
            dsimp only
            by_cases past : count > size
            · rw [if_pos past, if_pos past]
              exact .intro _ ⟨.intro sources policies bodies (stored _), same⟩
            · rw [if_neg past, if_neg past, behind]
              exact .intro _ ⟨.intro sources policies bodies (stored _), same⟩

theorem Midway.decode_block (h : Midway like log reader other) (room : like.Roomy)
    (chunkType : ChunkType) (block : Bytes) :
    Agree (Midway like log) (reader.decodeBlock chunkType block)
      (other.decodeBlock chunkType block) := by
  unfold Reader.decodeBlock
  split
  · exact h.decompress room block
  · exact .intro _ h

theorem length_limit_le (chunkType : ChunkType) : lengthLimit chunkType ≤ Frame.dataLimit := by
  have raw : Frame.blockLimit + Frame.checksumSize ≤ Frame.dataLimit := by decide
  cases chunkType with
  | uncompressed => exact raw
  | _ => exact Nat.le_refl _

theorem Midway.take_block (h : Midway like log reader other) (room : like.Roomy)
    (header : Frame.Header) (supply : Source.Supplies like.sources far header.length) :
    Meets (like.withSources far) log (reader.takeBlock header) (other.takeBlock header) := by
  have unread : Midway (like.withSources far) log reader other := ⟨h.1.unread supply, h.2⟩
  have kept : (like.withSources far).Roomy := ⟨room.bodies, room.decodeds⟩
  unfold Reader.takeBlock
  dsimp only
  by_cases most : header.length > lengthLimit header.chunkType
  · rw [if_pos most, if_pos most]
    exact unread.silent _
  · rw [if_neg most, if_neg most]
    split
    · exact unread.silent _
    · have fits := Nat.le_trans (Nat.not_lt.mp most) (length_limit_le header.chunkType)
      refine (h.take_body room fits supply).elim fun answer left right midway => ?_
      cases answer with
      | error e => exact midway.silent _
      | ok body =>
        dsimp only
        refine (midway.decode_block kept _ _).elim fun answer left right midway => ?_
        cases answer with
        | failed e => exact midway.silent _
        | overrun => exact midway.silent _
        | done decoded => exact .checked header _ decoded midway

theorem Midway.take_frame (h : Midway like log reader other) (room : like.Roomy)
    (header : Frame.Header) (supply : Source.Supplies like.sources far header.length) :
    Meets (like.withSources far) log (reader.takeFrame header) (other.takeFrame header) := by
  unfold Reader.takeFrame
  rw [h.1.identified]
  split
  · exact Midway.report ⟨h.1.unread supply, h.2⟩ _ nofun
  · cases header.chunkType with
    | streamIdentifier => exact h.take_identifier supply
    | compressed => exact h.take_block room header supply
    | uncompressed => exact h.take_block room header supply
    | padding => exact h.skip_frame header supply
    | skippable tag => exact h.skip_frame header supply
    | unskippable tag => exact h.refuse_frame tag supply

theorem Like.advance (h : reader.Like like other) (room : like.Roomy)
    (sources : Source.Interchangeable like.sources) :
    Meets like reader.log reader.advance other.advance := by
  cases h with
  | intro alike policies bodies decodeds =>
    unfold Reader.advance
    dsimp only
    refine (sources.header alike).elim fun answer left right alike => ?_
    have midway : Midway like reader.log { reader with source := left } _ :=
      ⟨.intro alike policies bodies decodeds, rfl⟩
    match answer with
    | .error e => exact midway.silent _
    | .ok none => exact midway.silent _
    | .ok (some header) => exact midway.take_frame room header (sources.data header.length)

end Reader

end FramedSnappy
