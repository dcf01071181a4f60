import FramedSnappy.Proofs.Reader.Lockstep
import FramedSnappy.Proofs.Reader.Walk

/-! Two readers that are the same but for their sources. As long as the same frames stand in front
of both, one takes what the other takes, whatever the codec makes of its past. -/
namespace FramedSnappy

open FramedSnappy.Frame (Parsed)

namespace Source

/-- Both sources go on with these bytes. -/
def Shares (data : Bytes) (source other : Source) : Prop :=
  ∃ tail tail', source.signals = data.map .byte ++ tail ∧ other.signals = data.map .byte ++ tail'

theorem read_header_frame {source : Source} {frame : Frame} {tail : List Signal}
    (said : source.signals = frame.bytes.map .byte ++ tail) :
    ∃ after, source.readHeader = (.ok (some frame.header), after) ∧
      after.signals = frame.body.map .byte ++ tail := by
  obtain ⟨low, middle, high, split, told⟩ := frame.bytes_split
  have front : source.front = frame.tag :: low :: middle :: high :: (frame.body ++
      Signal.front tail) := by
    rw [Source.front, said, Signal.front_map_append, split]
    rfl
  have behind : source.behind = Signal.behind tail := by
    rw [Source.behind, said, Signal.behind_map_append]
  obtain ⟨after, read, rest, -⟩ := read_header_full front
  refine ⟨after, ?_, ?_⟩
  · rw [read, Frame.Header.parse, told]
    rfl
  · rw [rest, behind, List.map_append, List.append_assoc, Signal.front_append_behind]

theorem front_of_shared {source : Source} {data : Bytes} {tail : List Signal}
    (said : source.signals = data.map .byte ++ tail) :
    data.length ≤ source.front.length ∧ source.front.take data.length = data := by
  have front : source.front = data ++ Signal.front tail := by
    rw [Source.front, said, Signal.front_map_append]
  rw [front]
  exact ⟨List.length_append ▸ Nat.le_add_right _ _, List.take_left⟩

theorem supplies_shared (data : Bytes) :
    Supplies (Shares data) (fun _ _ => True) data.length where
  unread _ := trivial
  body := by
    rintro source other ⟨tail, tail', mine, yours⟩
    obtain ⟨enough, taken⟩ := front_of_shared mine
    obtain ⟨enough', taken'⟩ := front_of_shared yours
    obtain ⟨after, read, -⟩ := read_body_enough enough
    obtain ⟨after', read', -⟩ := read_body_enough enough'
    rw [read, read', taken, taken']
    exact .intro _ trivial
  skip := by
    rintro source other ⟨tail, tail', mine, yours⟩
    obtain ⟨after, skipped, -⟩ := skip_body_enough (front_of_shared mine).1
    obtain ⟨after', skipped', -⟩ := skip_body_enough (front_of_shared yours).1
    rw [skipped, skipped']
    exact .intro _ trivial

end Source

namespace Reader

variable {κ : Type}

/-- The readers are the same but for their sources. -/
def sourcesApart : Likeness := ⟨fun _ _ => True, (· = ·), (· = ·), (· = ·)⟩

theorem sources_apart_roomy (near : Source → Source → Prop) :
    (sourcesApart.withSources near).Roomy :=
  ⟨Scratch.interchangeable_eq _, Scratch.interchangeable_eq _⟩

theorem like_of_source (source other : Source) (codec : κ) (policy : ChecksumPolicy) :
    (ofSource source codec policy).Like sourcesApart (ofSource other codec policy) :=
  .intro trivial rfl rfl rfl

theorem Like.fit {reader other : Reader κ} (h : reader.Like sourcesApart other)
    (fit : reader.Fit) : other.Fit := by
  cases h with
  | intro _ _ bodies decodeds =>
    exact ⟨(congrArg _ (Eq.symm bodies)).trans fit.body,
      (congrArg _ (Eq.symm decodeds)).trans fit.decoded⟩

variable [Codec κ] {reader after last other : Reader κ} {parsed : Parsed} {frames : List Parsed}
  {tail : List Signal}

/-- A frame that stands in front of both. -/
theorem Like.advance_frame (h : reader.Like sourcesApart other) {frame : Frame}
    {tail' : List Signal} (mine : reader.source.signals = frame.bytes.map .byte ++ tail)
    (yours : other.source.signals = frame.bytes.map .byte ++ tail') :
    Agree (Like sourcesApart) reader.advance other.advance := by
  obtain ⟨left, read, said⟩ := Source.read_header_frame mine
  obtain ⟨right, read', said'⟩ := Source.read_header_frame yours
  have check {policy policy' : ChecksumPolicy} (same : policy = policy') (masked : UInt32)
      (content : Bytes) : (∃ e, policy.check masked content = .error e ∧ False) ∨
        policy.check masked content = policy'.check masked content := .inr (same ▸ rfl)
  have meets : Meets sourcesApart reader.log reader.advance other.advance := by
    cases h with
    | intro _ policies bodies decodeds =>
      have midway : Midway (sourcesApart.withSources (Source.Shares frame.body)) reader.log
          { reader with source := left } _ :=
        ⟨.intro ⟨_, _, said, said'⟩ policies bodies decodeds, rfl⟩
      unfold Reader.advance
      dsimp only at read' ⊢
      rw [read, read']
      exact midway.take_frame (sources_apart_roomy _) frame.header (Source.supplies_shared frame.body)
  refine (meets.together check).agree_of_safe ?_
  cases reader.advance.1 with
  | _ => exact id

theorem Like.decode (h : reader.Like sourcesApart other) : other.decode = reader.decode := by
  cases h with
  | intro _ _ _ decodeds => exact decode_congr rfl (Eq.symm decodeds)

/-- A reader takes the frames of another one if they stand in front of it too. -/
theorem Passes.beside (h : reader.Passes parsed after) (fit : reader.Fit)
    (like : reader.Like sourcesApart other)
    (said : other.source.signals = parsed.frame.bytes.map .byte ++ tail) :
    ∃ beside, other.Passes parsed beside ∧ after.Like sourcesApart beside ∧
      beside.source.signals = tail := by
  have agree := like.advance_frame h.takes.said said
  rw [h.advance] at agree
  obtain ⟨beside, advanced, alike⟩ := agree.of_left rfl
  have there : parsed.progress ≠ .ended := by
    rcases parsed with ⟨frame, _ | content⟩ <;> exact nofun
  obtain ⟨found, passes, -⟩ := advance_passes (like.fit fit) advanced there
  have whole := passes.takes.said
  rw [said] at whole
  have frame : parsed.frame = found.frame := by
    have front := congrArg Signal.front whole
    rw [Signal.front_map_append, Signal.front_map_append] at front
    exact Frame.eq_of_append front
  have content : parsed.content = found.content := by
    have yields := passes.takes.yields
    rw [like.decode, ← like.policies, ← frame] at yields
    exact h.takes.yields.unique yields
  obtain rfl : parsed = found := by
    cases parsed
    cases found
    rw [Parsed.mk.injEq]
    exact ⟨frame, content⟩
  exact ⟨beside, passes, alike, (List.append_cancel_left whole).symm⟩

theorem Walks.beside (h : Walks reader frames last) (fit : reader.Fit)
    (like : reader.Like sourcesApart other)
    (said : other.source.signals = (Frame.wire frames).map .byte ++ tail) :
    ∃ beside, Walks other frames beside ∧ last.Like sourcesApart beside ∧
      beside.source.signals = tail := by
  induction h generalizing other with
  | here reader => exact ⟨other, .here other, like, said⟩
  | step passes _ ih =>
    rw [Frame.wire_cons, List.map_append, List.append_assoc] at said
    obtain ⟨middle, passed, alike, behind⟩ := passes.beside fit like said
    have fits := passes.takes.keeps.fit fit
    obtain ⟨beside, walk, likewise, rest⟩ :=
      ih ⟨fits.body, fits.decoded⟩ (alike.with_queue .empty) behind
    exact ⟨beside, .step passed walk, likewise, rest⟩

end Reader

end FramedSnappy
