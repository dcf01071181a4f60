import FramedSnappy.Proofs.Reader.Acceptance

/-! Streams that are cut short. A reader takes the frames that are still whole, and the end of its
input is a good end if and only if it does not stand inside of a frame. -/
namespace FramedSnappy

open FramedSnappy.Frame (Parsed)

namespace Frame

variable {decode : Bytes → Outcome Error Bytes} {policy : ChecksumPolicy}

/-- The frames that end within the first `cut` bytes. -/
def within (cut : Nat) : List Parsed → List Parsed
  | [] => []
  | parsed :: rest =>
    if parsed.frame.bytes.length ≤ cut then
      parsed :: within (cut - parsed.frame.bytes.length) rest
    else []

/-- Some frames end after exactly `cut` bytes. -/
def Boundary (cut : Nat) (frames : List Parsed) : Prop :=
  ∃ front behind, frames = front ++ behind ∧ (wire front).length = cut

theorem within_wire (front behind : List Parsed) :
    within (wire front).length (front ++ behind) = front := by
  induction front with
  | nil =>
    cases behind with
    | nil => rfl
    | cons next rest =>
      apply if_neg
      have := List.length_pos_iff.mpr next.frame.bytes_ne_nil
      rw [wire_nil, List.length_nil]
      omega
  | cons parsed rest ih =>
    simp only [List.cons_append, within, wire_cons, List.length_append, Nat.le_add_right, if_true,
      Nat.add_sub_cancel_left, ih]

/-- A front of an allowed frame. -/
structure Torn (frame : Frame) (torn : Bytes) : Prop where
  front : torn <+: frame.bytes
  begun : torn ≠ []
  short : torn.length < frame.bytes.length

theorem Torn.blocked {frame : Frame} {torn : Bytes} (h : Torn frame torn) (identified : Bool) :
    Blocked decode policy identified torn :=
  blocked_of_cut h.front (fun same => Nat.lt_irrefl _ (same ▸ h.short)) identified

/-- Behind the whole frames there is nothing, or a front of the next one. -/
theorem exists_torn {frames : List Parsed} {cut : Nat} (inside : cut ≤ (wire frames).length) :
    ∃ behind torn, frames = within cut frames ++ behind ∧
      (wire frames).take cut = wire (within cut frames) ++ torn ∧
      (torn = [] ∨ ∃ next rest, behind = next :: rest ∧ Torn next.frame torn) := by
  induction frames generalizing cut with
  | nil => exact ⟨[], [], rfl, List.take_nil, .inl rfl⟩
  | cons parsed rest ih =>
    rw [wire_cons, List.length_append] at inside
    by_cases whole : parsed.frame.bytes.length ≤ cut
    · obtain ⟨behind, torn, split, taken, ending⟩ :=
        @ih (cut - parsed.frame.bytes.length) (by omega)
      refine ⟨behind, torn, ?_, ?_, ending⟩
      · rw [within, if_pos whole, List.cons_append, ← split]
      · rw [within, if_pos whole, wire_cons, wire_cons, List.take_append,
          List.take_of_length_le whole, taken, List.append_assoc]
    · have cutting : (wire (parsed :: rest)).take cut = parsed.frame.bytes.take cut := by
        rw [wire_cons, List.take_append_of_le_length (by omega)]
      refine ⟨parsed :: rest, parsed.frame.bytes.take cut, ?_, ?_, ?_⟩
      · rw [within, if_neg whole, List.nil_append]
      · rw [within, if_neg whole, wire_nil, List.nil_append, cutting]
      · cases cut with
        | zero => exact .inl rfl
        | succ count =>
          refine .inr ⟨parsed, rest, rfl, List.take_prefix _ _, ?_, ?_⟩
          · simpa using parsed.frame.bytes_ne_nil
          · rw [List.length_take]
            omega

theorem boundary_iff {frames : List Parsed} {cut : Nat} {torn : Bytes}
    (inside : cut ≤ (wire frames).length) {behind : List Parsed}
    (split : frames = within cut frames ++ behind)
    (taken : (wire frames).take cut = wire (within cut frames) ++ torn) :
    Boundary cut frames ↔ torn = [] := by
  have lengths := congrArg List.length taken
  rw [List.length_take_of_le inside, List.length_append] at lengths
  constructor
  · rintro ⟨front, rest, rfl, rfl⟩
    rw [within_wire] at lengths
    apply List.eq_nil_of_length_eq_zero
    omega
  · rintro rfl
    exact ⟨_, behind, split, lengths.symm⟩

theorem judge_block_cut {tag : UInt8} {length : Nat} {rest : Bytes} (least : checksumSize ≤ length)
    (most : length ≤ lengthLimit tag) (missing : rest.length < length) :
    judgeBlock decode policy none tag length rest = .broken .unexpectedEof [] := by
  rw [judgeBlock, if_neg (Nat.not_lt.mpr most), if_neg (Nat.not_lt.mpr least), if_pos missing]
  rfl

/-- The front of a frame that would be allowed if it were whole. -/
theorem Yields.judge_torn {frame : Frame} {content : Option Bytes}
    (yields : frame.Yields decode policy content) {identified : Bool}
    (opened : identified = true ∨ frame.tag = 0xff) {torn : Bytes} (cut : Torn frame torn) :
    Frame.judge decode policy identified none torn = .broken .unexpectedEof [] := by
  obtain ⟨left, whole⟩ := cut.front
  by_cases header : torn.length < headerSize
  · exact judge_cut cut.begun header
  · obtain ⟨tag, low, middle, high, rest, rfl⟩ := Bytes.four_in_front (Nat.not_lt.mp header)
    obtain ⟨low', middle', high', split, told⟩ := frame.bytes_split
    rw [split] at whole
    simp only [List.cons_append, List.cons.injEq] at whole
    obtain ⟨rfl, rfl, rfl, rfl, body⟩ := whole
    have missing : rest.length < frame.body.length := by
      have := cut.short
      rw [split] at this
      simpa using this
    have known : ¬ (¬ identified = true ∧ frame.tag ≠ 0xff) := by
      rintro ⟨early, other⟩
      exact opened.elim early other
    simp only [Frame.judge, told, if_neg known]
    cases yields with
    | identifier tag body =>
      have six : frame.body.length = identifierBody.length := congrArg List.length body
      rw [if_pos tag, judgeIdentifier, if_neg (Decidable.not_not.mpr six), if_pos missing]
      rfl
    | skipped low high =>
      have other : ¬ (frame.tag = 0x00 ∨ frame.tag = 0x01) := by
        rintro (h | h) <;> rw [h] at low <;> exact absurd low (by decide)
      rw [if_neg high, if_neg other, judgeSkipped, if_pos missing]
      rfl
    | compressed tag least most =>
      have most : frame.body.length ≤ lengthLimit frame.tag := by
        simpa [lengthLimit, tag] using most
      rw [if_neg (by rw [tag]; decide), if_pos (.inl tag)]
      exact judge_block_cut least most missing
    | uncompressed tag least most =>
      have most : frame.body.length ≤ lengthLimit frame.tag := by
        simpa [lengthLimit, tag] using most
      rw [if_neg (by rw [tag]; decide), if_pos (.inr tag)]
      exact judge_block_cut least most missing

theorem Stream.front {front behind : List Parsed}
    (stream : Stream decode policy (front ++ behind)) : Stream decode policy front := by
  constructor
  · intro parsed mem
    apply stream.opens
    rw [List.head?_append, Option.mem_def.mp mem]
    rfl
  · exact fun parsed mem => stream.allowed parsed (List.mem_append_left _ mem)

end Frame

namespace Reader

variable {κ : Type} [Codec κ] {codec : κ} {policy : ChecksumPolicy} {frames : List Parsed}

theorem visit_cut (promise : Codec.InputOnly codec)
    (stream : Frame.Stream (Codec.unpack codec) policy frames) {cut : Nat}
    (inside : cut ≤ (Frame.wire frames).length) {source : Source}
    (carries : source.signals = ((Frame.wire frames).take cut).map .byte) {visitor : Visitor}
    (accepts : ∀ seen, visitor seen = none) :
    let visit := (ofSource source codec policy).visitBlocks visitor
    visit.2.1.toList = Frame.blocks (Frame.within cut frames) ∧
      (Frame.Boundary cut frames → visit.1 = .done ()) ∧
      (¬ Frame.Boundary cut frames → visit.1 = .failed (.failed .unexpectedEof)) := by
  intro visit
  obtain ⟨behind, torn, split, taken, ending⟩ := Frame.exists_torn inside
  rw [Frame.boundary_iff inside split taken]
  have whole : Frame.Stream (Codec.unpack codec) policy (Frame.within cut frames) :=
    Frame.Stream.front (split ▸ stream)
  rw [taken] at carries
  rcases ending with rfl | ⟨next, rest, rfl, cutting⟩
  · have faces := faces_of_stream promise carries whole (Frame.blocked_nil _)
    obtain ⟨done, seen⟩ := visit_whole faces rfl rfl accepts
    exact ⟨seen, fun _ => done, fun other => absurd rfl other⟩
  · have faces := faces_of_stream promise carries whole (cutting.blocked _)
    have mem : next ∈ frames := split ▸ List.mem_append_right _ List.mem_cons_self
    have opened : (! (Frame.within cut frames).isEmpty) = true ∨ next.frame.tag = 0xff := by
      cases first : Frame.within cut frames with
      | nil =>
        apply Or.inr
        apply stream.opens
        rw [split, first]
        rfl
      | cons parsed more => exact .inl rfl
    have judged := (stream.allowed next mem).judge_torn opened cutting
    rcases visit_faces faces rfl rfl accepts with
      ⟨-, none, -⟩ | ⟨now, e, left, keeps, told, failed, seen⟩ | ⟨now, left, keeps, told, -⟩
    · exact absurd none cutting.begun
    · rw [keeps.unpacks promise] at told
      cases told.symm.trans judged
      exact ⟨seen, fun none => absurd none cutting.begun, fun _ => failed⟩
    · rw [keeps.unpacks promise] at told
      cases told.symm.trans judged

/-- Wherever a stream is cut that a reader accepts, it still gives every block of the frames that
are whole, and only a cut between two frames passes for the end. -/
theorem truncation_detected (promise : Codec.InputOnly codec) (policy : ChecksumPolicy)
    {source : Source} {data : Bytes} (carries : source.signals = data.map .byte)
    {visitor : Visitor} (accepts : ∀ seen, visitor seen = none)
    (clean : ((ofSource source codec policy).visitBlocks visitor).1 = .done ()) :
    ∃ frames, Frame.Stream (Codec.unpack codec) policy frames ∧ data = Frame.wire frames ∧
      ∀ cut ≤ data.length, ∀ short : Source, short.signals = (data.take cut).map .byte →
        ∀ other : Visitor, (∀ seen, other seen = none) →
          let visit := (ofSource short codec policy).visitBlocks other
          visit.2.1.toList = Frame.blocks (Frame.within cut frames) ∧
          (Frame.Boundary cut frames → visit.1 = .done ()) ∧
          (¬ Frame.Boundary cut frames → visit.1 = .failed (.failed .unexpectedEof)) := by
  obtain ⟨frames, rest, split, stream, blocked⟩ :=
    @Frame.exists_stream (Codec.unpack codec) policy data
  have faces : (ofSource source codec policy).Faces frames rest :=
    faces_of_stream promise (split ▸ carries) stream blocked
  obtain rfl := nothing_left faces rfl rfl accepts clean
  rw [List.append_nil] at split
  subst split
  exact ⟨frames, stream, rfl, fun cut inside short cutting other accepts =>
    visit_cut promise stream inside cutting accepts⟩

/-- Two bytes into the second frame. -/
theorem sample_truncated :
    let short := Source.ofEvents [.deliver (Codec.Scripted.sample.take 12)] none
    let visit := (ofSource short Codec.Scripted.honest .verify).visitBlocks fun _ => none
    visit.1 = .failed (.failed .unexpectedEof) ∧
      ∃ frames, Codec.Scripted.sample = Frame.wire frames ∧ ¬ Frame.Boundary 12 frames ∧
        visit.2.1.toList = Frame.blocks (Frame.within 12 frames) := by
  intro short visit
  have accepts : ∀ seen, (fun _ => none : Visitor) seen = none := fun _ => rfl
  obtain ⟨frames, -, wire, cuts⟩ := truncation_detected Codec.Scripted.honest_input_only .verify
    (Source.signals_deliver Codec.Scripted.sample) accepts (by decide +kernel)
  obtain ⟨seen, done, -⟩ := cuts 12 (by decide) short (Source.signals_deliver _) _ accepts
  have failed : visit.1 = .failed (.failed .unexpectedEof) := by decide +kernel
  refine ⟨failed, frames, wire, ?_, seen⟩
  intro boundary
  cases failed.symm.trans (done boundary)

end Reader

end FramedSnappy
