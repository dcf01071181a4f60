import FramedSnappy.Proofs.Codec.Scripted
import FramedSnappy.Proofs.Reader.Facing
import FramedSnappy.Proofs.Reader.Walk

/-! What a visit gives back, as a function of the bytes: the blocks of the frames in front, and the
verdict on what is behind them. Frames without data have no part in it, and the frames of two
streams, one behind the other, are those of one stream. -/
namespace FramedSnappy

open FramedSnappy.Frame (Parsed)

namespace Frame

variable {decode : Bytes → Outcome Error Bytes} {policy : ChecksumPolicy}
  {frames stuffed more : List Parsed}

variable (decode policy) in
/-- Allowed frames that carry no byte, put in anywhere: skippable frames of every kind, identifiers,
empty blocks. -/
inductive Stuffed : List Parsed → List Parsed → Prop
  | nil : Stuffed [] []
  | keep (parsed : Parsed) {frames stuffed : List Parsed} :
      Stuffed frames stuffed → Stuffed (parsed :: frames) (parsed :: stuffed)
  | insert {filler : Parsed} {frames stuffed : List Parsed} :
      filler.frame.Yields decode policy filler.content → filler.data = [] →
      Stuffed frames stuffed → Stuffed frames (filler :: stuffed)

theorem stuffed_refl (frames : List Parsed) : Stuffed decode policy frames frames := by
  induction frames with
  | nil => exact .nil
  | cons parsed rest ih => exact .keep parsed ih

theorem Stuffed.append (h : Stuffed decode policy frames stuffed) (more : List Parsed) :
    Stuffed decode policy (frames ++ more) (stuffed ++ more) := by
  induction h with
  | nil => exact stuffed_refl more
  | keep parsed _ ih => exact .keep parsed ih
  | insert yields hollow _ ih => exact .insert yields hollow ih

theorem Stuffed.blocks (h : Stuffed decode policy frames stuffed) :
    Frame.blocks stuffed = Frame.blocks frames := by
  induction h with
  | nil => rfl
  | keep parsed _ ih => rw [blocks_cons, blocks_cons, ih]
  | insert _ hollow _ ih => rw [blocks_cons, if_pos hollow, ih]

theorem Stuffed.allowed (h : Stuffed decode policy frames stuffed)
    (allowed : ∀ parsed ∈ frames, parsed.frame.Yields decode policy parsed.content) :
    ∀ parsed ∈ stuffed, parsed.frame.Yields decode policy parsed.content := by
  induction h with
  | nil => exact allowed
  | keep parsed _ ih =>
    have rest := ih fun other mem => allowed other (List.mem_cons_of_mem _ mem)
    exact List.forall_mem_cons.mpr ⟨allowed parsed List.mem_cons_self, rest⟩
  | insert yields _ _ ih => exact List.forall_mem_cons.mpr ⟨yields, ih allowed⟩

theorem Stuffed.stream {first : Parsed} (h : Stuffed decode policy frames stuffed)
    (stream : Stream decode policy (first :: frames)) :
    Stream decode policy (first :: stuffed) :=
  ⟨stream.opens, (Stuffed.keep first h).allowed stream.allowed⟩

theorem Stream.append (left : Stream decode policy frames) (right : Stream decode policy more) :
    Stream decode policy (frames ++ more) := by
  constructor
  · intro parsed mem
    cases frames with
    | nil => exact right.opens parsed mem
    | cons first rest => exact left.opens parsed mem
  · intro parsed mem
    rcases List.mem_append.mp mem with early | late
    · exact left.allowed parsed early
    · exact right.allowed parsed late

/-- The first frame has to be an identifier; nothing else depends on its place. -/
theorem judge_identified {stop : Option Fault} {data : Bytes}
    (opens : ∀ tag rest, judge decode policy false stop data ≠
      .broken (.missingStreamIdentifier tag) rest) (identified : Bool) :
    judge decode policy identified stop data = judge decode policy false stop data := by
  cases identified with
  | false => rfl
  | true =>
    unfold judge at opens ⊢
    split
    · rfl
    · rename_i tag low middle high rest
      dsimp only at opens ⊢
      by_cases opening : tag = 0xff
      · simp [opening]
      · exact absurd (if_pos ⟨Bool.false_ne_true, opening⟩) (opens tag rest)
    · rfl

/-- Only what has no frame in front of it may be judged otherwise behind another stream. -/
theorem judge_joined {left : Bytes} (opens : more = [] → ∀ tag rest,
      judge decode policy false none left ≠ .broken (.missingStreamIdentifier tag) rest) :
    judge decode policy (! (frames ++ more).isEmpty) none left =
      judge decode policy (! more.isEmpty) none left := by
  cases more with
  | nil => exact judge_identified (opens rfl) _
  | cons first behind =>
    have some : (frames ++ first :: behind).isEmpty = false := by cases frames <;> rfl
    rw [some]
    rfl

theorem Blocked.whole {identified : Bool} {rest : Bytes}
    (blocked : Blocked decode policy identified rest)
    (done : Reader.ending (judge decode policy identified none rest).outcome = .done ()) :
    rest = [] := by
  cases judged : judge decode policy identified none rest with
  | ended => exact (ended_of_judge judged).1
  | passed content left => exact absurd judged (blocked content left)
  | broken e left =>
    rw [judged] at done
    cases done
  | overrun left =>
    rw [judged] at done
    cases done

end Frame

namespace Reader

theorem offer_append (visitor : Visitor) (seen : Array Bytes) (blocks more : List Bytes) :
    offer visitor seen (blocks ++ more) =
      match offer visitor seen blocks with
      | (some e, shown) => (some e, shown)
      | (none, shown) => offer visitor shown more := by
  induction blocks generalizing seen with
  | nil => rfl
  | cons block rest ih =>
    rw [List.cons_append, offer, offer]
    cases visitor (seen.push block) with
    | some e => rfl
    | none => exact ih _

/-- A visitor that has seen blocks before. -/
theorem offer_later (visitor : Visitor) (before seen : Array Bytes) (blocks : List Bytes) :
    offer visitor (before ++ seen) blocks =
      let later := offer (fun seen => visitor (before ++ seen)) seen blocks
      (later.1, before ++ later.2) := by
  induction blocks generalizing seen with
  | nil => rfl
  | cons block rest ih =>
    rw [offer, offer, ← Array.append_push]
    cases visitor (before ++ seen.push block) with
    | some e => rfl
    | none => exact ih _

variable {κ : Type} [Codec κ] {codec : κ} {policy : ChecksumPolicy} {frames : List Parsed}
  {rest : Bytes}

theorem Faces.walk {reader : Reader κ} (h : reader.Faces frames rest) :
    ∃ last, Walks reader frames last ∧ last.Stuck ∧ last.Faces [] rest := by
  obtain ⟨passed, last, walk, stuck⟩ := exists_walk h.fit
  obtain ⟨more, rfl, facing⟩ := h.reaches walk.reaches
  cases more with
  | nil => exact ⟨last, (List.append_nil passed).symm ▸ walk, stuck, facing⟩
  | cons next more =>
    have outcome := (advance_answers facing.fit).outcome
    rw [facing.verdict_cons] at outcome
    rcases next with ⟨frame, _ | content⟩
    · cases stuck .passed outcome
    · cases stuck .block outcome

/-- What a visit of a byte string gives back. -/
theorem answer_stream (promise : Codec.InputOnly codec) {source : Source}
    (said : source.signals = (Frame.wire frames ++ rest).map .byte)
    (stream : Frame.Stream (Codec.unpack codec) policy frames)
    (blocked : Frame.Blocked (Codec.unpack codec) policy (! frames.isEmpty) rest)
    (visitor : Visitor) :
    (ofSource source codec policy).answer visitor =
      conclude (offer visitor #[] (Frame.blocks frames)) (ending
        (Frame.judge (Codec.unpack codec) policy (! frames.isEmpty) none rest).outcome) := by
  obtain ⟨last, walk, stuck, facing⟩ := (faces_of_stream promise said stream blocked).walk
  have keeps := walk.reaches.keeps
  have judged := facing.verdict_nil
  rw [keeps.unpacks promise, keeps.policy, walk.reaches.identified] at judged
  rw [walk.answer stuck (fit_of_source source codec policy) rfl rfl,
    (advance_answers facing.fit).outcome, judged]
  rfl

theorem conclude_done {shown : Option Error × Array Bytes} {ending : Outcome VisitError Unit}
    (h : (conclude shown ending).1 = .done ()) :
    shown = (none, (conclude shown ending).2) ∧ ending = .done () := by
  rcases shown with ⟨_ | e, seen⟩
  · exact ⟨rfl, h⟩
  · cases h

/-- Frames without data may stand anywhere behind the first identifier, and nobody notices. -/
theorem answer_stuffed (promise : Codec.InputOnly codec) {first : Parsed} {stuffed : List Parsed}
    (stream : Frame.Stream (Codec.unpack codec) policy (first :: frames))
    (stuffs : Frame.Stuffed (Codec.unpack codec) policy frames stuffed) {plain padded : Source}
    (said : plain.signals = (Frame.wire (first :: frames) ++ rest).map .byte)
    (also : padded.signals = (Frame.wire (first :: stuffed) ++ rest).map .byte)
    (visitor : Visitor) :
    (ofSource padded codec policy).answer visitor =
      (ofSource plain codec policy).answer visitor := by
  -- both go on to the first bytes behind that start with no frame
  obtain ⟨more, left, rfl, -, allowed, blocked⟩ :=
    @Frame.exists_blocked (Codec.unpack codec) policy true rest
  rw [← List.append_assoc, ← Frame.wire_append] at said also
  have longer : Frame.Stream (Codec.unpack codec) policy (first :: (frames ++ more)) :=
    ⟨stream.opens, fun parsed mem => (List.mem_append.mp mem).elim
      (stream.allowed parsed) (allowed parsed)⟩
  have mine := answer_stream promise said longer blocked visitor
  have yours := answer_stream promise also ((stuffs.append more).stream longer) blocked visitor
  rw [mine, List.cons_append, yours, List.cons_append, Frame.blocks_cons, Frame.blocks_cons,
    (stuffs.append more).blocks]
  rfl

/-- The same visitor goes on behind an accepted stream as if the next one followed its own. -/
theorem answer_joined (promise : Codec.InputOnly codec) {one two both : Source} {data next : Bytes}
    (said : one.signals = data.map .byte) (also : two.signals = next.map .byte)
    (joined : both.signals = (data ++ next).map .byte) {visitor : Visitor}
    (accepted : ((ofSource one codec policy).answer visitor).1 = .done ()) :
    let before := ((ofSource one codec policy).answer visitor).2
    let later := (ofSource two codec policy).answer fun seen => visitor (before ++ seen)
    (∀ tag, later.1 ≠ .failed (.failed (.missingStreamIdentifier tag))) →
      (ofSource both codec policy).answer visitor = (later.1, before ++ later.2) := by
  intro before later opens
  obtain ⟨frames, rest, rfl, stream, blocked⟩ :=
    @Frame.exists_stream (Codec.unpack codec) policy data
  obtain ⟨more, left, rfl, stream', blocked'⟩ :=
    @Frame.exists_stream (Codec.unpack codec) policy next
  have mine := answer_stream promise said stream blocked visitor
  have yours : later = _ := answer_stream promise also stream' blocked' _
  rw [mine] at accepted
  obtain ⟨shown, done⟩ := conclude_done accepted
  rw [← mine] at shown
  obtain rfl := blocked.whole done
  have known : Frame.judge (Codec.unpack codec) policy (! (frames ++ more).isEmpty) none left =
      Frame.judge (Codec.unpack codec) policy (! more.isEmpty) none left := by
    apply Frame.judge_joined
    rintro rfl tag rest judged
    apply opens tag
    rw [yours, List.isEmpty_nil, Bool.not_true, judged]
    rfl
  have stuck : Frame.Blocked (Codec.unpack codec) policy (! (frames ++ more).isEmpty) left :=
    fun content rest => known ▸ blocked' content rest
  rw [List.append_nil, ← List.append_assoc, ← Frame.wire_append] at joined
  have behind := offer_later visitor before #[] (Frame.blocks more)
  rw [Array.append_empty] at behind
  rw [answer_stream promise joined (stream.append stream') stuck visitor, known,
    Frame.blocks_append, offer_append, shown, yours]
  dsimp only
  rw [behind]
  generalize offer _ #[] (Frame.blocks more) = ending
  rcases ending with ⟨_ | e, seen⟩ <;> rfl

/-- The frames that a reader gets through form a stream. -/
theorem Walks.stream (promise : Codec.InputOnly codec) {source : Source} {last : Reader κ}
    (walk : Walks (ofSource source codec policy) frames last) :
    Frame.Stream (Codec.unpack codec) policy frames :=
  ⟨walk.reaches.opened.resolve_left nofun,
    walk.reaches.allowed fun _ keeps => keeps.unpacks promise⟩

/-- Frames without data change nothing about a visit, wherever they are put behind the first frame
of those that a reader gets through, and whatever is behind these. Two streams in a row are visited
one after the other, unless the second one needs an identifier that it has not got. -/
theorem fillers_vanish_and_streams_join {codec : κ} (promise : Codec.InputOnly codec)
    (policy : ChecksumPolicy) :
    let answer (source : Source) (visitor : Visitor) :=
      (ofSource source codec policy).answer visitor
    (∀ (data : Bytes) (plain : Source), plain.signals = data.map .byte →
      ∀ first frames last, Walks (ofSource plain codec policy) (first :: frames) last →
        ∀ stuffed, Frame.Stuffed (Codec.unpack codec) policy frames stuffed →
          ∀ padded : Source,
            padded.signals = (Frame.wire (first :: stuffed)).map .byte ++ last.source.signals →
            ∀ visitor, answer padded visitor = answer plain visitor) ∧
    ∀ (data next : Bytes) (one two both : Source), one.signals = data.map .byte →
      two.signals = next.map .byte → both.signals = (data ++ next).map .byte →
        ∀ visitor, (answer one visitor).1 = .done () →
          let before := (answer one visitor).2
          let later := answer two fun seen => visitor (before ++ seen)
          (∀ tag, later.1 ≠ .failed (.failed (.missingStreamIdentifier tag))) →
            answer both visitor = (later.1, before ++ later.2) := by
  intro answer
  constructor
  · intro data plain said first frames last walk stuffed stuffs padded also visitor
    have whole := walk.signals
    rw [show (ofSource plain codec policy).source.signals = data.map .byte from said] at whole
    obtain ⟨front, rest, rfl, same, left⟩ := List.map_eq_append_iff.mp whole
    have wire := congrArg Signal.bytes same
    rw [Signal.bytes_map, Signal.bytes_map] at wire
    rw [wire] at said
    rw [← left, ← List.map_append] at also
    exact answer_stuffed promise (walk.stream promise) stuffs said also visitor
  · intro data next one two both said also joined visitor accepted
    exact answer_joined promise said also joined accepted

def opening : Parsed := ⟨⟨0xff, Frame.identifierBody, by decide⟩, none⟩

def twoBytes : Parsed :=
  ⟨⟨0x01, [0x1c, 0xb0, 0xf0, 0xf4, 0x61, 0x62], by decide⟩, some [0x61, 0x62]⟩

/-- Padding, another identifier, and an empty block. -/
def fillers : List Parsed :=
  [⟨⟨0xfe, [1, 2, 3], by decide⟩, none⟩, opening,
    ⟨⟨0x01, [0xd8, 0xea, 0x82, 0xa2], by decide⟩, some []⟩]

theorem two_bytes_stuffed_and_joined :
    let answer (data : Bytes) :=
      (ofSource (.ofEvents [.deliver data] none) Codec.Scripted.honest .verify).answer
        fun _ => none
    let plain := Frame.wire [opening, twoBytes]
    answer plain = (.done (), #[[0x61, 0x62]]) ∧
    answer (Frame.wire (opening :: (fillers ++ twoBytes :: fillers))) = answer plain ∧
    answer (plain ++ (plain ++ [0x00])) =
      (.failed (.failed .unexpectedEof), #[[0x61, 0x62], [0x61, 0x62]]) := by
  intro answer plain
  have accepts : ∀ seen, (fun _ => none : Visitor) seen = none := fun _ => rfl
  have said := Source.signals_deliver
  have accepted : answer plain = (.done (), #[[0x61, 0x62]]) := by decide +kernel
  have again : answer (plain ++ [0x00]) =
      (.failed (.failed .unexpectedEof), #[[0x61, 0x62]]) := by decide +kernel
  obtain ⟨vanish, join⟩ :=
    fillers_vanish_and_streams_join Codec.Scripted.honest_input_only .verify
  refine ⟨accepted, ?_, ?_⟩
  · obtain ⟨frames, last, walk, whole, -⟩ :=
      exists_walk_of_accepted (said plain) accepts (congrArg Prod.fst accepted)
    have spent : last.source.signals = [] := by
      have signals := walk.signals
      rw [← whole] at signals
      exact List.append_right_eq_self.mp ((said plain).symm.trans signals).symm
    have cut := Frame.frames_of_wire whole.symm
    obtain ⟨first, more, rfl, start, cut⟩ := List.map_eq_cons_iff.mp cut
    obtain ⟨second, none, rfl, stored, cut⟩ := List.map_eq_cons_iff.mp cut
    obtain rfl := List.map_eq_nil_iff.mp cut
    have allowed {frames stuffed : List Parsed}
        (h : Frame.Stuffed (Codec.unpack Codec.Scripted.honest) .verify frames stuffed) :
        Frame.Stuffed (Codec.unpack Codec.Scripted.honest) .verify frames (fillers ++ stuffed) := by
      refine .insert (.skipped (by decide) (by decide)) rfl ?_
      refine .insert (.identifier rfl rfl) rfl ?_
      refine .insert (.uncompressed rfl (by decide) (by decide) fun _ => ?_) rfl h
      decide +kernel
    apply vanish plain _ (said plain) first [second] last walk (fillers ++ second :: fillers)
    · exact allowed (.keep second (List.append_nil fillers ▸ allowed .nil))
    · rw [said, spent, List.append_nil]
      simp [start, stored]
  · have opens : ∀ tag, (answer (plain ++ [0x00])).1 ≠
        .failed (.failed (.missingStreamIdentifier tag)) := by
      rw [again]
      exact nofun
    have joined := join plain (plain ++ [0x00]) _ _ _ (said _) (said _) (said _) (fun _ => none)
      (congrArg Prod.fst accepted) opens
    have answered : answer (plain ++ (plain ++ [0x00])) =
      ((answer (plain ++ [0x00])).1, (answer plain).2 ++ (answer (plain ++ [0x00])).2) := joined
    rw [answered, again, accepted]
    rfl

end Reader

end FramedSnappy
