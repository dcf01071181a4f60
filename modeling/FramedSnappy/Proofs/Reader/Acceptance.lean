import FramedSnappy.Proofs.Codec.Scripted
import FramedSnappy.Proofs.Reader.Facing

/-! A visit accepts exactly the streams. It shows the blocks of the longest stream in front, and
whether it succeeds depends on whether anything is left behind that stream. -/
namespace FramedSnappy.Reader

open FramedSnappy.Frame (Parsed)

variable {κ : Type} [Codec κ]

/-- A visitor that accepts every block sees all of them, and then what is behind them decides. -/
theorem visit_faces {reader : Reader κ} {frames : List Parsed} {rest : Bytes}
    (faces : reader.Faces frames rest) (fresh : reader.poisoned = false)
    (empty : reader.pending.toList = []) {visitor : Visitor}
    (accepts : ∀ seen, visitor seen = none) :
    ((reader.visitBlocks visitor).1 = .done () ∧ rest = [] ∧
      (reader.visitBlocks visitor).2.1.toList = Frame.blocks frames) ∨
    (∃ now e left, reader.Keeps now ∧
      Frame.judge now.decode reader.policy (reader.identified || ! frames.isEmpty) none rest =
        .broken e left ∧
      (reader.visitBlocks visitor).1 = .failed (.failed e) ∧
      (reader.visitBlocks visitor).2.1.toList = Frame.blocks frames) ∨
    (∃ now left, reader.Keeps now ∧
      Frame.judge now.decode reader.policy (reader.identified || ! frames.isEmpty) none rest =
        .overrun left ∧
      (reader.visitBlocks visitor).1 = .overrun) := by
  have visits := @visit_blocks_visits _ _ visitor _ faces.fit fresh
  have nothing : reader.held = [] := if_pos empty
  rw [nothing] at visits
  generalize reader.visitBlocks visitor = visit at visits ⊢
  cases visits with
  | ended reaches halts _ seen =>
    obtain ⟨more, rfl, behind⟩ := faces.reaches reaches
    obtain ⟨rfl, rfl, -⟩ := behind.halts halts
    exact .inl ⟨rfl, rfl, by simpa using seen⟩
  | broken reaches breaks _ seen =>
    obtain ⟨more, rfl, behind⟩ := faces.reaches reaches
    obtain ⟨rfl, left, judged⟩ := behind.breaks breaks
    rw [reaches.identified, reaches.keeps.policy] at judged
    refine .inr (.inl ⟨_, _, left, reaches.keeps, by simpa using judged, rfl, by simpa using seen⟩)
  | refused _ _ _ told =>
    rw [accepts] at told
    cases told
  | overrun reaches overruns =>
    obtain ⟨more, rfl, behind⟩ := faces.reaches reaches
    obtain ⟨rfl, left, judged⟩ := behind.overruns overruns
    rw [reaches.identified, reaches.keeps.policy] at judged
    exact .inr (.inr ⟨_, left, reaches.keeps, by simpa using judged, rfl⟩)

theorem visit_whole {reader : Reader κ} {frames : List Parsed} (faces : reader.Faces frames [])
    (fresh : reader.poisoned = false) (empty : reader.pending.toList = []) {visitor : Visitor}
    (accepts : ∀ seen, visitor seen = none) :
    (reader.visitBlocks visitor).1 = .done () ∧
      (reader.visitBlocks visitor).2.1.toList = Frame.blocks frames := by
  rcases visit_faces faces fresh empty accepts with
    ⟨done, -, seen⟩ | ⟨now, e, left, -, judged, -⟩ | ⟨now, left, -, judged, -⟩
  · exact ⟨done, seen⟩
  · cases judged
  · cases judged

theorem nothing_left {reader : Reader κ} {frames : List Parsed} {rest : Bytes}
    (faces : reader.Faces frames rest) (fresh : reader.poisoned = false)
    (empty : reader.pending.toList = []) {visitor : Visitor} (accepts : ∀ seen, visitor seen = none)
    (done : (reader.visitBlocks visitor).1 = .done ()) : rest = [] := by
  rcases visit_faces faces fresh empty accepts with
    ⟨-, none, -⟩ | ⟨now, e, left, -, -, failed, -⟩ | ⟨now, left, -, -, failed⟩
  · exact none
  · cases failed.symm.trans done
  · cases failed.symm.trans done

theorem visit_accepts_streams {codec : κ} (promise : Codec.InputOnly codec)
    (policy : ChecksumPolicy) {source : Source} {data : Bytes}
    (carries : source.signals = data.map .byte) {visitor : Visitor}
    (accepts : ∀ seen, visitor seen = none) :
    let visit := (ofSource source codec policy).visitBlocks visitor
    let stream := Frame.Stream (Codec.unpack codec) policy
    (visit.1 = .done () ↔ ∃ frames, stream frames ∧ data = Frame.wire frames) ∧
    (∀ frames, stream frames → data = Frame.wire frames →
      visit.2.1.toList = Frame.blocks frames) ∧
    (visit.1 ≠ .done () → ∃ frames rest e left, stream frames ∧ data = Frame.wire frames ++ rest ∧
      Frame.judge (Codec.unpack codec) policy (! frames.isEmpty) none rest = .broken e left ∧
      visit.1 = .failed (.failed e) ∧ visit.2.1.toList = Frame.blocks frames) := by
  intro visit stream
  have whole (frames : List Parsed) (allowed : stream frames) (split : data = Frame.wire frames) :
      visit.1 = .done () ∧ visit.2.1.toList = Frame.blocks frames := by
    have said : source.signals = (Frame.wire frames ++ []).map .byte := by
      rw [carries, split, List.append_nil]
    exact visit_whole (faces_of_stream promise said allowed (Frame.blocked_nil _)) rfl rfl accepts
  obtain ⟨frames, rest, split, allowed, blocked⟩ :=
    @Frame.exists_stream (Codec.unpack codec) policy data
  have faces : (ofSource source codec policy).Faces frames rest :=
    faces_of_stream promise (split ▸ carries) allowed blocked
  have ending := visit_faces faces rfl rfl accepts
  have decode (now : Reader κ) (keeps : (ofSource source codec policy).Keeps now) :
      now.decode = Codec.unpack codec :=
    funext (decode_input_only promise (keeps.fit faces.fit) keeps.codec)
  rcases ending with ⟨done, rfl, seen⟩ | ⟨now, e, left, keeps, judged, failed, seen⟩ |
      ⟨now, left, keeps, judged, -⟩
  · have split : data = Frame.wire frames := by simpa using split
    exact ⟨⟨fun _ => ⟨frames, allowed, split⟩, fun _ => done⟩,
      fun frames allowed split => (whole frames allowed split).2, fun undone => absurd done undone⟩
  · rw [decode now keeps] at judged
    have undone : visit.1 ≠ .done () := by
      rw [show visit.1 = _ from failed]
      exact nofun
    refine ⟨⟨fun done => absurd done undone, ?_⟩, ?_, ?_⟩
    · rintro ⟨frames, allowed, split⟩
      exact (whole frames allowed split).1
    · exact fun frames allowed split => (whole frames allowed split).2
    · exact fun _ => ⟨frames, rest, e, left, allowed, split, judged, failed, seen⟩
  · rw [decode now keeps] at judged
    exact absurd judged (Frame.judge_inside (Codec.unpack_inside promise))

theorem sample_accepted :
    ∃ frames, Frame.Stream (Codec.unpack Codec.Scripted.honest) .verify frames ∧
      Codec.Scripted.sample = Frame.wire frames := by
  have accepts : ∀ seen, (fun _ => none : Visitor) seen = none := fun _ => rfl
  refine (visit_accepts_streams Codec.Scripted.honest_input_only .verify
    (Source.signals_deliver Codec.Scripted.sample) accepts).1.mp ?_
  decide +kernel

end FramedSnappy.Reader
