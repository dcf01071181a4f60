import FramedSnappy.Proofs.Reader.Visit

/-! A reader in front of a byte string: allowed frames, and then bytes that start with none. It can
only take these frames, in this order, and comes to what is behind them. -/
namespace FramedSnappy.Reader

open FramedSnappy.Frame (Parsed)

variable {κ : Type} [Codec κ]

/-- The frames have to be allowed by every codec the reader's codec may turn into on its way. -/
structure Faces (reader : Reader κ) (frames : List Parsed) (rest : Bytes) : Prop where
  fit : reader.Fit
  said : reader.source.signals = (Frame.wire frames ++ rest).map .byte
  opened : reader.identified = true ∨ ∀ parsed ∈ frames.head?, parsed.frame.tag = 0xff
  allowed : ∀ now, reader.Keeps now → ∀ parsed ∈ frames,
    parsed.frame.Yields now.decode reader.policy parsed.content
  blocked : ∀ now, reader.Keeps now →
    Frame.Blocked now.decode reader.policy (reader.identified || ! frames.isEmpty) rest

variable {reader after last : Reader κ} {frames passed : List Parsed} {parsed : Parsed}
  {rest : Bytes}

theorem Takes.verdict (h : reader.Takes parsed after) :
    reader.verdict = .passed parsed.content after.source.front := by
  unfold Reader.verdict
  rw [h.front]
  exact h.yields.judge h.opened _ _

/-- No other frame can be taken than the one in front. -/
theorem Takes.unique {first : Parsed} (h : reader.Takes parsed after)
    (front : reader.source.front = first.frame.bytes ++ rest)
    (judged : reader.verdict = .passed first.content rest) : first = parsed := by
  obtain ⟨content, left⟩ := Frame.Verdict.passed.inj (judged.symm.trans h.verdict)
  have same : first.frame.bytes = parsed.frame.bytes := by
    have taken := front.symm.trans h.front
    rw [← left] at taken
    exact List.append_cancel_right taken
  cases first
  cases parsed
  rw [Parsed.mk.injEq]
  exact ⟨Frame.bytes_inj same, content⟩

namespace Faces

theorem front (h : reader.Faces frames rest) : reader.source.front = Frame.wire frames ++ rest :=
  Source.front_of_bytes h.said

theorem stop (h : reader.Faces frames rest) : Signal.stop reader.source.behind = none := by
  rw [Source.behind_of_bytes h.said]
  rfl

theorem verdict_cons (h : reader.Faces (parsed :: frames) rest) :
    reader.verdict = .passed parsed.content (Frame.wire frames ++ rest) := by
  have yields := h.allowed reader (.refl reader) parsed List.mem_cons_self
  have opened := h.opened.imp_right fun tag => tag parsed rfl
  unfold Reader.verdict
  rw [h.front, Frame.wire_cons, List.append_assoc]
  exact yields.judge opened _ _

theorem verdict_nil (h : reader.Faces [] rest) :
    reader.verdict = Frame.judge reader.decode reader.policy reader.identified none rest := by
  unfold Reader.verdict
  rw [h.front, h.stop]
  rfl

theorem with_queue (h : reader.Faces frames rest) (queue : ByteQueue) :
    ({ reader with pending := queue } : Reader κ).Faces frames rest :=
  ⟨⟨h.fit.body, h.fit.decoded⟩, h.said, h.opened, fun now keeps => h.allowed now keeps.of_queue,
    fun now keeps => h.blocked now keeps.of_queue⟩

theorem takes (h : reader.Faces frames rest) (takes : reader.Takes parsed after) :
    ∃ more, frames = parsed :: more ∧ after.Faces more rest := by
  cases frames with
  | nil =>
    have taken := takes.verdict
    rw [h.verdict_nil] at taken
    have blocked := h.blocked reader (.refl reader)
    simp only [List.isEmpty_nil, Bool.not_true, Bool.or_false] at blocked
    exact absurd taken (blocked _ _)
  | cons first more =>
    have front := h.front
    rw [Frame.wire_cons, List.append_assoc] at front
    obtain rfl := takes.unique front h.verdict_cons
    have said := takes.said
    rw [h.said, Frame.wire_cons, List.append_assoc, List.map_append] at said
    refine ⟨more, rfl, takes.keeps.fit h.fit, (List.append_cancel_left said).symm,
      .inl takes.identified, ?_, ?_⟩
    · intro now keeps other mem
      rw [takes.keeps.policy]
      exact h.allowed now (takes.keeps.trans keeps) other (List.mem_cons_of_mem _ mem)
    · intro now keeps
      rw [takes.keeps.policy, takes.identified]
      simpa using h.blocked now (takes.keeps.trans keeps)

theorem halts (h : reader.Faces frames rest) (halts : reader.Halts after) :
    frames = [] ∧ rest = [] ∧ after.Faces [] [] := by
  have empty := (Frame.ended_of_judge halts.verdict).1
  rw [h.front] at empty
  obtain ⟨none, rfl⟩ := List.append_eq_nil_iff.mp empty
  obtain rfl := Frame.wire_eq_nil none
  have spent : after.source.signals = [] := by
    rcases halts.signals with ⟨_, spent⟩ | paused
    · exact spent
    · rw [h.said] at paused
      cases paused
  exact ⟨rfl, rfl, halts.keeps.fit h.fit, spent, .inr nofun, nofun,
    fun _ _ => Frame.blocked_nil _⟩

theorem reaches (h : reader.Faces frames rest) (reaches : Reaches reader passed last) :
    ∃ more, frames = passed ++ more ∧ last.Faces more rest := by
  induction reaches generalizing frames rest with
  | here reader queue => exact ⟨frames, rfl, h.with_queue queue⟩
  | halt halts _ ih =>
    obtain ⟨rfl, rfl, spent⟩ := h.halts halts
    exact ih spent
  | take takes _ ih =>
    obtain ⟨behind, rfl, next⟩ := h.takes takes
    obtain ⟨more, rfl, facing⟩ := ih next
    exact ⟨more, rfl, facing⟩

theorem breaks {e : Error} (h : reader.Faces frames rest) (breaks : reader.Breaks e after) :
    frames = [] ∧ ∃ left,
      Frame.judge reader.decode reader.policy reader.identified none rest = .broken e left := by
  obtain ⟨left, judged, _⟩ := breaks.verdict
  cases frames with
  | nil => exact ⟨rfl, left, h.verdict_nil.symm.trans judged⟩
  | cons first more =>
    rw [h.verdict_cons] at judged
    cases judged

theorem overruns (h : reader.Faces frames rest) (overruns : reader.Overruns after) :
    frames = [] ∧ ∃ left,
      Frame.judge reader.decode reader.policy reader.identified none rest = .overrun left := by
  obtain ⟨left, judged⟩ := overruns.verdict
  cases frames with
  | nil => exact ⟨rfl, left, h.verdict_nil.symm.trans judged⟩
  | cons first more =>
    rw [h.verdict_cons] at judged
    cases judged

end Faces

theorem Keeps.unpacks {codec : κ} (promise : Codec.InputOnly codec) {source : Source}
    {policy : ChecksumPolicy} {now : Reader κ} (keeps : (ofSource source codec policy).Keeps now) :
    now.decode = Codec.unpack codec :=
  funext (decode_input_only promise (keeps.fit (fit_of_source source codec policy)) keeps.codec)

theorem faces_of_stream {codec : κ} (promise : Codec.InputOnly codec) {source : Source}
    {policy : ChecksumPolicy} (said : source.signals = (Frame.wire frames ++ rest).map .byte)
    (stream : Frame.Stream (Codec.unpack codec) policy frames)
    (blocked : Frame.Blocked (Codec.unpack codec) policy (! frames.isEmpty) rest) :
    (ofSource source codec policy).Faces frames rest := by
  refine ⟨fit_of_source source codec policy, said, .inr stream.opens, ?_, ?_⟩
  · intro now keeps parsed mem
    rw [keeps.unpacks promise]
    exact stream.allowed parsed mem
  · intro now keeps
    rw [keeps.unpacks promise]
    exact blocked

end FramedSnappy.Reader
