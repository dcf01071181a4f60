import FramedSnappy.Proofs.Codec.Scripted
import FramedSnappy.Proofs.Writer.Storing

/-! What a failure of the sink leaves behind: the front of what the call meant to send, a count of
the whole frames in it, and a note of whether a whole identifier has ever gone out. -/
namespace FramedSnappy

open FramedSnappy.Codec (Attempt)

/-- The operations that frame their data. -/
def WriterOperation.Frames : WriterOperation → Prop
  | write _ => True
  | writeFrames _ => True
  | writeAll _ _ => True
  | _ => False

namespace Writer

variable {κ : Type} {writer middle after : Writer κ} {gained more : Bytes}

/-- The bytes that have arrived tell whether an identifier has been completed. -/
structure Gains (writer : Writer κ) (gained : Bytes) (after : Writer κ) : Prop where
  received : after.sink.received.toList = writer.sink.received.toList ++ gained
  identified : after.identified = true ↔
    writer.identified = true ∨ Frame.streamIdentifier <+: gained

/-- An identifier is never completed by a second attempt. -/
theorem Gains.trans (first : writer.Gains gained middle)
    (settled : gained = [] ∨ middle.identified = true) (second : middle.Gains more after) :
    writer.Gains (gained ++ more) after := by
  constructor
  · rw [second.received, first.received, List.append_assoc]
  · rcases settled with rfl | known
    · rw [second.identified, first.identified]
      simp [Frame.streamIdentifier]
    · refine iff_of_true (second.identified.mpr (.inl known)) ?_
      exact (first.identified.mp known).imp_right fun whole =>
        whole.trans (List.prefix_append _ _)

variable [Codec κ]

theorem Carries.retains {plan : Plan} {result : Outcome Error Unit × Writer κ}
    (h : writer.Carries plan result) : writer.Retains result.2 := by
  cases h with
  | all _ _ _ retains => exact retains
  | torn _ _ _ retains => exact retains

/-- After a failure of the sink nobody makes the call again by himself. -/
theorem Carries.gains {plan : Plan} {result : Outcome Error Unit × Writer κ}
    (h : writer.Carries plan result) :
    ∃ gained, writer.Gains gained result.2 ∧
      ∀ e, result.1 = .failed e → e.toStreamError.interrupted = true →
        gained = [] ∨ result.2.identified = true := by
  cases h with
  | all wrote identified _ _ =>
    refine ⟨_, ⟨Sink.write_all_received wrote, identified.trans ?_⟩, fun _ _ _ => ?_⟩
    · cases known : writer.identified with
      | true => simp
      | false =>
        cases plan.frames with
        | nil => simp [intended, Frame.streamIdentifier]
        | cons frame frames => simp [intended_cons, due_new known]
    · by_cases none : plan.frames = []
      · exact .inl (if_pos none)
      · exact .inr (identified.mpr (.inr none))
  | torn split wrote cut _ =>
    obtain ⟨part, -, -, received, identified⟩ := cut.gained
    refine ⟨_, ⟨received, identified⟩, fun e failed again => ?_⟩
    cases failed
    rcases Sink.write_all_error wrote with ⟨-, final⟩ | rfl
    · exact absurd again (Bool.eq_false_iff.mp final)
    · exact absurd again (by decide)

theorem write_gains (bounded : Codec.Bounded writer.codec) (data : Bytes) :
    ∃ gained, writer.Gains gained (writer.write data).2 ∧ writer.Retains (writer.write data).2 ∧
      ∀ e, (writer.write data).1 = .failed e → e.interrupted = true →
        gained = [] ∨ (writer.write data).2.identified = true := by
  have carries := write_frames_carries bounded data
  obtain ⟨gained, gains, settled⟩ := carries.gains
  refine ⟨gained, gains, carries.retains, fun e failed again => ?_⟩
  unfold write at failed
  cases h : (writer.writeFrames data).1 with
  | done => simp [h, Outcome.mapError] at failed
  | overrun => simp [h, Outcome.mapError] at failed
  | failed error =>
    simp only [h, Outcome.mapError, Outcome.failed.injEq] at failed
    exact settled error h (failed ▸ again)

theorem write_all_gains (bounded : Codec.Bounded writer.codec) (patience : Nat) (data : Bytes) :
    ∃ gained, writer.Gains gained (writer.writeAll patience data).2 ∧
      writer.Retains (writer.writeAll patience data).2 := by
  revert bounded
  refine write_all_elim ?_ ?_ patience writer
  · intro writer bounded
    obtain ⟨gained, gains, retains, -⟩ := write_gains bounded data
    exact ⟨gained, gains, retains⟩
  · intro writer middle e result failed interrupted ih bounded
    obtain ⟨gained, gains, retains, settled⟩ := write_gains bounded data
    rw [failed] at gains retains settled
    obtain ⟨more, rest, kept⟩ := ih (bounded.later retains.codec)
    exact ⟨_, gains.trans (settled e rfl interrupted) rest, retains.trans kept⟩

theorem perform_write (writer : Writer κ) (data : Bytes) :
    (writer.perform (.write data)).2 = (writer.write data).2 := by
  simp only [perform]
  rcases writer.write data with ⟨_ | _ | _, after⟩ <;> rfl

theorem perform_write_frames (writer : Writer κ) (data : Bytes) :
    (writer.perform (.writeFrames data)).2 = (writer.writeFrames data).2 := by
  simp only [perform]
  rcases writer.writeFrames data with ⟨_ | _ | _, after⟩ <;> rfl

theorem perform_write_all (writer : Writer κ) (data : Bytes) (patience : Nat) :
    (writer.perform (.writeAll data patience)).2 = (writer.writeAll patience data).2 := by
  simp only [perform]
  rcases writer.writeAll patience data with ⟨_ | _ | _, after⟩ <;> rfl

theorem call_gains (bounded : Codec.Bounded writer.codec) {operation : WriterOperation}
    (frames : operation.Frames) :
    ∃ gained, writer.Gains gained (writer.perform operation).2 ∧
      writer.Retains (writer.perform operation).2 := by
  cases operation with
  | write data =>
    obtain ⟨gained, gains, retains, -⟩ := write_gains bounded data
    rw [perform_write]
    exact ⟨gained, gains, retains⟩
  | writeFrames data =>
    have carries := write_frames_carries bounded data
    obtain ⟨gained, gains, -⟩ := carries.gains
    rw [perform_write_frames]
    exact ⟨gained, gains, carries.retains⟩
  | writeAll data patience =>
    rw [perform_write_all]
    exact write_all_gains bounded patience data
  | _ => exact frames.elim

/-- The operation sends an identifier, and the sink takes all of it. -/
def Opens (writer : Writer κ) (operation : WriterOperation) : Prop :=
  operation.Frames ∧ ∃ more, (writer.perform operation).2.sink.received.toList =
    writer.sink.received.toList ++ (Frame.streamIdentifier ++ more)

theorem perform_opens (bounded : Codec.Bounded writer.codec) (operation : WriterOperation) :
    ((writer.perform operation).2.identified = true ↔
      writer.identified = true ∨ writer.Opens operation) ∧
      writer.Retains (writer.perform operation).2 := by
  by_cases frames : operation.Frames
  · obtain ⟨gained, gains, retains⟩ := call_gains bounded frames
    refine ⟨gains.identified.trans (or_congr_right ?_), retains⟩
    constructor
    · rintro ⟨more, rfl⟩
      exact ⟨frames, more, gains.received⟩
    · rintro ⟨-, more, received⟩
      exact ⟨more, List.append_cancel_left (received.symm.trans gains.received)⟩
  · have closed : ¬ writer.Opens operation := fun opens => frames opens.1
    cases operation with
    | flush =>
      simp only [perform, flush]
      rcases writer.sink.flush with ⟨_ | _, sink⟩
      · exact ⟨by simp [closed], .now, rfl⟩
      · exact ⟨by simp [closed], .now, rfl⟩
    | raw data => exact ⟨by simp [closed, perform], .now, rfl⟩
    | feed events => exact ⟨by simp [closed, perform], .now, rfl⟩
    | _ => exact absurd trivial frames

/-- The first call has got stuck in the identifier. The second one gets as far as the header of its
frame. -/
def stuck : Sink :=
  .ofEvents [.accept 3, .fail ⟨.brokenPipe, "cable pulled"⟩, .accept 14,
    .fail ⟨.brokenPipe, "cable pulled again"⟩] none []

end Writer

end FramedSnappy
