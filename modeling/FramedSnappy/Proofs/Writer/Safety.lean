import FramedSnappy.Proofs.Writer.Failure

/-! Writers that never overrun. Compression that stays inside the window it has asked for leaves its
result in the scratch buffer, and whatever the sink does with it, every operation gets its reply. -/
namespace FramedSnappy.Writer

variable {κ : Type}

theorem exists_of_goes {ε : Type} {result : Outcome ε Unit × Writer κ}
    (goes : result.1 ≠ .overrun) :
    ∃ after, result = (.done (), after) ∨ ∃ e, result = (.failed e, after) := by
  rcases result with ⟨_ | e | _, after⟩
  · exact ⟨after, .inl rfl⟩
  · exact ⟨after, .inr ⟨e, rfl⟩⟩
  · exact absurd rfl goes

variable [Codec κ] {writer : Writer κ}

theorem Carries.goes {plan : Plan} {result : Outcome Error Unit × Writer κ}
    (h : writer.Carries plan result) : result.1 ≠ .overrun := by
  cases h with
  | all _ _ _ _ =>
    unfold Plan.outcome
    split <;> simp
  | torn _ _ _ _ => simp

theorem write_goes (bounded : Codec.Bounded writer.codec) (data : Bytes) :
    (writer.write data).1 ≠ .overrun := by
  obtain ⟨after, h | ⟨e, h⟩⟩ := exists_of_goes (write_frames_carries bounded data).goes
  · simp [write, h, Outcome.mapError]
  · simp [write, h, Outcome.mapError]

/-- No attempt leaves the codec worse than the one before it. -/
theorem write_all_goes (bounded : Codec.Bounded writer.codec) (patience : Nat) (data : Bytes) :
    (writer.writeAll patience data).1 ≠ .overrun := by
  revert bounded
  refine write_all_elim ?_ ?_ patience writer
  · intro writer bounded
    exact write_goes bounded data
  · intro writer middle e result failed interrupted ih bounded
    obtain ⟨-, -, retains, -⟩ := write_gains bounded data
    rw [failed] at retains
    exact ih (bounded.later retains.codec)

theorem perform_goes (bounded : Codec.Bounded writer.codec) (operation : WriterOperation) :
    (writer.perform operation).1 ≠ .overrun := by
  cases operation with
  | write data =>
    obtain ⟨after, h | ⟨e, h⟩⟩ := exists_of_goes (write_goes bounded data)
    · simp [perform, h]
    · simp [perform, h]
  | writeFrames data =>
    obtain ⟨after, h | ⟨e, h⟩⟩ := exists_of_goes (write_frames_carries bounded data).goes
    · simp [perform, h]
    · simp [perform, h]
  | writeAll data patience =>
    obtain ⟨after, h | ⟨e, h⟩⟩ := exists_of_goes (write_all_goes bounded patience data)
    · simp [perform, h]
    · simp [perform, h]
  | flush =>
    simp only [perform]
    split <;> simp
  | raw data => simp [perform]
  | feed events => simp [perform]

/-- Every operation of a run gets its reply. -/
theorem run_goes (bounded : Codec.Bounded writer.codec) (operations : List WriterOperation) :
    (writer.run operations).length = operations.length ∧
      ∀ step ∈ writer.run operations, step.1 ≠ .overrun := by
  induction operations generalizing writer with
  | nil => simp [run]
  | cons operation rest ih =>
    have goes := perform_goes bounded operation
    have retains := (perform_opens bounded operation).2
    obtain ⟨length, safe⟩ := ih (bounded.later retains.codec)
    rw [run_cons, if_neg goes]
    exact ⟨congrArg (· + 1) length, List.forall_mem_cons.mpr ⟨goes, safe⟩⟩

end FramedSnappy.Writer
