import FramedSnappy.Proofs.Codec.Scripted
import FramedSnappy.Proofs.Guarded.Reader
import FramedSnappy.Proofs.Guarded.Writer
import FramedSnappy.Proofs.Reader.Safety
import FramedSnappy.Proofs.Writer.Safety

/-! Every access of a reader or a writer is in range, provided that the codec stays inside the
windows it is lent. All else, the bytes of the source above all, may be as bad as it likes. -/
namespace FramedSnappy

/-- Guards on all accesses change nothing, and every operation of a run gets its reply. -/
theorem accesses_in_range {κ : Type} [Codec κ] {codec : κ} (inside : Codec.Inside codec)
    (bounded : Codec.Bounded codec) :
    (∀ source policy operations,
      let first := Reader.ofSource source codec policy
      Guarded.run first operations = first.run operations ∧
        (first.run operations).length = operations.length ∧
        ∀ step ∈ first.run operations, step.1 ≠ .overrun) ∧
    ∀ sink operations,
      let first := Writer.ofSink sink codec
      Guarded.runWriting first operations = first.run operations ∧
        (first.run operations).length = operations.length ∧
        ∀ step ∈ first.run operations, step.1 ≠ .overrun := by
  constructor
  · intro source policy operations first
    have safe : first.Safe := ⟨Reader.fit_of_source source codec policy, inside⟩
    exact ⟨Guarded.run_sound ByteQueue.sound_empty operations, safe.run operations⟩
  · intro sink operations first
    exact ⟨Guarded.run_writing_eq first operations, Writer.run_goes bounded operations⟩

/-- Two bytes are written, and read again with a cursor that is sent far past them. -/
theorem far_cursor_in_range :
    let codec := Codec.Scripted.honest
    let source := Source.ofEvents [.deliver Codec.Scripted.sample] none
    let replies := (Guarded.run (Reader.ofSource source codec .verify)
      [.read 1, .consume 1000, .peek]).map Prod.fst
    let writes := (Guarded.runWriting (Writer.ofSink (.ofEvents [] none []) codec)
      [.write [0x61, 0x62]]).map fun step => (step.1, step.2.sink.received.toList)
    replies = [.bytes [0x61], .silent, .bytes []] ∧
      writes = [(.accepted 2, Codec.Scripted.sample)] := by
  intro codec source replies writes
  obtain ⟨reads, wrote⟩ := accesses_in_range Codec.Scripted.honest_input_only.inside
    Codec.Scripted.honest_packs.bounded
  constructor
  · rw [show replies = _ from congrArg _ (reads source .verify _).1]
    decide +kernel
  · rw [show writes = _ from congrArg _ (wrote _ _).1]
    decide +kernel

end FramedSnappy
