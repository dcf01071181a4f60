import FramedSnappy.Proofs.Agreement
import FramedSnappy.Proofs.Codec.Scripted
import FramedSnappy.Proofs.Writer.Operation

/-! What a writer has framed a reader gives back: piece by piece to a visitor, and byte by byte to
a loop of reads. -/
namespace FramedSnappy

variable {κ lam : Type} [Codec κ] [Codec lam] {form : Bytes → Bytes}

/-- Every write succeeds, a visit shows the pieces of each write in order, and reading with buffers
of any sizes gives all the data and then the end. -/
theorem round_trip {codec : κ} {other : lam} (packs : Codec.Packs codec form)
    (restores : Codec.Restores other form) {sink : Sink} (willing : sink.Willing)
    (fresh : sink.received = #[]) {operations : List WriterOperation}
    (plain : ∀ operation ∈ operations, operation.Plain) :
    let writer := Writer.ofSink sink codec
    (writer.run operations).map (·.1) = operations.map (·.success) ∧
    ∀ source policy,
      source.signals = (writer.performAll operations).sink.received.toList.map .byte →
      let reader := Reader.ofSource source other policy
      (∀ visitor, (∀ seen, visitor seen = none) →
        (reader.visitBlocks visitor).1 = .done () ∧
        (reader.visitBlocks visitor).2.1.toList = operations.flatMap (·.blocks)) ∧
      ∀ sizes, (∀ call, 0 < sizes call) →
        ∃ after, Reader.Drains reader sizes (operations.flatMap (·.data)) after := by
  intro writer
  obtain ⟨replies, whole⟩ := @Writer.perform_all_willing _ _ form writer rfl packs willing _ plain _
    (Writer.whole_of_fresh fresh codec)
  rw [List.nil_append] at whole
  refine ⟨replies, ?_⟩
  intro source policy carries reader
  obtain ⟨visited, drained⟩ := whole.reads packs.fits restores carries policy
  refine ⟨visited, ?_⟩
  rwa [WriterOperation.flatten_blocks] at drained

theorem two_bytes_come_back :
    let operations : List WriterOperation := [.write [0x61, 0x62], .flush, .writeAll []]
    let sink := Sink.ofEvents [.accept 3] (some 2) []
    let writer := (Writer.ofSink sink Codec.Scripted.honest).performAll operations
    let source := Source.ofEvents [.deliver writer.sink.received.toList] none
    let reader := Reader.ofSource source Codec.Scripted.honest .verify
    (reader.visitBlocks fun _ => none).2.1.toList = [[0x61, 0x62]] ∧
      ∃ after, Reader.Drains reader (fun _ => 1) [0x61, 0x62] after := by
  intro operations sink writer source reader
  have willing : sink.Willing := by
    constructor <;> simp [sink, Sink.ofEvents, SinkEvent.Willing]
  have plain : ∀ operation ∈ operations, operation.Plain := by
    simp [operations, WriterOperation.Plain]
  obtain ⟨-, reads⟩ :=
    round_trip Codec.Scripted.honest_packs Codec.Scripted.honest_restores willing rfl plain
  obtain ⟨visited, drained⟩ := reads source .verify (Source.signals_deliver _)
  have blocks : operations.flatMap (·.blocks) = [[0x61, 0x62]] := by decide +kernel
  exact ⟨(visited _ fun _ => rfl).2.trans blocks, drained _ fun _ => Nat.one_pos⟩

end FramedSnappy
