import FramedSnappy.Proofs.Codec.Scripted
import FramedSnappy.Proofs.Reader.Lockstep

/-! Readers whose sources say the same in different ways cannot be told apart. -/
namespace FramedSnappy

/-- The operations that leave the source to the reader. -/
def ReaderOperation.Own : ReaderOperation → Prop
  | rawRead _ => False
  | _ => True

namespace Reader

variable {κ : Type}

/-- The readers are the same but for their sources. -/
inductive Alike (reader : Reader κ) : Reader κ → Prop
  | intro {source : Source} : reader.source.Alike source → Alike reader { reader with source }

/-- Nothing but the sources differs, and these say the same. -/
def deliveries : Likeness := ⟨Source.Alike, (· = ·), (· = ·), (· = ·)⟩

/-- What can be seen of a step: its answer, how many bytes wait, how many the source has delivered,
and what has been reported. -/
def observed (step : ReaderReply × Reader κ) : ReaderReply × Nat × Nat × Array Diagnostic :=
  (step.1, step.2.pending.length, step.2.source.delivered, step.2.log)

theorem observed_eq {one other : ReaderReply × Reader κ} (h : Agree (Like deliveries) one other) :
    observed one = observed other := by
  cases h with
  | intro answer like =>
    cases like with
    | intro alike _ _ _ => simp only [observed, alike.delivered]

variable [Codec κ]

theorem lockstep_deliveries :
    Lockstep (Like (κ := κ) deliveries) (fun _ => False) ReaderOperation.Own := by
  apply Like.lockstep
  · exact ⟨Scratch.interchangeable_eq _, Scratch.interchangeable_eq _⟩
  · exact ⟨Source.Alike.read_header, fun length =>
      ⟨id, fun alike => alike.read_body length, fun alike => alike.skip_body length⟩,
      Source.Alike.feed⟩
  · exact False.elim
  · exact False.elim
  · intro policy policy' same masked content
    exact .inr (congrArg (·.check masked content) same)

theorem Alike.run {reader other : Reader κ} (h : reader.Alike other)
    {operations : List ReaderOperation} (own : ∀ operation ∈ operations, operation.Own) :
    (reader.run operations).map observed = (other.run operations).map observed := by
  have start : reader.Like deliveries other := by
    cases h with
    | intro alike => exact .intro alike rfl rfl rfl
  have agree := lockstep_deliveries.run_whole start own fun step _ => step.1.not_reports
  exact map_eq_of_agree agree fun _ _ => observed_eq

/-- Where deliveries are cut, how much one call delivers and which calls are interrupted cannot be
seen in any step of any run. -/
theorem run_merged {events others : List SourceEvent} {limit limit' : Option Nat}
    (same : SourceEvent.merged events = SourceEvent.merged others) (fed : limit ≠ some 0)
    (fed_too : limit' ≠ some 0) (codec : κ) (policy : ChecksumPolicy)
    {operations : List ReaderOperation} (own : ∀ operation ∈ operations, operation.Own) :
    ((ofSource (.ofEvents events limit) codec policy).run operations).map observed =
      ((ofSource (.ofEvents others limit') codec policy).run operations).map observed := by
  have alike := Source.alike_of_merged same fed fed_too
  have start : (ofSource (.ofEvents events limit) codec policy).Alike
      (ofSource (.ofEvents others limit') codec policy) := .intro alike
  exact start.run own

/-- The sample in two pieces with an interruption in between, and whole but byte by byte. -/
theorem sample_merged :
    let operations : List ReaderOperation := [.read 1, .peek]
    let cut : List SourceEvent := [.deliver (Codec.Scripted.sample.take 12), .deliver [],
      .fail ⟨.interrupted, ""⟩, .deliver (Codec.Scripted.sample.drop 12)]
    let whole : List SourceEvent := [.deliver Codec.Scripted.sample]
    let one := ofSource (.ofEvents cut none) Codec.Scripted.honest .verify
    let other := ofSource (.ofEvents whole (some 1)) Codec.Scripted.honest .verify
    (one.run operations).map observed = (other.run operations).map observed := by
  intro operations cut whole one other
  have same : SourceEvent.merged cut = SourceEvent.merged whole := by decide
  have fed : (none : Option Nat) ≠ some 0 := nofun
  have fed_too : some 1 ≠ some 0 := by decide
  have own : ∀ operation ∈ operations, operation.Own := by simp [operations, ReaderOperation.Own]
  exact run_merged same fed fed_too Codec.Scripted.honest .verify own

end Reader

end FramedSnappy
