import FramedSnappy.Proofs.Codec.Scripted
import FramedSnappy.Proofs.Reader.Lockstep

/-! A reader that does not look at checksums does what one does that verifies them, up to the first
block that the latter rejects. It rejects a block only for its checksum, and only when everything
else about the frame has been found in order. -/
namespace FramedSnappy

def Error.Mismatch : Error → Prop
  | checksumMismatch _ _ => True
  | _ => False

namespace Reader

variable {κ : Type}

/-- The same reader, but it does not look at checksums. -/
def unchecked (reader : Reader κ) : Reader κ := { reader with policy := .skip }

def checksDropped : Likeness :=
  ⟨(· = ·), (· = ·), (· = ·), fun policy policy' => policy = .verify ∧ policy' = .skip⟩

theorem checks_dropped_roomy : checksDropped.Roomy :=
  ⟨Scratch.interchangeable_eq _, Scratch.interchangeable_eq _⟩

variable {reader other now : Reader κ}

theorem like_unchecked (verify : reader.policy = .verify) :
    reader.Like checksDropped reader.unchecked :=
  .intro rfl ⟨verify, rfl⟩ rfl rfl

theorem Like.eq_unchecked (h : reader.Like checksDropped other) : other = reader.unchecked := by
  cases h with
  | intro sources policies bodies decodeds =>
    cases sources
    cases policies.2
    cases bodies
    cases decodeds
    rfl

theorem lockstep_checks_dropped [Codec κ] :
    Lockstep (Like (κ := κ) checksDropped) Error.Mismatch fun _ => True := by
  apply Like.lockstep checks_dropped_roomy Source.interchangeable_eq
  · intro size _ source other same
    obtain rfl : source = other := same
    exact agree_of_eq rfl rfl
  · intro e mismatch
    cases e with
    | checksumMismatch expected calculated => rfl
    | _ => exact mismatch.elim
  · rintro policy policy' ⟨rfl, rfl⟩ masked content
    rw [ChecksumPolicy.check_verify]
    split
    · exact .inr rfl
    · exact .inl ⟨_, rfl, trivial⟩

theorem log_of_reject {header : Frame.Header} {masked : UInt32} {content : Bytes} {e : Error}
    (h : (reader.accept header masked content).1 = .failed e) :
    (reader.accept header masked content).2.log = reader.log.push (.corruptBlock e) := by
  unfold Reader.accept at h ⊢
  generalize reader.policy.check masked content = result at h ⊢
  cases result with
  | error _ =>
    cases h
    rfl
  | ok _ => cases h

variable [Codec κ]

/-- The verdicts differ by a look at the checksum. -/
theorem verdict_of_unchecked {frame : Frame} {content : Bytes} {after : Reader κ}
    (takes : now.unchecked.Takes ⟨frame, some content⟩ after) :
    now.verdict =
      match now.policy.check frame.masked content with
      | .error e => .broken e after.source.front
      | .ok () => .passed (some content) after.source.front := by
  have decode : now.unchecked.decode = now.decode := decode_congr rfl rfl
  have yields : frame.Yields now.decode .skip (some content) := decode ▸ takes.yields
  have front : now.source.front = frame.bytes ++ after.source.front := takes.front
  unfold verdict
  rw [front]
  exact yields.checked takes.opened _ _

/-- The next frame fails, and not because a codec has said so: the reader makes an entry in its log
for the blocks that it rejects itself. -/
def Rejects (now : Reader κ) (e : Error) : Prop :=
  ∃ after, now.advance = (.failed e, after) ∧ after.log = now.log.push (.corruptBlock e)

/-- A block is rejected exactly if a reader without checks takes it and its checksum is wrong. -/
theorem rejects_iff (fit : now.Fit) (verify : now.policy = .verify) (e : Error) :
    now.Rejects e ↔ ∃ frame content after, now.unchecked.advance = (.done .block, after) ∧
      now.unchecked.Takes ⟨frame, some content⟩ after ∧
      Checksum.crc32c content ≠ Checksum.unmask frame.masked ∧
      e = .checksumMismatch (Checksum.unmask frame.masked) (Checksum.crc32c content) := by
  have loose : now.unchecked.Fit := ⟨fit.body, fit.decoded⟩
  have meets := (like_unchecked verify).advance checks_dropped_roomy Source.interchangeable_eq
  have answers := advance_answers fit
  constructor
  · rintro ⟨after, failed, log⟩
    have taken : ∃ last, now.unchecked.advance = (.done .block, last) := by
      generalize mine : now.advance = one, yours : now.unchecked.advance = two at meets
      cases meets with
      | ended answer _ silent =>
        rw [mine] at failed
        cases failed
        exact absurd log (silent e)
      | checked header masked content midway =>
        obtain ⟨-, skip⟩ := midway.1.policies
        unfold accept
        rw [skip]
        exact ⟨_, rfl⟩
    obtain ⟨last, taken⟩ := taken
    obtain ⟨⟨frame, some⟩, takes, -, -, block⟩ := advance_passed loose taken (by simp)
    obtain ⟨content, rfl⟩ := block rfl
    rw [verdict_of_unchecked takes, failed, verify, ChecksumPolicy.check_verify] at answers
    by_cases right : Checksum.crc32c content = Checksum.unmask frame.masked
    · rw [if_pos right] at answers
      cases answers.outcome
    · rw [if_neg right] at answers
      cases answers.outcome
      exact ⟨frame, content, last, taken, takes, right, rfl⟩
  · rintro ⟨frame, content, last, taken, takes, wrong, rfl⟩
    rw [verdict_of_unchecked takes, verify, ChecksumPolicy.check_verify, if_neg wrong] at answers
    have failed := answers.outcome
    refine ⟨now.advance.2, Prod.ext failed rfl, ?_⟩
    generalize mine : now.advance = one, yours : now.unchecked.advance = two at meets
    rw [mine] at failed
    cases meets with
    | ended answer _ _ =>
      rw [yours] at taken
      cases taken
      cases failed
    | checked header masked content midway =>
      rw [log_of_reject failed, midway.2]

/-- Step by step the two readers are in the same state but for the policy, and give the same
replies, until a verifying reader rejects a block. -/
theorem policies_differ_by_rejections (codec : κ) (source : Source)
    (operations : List ReaderOperation) :
    let verifying := (ofSource source codec .verify).run operations
    let skipping := (ofSource source codec .skip).run operations
    let loosen (step : ReaderReply × Reader κ) := (step.1, step.2.unchecked)
    (∀ count, (∀ step ∈ verifying.take count, ¬ step.1.Reports Error.Mismatch) →
      skipping.take count = (verifying.take count).map loosen) ∧
    ((∀ step ∈ verifying, ¬ step.1.Reports Error.Mismatch) → skipping = verifying.map loosen) ∧
    ∀ now : Reader κ, now.Fit → now.policy = .verify → ∀ e, now.Rejects e ↔
      ∃ frame content after, now.unchecked.advance = (.done .block, after) ∧
        now.unchecked.Takes ⟨frame, some content⟩ after ∧
        Checksum.crc32c content ≠ Checksum.unmask frame.masked ∧
        e = .checksumMismatch (Checksum.unmask frame.masked) (Checksum.crc32c content) := by
  intro verifying skipping loosen
  have start : (ofSource source codec .verify).Like checksDropped (ofSource source codec .skip) :=
    like_unchecked rfl
  have same (step step' : ReaderReply × Reader κ) (agree : Agree (Like checksDropped) step step') :
      loosen step = step' := by
    cases agree with
    | intro answer like => rw [like.eq_unchecked]
  refine ⟨?_, ?_, ?_⟩
  · intro count safe
    have agree := lockstep_checks_dropped.run start (fun _ _ => trivial) safe
    exact (List.map_id _).symm.trans (map_eq_of_agree agree same).symm
  · intro safe
    have agree := lockstep_checks_dropped.run_whole start (fun _ _ => trivial) safe
    exact (List.map_id _).symm.trans (map_eq_of_agree agree same).symm
  · intro now fit verify
    exact rejects_iff fit verify

/-- The sample with another byte in the stored checksum. -/
def mismatched : Bytes := Codec.Scripted.sample.set 14 0x1d

theorem mismatched_rejected :
    let whole := Source.ofEvents [.deliver Codec.Scripted.sample] none
    let source := Source.ofEvents [.deliver mismatched] none
    let now := (ofSource source Codec.Scripted.honest .verify).advance.2
    ((ofSource whole Codec.Scripted.honest .skip).run [.peek]).map (·.1) = [.bytes [0x61, 0x62]] ∧
    (∃ e, now.Rejects e) ∧
    ∃ frame content after, now.unchecked.Takes ⟨frame, some content⟩ after ∧
      Checksum.crc32c content ≠ Checksum.unmask frame.masked := by
  intro whole source now
  have replies : ((ofSource whole Codec.Scripted.honest .verify).run [.peek]).map (·.1) =
      [.bytes [0x61, 0x62]] := by decide +kernel
  have safe : ∀ step ∈ (ofSource whole Codec.Scripted.honest .verify).run [.peek],
      ¬ step.1.Reports Error.Mismatch := by
    intro step mem
    have reply := List.mem_map_of_mem (f := Prod.fst) mem
    rw [replies, List.mem_singleton] at reply
    rw [reply]
    exact id
  have fit : now.Fit := (advance_answers (fit_of_source source _ _)).keeps.fit (fit_of_source ..)
  have verify : now.policy = .verify := by decide +kernel
  have failed : now.advance.1 = .failed (.checksumMismatch 0xe2a2a936 0xe2a22936) := by
    decide +kernel
  have rejected : now.Rejects (.checksumMismatch 0xe2a2a936 0xe2a22936) :=
    ⟨now.advance.2, Prod.ext failed rfl, by decide +kernel⟩
  obtain ⟨-, agree, -⟩ := policies_differ_by_rejections Codec.Scripted.honest whole [.peek]
  obtain ⟨-, -, rejects⟩ := policies_differ_by_rejections Codec.Scripted.honest source []
  refine ⟨?_, ⟨_, rejected⟩, ?_⟩
  · rw [agree safe, List.map_map]
    exact replies
  · obtain ⟨frame, content, after, -, takes, wrong, -⟩ := (rejects now fit verify _).mp rejected
    exact ⟨frame, content, after, takes, wrong⟩

end Reader

end FramedSnappy
