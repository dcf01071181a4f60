import FramedSnappy.Proofs.Reader.Course

/-! What one refill of the queue fetches, told by the very calls that it makes: the frames it goes
by, the frame it stops at, and the place in the source where it stops. -/
namespace FramedSnappy.Reader

open FramedSnappy.Frame (Parsed)

variable {κ : Type} [Codec κ] {reader middle last : Reader κ} {frames : List Parsed}

/-- One frame after the other, each by a call of its own. -/
inductive Advances : Reader κ → List Parsed → Reader κ → Prop
  | here (reader : Reader κ) : Advances reader [] reader
  | step {reader middle last : Reader κ} {parsed : Parsed} {frames : List Parsed} :
      reader.Passes parsed middle → Advances middle frames last →
      Advances reader (parsed :: frames) last

namespace Advances

theorem reaches (h : Advances reader frames last) : Reaches reader frames last := by
  induction h with
  | here reader => exact .refl reader
  | step passes _ ih => exact .take passes.takes ih

theorem waiting (h : Advances reader frames last) :
    last.pending.toList = reader.pending.toList ++ Frame.payload frames := by
  induction h with
  | here reader => exact (List.append_nil _).symm
  | step passes _ ih => rw [ih, passes.waiting, Frame.payload_cons, List.append_assoc]

theorem waiting_idle {waiting : Bytes} (h : Advances reader frames last)
    (idle : Idle waiting frames) : last.pending.toList = reader.pending.toList := by
  rw [h.waiting, payload_idle idle, List.append_nil]

end Advances

/-- The frames that a refill takes, what they add to the queue, and how it ends. It goes by frames that
leave the queue as it is, and stops at the first data frame if bytes wait, and else at the first one
that has content. -/
inductive Fetches (reader : Reader κ) :
    List Parsed → Bytes → Outcome Error Bool × Reader κ → Prop
  | filled {idle : List Parsed} {middle after : Reader κ} {parsed : Parsed} {content : Bytes} :
      Advances reader idle middle → Idle reader.pending.toList idle →
      middle.Passes parsed after → parsed.content = some content →
      (reader.pending.toList = [] → content ≠ []) →
      Fetches reader (idle ++ [parsed]) content (.done true, after)
  | ended {idle : List Parsed} {middle after : Reader κ} :
      Advances reader idle middle → Idle reader.pending.toList idle →
      middle.advance = (.done .ended, after) → Fetches reader idle [] (.done false, after)
  | broken {idle : List Parsed} {middle after : Reader κ} {e : Error} :
      Advances reader idle middle → Idle reader.pending.toList idle →
      middle.advance = (.failed e, after) →
      Fetches reader idle [] (.failed e, { after with poisoned := true })
  | overrun {idle : List Parsed} {middle after : Reader κ} :
      Advances reader idle middle → Idle reader.pending.toList idle →
      middle.advance = (.overrun, after) → Fetches reader idle [] (.overrun, after)

namespace Fetches

variable {parsed : Parsed} {content : Bytes} {result : Outcome Error Bool × Reader κ}

/-- A frame in front that the refill goes by. -/
theorem after (passes : reader.Passes parsed middle)
    (quiet : parsed.content = none ∨ reader.pending.toList = [] ∧ parsed.content = some [])
    (h : Fetches middle frames content result) :
    Fetches reader (parsed :: frames) content result := by
  have kept : middle.pending.toList = reader.pending.toList := by
    rw [passes.waiting]
    rcases quiet with none | ⟨-, empty⟩
    · simp [Parsed.data, none]
    · simp [Parsed.data, empty]
  have idle {others : List Parsed} (rest : Idle middle.pending.toList others) :
      Idle reader.pending.toList (parsed :: others) :=
    List.forall_mem_cons.mpr ⟨quiet, kept ▸ rest⟩
  cases h with
  | filled advances rest last content waits =>
    exact .filled (.step passes advances) (idle rest) last content (kept ▸ waits)
  | ended advances rest last => exact .ended (.step passes advances) (idle rest) last
  | broken advances rest last => exact .broken (.step passes advances) (idle rest) last
  | overrun advances rest last => exact .overrun (.step passes advances) (idle rest) last

theorem waiting (fit : reader.Fit) (h : Fetches reader frames content result) :
    result.2.pending.toList = reader.pending.toList ++ content := by
  cases h with
  | filled advances idle passes content waits =>
    rw [passes.waiting, advances.waiting_idle idle]
    simp [Parsed.data, content]
  | ended advances idle told =>
    rw [(advance_ended (advances.reaches.fit fit) told).2, advances.waiting_idle idle]
    exact (List.append_nil _).symm
  | broken advances idle told =>
    rw [List.append_nil, ← advances.waiting_idle idle,
      ← (advance_failed (advances.reaches.fit fit) told).2]
  | overrun advances idle told =>
    rw [List.append_nil, ← advances.waiting_idle idle,
      ← (advance_overrun (advances.reaches.fit fit) told).2]

/-- Unless a frame has been refused, the source stands at the end of the last frame. -/
theorem reaches (fit : reader.Fit) {waits : Bool}
    (h : Fetches reader frames content (.done waits, last)) : Reaches reader frames last := by
  cases h with
  | filled advances _ passes _ _ => exact advances.reaches.trans (.take passes.takes (.refl last))
  | ended advances _ told =>
    have halts := (advance_ended (advances.reaches.fit fit) told).1
    simpa using advances.reaches.trans (.halt halts (.refl last))

end Fetches

theorem decode_until_pending_fetches (fit : reader.Fit) :
    ∃ frames content, Fetches reader frames content reader.decodeUntilPending := by
  fun_induction decodeUntilPending reader with
  | case1 reader e after h => exact ⟨[], [], .broken (.here reader) (idle_nil _) h⟩
  | case2 reader after h => exact ⟨[], [], .overrun (.here reader) (idle_nil _) h⟩
  | case3 reader after h => exact ⟨[], [], .ended (.here reader) (idle_nil _) h⟩
  | case4 reader after h _ ih =>
    obtain ⟨parsed, passes, progress⟩ := advance_passes fit h (by decide)
    obtain ⟨frames, content, rest⟩ := ih (passes.takes.keeps.fit fit)
    rcases parsed with ⟨frame, _ | hollow⟩
    · exact ⟨_, _, rest.after passes (.inl rfl)⟩
    · cases progress
  | case5 reader after h _ empty ih =>
    obtain ⟨parsed, passes, progress⟩ := advance_passes fit h (by decide)
    obtain ⟨frames, content, rest⟩ := ih (passes.takes.keeps.fit fit)
    have nothing := (ByteQueue.is_empty_to_list _).mp empty
    rw [passes.waiting] at nothing
    obtain ⟨before, none⟩ := List.append_eq_nil_iff.mp nothing
    rcases parsed with ⟨frame, _ | hollow⟩
    · cases progress
    · exact ⟨_, _, rest.after passes (.inr ⟨before, congrArg some none⟩)⟩
  | case6 reader after h _ filled =>
    obtain ⟨parsed, passes, progress⟩ := advance_passes fit h (by decide)
    rcases parsed with ⟨frame, _ | content⟩
    · cases progress
    · refine ⟨_, _, .filled (.here reader) (idle_nil _) passes rfl fun dry none => filled ?_⟩
      rw [ByteQueue.is_empty_to_list, passes.waiting, dry]
      exact none

theorem refill_fetches (fit : reader.Fit) (fresh : reader.poisoned = false) :
    ∃ frames content, Fetches reader frames content reader.refill := by
  rw [refill, if_neg (Bool.eq_false_iff.mp fresh)]
  exact decode_until_pending_fetches fit

end FramedSnappy.Reader
