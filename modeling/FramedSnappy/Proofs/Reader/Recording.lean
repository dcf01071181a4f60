import FramedSnappy.Proofs.Reader.Log

/-! The log of a reader over a whole run: what one operation adds to it, and what holds of it in
every state. -/
namespace FramedSnappy

theorem Frame.Yields.not_identifier {decode : Bytes → Outcome Error Bytes}
    {policy : ChecksumPolicy} {frame : Frame} {content : Bytes}
    (h : frame.Yields decode policy (some content)) : frame.tag ≠ 0xff := by
  cases h with
  | compressed tag _ _ _ _ => simp [tag]
  | uncompressed tag _ _ _ => simp [tag]

namespace Reader

open FramedSnappy.Frame (Parsed)

variable {κ : Type} {reader now next stand last after : Reader κ} {frames : List Parsed}
  {parsed : Parsed} {e : Error}

/-- The identifier has been reported if it has been accepted, and nothing has been reported of
other frames before. -/
structure Heralds (reader : Reader κ) : Prop where
  heralded : Heralded .acceptedStreamIdentifier Diagnostic.OfFrame reader.log.toList
  known : .acceptedStreamIdentifier ∈ reader.log.toList ↔ reader.identified = true

theorem Heralds.of_same (h : now.Heralds) (log : next.log = now.log)
    (identified : next.identified = now.identified) : next.Heralds := by
  refine ⟨log ▸ h.heralded, ?_⟩
  rw [log, identified]
  exact h.known

variable [Codec κ]

section Frames

theorem Advances.log (h : Advances reader frames last) :
    last.log.toList = reader.log.toList ++ Frame.diagnostics reader.identified frames := by
  induction h with
  | here reader => exact (List.append_nil _).symm
  | step passes _ ih =>
    rw [ih, passes.log, passes.takes.identified, Frame.diagnostics, List.append_assoc]

theorem Advances.on (h : Advances reader frames last) (passes : last.Passes parsed next) :
    Advances reader (frames ++ [parsed]) next := by
  induction h with
  | here reader => exact .step passes (.here next)
  | step first _ ih => exact .step first (ih passes)

theorem Leads.log (h : Leads reader frames now) (fit : reader.Fit) :
    now.log.toList = reader.log.toList ++ Frame.diagnostics reader.identified frames := by
  induction h with
  | start => exact (List.append_nil _).symm
  | passed leads passes ih =>
    rw [passes.log, ih, Frame.diagnostics_append, (leads.reaches fit).identified,
      List.append_assoc]
    simp [Frame.diagnostics]
  | ended _ told ih => rw [advance_ended_log told, ih]
  | handed _ _ ih => exact ih

theorem Passes.heralds (h : reader.Passes parsed after) (start : reader.Heralds) :
    after.Heralds := by
  have log := h.log
  have identified := h.takes.identified
  -- every event but the herald itself finds it in the log
  have behind {event : Diagnostic} (log : after.log.toList = reader.log.toList ++ [event])
      (other : event ≠ .acceptedStreamIdentifier) (known : reader.identified = true) :
      after.Heralds := by
    have there := start.known.mpr known
    constructor
    · rw [log]
      exact start.heralded.push (fun same => absurd same other) fun _ => there
    · rw [log]
      exact iff_of_true (List.mem_append_left _ there) identified
  obtain ⟨frame, _ | content⟩ := parsed
  · by_cases opening : frame.tag = 0xff
    · by_cases known : reader.identified = true
      · have same : after.log = reader.log := by
          simpa [Parsed.diagnostics, opening, known] using log
        exact start.of_same same (identified.trans known.symm)
      · have first : after.log.toList = reader.log.toList ++ [.acceptedStreamIdentifier] := by
          simpa [Parsed.diagnostics, opening, known] using log
        constructor
        · rw [first]
          exact start.heralded.push (fun _ => mt start.known.mp known) False.elim
        · rw [first]
          exact iff_of_true (List.mem_append_right _ (List.mem_singleton_self _)) identified
    · have skipped : after.log.toList =
          reader.log.toList ++ [.skippedFrame frame.tag frame.body.length] := by
        simpa [Parsed.diagnostics, opening] using log
      exact behind skipped (by simp) (h.takes.opened.resolve_right opening)
  · exact behind log (by simp) (h.takes.opened.resolve_right h.takes.yields.not_identifier)

theorem Advances.heralds (h : Advances reader frames last) (start : reader.Heralds) :
    last.Heralds := by
  induction h with
  | here reader => exact start
  | step passes _ ih => exact ih (passes.heralds start)

end Frames

section Refill

/-- The reader itself raises the error; neither its source nor its codec has. -/
def Raises (reader : Reader κ) (e : Error) : Prop := e.Judged ∧ ¬ reader.Undecoded e

/-- The events that a refused frame adds. -/
def Alarms (stand : Reader κ) (e : Error) (loud : List Diagnostic) : Prop :=
  ¬ stand.Raises e ∧ loud = [] ∨
    stand.Raises e ∧ ∃ event, loud = [event] ∧ event.level = .warn

theorem advance_alarms (fit : stand.Fit) (h : stand.advance = (.failed e, last)) :
    ∃ loud, last.log.toList = stand.log.toList ++ loud ∧ stand.Alarms e loud := by
  cases advance_warns fit h with
  | loud event judged innocent level pushed =>
    refine ⟨[event], by rw [pushed, Array.toList_push], .inr ⟨⟨judged, innocent⟩, event, rfl, level⟩⟩
  | quiet harmless same =>
    refine ⟨[], by rw [same, List.append_nil], .inl ⟨?_, rfl⟩⟩
    rintro ⟨judged, innocent⟩
    exact innocent (harmless judged)

/-- What holds of the log in every state of a reader. -/
structure Recorded (reader : Reader κ) : Prop extends reader.Safe, reader.Heralds where
  warned : Diagnostic.WarnsLast reader.poisoned reader.log.toList

theorem Recorded.quiet (h : reader.Recorded) (fresh : reader.poisoned = false) :
    ∀ event ∈ reader.log.toList, event.level ≠ .warn :=
  (fresh ▸ h.warned).quiet

theorem Advances.quiet (h : Advances reader frames last)
    (quiet : ∀ event ∈ reader.log.toList, event.level ≠ .warn) :
    ∀ event ∈ last.log.toList, event.level ≠ .warn := by
  rw [h.log]
  exact List.forall_mem_append.mpr ⟨quiet, Frame.diagnostics_quiet _ frames⟩

end Refill

section Operations

end Operations

end Reader

end FramedSnappy
