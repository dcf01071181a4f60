import FramedSnappy.Diagnostic

/-! What can be read off a log: the order of its events, and the bytes they account for. -/
namespace FramedSnappy

/-- The herald comes once at most, and everything that it heralds comes after it. -/
structure Heralded (herald : Diagnostic) (heralds : Diagnostic → Prop) (log : List Diagnostic) :
    Prop where
  once : log.count herald ≤ 1
  first : ∀ before event behind, log = before ++ event :: behind → heralds event → herald ∈ before

namespace Heralded

variable {herald event : Diagnostic} {heralds : Diagnostic → Prop} {log : List Diagnostic}

theorem nil : Heralded herald heralds [] := ⟨by simp, fun _ _ _ h => by simp at h⟩

theorem push (h : Heralded herald heralds log) (new : event = herald → herald ∉ log)
    (known : heralds event → herald ∈ log) : Heralded herald heralds (log ++ [event]) where
  once := by
    rw [List.count_append, List.count_singleton]
    split
    · rename_i same
      have absent := List.count_eq_zero.mpr (new (eq_of_beq same))
      exact Nat.le_of_eq (congrArg (· + 1) absent)
    · exact h.once
  first := by
    intro before other behind split told
    rcases List.eq_nil_or_concat behind with rfl | ⟨middle, last, rfl⟩
    · obtain ⟨rfl, same⟩ := List.append_inj' split rfl
      obtain rfl : event = other := List.head_eq_of_cons_eq same
      exact known told
    · rw [List.concat_eq_append, ← List.cons_append, ← List.append_assoc] at split
      exact h.first before other middle (List.append_inj' split rfl).1 told

end Heralded

namespace Diagnostic

/-- The bytes that a data frame has added to the queue. -/
def decodedBytes : Diagnostic → Nat
  | decodedFrame _ _ decodedLength => decodedLength
  | _ => 0

/-- The bytes that a data frame takes up in the sink: its header, its checksum and its payload. -/
def framedBytes : Diagnostic → Nat
  | wroteCompressedFrame _ compressedLength => 8 + compressedLength
  | _ => 0

/-- The events of a reader about single frames behind the stream identifier. -/
def OfFrame : Diagnostic → Prop
  | decodedFrame .. => True
  | skippedFrame .. => True
  | _ => False

def isWrittenFrame : Diagnostic → Bool
  | wroteCompressedFrame .. => true
  | _ => false

def total (weight : Diagnostic → Nat) : List Diagnostic → Nat
  | [] => 0
  | event :: rest => weight event + total weight rest

variable {weight : Diagnostic → Nat}

@[simp] theorem total_append (log more : List Diagnostic) :
    total weight (log ++ more) = total weight log + total weight more := by
  induction log with
  | nil => exact (Nat.zero_add _).symm
  | cons event rest ih => rw [List.cons_append, total, ih, total, Nat.add_assoc]

@[simp] theorem total_singleton (event : Diagnostic) : total weight [event] = weight event := by
  simp [total]

/-- No event is a warning, but for the last one when the log is closed. -/
def WarnsLast (closed : Bool) (log : List Diagnostic) : Prop :=
  ∃ quiet loud, log = quiet ++ loud ∧ (∀ event ∈ quiet, event.level ≠ .warn) ∧
    (loud = [] ∨ closed = true ∧ ∃ event, loud = [event] ∧ event.level = .warn)

theorem WarnsLast.quiet {log : List Diagnostic} (h : WarnsLast false log) :
    ∀ event ∈ log, event.level ≠ .warn := by
  obtain ⟨quiet, loud, rfl, silent, rfl | ⟨closed, -⟩⟩ := h
  · rwa [List.append_nil]
  · cases closed

end Diagnostic

end FramedSnappy
