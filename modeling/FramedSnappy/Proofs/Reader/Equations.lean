import FramedSnappy.Proofs.Reader.Visit
import FramedSnappy.Reader.Operation

/-! The loops of a reader as equations, without the facts that make them end. A visit of a reader
that can still decode goes frame by frame. -/
namespace FramedSnappy.Reader

variable {κ : Type} [Codec κ]

theorem decode_until_pending_eq (reader : Reader κ) :
    reader.decodeUntilPending =
      match reader.advance with
      | (.failed e, after) => (.failed e, { after with poisoned := true })
      | (.overrun, after) => (.overrun, after)
      | (.done .ended, after) => (.done false, after)
      | (.done .passed, after) => after.decodeUntilPending
      | (.done .block, after) =>
        if after.pending.isEmpty then after.decodeUntilPending else (.done true, after) := by
  rw [decodeUntilPending]
  split
  all_goals
    rename_i h
    simp only [h]

theorem peek_waiting {reader : Reader κ} (waits : reader.pending.toList ≠ []) :
    reader.peek = (.done reader.pending.toList, reader) := by
  unfold peek
  rw [if_neg (mt (ByteQueue.is_empty_to_list _).mp waits)]

/-- What has been looked at is what waits now. -/
theorem peek_shows {now after : Reader κ} {data : Bytes} (h : now.peek = (.done data, after)) :
    after.pending.toList = data := by
  unfold peek at h
  split at h
  · split at h
    · cases h
    · cases h
    · cases h
      rfl
  · cases h
    rfl

/-- A line that has been looked at can be passed over. -/
theorem line_exact {now after : Reader κ} {data : Bytes} (h : now.peek = (.done data, after))
    (delimiter : UInt8) : ¬ after.pending.Wraps (Bytes.upTo delimiter data).1.length := by
  apply ByteQueue.not_wraps_of_le
  rw [← ByteQueue.length_to_list, peek_shows h]
  exact Bytes.up_to_within delimiter data

theorem gather_eq (reader : Reader κ) (wanted : Nat) (got : Array UInt8) :
    reader.gather wanted got =
      if wanted = 0 then (.done got.toList, reader)
      else match reader.read wanted with
        | (.failed e, after) =>
          if e.interrupted then after.gather wanted got else (.failed e, after)
        | (.overrun, after) => (.overrun, after)
        | (.done [], after) => (.failed (.fault .shortRead), after)
        | (.done (first :: more), after) =>
          after.gather (wanted - (more.length + 1)) (got ++ first :: more) := by
  rw [gather]
  split
  · rfl
  · split
    all_goals
      rename_i h
      simp only [h]
    split <;> rfl

theorem collect_until_eq (reader : Reader κ) (delimiter : UInt8) (got : Array UInt8) :
    reader.collectUntil delimiter got =
      match reader.peek with
      | (.failed e, after) =>
        if e.interrupted then after.collectUntil delimiter got else (.failed e, got, after)
      | (.overrun, after) => (.overrun, got, after)
      | (.done [], after) => (.done (), got, after)
      | (.done (first :: more), after) =>
        let line := Bytes.upTo delimiter (first :: more)
        let after := after.consume line.1.length
        let got := got ++ line.1
        if line.2 then (.done (), got, after) else after.collectUntil delimiter got := by
  rw [collectUntil]
  split
  all_goals
    rename_i h
    simp only [h]
  split <;> rfl

theorem collect_all_eq (reader : Reader κ) (sizes : Nat → Nat) (got : Array UInt8) (calls : Nat) :
    reader.collectAll sizes got calls =
      match reader.read (sizes calls) with
      | (.failed e, after) => ⟨.failed e, got, calls + 1, after⟩
      | (.overrun, after) => ⟨.overrun, got, calls + 1, after⟩
      | (.done [], after) => ⟨.done (), got, calls + 1, after⟩
      | (.done (first :: more), after) =>
        after.collectAll sizes (got ++ first :: more) (calls + 1) := by
  rw [collectAll]
  split
  all_goals
    rename_i h
    simp only [h]

theorem visit_rest_eq (reader : Reader κ) (visitor : Visitor) (seen : Array Bytes) :
    reader.visitRest visitor seen =
      match reader.refill with
      | (.failed e, after) => (.failed (.failed e), seen, after)
      | (.overrun, after) => (.overrun, seen, after)
      | (.done false, after) => (.done (), seen, after)
      | (.done true, after) =>
        let seen := seen.push after.pending.toList
        match visitor seen with
        | some e => (.failed (.refused e), seen, after)
        | none => { after with pending := .empty }.visitRest visitor seen := by
  rw [visitRest]
  split
  case h_4 after h =>
    cases told : visitor (seen.push after.pending.toList) with
    | none => simp only [h, told]
    | some e => simp only [h, told]
  all_goals
    rename_i h
    simp only [h]

/-- One frame of a visit. -/
theorem visit_rest_step {reader : Reader κ} (fit : reader.Fit) (fresh : reader.poisoned = false)
    (visitor : Visitor) (seen : Array Bytes) :
    reader.visitRest visitor seen =
      match reader.advance with
      | (.failed e, after) => (.failed (.failed e), seen, { after with poisoned := true })
      | (.overrun, after) => (.overrun, seen, after)
      | (.done .ended, after) => (.done (), seen, after)
      | (.done .passed, after) => after.visitRest visitor seen
      | (.done .block, after) =>
        if after.pending.isEmpty then after.visitRest visitor seen
        else
          let seen := seen.push after.pending.toList
          match visitor seen with
          | some e => (.failed (.refused e), seen, after)
          | none => { after with pending := .empty }.visitRest visitor seen := by
  have filled (now : Reader κ) (clean : now.poisoned = false) :
      now.refill = now.decodeUntilPending := by
    rw [refill, if_neg (Bool.eq_false_iff.mp clean)]
  have kept := (advance_answers fit).keeps.poisoned.trans fresh
  rw [visit_rest_eq, filled reader fresh, decode_until_pending_eq]
  generalize reader.advance = result at kept ⊢
  obtain ⟨answer, after⟩ := result
  cases answer with
  | failed e => rfl
  | overrun => rfl
  | done progress =>
    cases progress with
    | ended => rfl
    | passed =>
      dsimp only
      rw [visit_rest_eq after, filled after kept]
    | block =>
      dsimp only
      by_cases empty : after.pending.isEmpty
      · rw [if_pos empty, if_pos empty, visit_rest_eq after, filled after kept]
      · rw [if_neg empty, if_neg empty]

theorem run_cons (reader : Reader κ) (operation : ReaderOperation)
    (rest : List ReaderOperation) :
    reader.run (operation :: rest) = reader.perform operation ::
      if (reader.perform operation).1 = .overrun then []
      else (reader.perform operation).2.run rest := by
  rw [run]
  rcases reader.perform operation with ⟨reply, after⟩
  cases reply <;> rfl

theorem length_run_le (reader : Reader κ) (operations : List ReaderOperation) :
    (reader.run operations).length ≤ operations.length := by
  induction operations generalizing reader with
  | nil => exact Nat.le_refl _
  | cons operation rest ih =>
    rw [run_cons, List.length_cons, List.length_cons]
    apply Nat.succ_le_succ
    split
    · exact Nat.zero_le _
    · exact ih _

end FramedSnappy.Reader
