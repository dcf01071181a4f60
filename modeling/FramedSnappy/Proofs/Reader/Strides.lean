import FramedSnappy.Proofs.Bytes
import FramedSnappy.Proofs.Codec.Scripted
import FramedSnappy.Proofs.Reader.Accounting
import FramedSnappy.Proofs.Reader.Equations

/-! Looking at what waits and passing over a stretch of it, again and again, against a visit of all
blocks. Both find the same bytes and the same end, however long the stretches are. -/
namespace FramedSnappy

/-- What the client of a byte stream sees of an error of the format layer. -/
theorem Error.to_stream_error_cases (e : Error) :
    (∃ fault, e = .io fault ∧ e.toStreamError = .fault fault) ∨
      (∀ fault, e ≠ .io fault) ∧ e.toStreamError = .format e ∧
        e.toStreamError.kind = if e = .unexpectedEof then .unexpectedEof else .invalidData := by
  cases e with
  | io fault => exact .inl ⟨fault, rfl, rfl⟩
  | _ => exact .inr ⟨nofun, rfl, rfl⟩

namespace Reader

variable {κ : Type}

/-- How much of a slice is passed over after each look. -/
structure Strides where
  size : Nat → Bytes → Nat
  positive : ∀ call slice, slice ≠ [] → 0 < size call slice
  within : ∀ call slice, size call slice ≤ slice.length

/-- One byte at a time. -/
def Strides.single : Strides where
  size _ slice := min 1 slice.length
  positive _ _ some := Nat.le_min.mpr ⟨Nat.le_refl _, List.length_pos_iff.mpr some⟩
  within _ _ := Nat.min_le_right _ _

/-- What a client has collected that way, and a visit of the same blocks. -/
inductive Tallies : Outcome StreamError Unit × Array UInt8 × Reader κ →
    Outcome VisitError Unit × Array Bytes × Reader κ → Prop
  | ended {got : Array UInt8} {seen : Array Bytes} {after : Reader κ} :
      got.toList = seen.toList.flatten → Tallies (.done (), got, after) (.done (), seen, after)
  | broken {got : Array UInt8} {seen : Array Bytes} {after : Reader κ} {e : Error} :
      got.toList = seen.toList.flatten →
      Tallies (.failed e.toStreamError, got, after) (.failed (.failed e), seen, after)
  | overrun {got : Array UInt8} {seen : Array Bytes} {after : Reader κ} :
      Tallies (.overrun, got, after) (.overrun, seen, after)

variable [Codec κ] {reader after : Reader κ}

/-- Collects what is passed over until a look shows nothing or fails. -/
def takeStrides (reader : Reader κ) (strides : Strides) (call : Nat) (got : Array UInt8) :
    Outcome StreamError Unit × Array UInt8 × Reader κ :=
  match h : reader.peek with
  | (.failed e, after) => (.failed e, got, after)
  | (.overrun, after) => (.overrun, got, after)
  | (.done [], after) => (.done (), got, after)
  | (.done (first :: more), after) =>
    let count := strides.size call (first :: more)
    have := peek_consume_lighter h (strides.positive call (first :: more) nofun)
      (strides.within call (first :: more))
    (after.consume count).takeStrides strides (call + 1) (got ++ (first :: more).take count)
termination_by (reader.source.weight, reader.spare, reader.pending.length)
decreasing_by exact this

theorem take_strides_eq (reader : Reader κ) (strides : Strides) (call : Nat)
    (got : Array UInt8) :
    reader.takeStrides strides call got =
      match reader.peek with
      | (.failed e, after) => (.failed e, got, after)
      | (.overrun, after) => (.overrun, got, after)
      | (.done [], after) => (.done (), got, after)
      | (.done (first :: more), after) =>
        let count := strides.size call (first :: more)
        (after.consume count).takeStrides strides (call + 1)
          (got ++ (first :: more).take count) := by
  rw [takeStrides]
  split
  all_goals
    rename_i h
    simp only [h]

theorem decode_until_pending_waits (h : reader.decodeUntilPending = (.done true, after)) :
    after.pending.toList ≠ [] := by
  fun_induction decodeUntilPending reader with
  | case1 => cases h
  | case2 => cases h
  | case3 => cases h
  | case4 _ _ _ _ ih => exact ih h
  | case5 _ _ _ _ _ ih => exact ih h
  | case6 _ _ _ _ waits =>
    cases h
    exact mt (ByteQueue.is_empty_to_list _).mpr waits

theorem refill_true_waits (h : reader.refill = (.done true, after)) :
    after.pending.toList ≠ [] := by
  unfold refill at h
  split at h
  · cases h
  · exact decode_until_pending_waits h

theorem refill_false_dry (dry : reader.pending.isEmpty = true)
    (h : reader.refill = (.done false, after)) : after.pending.toList = [] := by
  have kept := (refill_false h).2
  rw [(ByteQueue.is_empty_iff _).mp dry] at kept
  apply List.length_eq_zero_iff.mp
  rw [ByteQueue.length_to_list]
  exact Nat.le_zero.mp kept

theorem take_strides_step (waits : reader.pending.toList ≠ []) (strides : Strides) (call : Nat)
    (got : Array UInt8) :
    let count := strides.size call reader.pending.toList
    reader.takeStrides strides call got =
      (reader.consume count).takeStrides strides (call + 1)
        (got ++ reader.pending.toList.take count) := by
  intro count
  rw [take_strides_eq, peek_waiting waits]
  obtain ⟨first, more, split⟩ := List.exists_cons_of_ne_nil waits
  simp only [count, split]

/-- However small the strides are, they come to all that waits. -/
theorem take_strides_waiting (waits : reader.pending.toList ≠ []) (strides : Strides)
    (call : Nat) (got : Array UInt8) :
    ∃ later, reader.takeStrides strides call got =
      { reader with pending := .empty }.takeStrides strides later
        (got ++ reader.pending.toList) := by
  induction length : reader.pending.length using Nat.strongRecOn
    generalizing reader call got with
  | ind waiting ih =>
    have step := take_strides_step waits strides call got
    have positive := strides.positive call _ waits
    have within := strides.within call reader.pending.toList
    generalize strides.size call reader.pending.toList = count at step positive within
    rw [ByteQueue.length_to_list] at within
    have exact : ¬ reader.pending.Wraps count := ByteQueue.not_wraps_of_le within
    rcases Nat.lt_or_eq_of_le within with less | all
    · have left : (reader.consume count).pending.toList ≠ [] := by
        rw [consume, ByteQueue.to_list_consume exact, ne_eq, List.drop_eq_nil_iff,
          ByteQueue.length_to_list]
        exact Nat.not_le.mpr less
      have shorter : (reader.consume count).pending.length < waiting := by
        simp only [consume, ByteQueue.length_consume exact]
        omega
      obtain ⟨later, rest⟩ := ih _ shorter left (call + 1) _ rfl
      refine ⟨later, step.trans (rest.trans ?_)⟩
      simp only [consume, ByteQueue.to_list_consume exact, ← Bytes.collect_append,
        List.take_append_drop]
    · subst all
      refine ⟨call + 1, step.trans ?_⟩
      rw [consume, ByteQueue.consume_all, ← ByteQueue.length_to_list, List.take_length]

theorem take_strides_tallies (dry : reader.pending.isEmpty = true) (strides : Strides)
    {visitor : Visitor} (accepts : ∀ seen, visitor seen = none) {call : Nat} {got : Array UInt8}
    {seen : Array Bytes} (same : got.toList = seen.toList.flatten) :
    Tallies (reader.takeStrides strides call got) (reader.visitRest visitor seen) := by
  fun_induction visitRest reader visitor seen generalizing call got with
  | case1 reader seen e after h =>
    rw [take_strides_eq, peek, if_pos dry, h]
    exact .broken same
  | case2 reader seen after h =>
    rw [take_strides_eq, peek, if_pos dry, h]
    exact .overrun
  | case3 reader seen after h =>
    have empty := refill_false_dry dry h
    rw [take_strides_eq, peek, if_pos dry, h]
    simp only [empty]
    exact .ended same
  | case4 reader seen after h _ shown e told => cases (accepts _).symm.trans told
  | case5 reader seen after h _ shown told ih =>
    have waits := refill_true_waits h
    have shows : reader.peek = after.peek := by
      rw [peek_waiting waits, peek, if_pos dry, h]
    have goes : reader.takeStrides strides call got = after.takeStrides strides call got := by
      rw [take_strides_eq, shows, ← take_strides_eq]
    obtain ⟨later, rest⟩ := take_strides_waiting waits strides call got
    rw [goes, rest]
    apply ih rfl
    simp [shown, same]

/-- Strides of any sizes come to the blocks of a visit, and both end in the same way and leave the
same reader behind, which has taken the same bytes from its source. -/
theorem strides_match_visit {codec : κ} (inside : Codec.Inside codec) (policy : ChecksumPolicy)
    (source : Source) (strides : Strides) {visitor : Visitor}
    (accepts : ∀ seen, visitor seen = none) :
    let first := ofSource source codec policy
    let taken := first.takeStrides strides 0 #[]
    let visit := first.visitBlocks visitor
    taken.2.1.toList = visit.2.1.toList.flatten ∧ taken.2.2 = visit.2.2 ∧
      (taken.1 = .done () ↔ visit.1 = .done ()) ∧
      (visit.1 ≠ .done () → ∃ e, visit.1 = .failed (.failed e) ∧
        ((∃ fault, e = .io fault ∧ taken.1 = .failed (.fault fault)) ∨
          (∀ fault, e ≠ .io fault) ∧ taken.1 = .failed (.format e) ∧
            (StreamError.format e).kind =
              if e = .unexpectedEof then .unexpectedEof else .invalidData)) := by
  intro first taken visit
  have fit : first.Fit := fit_of_source source codec policy
  have visits : Visits visitor first first.held visit := visit_blocks_visits fit rfl
  have tallies : Tallies taken visit := take_strides_tallies rfl strides accepts rfl
  generalize taken = taken at tallies ⊢
  generalize visit = visit at visits tallies ⊢
  cases tallies with
  | ended same => exact ⟨same, rfl, by simp, fun undone => absurd rfl undone⟩
  | @broken got seen after e same =>
    refine ⟨same, rfl, by simp, fun _ => ⟨e, rfl, ?_⟩⟩
    rcases e.to_stream_error_cases with ⟨fault, io, passed⟩ | ⟨other, wrapped, kind⟩
    · exact .inl ⟨fault, io, congrArg _ passed⟩
    · exact .inr ⟨other, congrArg _ wrapped, wrapped ▸ kind⟩
  | overrun =>
    cases visits with
    | overrun reaches overruns =>
      exact absurd overruns (not_overruns (reaches.fit fit) (inside.later reaches.keeps.codec))

/-- The two bytes of the sample come out before the error of the torn header behind them. -/
theorem single_bytes_match_visit :
    let source := Source.ofEvents [.deliver (Codec.Scripted.sample ++ [0x00])] none
    let first := ofSource source Codec.Scripted.honest .verify
    let taken := first.takeStrides .single 0 #[]
    let visit := first.visitBlocks fun _ => none
    taken.2.1.toList = [0x61, 0x62] ∧ visit.1 = .failed (.failed .unexpectedEof) ∧
      taken.1 = .failed (.format .unexpectedEof) := by
  intro source first taken visit
  have accepts : ∀ seen, (fun _ => none : Visitor) seen = none := fun _ => rfl
  have shown : visit.2.1.toList.flatten = [0x61, 0x62] := by decide +kernel
  have torn : visit.1 = .failed (.failed .unexpectedEof) := by decide +kernel
  obtain ⟨same, -, -, ends⟩ :=
    strides_match_visit Codec.Scripted.honest_input_only.inside .verify source .single accepts
  obtain ⟨e, failed, converted⟩ := ends (torn ▸ nofun)
  cases torn.symm.trans failed
  rcases converted with ⟨fault, io, -⟩ | ⟨-, wrapped, -⟩
  · cases io
  · exact ⟨same.trans shown, torn, wrapped⟩

end Reader

end FramedSnappy
