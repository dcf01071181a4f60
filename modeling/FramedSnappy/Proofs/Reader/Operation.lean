import FramedSnappy.Proofs.Reader.Accounting
import FramedSnappy.Proofs.Reader.Equations

/-! What every operation of a reader keeps. All that an operation does to a reader is to refill the
queue and to take bytes off its front, in some order; two operations go past the reader to its
source. Only the client can ask for an amount that makes the cursor of the queue wrap. -/
namespace FramedSnappy

namespace ReaderOperation

/-- The operations that do not go past the reader to its source. -/
def Inward : ReaderOperation → Prop
  | feed _ => False
  | rawRead _ => False
  | _ => True

def fed : ReaderOperation → List SourceEvent
  | feed events => events
  | _ => []

end ReaderOperation

end FramedSnappy

namespace FramedSnappy.Reader

variable {κ : Type} [Codec κ]

/-- This holds in all states that are come to, whatever the cursor of the queue does. -/
structure Kept (holds : Reader κ → Prop) : Prop where
  refill : ∀ reader, holds reader → holds reader.refill.2
  consume : ∀ reader count, holds reader → holds (reader.consume count)
  source : ∀ (reader : Reader κ) source, holds reader → holds { reader with source }

/-- What holds between operations need not hold between a refill and the bytes that a read takes off
right after it. All other refills find the queue empty. Nor need it hold once the cursor has
wrapped. -/
structure Served (holds : Reader κ → Prop) : Prop where
  read : ∀ reader size, holds reader → holds (reader.read size).2
  refill : ∀ reader, reader.pending.isEmpty = true → holds reader → holds reader.refill.2
  consume : ∀ reader count, ¬ reader.pending.Wraps count → holds reader →
    holds (reader.consume count)

/-- Besides, the source may be any other one. -/
structure Paced (holds : Reader κ → Prop) : Prop extends Served holds where
  source : ∀ (reader : Reader κ) source, holds reader → holds { reader with source }

variable {holds : Reader κ → Prop} {reader : Reader κ}

/-- A read is a refill, if it needs one, and then bytes are taken. -/
theorem holds_of_read (h : holds reader) (filled : holds reader.refill.2)
    (consume : ∀ reader count, ¬ reader.pending.Wraps count → holds reader →
      holds (reader.consume count)) (size : Nat) :
    holds (reader.read size).2 := by
  have serves (now : Reader κ) (held : holds now) : holds (now.serve size).2 :=
    consume now _ (ByteQueue.not_wraps_of_le (Nat.min_le_right ..)) held
  unfold Reader.read
  split
  · generalize reader.refill = result at filled ⊢
    obtain ⟨outcome, after⟩ := result
    cases outcome with
    | done waiting => exact serves after filled
    | failed e => exact filled
    | overrun => exact filled
  · exact serves reader h

/-- A refill looks at frames, and gives up at the first one that fails. -/
theorem holds_of_refill (h : holds reader) (advance : ∀ reader, holds reader → holds reader.advance.2)
    (give : ∀ reader, holds reader → holds { reader with poisoned := true }) :
    holds reader.refill.2 := by
  have decoded : holds reader.decodeUntilPending.2 := by
    have step := advance reader h
    fun_induction Reader.decodeUntilPending reader with
    | case1 reader e after told =>
      rw [told] at step
      exact give after step
    | case2 reader after told => rwa [told] at step
    | case3 reader after told => rwa [told] at step
    | case4 reader after told _ ih =>
      rw [told] at step
      exact ih step (advance after step)
    | case5 reader after told _ dry ih =>
      rw [told] at step
      exact ih step (advance after step)
    | case6 reader after told _ waits => rwa [told] at step
  unfold Reader.refill
  split
  · exact h
  · exact decoded

theorem Kept.read (kept : Kept holds) (h : holds reader) (size : Nat) :
    holds (reader.read size).2 :=
  holds_of_read h (kept.refill reader h) (fun reader count _ => kept.consume reader count) size

theorem Kept.paced (kept : Kept holds) : Paced holds where
  read _ size h := kept.read h size
  refill reader _ h := kept.refill reader h
  consume reader count _ h := kept.consume reader count h
  source := kept.source

namespace Served

theorem emptied (served : Served holds) (h : holds reader) :
    holds { reader with pending := .empty } := by
  rw [← ByteQueue.consume_all reader.pending]
  exact served.consume reader _ (ByteQueue.not_wraps_of_le (Nat.le_refl _)) h

theorem peek (served : Served holds) (h : holds reader) : holds reader.peek.2 := by
  unfold Reader.peek
  split
  · rename_i empty
    have filled := served.refill reader empty h
    generalize reader.refill = result at filled ⊢
    obtain ⟨outcome, after⟩ := result
    cases outcome <;> exact filled
  · exact h

theorem gather (served : Served holds) (h : holds reader) (wanted : Nat) (got : Array UInt8) :
    holds (reader.gather wanted got).2 := by
  fun_induction Reader.gather reader wanted got with
  | case1 => exact h
  | case2 reader wanted got some e after hr again _ ih =>
    have step := served.read reader wanted h
    rw [hr] at step
    exact ih step
  | case3 reader wanted got some e after hr final =>
    have step := served.read reader wanted h
    rwa [hr] at step
  | case4 reader wanted got some after hr =>
    have step := served.read reader wanted h
    rwa [hr] at step
  | case5 reader wanted got some after hr =>
    have step := served.read reader wanted h
    rwa [hr] at step
  | case6 reader wanted got some first more after hr ih =>
    have step := served.read reader wanted h
    rw [hr] at step
    exact ih step

theorem collect_until (served : Served holds) (h : holds reader) (delimiter : UInt8)
    (got : Array UInt8) : holds (reader.collectUntil delimiter got).2.2 := by
  have step := served.peek h
  fun_induction Reader.collectUntil reader delimiter got with
  | case1 reader got e after hp again _ ih =>
    rw [hp] at step
    exact ih step (served.peek step)
  | case2 reader got e after hp final => rwa [hp] at step
  | case3 reader got after hp => rwa [hp] at step
  | case4 reader got after hp => rwa [hp] at step
  | case5 reader got first more after hp =>
    rw [hp] at step
    exact served.consume after _ (line_exact hp delimiter) step
  | case6 reader got first more after hp line _ last gathered found ih =>
    rw [hp] at step
    have rest := served.consume after line.1.length (line_exact hp delimiter) step
    exact ih rest (served.peek rest)

theorem collect_all (served : Served holds) (h : holds reader) (sizes : Nat → Nat)
    (got : Array UInt8) (calls : Nat) : holds (reader.collectAll sizes got calls).reader := by
  have step := served.read reader (sizes calls) h
  fun_induction Reader.collectAll reader sizes got calls with
  | case1 reader got calls e after hr => rwa [hr] at step
  | case2 reader got calls after hr => rwa [hr] at step
  | case3 reader got calls after hr => rwa [hr] at step
  | case4 reader got calls first more after hr _ ih =>
    rw [hr] at step
    exact ih step (served.read after (sizes (calls + 1)) step)

theorem visit_rest (served : Served holds) (empty : reader.pending.isEmpty = true)
    (h : holds reader) (visitor : Visitor) (seen : Array Bytes) :
    holds (reader.visitRest visitor seen).2.2 := by
  have step := served.refill reader empty h
  fun_induction Reader.visitRest reader visitor seen with
  | case1 reader seen e after hf => rwa [hf] at step
  | case2 reader seen after hf => rwa [hf] at step
  | case3 reader seen after hf => rwa [hf] at step
  | case4 reader seen after hf _ shown e told => rwa [hf] at step
  | case5 reader seen after hf _ shown told ih =>
    rw [hf] at step
    have rest := served.emptied step
    exact ih rfl rest (served.refill _ rfl rest)

theorem visit_blocks (served : Served holds) (h : holds reader) (visitor : Visitor) :
    holds (reader.visitBlocks visitor).2.2 := by
  unfold Reader.visitBlocks
  split
  · rename_i empty
    exact served.visit_rest empty h visitor _
  · dsimp only
    split
    · exact h
    · exact served.visit_rest rfl (served.emptied h) visitor _

theorem perform (served : Served holds) (h : holds reader) {operation : ReaderOperation}
    (inward : operation.Inward) (passed : holds (reader.consume operation.amount)) :
    holds (reader.perform operation).2 := by
  cases operation with
  | read size => exact served.read reader size h
  | readExact count => exact served.gather h count _
  | readAll size => exact served.collect_all h (fun _ => size) _ _
  | peek => exact served.peek h
  | consume count => exact passed
  | readUntil delimiter => exact served.collect_until h delimiter _
  | visitBlocks visitor => exact served.visit_blocks h visitor
  | feed events => exact inward.elim
  | rawRead size => exact inward.elim

end Served

theorem raw_read_eq (reader : Reader κ) (size : Nat) :
    (reader.perform (.rawRead size)).2 =
      { reader with source := (reader.source.read size).2 } := by
  simp only [perform, rawRead]
  generalize reader.source.read size = result
  obtain ⟨_ | _, source⟩ := result
  · rfl
  · rfl

namespace Paced

theorem perform (paced : Paced holds) (h : holds reader) {operation : ReaderOperation}
    (passed : holds (reader.consume operation.amount)) : holds (reader.perform operation).2 := by
  cases operation with
  | feed events => exact paced.source reader _ h
  | rawRead size =>
    rw [raw_read_eq]
    exact paced.source reader _ h
  | _ => exact paced.toServed.perform h trivial passed

theorem perform_all (paced : Paced holds) (h : holds reader) {operations : List ReaderOperation}
    (exact : reader.Exact operations) : holds (reader.performAll operations) := by
  induction operations generalizing reader with
  | nil => exact h
  | cons operation rest ih =>
    have passed := paced.consume reader operation.amount exact.1 h
    exact ih (paced.perform h passed) exact.2

end Paced

namespace Kept

theorem perform (kept : Kept holds) (h : holds reader) (operation : ReaderOperation) :
    holds (reader.perform operation).2 :=
  kept.paced.perform h (kept.consume reader operation.amount h)

theorem perform_all (kept : Kept holds) (h : holds reader)
    (operations : List ReaderOperation) : holds (reader.performAll operations) := by
  induction operations generalizing reader with
  | nil => exact h
  | cons operation rest ih => exact ih (kept.perform h operation)

end Kept

/-- The buffers keep the limits that the format sets them. -/
theorem fit_kept : Kept (Fit (κ := κ)) where
  refill reader fit := by
    refine holds_of_refill fit (fun reader fit => ?_) fun reader fit => ⟨fit.body, fit.decoded⟩
    exact (advance_answers fit).keeps.fit fit
  consume _ _ fit := ⟨fit.body, fit.decoded⟩
  source _ _ fit := ⟨fit.body, fit.decoded⟩

/-- The queue keeps no front behind which nothing waits. -/
theorem tidy_kept : Kept fun reader : Reader κ => reader.Fit ∧ reader.pending.Tidy where
  refill reader := by
    intro h
    refine @holds_of_refill _ _ (fun reader => reader.Fit ∧ reader.pending.Tidy) reader h ?_ ?_
    · rintro reader ⟨fit, tidy⟩
      have answers := advance_answers fit
      refine ⟨answers.keeps.fit fit, ?_⟩
      rw [answers.pending]
      cases reader.verdict with
      | passed content rest =>
        cases content with
        | none => exact tidy
        | some content => exact ByteQueue.tidy_append _ _
      | _ => exact tidy
    · rintro reader ⟨fit, tidy⟩
      exact ⟨⟨fit.body, fit.decoded⟩, tidy⟩
  consume reader count h := ⟨⟨h.1.body, h.1.decoded⟩, ByteQueue.tidy_consume _ _⟩
  source _ _ h := ⟨⟨h.1.body, h.1.decoded⟩, h.2⟩

end FramedSnappy.Reader
