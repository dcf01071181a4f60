import FramedSnappy.Proofs.Reader.Equations
import FramedSnappy.Proofs.Reader.Operation

/-! Readers that never overrun. The codec is all that could bring them to it: as long as it stays
inside the windows it is lent, every operation gets its reply, and so does every one after it. -/
namespace FramedSnappy.Reader

variable {κ : Type} [Codec κ]

/-- No call of the codec, now or later, will leave its window. -/
structure Safe (reader : Reader κ) : Prop where
  fit : reader.Fit
  inside : Codec.Inside reader.codec

theorem refill_later {reader : Reader κ} (fit : reader.Fit) :
    Codec.Later reader.codec reader.refill.2.codec := by
  cases poisoned : reader.poisoned with
  | true =>
    rw [refill_poisoned poisoned]
    exact .now
  | false =>
    have decodes := refill_decodes fit poisoned
    generalize reader.refill = result at decodes ⊢
    cases decodes with
    | filled reaches _ _ _ _ => exact reaches.keeps.codec
    | ended reaches _ halts _ => exact reaches.keeps.codec.trans halts.keeps.codec
    | broken reaches _ breaks _ => exact reaches.keeps.codec.trans breaks.keeps.codec
    | overrun reaches _ overruns _ => exact reaches.keeps.codec.trans overruns.keeps.codec

theorem safe_kept : Kept (Safe (κ := κ)) where
  refill reader safe := ⟨fit_kept.refill reader safe.fit, safe.inside.later (refill_later safe.fit)⟩
  consume reader count safe := ⟨fit_kept.consume reader count safe.fit, safe.inside⟩
  source reader source safe := ⟨fit_kept.source reader source safe.fit, safe.inside⟩

theorem reply_bytes_safe {result : Outcome StreamError Bytes} (safe : result ≠ .overrun) :
    replyBytes result ≠ .overrun := by
  cases result with
  | overrun => exact absurd rfl safe
  | _ => simp [replyBytes]

namespace Safe

variable {reader : Reader κ}

theorem refill (h : reader.Safe) : reader.refill.1 ≠ .overrun := by
  cases poisoned : reader.poisoned with
  | true =>
    rw [refill_poisoned poisoned]
    simp
  | false =>
    have decodes := refill_decodes h.fit poisoned
    generalize reader.refill = result at decodes ⊢
    cases decodes with
    | overrun reaches _ overruns _ =>
      have inside := h.inside.later reaches.keeps.codec
      exact absurd overruns (not_overruns (reaches.fit h.fit) inside)
    | _ => simp

theorem read (h : reader.Safe) (size : Nat) : (reader.read size).1 ≠ .overrun := by
  have filled := h.refill
  unfold Reader.read
  split
  · generalize reader.refill = result at filled ⊢
    rcases result with ⟨_ | _ | _, after⟩
    · simp
    · simp
    · exact absurd rfl filled
  · simp

theorem peek (h : reader.Safe) : reader.peek.1 ≠ .overrun := by
  have filled := h.refill
  unfold Reader.peek
  split
  · generalize reader.refill = result at filled ⊢
    rcases result with ⟨_ | _ | _, after⟩
    · simp
    · simp
    · exact absurd rfl filled
  · simp

theorem gather (h : reader.Safe) (wanted : Nat) (got : Array UInt8) :
    (reader.gather wanted got).1 ≠ .overrun := by
  fun_induction Reader.gather reader wanted got with
  | case2 reader wanted got some e after hr again _ ih =>
    have step := safe_kept.read h wanted
    rw [hr] at step
    exact ih step
  | case4 reader wanted got some after hr => exact absurd (congrArg Prod.fst hr) (h.read wanted)
  | case6 reader wanted got some first more after hr ih =>
    have step := safe_kept.read h wanted
    rw [hr] at step
    exact ih step
  | _ => simp

theorem collect_until (h : reader.Safe) (delimiter : UInt8) (got : Array UInt8) :
    (reader.collectUntil delimiter got).1 ≠ .overrun := by
  fun_induction Reader.collectUntil reader delimiter got with
  | case1 reader got e after hp again _ ih =>
    have step := safe_kept.paced.peek h
    rw [hp] at step
    exact ih step
  | case3 reader got after hp => exact absurd (congrArg Prod.fst hp) h.peek
  | case6 reader got first more after hp line _ last gathered found ih =>
    have step := safe_kept.paced.peek h
    rw [hp] at step
    exact ih (safe_kept.consume after _ step)
  | _ => simp

theorem collect_all (h : reader.Safe) (sizes : Nat → Nat) (got : Array UInt8) (calls : Nat) :
    (reader.collectAll sizes got calls).ending ≠ .overrun := by
  fun_induction Reader.collectAll reader sizes got calls with
  | case2 reader got calls after hr => exact absurd (congrArg Prod.fst hr) (h.read (sizes calls))
  | case4 reader got calls first more after hr _ ih =>
    have step := safe_kept.read h (sizes calls)
    rw [hr] at step
    exact ih step
  | _ => simp

theorem visit_rest (h : reader.Safe) (visitor : Visitor) (seen : Array Bytes) :
    (reader.visitRest visitor seen).1 ≠ .overrun := by
  fun_induction Reader.visitRest reader visitor seen with
  | case2 reader seen after hf => exact absurd (congrArg Prod.fst hf) h.refill
  | case5 reader seen after hf _ shown told ih =>
    have step := safe_kept.refill reader h
    rw [hf] at step
    exact ih (safe_kept.paced.emptied step)
  | _ => simp

theorem visit_blocks (h : reader.Safe) (visitor : Visitor) :
    (reader.visitBlocks visitor).1 ≠ .overrun := by
  unfold Reader.visitBlocks
  split
  · exact h.visit_rest visitor _
  · dsimp only
    split
    · simp
    · exact (safe_kept.paced.emptied h).visit_rest visitor _

theorem perform (h : reader.Safe) (operation : ReaderOperation) :
    (reader.perform operation).1 ≠ .overrun := by
  cases operation with
  | read size => exact reply_bytes_safe (h.read size)
  | readExact count => exact reply_bytes_safe (h.gather count #[])
  | readAll size =>
    have goes := h.collect_all (fun _ => size) #[] 0
    simp only [Reader.perform, Reader.readAll, Reader.drain]
    generalize (reader.collectAll (fun _ => size) #[] 0).ending = ending at goes ⊢
    cases ending with
    | overrun => exact absurd rfl goes
    | _ => simp [replyCollected]
  | peek => exact reply_bytes_safe h.peek
  | consume count => simp [Reader.perform]
  | readUntil delimiter =>
    have goes := h.collect_until delimiter #[]
    simp only [Reader.perform, Reader.readUntil]
    generalize reader.collectUntil delimiter #[] = result at goes ⊢
    rcases result with ⟨_ | _ | _, bytes, after⟩
    · simp [replyLine]
    · simp [replyLine]
    · exact absurd rfl goes
  | visitBlocks visitor =>
    have goes := h.visit_blocks visitor
    simp only [Reader.perform]
    generalize reader.visitBlocks visitor = result at goes ⊢
    rcases result with ⟨_ | _ | _, blocks, after⟩
    · simp [replyVisited]
    · simp [replyVisited]
    · exact absurd rfl goes
  | feed events => simp [Reader.perform]
  | rawRead size =>
    simp only [Reader.perform]
    split <;> simp

/-- Every operation of a run gets its reply. -/
theorem run (h : reader.Safe) (operations : List ReaderOperation) :
    (reader.run operations).length = operations.length ∧
      ∀ step ∈ reader.run operations, step.1 ≠ .overrun := by
  induction operations generalizing reader with
  | nil => simp [Reader.run]
  | cons operation rest ih =>
    have goes := h.perform operation
    obtain ⟨length, safe⟩ := ih (safe_kept.perform h operation)
    rw [run_cons, if_neg goes]
    exact ⟨congrArg (· + 1) length, List.forall_mem_cons.mpr ⟨goes, safe⟩⟩

end Safe

end FramedSnappy.Reader
