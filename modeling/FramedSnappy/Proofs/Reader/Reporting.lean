import FramedSnappy.Proofs.Reader.Exhaustion
import FramedSnappy.Proofs.Reader.Fetching
import FramedSnappy.Proofs.Reader.Journey
import FramedSnappy.Proofs.Reader.Safety

/-! The way of a reader up to a frame that it refuses. The error of that frame is what the reply tells
of. Only an interruption may be passed over: exact reads and reads up to a delimiter go on after it,
to learn that the reader has failed. -/
namespace FramedSnappy.Reader

open FramedSnappy.Frame (Parsed)

variable {κ : Type} [Codec κ] {first now next after : Reader κ} {frames more : List Parsed}

/-- The way of a reader, call by call. Between two calls its client may take bytes off the queue. -/
inductive Leads (first : Reader κ) : List Parsed → Reader κ → Prop
  | start : Leads first [] first
  | passed {frames : List Parsed} {parsed : Parsed} {now next : Reader κ} :
      Leads first frames now → now.Passes parsed next → Leads first (frames ++ [parsed]) next
  | ended {frames : List Parsed} {now next : Reader κ} :
      Leads first frames now → now.advance = (.done .ended, next) → Leads first frames next
  | handed {frames : List Parsed} {now : Reader κ} {queue : ByteQueue} :
      Leads first frames now → now.pending.Passed queue →
      Leads first frames { now with pending := queue }

/-- A reader that can still go on. -/
structure Able (reader : Reader κ) : Prop extends reader.Safe where
  fresh : reader.poisoned = false

/-- A refill on the way has met a frame that it refused, and the reader is as that refill left it. -/
def Fallen (first after : Reader κ) : Prop :=
  ∃ frames now e, Leads first frames now ∧ now.refill = (.failed e, after)

def Going (first now : Reader κ) : Prop := ∃ frames, Leads first frames now

/-- The reader is still on its way, or it has fallen. -/
def Comes (first after : Reader κ) : Prop := Going first after ∨ Fallen first after

namespace Leads

theorem reaches (h : Leads first frames now) (fit : first.Fit) : Reaches first frames now := by
  induction h with
  | start => exact .refl first
  | passed _ passes ih => exact ih.trans (.take passes.takes (.refl _))
  | ended _ told ih => simpa using ih.trans (.halt (advance_ended (ih.fit fit) told).1 (.refl _))
  | handed _ _ ih => simpa using ih.trans (.here _ _)

theorem able (h : Leads first frames now) (able : first.Able) : now.Able := by
  have keeps := (h.reaches able.fit).keeps
  exact ⟨⟨keeps.fit able.fit, able.inside.later keeps.codec⟩, keeps.poisoned.trans able.fresh⟩

theorem on (h : Leads first frames now) (rest : Advances now more next) :
    Leads first (frames ++ more) next := by
  induction rest generalizing frames with
  | here reader => exact (List.append_nil frames).symm ▸ h
  | step passes _ ih =>
    have further := ih (h.passed passes)
    rwa [List.append_assoc] at further

end Leads

namespace Going

theorem able (h : Going first now) (able : first.Able) : now.Able := by
  obtain ⟨frames, leads⟩ := h
  exact leads.able able

theorem handed (h : Going first now) {queue : ByteQueue} (passed : now.pending.Passed queue) :
    Going first { now with pending := queue } := by
  obtain ⟨frames, leads⟩ := h
  exact ⟨frames, leads.handed passed⟩

theorem emptied (h : Going first now) : Going first { now with pending := .empty } :=
  h.handed (ByteQueue.passed_empty now.pending)

theorem consumed (h : Going first now) (count : Nat) : Going first (now.consume count) :=
  h.handed (.over count)

end Going

section Calls

/-- A call has gone well, or it has met a frame that was refused. -/
inductive Goes (first : Reader κ) {ε α : Type} : Outcome ε α × Reader κ → Prop
  | done {value : α} {after : Reader κ} : Going first after → Goes first (.done value, after)
  | failed {e : ε} {after : Reader κ} : Fallen first after → Goes first (.failed e, after)

theorem Goes.going {ε α : Type} {value : α}
    (h : Goes first ((.done value, after) : Outcome ε α × Reader κ)) : Going first after := by
  cases h with
  | done going => exact going

theorem refill_goes (able : first.Able) (h : Going first now) : Goes first now.refill := by
  obtain ⟨safe, fresh⟩ := h.able able
  obtain ⟨frames, leads⟩ := h
  obtain ⟨more, content, fetches⟩ := refill_fetches safe.fit fresh
  rcases filled : now.refill with ⟨waiting | e | _, after⟩
  · rw [filled] at fetches
    cases fetches with
    | filled advances _ passes _ _ => exact .done ⟨_, (leads.on advances).passed passes⟩
    | ended advances _ told => exact .done ⟨_, (leads.on advances).ended told⟩
  · exact .failed ⟨frames, now, e, leads, filled⟩
  · exact absurd (congrArg Prod.fst filled) safe.refill

theorem read_goes (able : first.Able) (h : Going first now) (size : Nat) :
    Goes first (now.read size) := by
  have goes := refill_goes able h
  unfold read
  split
  · generalize now.refill = result at goes ⊢
    cases goes with
    | done going => exact .done (going.consumed _)
    | failed fallen => exact .failed fallen
  · exact .done (h.consumed _)

theorem peek_goes (able : first.Able) (h : Going first now) : Goes first now.peek := by
  have goes := refill_goes able h
  unfold peek
  split
  · generalize now.refill = result at goes ⊢
    cases goes with
    | done going => exact .done going
    | failed fallen => exact .failed fallen
  · exact .done h

theorem read_failed_short (fit : now.Fit) {size : Nat} {e : StreamError}
    (h : now.read size = (.failed e, after)) : after.pending.toList.length < size := by
  obtain ⟨short, why, failed, -⟩ := refill_of_read_failed h
  rwa [(refill_failed_leaves fit failed).2, ByteQueue.length_to_list]

theorem peek_failed_dry (fit : now.Fit) {e : StreamError} (h : now.peek = (.failed e, after)) :
    after.pending.toList = [] := by
  obtain ⟨dry, why, failed, -⟩ := refill_of_peek_failed h
  rw [(refill_failed_leaves fit failed).2]
  exact (ByteQueue.is_empty_to_list _).mp dry

end Calls

section Operations

/-- The reader is still on its way, or a refill has failed and its error is `told`. -/
inductive Admits (first : Reader κ) (told : Error → Prop) (after : Reader κ) : Prop
  | going : Going first after → Admits first told after
  | fallen {frames : List Parsed} {now : Reader κ} {e : Error} : Leads first frames now →
      now.refill = (.failed e, after) → (e.toStreamError.interrupted = false → told e) →
      Admits first told after

variable {size : Nat} {told : Error → Prop}

theorem Admits.comes (h : Admits first told after) : Comes first after := by
  cases h with
  | going going => exact .inl going
  | fallen leads failed _ => exact .inr ⟨_, _, _, leads, failed⟩

theorem Admits.imp {told' : Error → Prop} (h : Admits first told after)
    (more : ∀ e, told e → told' e) : Admits first told' after := by
  cases h with
  | going going => exact .going going
  | fallen leads failed tells => exact .fallen leads failed fun final => more _ (tells final)

theorem Going.read_fails {e : StreamError} (h : Going first now)
    (failed : now.read size = (.failed e, after))
    (tells : ∀ why, e = why.toStreamError → e.interrupted = false → told why) :
    Admits first told after := by
  obtain ⟨frames, leads⟩ := h
  obtain ⟨-, why, refilled, same⟩ := refill_of_read_failed failed
  exact .fallen leads refilled fun final => tells why same (same ▸ final)

theorem Going.peek_fails {e : StreamError} (h : Going first now)
    (failed : now.peek = (.failed e, after))
    (tells : ∀ why, e = why.toStreamError → e.interrupted = false → told why) :
    Admits first told after := by
  obtain ⟨frames, leads⟩ := h
  obtain ⟨-, why, refilled, same⟩ := refill_of_peek_failed failed
  exact .fallen leads refilled fun final => tells why same (same ▸ final)

theorem gather_admits (able : first.Able) (h : Going first now) (wanted : Nat)
    (got : Array UInt8) :
    Admits first (fun e => (now.gather wanted got).1 = .failed e.toStreamError)
      (now.gather wanted got).2 := by
  have goes := read_goes able h wanted
  fun_induction gather now wanted got with
  | case1 => exact .going h
  | case2 now wanted got _ e after failed again _ ih =>
    -- the second try leaves the reader as the first one has
    rw [gather_poisoned (read_failed_poisons failed) (read_failed_short (h.able able).fit failed)]
    exact h.read_fails failed fun _ _ final => Bool.noConfusion (again.symm.trans final)
  | case3 now wanted got _ e after failed _ =>
    exact h.read_fails failed fun _ same _ => congrArg _ same
  | case4 now wanted got _ after overran => cases overran ▸ goes
  | case5 now wanted got _ after none => exact .going (none ▸ goes).going
  | case6 now wanted got _ byte more after some ih =>
    have going := (some ▸ goes).going
    exact ih going (read_goes able going _)

theorem collect_until_admits (able : first.Able) (h : Going first now) (delimiter : UInt8)
    (got : Array UInt8) :
    Admits first (fun e => (now.collectUntil delimiter got).1 = .failed e.toStreamError)
      (now.collectUntil delimiter got).2.2 := by
  have goes := peek_goes able h
  fun_induction collectUntil now delimiter got with
  | case1 now got e after failed again _ ih =>
    rw [collect_until_poisoned (peek_failed_poisons failed)
      (peek_failed_dry (h.able able).fit failed)]
    exact h.peek_fails failed fun _ _ final => Bool.noConfusion (again.symm.trans final)
  | case2 now got e after failed _ =>
    exact h.peek_fails failed fun _ same _ => congrArg _ same
  | case3 now got after overran => cases overran ▸ goes
  | case4 now got after none => exact .going (none ▸ goes).going
  | case5 now got byte more after some => exact .going ((some ▸ goes).going.consumed _)
  | case6 now got byte more after some line _ last gathered _ ih =>
    have going := (some ▸ goes).going.consumed line.1.length
    exact ih going (peek_goes able going)

theorem collect_all_admits (able : first.Able) (h : Going first now) (sizes : Nat → Nat)
    (got : Array UInt8) (calls : Nat) :
    Admits first (fun e => (now.collectAll sizes got calls).ending = .failed e.toStreamError)
      (now.collectAll sizes got calls).reader := by
  have goes := read_goes able h (sizes calls)
  fun_induction collectAll now sizes got calls with
  | case1 now got calls e after failed =>
    exact h.read_fails failed fun _ same _ => congrArg _ same
  | case2 now got calls after overran => cases overran ▸ goes
  | case3 now got calls after none => exact .going (none ▸ goes).going
  | case4 now got calls byte more after some _ ih =>
    have going := (some ▸ goes).going
    exact ih going (read_goes able going (sizes (calls + 1)))

theorem visit_rest_admits (able : first.Able) (h : Going first now) (visitor : Visitor)
    (seen : Array Bytes) :
    Admits first (fun e => (now.visitRest visitor seen).1 = .failed (.failed e))
      (now.visitRest visitor seen).2.2 := by
  have goes := refill_goes able h
  fun_induction visitRest now visitor seen with
  | case1 now seen e after failed =>
    obtain ⟨frames, leads⟩ := h
    exact .fallen leads failed fun _ => rfl
  | case2 now seen after overran => cases overran ▸ goes
  | case3 now seen after ended => exact .going (ended ▸ goes).going
  | case4 now seen after filled _ shown e => exact .going (filled ▸ goes).going
  | case5 now seen after filled _ shown _ ih =>
    have going := (filled ▸ goes).going.emptied
    exact ih going (refill_goes able going)

theorem visit_blocks_admits (able : first.Able) (h : Going first now) (visitor : Visitor) :
    Admits first (fun e => (now.visitBlocks visitor).1 = .failed (.failed e))
      (now.visitBlocks visitor).2.2 := by
  unfold visitBlocks
  split
  · exact visit_rest_admits able h visitor _
  · dsimp only
    split
    · exact .going h
    · exact visit_rest_admits able h.emptied visitor _

theorem perform_admits (able : first.Able) (h : Going first now)
    {operation : ReaderOperation} (inward : operation.Inward) :
    Admits first (fun e => (now.perform operation).1.Reports (· = e))
      (now.perform operation).2 := by
  cases operation with
  | read size =>
    have goes := read_goes able h size
    simp only [perform]
    rcases call : now.read size with ⟨data | e | _, after⟩
    · exact .going (call ▸ goes).going
    · exact h.read_fails call fun why same _ => ⟨why, rfl, same⟩
    · cases call ▸ goes
  | readExact count =>
    exact (gather_admits able h count #[]).imp fun e told => by
      simp only [perform, readExact, told]
      exact ⟨e, rfl, rfl⟩
  | readAll size =>
    exact (collect_all_admits able h (fun _ => size) #[] 0).imp fun e told => by
      simp only [perform, readAll, drain, told]
      exact ⟨e, rfl, rfl⟩
  | peek =>
    have goes := peek_goes able h
    simp only [perform]
    rcases call : now.peek with ⟨data | e | _, after⟩
    · exact .going (call ▸ goes).going
    · exact h.peek_fails call fun why same _ => ⟨why, rfl, same⟩
    · cases call ▸ goes
  | consume count => exact .going (h.consumed count)
  | readUntil delimiter =>
    exact (collect_until_admits able h delimiter #[]).imp fun e told => by
      simp only [perform, readUntil, told]
      exact ⟨e, rfl, rfl⟩
  | visitBlocks visitor =>
    exact (visit_blocks_admits able h visitor).imp fun e told => by
      simp only [perform, told]
      exact rfl
  | feed events => exact inward.elim
  | rawRead size => exact inward.elim

theorem perform_comes (able : first.Able) (h : Going first now)
    {operation : ReaderOperation} (inward : operation.Inward) :
    Comes first (now.perform operation).2 :=
  (perform_admits able h inward).comes

/-- No operation heals a reader, so one that can go on has been going all the time. -/
theorem perform_all_going (able : first.Able) (h : Going first now)
    {operations : List ReaderOperation} (inward : ∀ operation ∈ operations, operation.Inward)
    (fine : (now.performAll operations).poisoned = false) :
    Going first (now.performAll operations) := by
  induction operations generalizing now with
  | nil => exact h
  | cons operation rest ih =>
    obtain ⟨own, others⟩ := List.forall_mem_cons.mp inward
    rcases perform_comes able h own with going | ⟨_, reader, e, _, failed⟩
    · exact ih going others fine
    · have poisoned := refill_failed_poisons failed
      cases poisoned.symm.trans (fresh_of_perform_all fine)

end Operations

end FramedSnappy.Reader
