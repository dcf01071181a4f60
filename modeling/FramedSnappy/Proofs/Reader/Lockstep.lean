import FramedSnappy.Proofs.Reader.Accounting
import FramedSnappy.Proofs.Reader.Equations
import FramedSnappy.Proofs.Reader.Likeness
import Mathlib.Data.List.Forall2

/-! Two readers in lockstep. If single frames do not tell them apart, then no operation does and no
run does, up to the first failure of a kind that the second reader need not have. -/
namespace FramedSnappy

def Outcome.Fails {ε α : Type} (astray : ε → Prop) : Outcome ε α → Prop
  | failed e => astray e
  | _ => False

def StreamError.Stems (astray : Error → Prop) (e : StreamError) : Prop :=
  ∃ why, astray why ∧ e = why.toStreamError

def VisitError.Stems (astray : Error → Prop) : VisitError → Prop
  | failed e => astray e
  | refused _ => False

/-- The operation has come to a failure of the reader, and to such a one. What a visitor says of a
block is not one. -/
def ReaderReply.Reports (astray : Error → Prop) : ReaderReply → Prop
  | failed e => e.Stems astray
  | collected _ _ (some e) => e.Stems astray
  | line _ (some e) => e.Stems astray
  | visited _ (some e) => e.Stems astray
  | _ => False

/-- The operations that go past a reader to its source. -/
def ReaderOperation.Past : ReaderOperation → Prop
  | feed _ => True
  | rawRead _ => True
  | _ => False

/-- Two calls agree, unless the first has gone astray. -/
inductive Together {α β : Type} (alike : β → β → Prop) (astray : α → Prop) :
    α × β → α × β → Prop
  | agree (answer : α) {left right : β} :
      alike left right → Together alike astray (answer, left) (answer, right)
  | astray {answer : α} {left : β} {other : α × β} :
      astray answer → Together alike astray (answer, left) other

section Together

variable {α β γ δ : Type} {alike : β → β → Prop} {astray : α → Prop} {lost : δ → Prop}
  {one other : α × β} {answer : α} {left : β}

theorem Together.of_left (together : Together alike astray one other)
    (h : one = (answer, left)) :
    astray answer ∨ ∃ right, other = (answer, right) ∧ alike left right := by
  cases together with
  | agree _ states =>
    cases h
    exact .inr ⟨_, rfl, states⟩
  | astray lost =>
    cases h
    exact .inl lost

theorem Together.of_safe (together : Together alike astray one other)
    (h : one = (answer, left)) (safe : ¬ astray answer) :
    ∃ right, other = (answer, right) ∧ alike left right :=
  (together.of_left h).resolve_left safe

theorem Together.agree_of_safe (together : Together alike astray one other)
    (safe : ¬ astray one.1) : Agree alike one other := by
  cases together with
  | agree answer states => exact .intro answer states
  | astray lost => exact absurd lost safe

theorem Agree.together (agree : Agree alike one other) : Together alike astray one other := by
  cases agree with
  | intro answer states => exact .agree answer states

theorem Together.map (together : Together alike astray one other) {f : α → δ}
    (keeps : ∀ answer, astray answer → lost (f answer)) :
    Together alike lost (f one.1, one.2) (f other.1, other.2) := by
  cases together with
  | agree answer states => exact .agree _ states
  | astray gone => exact .astray (keeps _ gone)

theorem Together.map_pair {one other : α × γ × β}
    (together : Together (Agree alike) astray one other) {f : α → γ → δ}
    (keeps : ∀ answer more, astray answer → lost (f answer more)) :
    Together alike lost (f one.1 one.2.1, one.2.2) (f other.1 other.2.1, other.2.2) := by
  cases together with
  | agree answer states =>
    cases states with
    | intro more states => exact .agree _ states
  | astray gone => exact .astray (keeps _ _ gone)

theorem map_eq_of_agree {ones others : List (α × β)} (h : List.Forall₂ (Agree alike) ones others)
    {f g : α × β → γ} (same : ∀ one other, Agree alike one other → f one = g other) :
    ones.map f = others.map g := by
  induction h with
  | nil => rfl
  | cons agree _ ih => rw [List.map_cons, List.map_cons, same _ _ agree, ih]

end Together

theorem ReaderReply.not_reports (reply : ReaderReply) : ¬ reply.Reports fun _ => False := by
  have none (e : StreamError) : ¬ e.Stems fun _ => False := fun ⟨_, never, _⟩ => never
  cases reply with
  | failed e => exact none e
  | collected _ _ failure =>
    cases failure with
    | none => exact id
    | some e => exact none e
  | line _ failure =>
    cases failure with
    | none => exact id
    | some e => exact none e
  | visited _ failure =>
    cases failure with
    | none => exact id
    | some e => cases e <;> exact id
  | _ => exact id

namespace Reader

variable {κ : Type}

/-- Readers stay alike through a frame if the check of its block does not part them: the policies
come to the same, or the first one has such an error. -/
theorem Meets.together {like : Likeness} {astray : Error → Prop} {log : Array Diagnostic}
    {one other : Outcome Error Progress × Reader κ} (meets : Meets like log one other)
    (check : ∀ {policy policy'}, like.policies policy policy' → ∀ masked content,
      (∃ e, policy.check masked content = .error e ∧ astray e) ∨
        policy.check masked content = policy'.check masked content) :
    Together (Like like) (·.Fails astray) one other := by
  cases meets with
  | ended answer h _ => exact .agree answer h
  | checked header masked content midway =>
    rcases check midway.1.policies masked content with ⟨e, wrong, lost⟩ | same
    · unfold Reader.accept
      rw [wrong]
      exact .astray lost
    · exact (midway.1.accept same header).together

variable [Codec κ]

/-- What one frame and the queue have to keep up for the readers to stay alike. -/
structure Lockstep (alike : Reader κ → Reader κ → Prop) (astray : Error → Prop)
    (allowed : ReaderOperation → Prop) : Prop where
  calm : ∀ {e}, astray e → e.toStreamError.interrupted = false
  pending : ∀ {reader other}, alike reader other → reader.pending = other.pending
  poisoned : ∀ {reader other}, alike reader other → reader.poisoned = other.poisoned
  poison : ∀ {reader other}, alike reader other →
    alike { reader with poisoned := true } { other with poisoned := true }
  queue : ∀ {reader other}, alike reader other → ∀ queue,
    alike { reader with pending := queue } { other with pending := queue }
  advance : ∀ {reader other}, alike reader other →
    Together alike (·.Fails astray) reader.advance other.advance
  past : ∀ {reader other operation}, alike reader other → allowed operation → operation.Past →
    Agree alike (reader.perform operation) (other.perform operation)

namespace Lockstep

variable {alike : Reader κ → Reader κ → Prop} {astray : Error → Prop}
  {allowed : ReaderOperation → Prop} {reader other : Reader κ}

theorem consume (lockstep : Lockstep alike astray allowed) (h : alike reader other)
    (count : Nat) : alike (reader.consume count) (other.consume count) := by
  unfold Reader.consume
  rw [lockstep.pending h]
  exact lockstep.queue h _

theorem serve (lockstep : Lockstep alike astray allowed) (h : alike reader other) (size : Nat) :
    Agree alike (reader.serve size) (other.serve size) := by
  unfold Reader.serve
  rw [lockstep.pending h]
  exact .intro _ (lockstep.queue h _)

theorem decode_until_pending (lockstep : Lockstep alike astray allowed)
    (h : alike reader other) :
    Together alike (·.Fails astray) reader.decodeUntilPending other.decodeUntilPending := by
  fun_induction decodeUntilPending reader generalizing other with
  | case1 reader e after hn =>
    rcases (lockstep.advance h).of_left hn with lost | ⟨right, same, states⟩
    · exact .astray lost
    · rw [decode_until_pending_eq other, same]
      exact .agree _ (lockstep.poison states)
  | case2 reader after hn =>
    obtain ⟨right, same, states⟩ := (lockstep.advance h).of_safe hn id
    rw [decode_until_pending_eq other, same]
    exact .agree _ states
  | case3 reader after hn =>
    obtain ⟨right, same, states⟩ := (lockstep.advance h).of_safe hn id
    rw [decode_until_pending_eq other, same]
    exact .agree _ states
  | case4 reader after hn _ ih =>
    obtain ⟨right, same, states⟩ := (lockstep.advance h).of_safe hn id
    rw [decode_until_pending_eq other, same]
    exact ih states
  | case5 reader after hn _ empty ih =>
    obtain ⟨right, same, states⟩ := (lockstep.advance h).of_safe hn id
    rw [decode_until_pending_eq other, same]
    rw [lockstep.pending states] at empty
    simp only [if_pos empty]
    exact ih states
  | case6 reader after hn _ filled =>
    obtain ⟨right, same, states⟩ := (lockstep.advance h).of_safe hn id
    rw [decode_until_pending_eq other, same]
    rw [lockstep.pending states] at filled
    simp only [if_neg filled]
    exact .agree _ states

theorem refill (lockstep : Lockstep alike astray allowed) (h : alike reader other) :
    Together alike (·.Fails astray) reader.refill other.refill := by
  unfold Reader.refill
  rw [lockstep.poisoned h]
  split
  · exact .agree _ h
  · exact lockstep.decode_until_pending h

theorem read (lockstep : Lockstep alike astray allowed) (h : alike reader other) (size : Nat) :
    Together alike (·.Fails (·.Stems astray)) (reader.read size) (other.read size) := by
  unfold Reader.read
  rw [lockstep.pending h]
  split
  · rcases hf : reader.refill with ⟨answer, left⟩
    rcases (lockstep.refill h).of_left hf with lost | ⟨right, same, states⟩
    · cases answer with
      | failed e => exact .astray ⟨e, lost, rfl⟩
      | _ => exact lost.elim
    · rw [same]
      cases answer with
      | failed e => exact .agree _ states
      | overrun => exact .agree _ states
      | done waiting =>
        dsimp only
        exact (lockstep.serve states size).elim fun _ _ _ rest => .agree _ rest
  · exact (lockstep.serve h size).elim fun _ _ _ rest => .agree _ rest

theorem peek (lockstep : Lockstep alike astray allowed) (h : alike reader other) :
    Together alike (·.Fails (·.Stems astray)) reader.peek other.peek := by
  unfold Reader.peek
  rw [lockstep.pending h]
  split
  · rcases hf : reader.refill with ⟨answer, left⟩
    rcases (lockstep.refill h).of_left hf with lost | ⟨right, same, states⟩
    · cases answer with
      | failed e => exact .astray ⟨e, lost, rfl⟩
      | _ => exact lost.elim
    · rw [same]
      cases answer with
      | failed e => exact .agree _ states
      | overrun => exact .agree _ states
      | done waiting =>
        dsimp only
        rw [lockstep.pending states]
        exact .agree _ states
  · exact .agree _ h

/-- Such failures are not tried again. -/
theorem stems_final (lockstep : Lockstep alike astray allowed) {e : StreamError}
    (lost : e.Stems astray) : ¬ e.interrupted = true := by
  obtain ⟨why, stray, rfl⟩ := lost
  rw [lockstep.calm stray]
  exact Bool.false_ne_true

theorem gather (lockstep : Lockstep alike astray allowed) (h : alike reader other)
    (wanted : Nat) (got : Array UInt8) :
    Together alike (·.Fails (·.Stems astray)) (reader.gather wanted got)
      (other.gather wanted got) := by
  fun_induction Reader.gather reader wanted got generalizing other with
  | case1 reader got =>
    rw [gather_eq other, if_pos rfl]
    exact .agree _ h
  | case2 reader wanted got some e after hr again _ ih =>
    obtain ⟨right, same, states⟩ :=
      (lockstep.read h wanted).of_safe hr fun lost => lockstep.stems_final lost again
    rw [gather_eq other, if_neg some, same]
    simp only [again]
    exact ih states
  | case3 reader wanted got some e after hr final =>
    rcases (lockstep.read h wanted).of_left hr with lost | ⟨right, same, states⟩
    · exact .astray lost
    · rw [gather_eq other, if_neg some, same]
      simp only [final]
      exact .agree _ states
  | case4 reader wanted got some after hr =>
    obtain ⟨right, same, states⟩ := (lockstep.read h wanted).of_safe hr id
    rw [gather_eq other, if_neg some, same]
    exact .agree _ states
  | case5 reader wanted got some after hr =>
    obtain ⟨right, same, states⟩ := (lockstep.read h wanted).of_safe hr id
    rw [gather_eq other, if_neg some, same]
    exact .agree _ states
  | case6 reader wanted got some first more after hr ih =>
    obtain ⟨right, same, states⟩ := (lockstep.read h wanted).of_safe hr id
    rw [gather_eq other, if_neg some, same]
    exact ih states

theorem collect_until (lockstep : Lockstep alike astray allowed) (h : alike reader other)
    (delimiter : UInt8) (got : Array UInt8) :
    Together (Agree alike) (·.Fails (·.Stems astray)) (reader.collectUntil delimiter got)
      (other.collectUntil delimiter got) := by
  fun_induction Reader.collectUntil reader delimiter got generalizing other with
  | case1 reader got e after hp again _ ih =>
    obtain ⟨right, same, states⟩ :=
      (lockstep.peek h).of_safe hp fun lost => lockstep.stems_final lost again
    rw [collect_until_eq other, same]
    simp only [again]
    exact ih states
  | case2 reader got e after hp final =>
    rcases (lockstep.peek h).of_left hp with lost | ⟨right, same, states⟩
    · exact .astray lost
    · rw [collect_until_eq other, same]
      simp only [final]
      exact .agree _ (.intro _ states)
  | case3 reader got after hp =>
    obtain ⟨right, same, states⟩ := (lockstep.peek h).of_safe hp id
    rw [collect_until_eq other, same]
    exact .agree _ (.intro _ states)
  | case4 reader got after hp =>
    obtain ⟨right, same, states⟩ := (lockstep.peek h).of_safe hp id
    rw [collect_until_eq other, same]
    exact .agree _ (.intro _ states)
  | case5 reader got first more after hp line _ _ _ =>
    rename_i found
    obtain ⟨right, same, states⟩ := (lockstep.peek h).of_safe hp id
    rw [collect_until_eq other, same]
    dsimp only
    rw [if_pos found]
    exact .agree _ (.intro _ (lockstep.consume states _))
  | case6 reader got first more after hp line _ _ _ found =>
    rename_i ih
    obtain ⟨right, same, states⟩ := (lockstep.peek h).of_safe hp id
    rw [collect_until_eq other, same]
    dsimp only
    rw [if_neg found]
    exact ih (lockstep.consume states _)

theorem collect_all (lockstep : Lockstep alike astray allowed) (h : alike reader other)
    (sizes : Nat → Nat) (got : Array UInt8) (calls : Nat) :
    let mine := reader.collectAll sizes got calls
    let yours := other.collectAll sizes got calls
    mine.ending.Fails (·.Stems astray) ∨
      (mine.ending, mine.bytes, mine.calls) = (yours.ending, yours.bytes, yours.calls) ∧
        alike mine.reader yours.reader := by
  fun_induction Reader.collectAll reader sizes got calls generalizing other with
  | case1 reader got calls e after hr =>
    rcases (lockstep.read h (sizes calls)).of_left hr with lost | ⟨right, same, states⟩
    · exact .inl lost
    · rw [collect_all_eq other, same]
      exact .inr ⟨rfl, states⟩
  | case2 reader got calls after hr =>
    obtain ⟨right, same, states⟩ := (lockstep.read h (sizes calls)).of_safe hr id
    rw [collect_all_eq other, same]
    exact .inr ⟨rfl, states⟩
  | case3 reader got calls after hr =>
    obtain ⟨right, same, states⟩ := (lockstep.read h (sizes calls)).of_safe hr id
    rw [collect_all_eq other, same]
    exact .inr ⟨rfl, states⟩
  | case4 reader got calls first more after hr _ ih =>
    obtain ⟨right, same, states⟩ := (lockstep.read h (sizes calls)).of_safe hr id
    rw [collect_all_eq other, same]
    exact ih states

theorem visit_rest (lockstep : Lockstep alike astray allowed) (h : alike reader other)
    (visitor : Visitor) (seen : Array Bytes) :
    Together (Agree alike) (·.Fails (·.Stems astray)) (reader.visitRest visitor seen)
      (other.visitRest visitor seen) := by
  fun_induction Reader.visitRest reader visitor seen generalizing other with
  | case1 reader seen e after hf =>
    rcases (lockstep.refill h).of_left hf with lost | ⟨right, same, states⟩
    · exact .astray lost
    · rw [visit_rest_eq other, same]
      exact .agree _ (.intro _ states)
  | case2 reader seen after hf =>
    obtain ⟨right, same, states⟩ := (lockstep.refill h).of_safe hf id
    rw [visit_rest_eq other, same]
    exact .agree _ (.intro _ states)
  | case3 reader seen after hf =>
    obtain ⟨right, same, states⟩ := (lockstep.refill h).of_safe hf id
    rw [visit_rest_eq other, same]
    exact .agree _ (.intro _ states)
  | case4 reader seen after hf _ shown e =>
    rename_i told
    obtain ⟨right, same, states⟩ := (lockstep.refill h).of_safe hf id
    rw [visit_rest_eq other, same]
    dsimp only
    rw [← lockstep.pending states, told]
    exact .agree _ (.intro _ states)
  | case5 reader seen after hf _ shown told =>
    rename_i ih
    obtain ⟨right, same, states⟩ := (lockstep.refill h).of_safe hf id
    rw [visit_rest_eq other, same]
    dsimp only
    rw [← lockstep.pending states, told]
    exact ih (lockstep.queue states _)

theorem visit_blocks (lockstep : Lockstep alike astray allowed) (h : alike reader other)
    (visitor : Visitor) :
    Together (Agree alike) (·.Fails (·.Stems astray)) (reader.visitBlocks visitor)
      (other.visitBlocks visitor) := by
  unfold Reader.visitBlocks
  rw [lockstep.pending h]
  split
  · exact lockstep.visit_rest h visitor _
  · dsimp only
    split
    · exact .agree _ (.intro _ h)
    · exact lockstep.visit_rest (lockstep.queue h _) visitor _

theorem reports_bytes {answer : Outcome StreamError Bytes} (h : answer.Fails (·.Stems astray)) :
    (replyBytes answer).Reports astray := by
  cases answer with
  | failed e => exact h
  | _ => exact h.elim

theorem reports_collected {answer : Outcome StreamError Unit} (bytes : Array UInt8) (calls : Nat)
    (h : answer.Fails (·.Stems astray)) :
    (replyCollected bytes calls answer).Reports astray := by
  cases answer with
  | failed e => exact h
  | _ => exact h.elim

theorem reports_line {answer : Outcome StreamError Unit} (bytes : Array UInt8)
    (h : answer.Fails (·.Stems astray)) : (replyLine bytes answer).Reports astray := by
  cases answer with
  | failed e => exact h
  | _ => exact h.elim

theorem reports_visited {answer : Outcome VisitError Unit} (blocks : Array Bytes)
    (h : answer.Fails (·.Stems astray)) : (replyVisited blocks answer).Reports astray := by
  cases answer with
  | failed e => exact h
  | _ => exact h.elim

theorem perform (lockstep : Lockstep alike astray allowed) (h : alike reader other)
    {operation : ReaderOperation} (permitted : allowed operation) :
    Together alike (·.Reports astray) (reader.perform operation) (other.perform operation) := by
  cases operation with
  | read size => exact (lockstep.read h size).map fun _ => reports_bytes
  | readExact count => exact (lockstep.gather h count #[]).map fun _ => reports_bytes
  | readAll size =>
    rcases lockstep.collect_all h (fun _ => size) #[] 0 with lost | ⟨same, states⟩
    · exact .astray (reports_collected _ _ lost)
    · simp only [Prod.mk.injEq] at same
      obtain ⟨ending, bytes, calls⟩ := same
      apply Agree.together
      refine agree_of_eq ?_ states
      dsimp only [Reader.perform, readAll, drain]
      rw [ending, bytes, calls]
  | peek => exact (lockstep.peek h).map fun _ => reports_bytes
  | consume count => exact .agree _ (lockstep.consume h count)
  | readUntil delimiter =>
    exact (lockstep.collect_until h delimiter #[]).map_pair fun _ bytes => reports_line bytes
  | visitBlocks visitor =>
    exact (lockstep.visit_blocks h visitor).map_pair fun _ blocks => reports_visited blocks
  | feed events => exact (lockstep.past h permitted trivial).together
  | rawRead size => exact (lockstep.past h permitted trivial).together

/-- As long as the first run reports no such failure, the runs are the same step by step. -/
theorem run (lockstep : Lockstep alike astray allowed) (h : alike reader other)
    {operations : List ReaderOperation} (permitted : ∀ operation ∈ operations, allowed operation)
    {count : Nat} (safe : ∀ step ∈ (reader.run operations).take count, ¬ step.1.Reports astray) :
    List.Forall₂ (Agree alike) ((reader.run operations).take count)
      ((other.run operations).take count) := by
  induction operations generalizing reader other count with
  | nil =>
    rw [Reader.run, Reader.run, List.take_nil]
    exact .nil
  | cons operation rest ih =>
    cases count with
    | zero => exact .nil
    | succ count =>
      rw [run_cons, List.take_succ_cons] at safe
      rw [run_cons, run_cons, List.take_succ_cons, List.take_succ_cons]
      have together := lockstep.perform h (permitted operation List.mem_cons_self)
      have agree := together.agree_of_safe (safe _ List.mem_cons_self)
      apply List.Forall₂.cons agree
      replace safe := fun step mem => safe step (List.mem_cons_of_mem _ mem)
      generalize reader.perform operation = one, other.perform operation = two at agree safe ⊢
      cases agree with
      | intro answer states =>
        dsimp only at safe ⊢
        by_cases past : answer = .overrun
        · rw [if_pos past, if_pos past, List.take_nil]
          exact .nil
        · rw [if_neg past] at safe
          rw [if_neg past, if_neg past]
          exact ih states (fun other mem => permitted other (List.mem_cons_of_mem _ mem)) safe

theorem run_whole (lockstep : Lockstep alike astray allowed) (h : alike reader other)
    {operations : List ReaderOperation} (permitted : ∀ operation ∈ operations, allowed operation)
    (safe : ∀ step ∈ reader.run operations, ¬ step.1.Reports astray) :
    List.Forall₂ (Agree alike) (reader.run operations) (other.run operations) := by
  have mine := List.take_of_length_le (length_run_le reader operations)
  have yours := List.take_of_length_le (length_run_le other operations)
  rw [← mine] at safe
  rw [← mine, ← yours]
  exact lockstep.run h permitted safe

theorem perform_all (lockstep : Lockstep alike (fun _ => False) allowed) (h : alike reader other)
    {operations : List ReaderOperation}
    (permitted : ∀ operation ∈ operations, allowed operation) :
    alike (reader.performAll operations) (other.performAll operations) := by
  induction operations generalizing reader other with
  | nil => exact h
  | cons operation rest ih =>
    have together := lockstep.perform h (permitted operation List.mem_cons_self)
    have states := (together.agree_of_safe (ReaderReply.not_reports _)).states
    exact ih states fun other mem => permitted other (List.mem_cons_of_mem _ mem)

end Lockstep

theorem Like.lockstep {like : Likeness} {astray : Error → Prop}
    {allowed : ReaderOperation → Prop} (room : like.Roomy)
    (sources : Source.Interchangeable like.sources)
    (raw : ∀ {size}, allowed (.rawRead size) → ∀ {source other}, like.sources source other →
      Agree like.sources (source.read size) (other.read size))
    (calm : ∀ {e}, astray e → e.toStreamError.interrupted = false)
    (check : ∀ {policy policy'}, like.policies policy policy' → ∀ masked content,
      (∃ e, policy.check masked content = .error e ∧ astray e) ∨
        policy.check masked content = policy'.check masked content) :
    Lockstep (Like (κ := κ) like) astray allowed where
  calm := calm
  pending h := by
    cases h with
    | intro sources policies bodies decodeds => rfl
  poisoned h := by
    cases h with
    | intro sources policies bodies decodeds => rfl
  poison h := by
    cases h with
    | intro sources policies bodies decodeds => exact .intro sources policies bodies decodeds
  queue h := h.with_queue
  advance h := (h.advance room sources).together check
  past := by
    intro reader other operation h permitted past
    cases h with
    | intro alike policies bodies decodeds =>
      cases operation with
      | feed events => exact .intro _ (.intro (sources.feed alike events) policies bodies decodeds)
      | rawRead size =>
        simp only [Reader.perform, Reader.rawRead]
        refine (raw permitted alike).elim fun answer left right alike => ?_
        cases answer with
        | error fault => exact .intro _ (.intro alike policies bodies decodeds)
        | ok data => exact .intro _ (.intro alike policies bodies decodeds)
      | _ => exact past.elim

end Reader

end FramedSnappy
