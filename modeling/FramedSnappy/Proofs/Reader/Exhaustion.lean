import FramedSnappy.Proofs.Bytes
import FramedSnappy.Proofs.Reader.Delivery
import FramedSnappy.Proofs.Reader.Failure

/-! A reader that has failed lives on what was waiting in its queue. Whatever is asked of it, and
whatever its source is fed in the meantime, it takes nothing from the source, and an operation for
which the bytes that wait do not suffice says so. Only a cursor that wraps gives it more bytes to
live on, which have been handed over before. -/
namespace FramedSnappy

namespace ReaderOperation

/-- What waits does not do, so that the next frame has to be looked at. -/
def Needs (waiting : Bytes) : ReaderOperation → Prop
  | read size => waiting.length < size
  | readExact count => waiting.length < count
  | readAll size => 0 < size
  | peek => waiting = []
  | readUntil delimiter => delimiter ∉ waiting
  | visitBlocks visitor => waiting = [] ∨ visitor #[waiting] = none
  | _ => False

/-- What an operation says that has only `waiting` to live on, and what it leaves of that. -/
def exhaust (waiting : Bytes) : ReaderOperation → ReaderReply × Bytes
  | read size =>
    if waiting.length < size then (.failed (.format .poisoned), waiting)
    else (.bytes (waiting.take size), waiting.drop size)
  | readExact count =>
    if waiting.length < count then (.failed (.format .poisoned), waiting)
    else (.bytes (waiting.take count), waiting.drop count)
  | readAll size =>
    if size = 0 then (.collected [] 1 none, waiting)
    else
      let whole := waiting.length / size
      (.collected (waiting.take (whole * size)) (whole + 1) (some (.format .poisoned)),
        waiting.drop (whole * size))
  | peek =>
    if waiting = [] then (.failed (.format .poisoned), waiting) else (.bytes waiting, waiting)
  | consume count => (.silent, waiting.drop count)
  | readUntil delimiter =>
    let line := Bytes.upTo delimiter waiting
    (.line line.1 (if line.2 then none else some (.format .poisoned)),
      waiting.drop line.1.length)
  | visitBlocks visitor =>
    if waiting = [] then (.visited #[] (some (.failed .poisoned)), waiting)
    else match visitor #[waiting] with
      | some e => (.visited #[waiting] (some (.refused e)), waiting)
      | none => (.visited #[waiting] (some (.failed .poisoned)), [])
  | _ => (.silent, waiting)

end ReaderOperation

namespace ReaderReply

/-- The reply says that a frame has failed earlier. -/
def Poisoned : ReaderReply → Prop
  | failed e => e = .format .poisoned
  | collected _ _ failure => failure = some (.format .poisoned)
  | line _ failure => failure = some (.format .poisoned)
  | visited _ failure => failure = some (.failed .poisoned)
  | _ => False

/-- What an operation before which `waiting` was in the queue has taken from there and from the
frames behind it. -/
def taken (waiting : Bytes) : ReaderOperation → ReaderReply → Bytes
  | .readExact _, .bytes data => data
  | .readAll _, .collected data _ _ => data
  | .readUntil _, .line data _ => data
  | operation, reply => reply.handed waiting operation

end ReaderReply

namespace ReaderOperation

variable {waiting : Bytes} {operation : ReaderOperation}

theorem exhaust_accounts (waiting : Bytes) (operation : ReaderOperation) :
    (operation.exhaust waiting).1.taken waiting operation ++ (operation.exhaust waiting).2 =
      waiting := by
  cases operation with
  | read size =>
    simp only [exhaust]
    split
    · rfl
    · exact List.take_append_drop _ _
  | readExact count =>
    simp only [exhaust]
    split
    · rfl
    · exact List.take_append_drop _ _
  | readAll size =>
    simp only [exhaust]
    split
    · rfl
    · exact List.take_append_drop _ _
  | peek =>
    simp only [exhaust]
    split <;> rfl
  | consume count => exact List.take_append_drop _ _
  | readUntil delimiter =>
    by_cases there : delimiter ∈ waiting
    · obtain ⟨line, rest, found, rfl⟩ := Bytes.up_to_of_mem there
      simp [exhaust, ReaderReply.taken, found]
    · simp [exhaust, ReaderReply.taken, Bytes.up_to_of_not_mem there]
  | visitBlocks visitor =>
    simp only [exhaust]
    split
    · rfl
    · split
      · rfl
      · simp [ReaderReply.taken, ReaderReply.handed]
  | feed events => rfl
  | rawRead size => rfl

end ReaderOperation

namespace Reader

variable {κ : Type}

/-- Only the queue has changed: nothing has come into it, and `left` still waits. -/
structure Leaves (reader : Reader κ) (left : Bytes) (after : Reader κ) : Prop where
  same : { reader with pending := after.pending } = after
  waiting : after.pending.toList = left
  size : after.pending.stored.size ≤ reader.pending.stored.size

variable {reader middle after failed now : Reader κ} {left got : Bytes}
  {events : List SourceEvent}

theorem leaves_refl (reader : Reader κ) : reader.Leaves reader.pending.toList reader :=
  ⟨rfl, rfl, Nat.le_refl _⟩

theorem leaves_consume (reader : Reader κ) (count : Nat) :
    reader.Leaves (reader.consume count).pending.toList (reader.consume count) :=
  ⟨rfl, rfl, ByteQueue.size_consume _ _⟩

theorem leaves_within (reader : Reader κ) {count : Nat}
    (within : count ≤ reader.pending.toList.length) :
    reader.Leaves (reader.pending.toList.drop count) (reader.consume count) := by
  rw [← ByteQueue.to_list_consume
    (ByteQueue.not_wraps_of_le (ByteQueue.length_to_list _ ▸ within))]
  exact leaves_consume reader count

theorem leaves_serve (reader : Reader κ) (size : Nat) :
    reader.Leaves (reader.pending.toList.drop size) (reader.serve size).2 :=
  ⟨rfl, ByteQueue.to_list_take_rest _ _, ByteQueue.size_consume _ _⟩

theorem leaves_emptied (reader : Reader κ) : reader.Leaves [] { reader with pending := .empty } :=
  ⟨rfl, rfl, Nat.zero_le _⟩

theorem Leaves.poisoned (h : reader.Leaves left after) : after.poisoned = reader.poisoned := by
  rw [← h.same]

theorem Leaves.trans {first : Bytes} (h : reader.Leaves first middle)
    (rest : middle.Leaves left after) : reader.Leaves left after := by
  constructor
  · rw [← rest.same, ← h.same]
  · exact rest.waiting
  · exact Nat.le_trans rest.size h.size

/-- `now` is `failed` with more behind the script of its source, and some bytes less in its queue
provided that the way to here was `exact`. -/
structure Exhausted (failed : Reader κ) (exact : Prop) (events : List SourceEvent) (got : Bytes)
    (now : Reader κ) : Prop where
  same : { failed with source := failed.source.feed events, pending := now.pending } = now
  total : exact → got ++ now.pending.toList = failed.pending.toList
  size : now.pending.stored.size ≤ failed.pending.stored.size

variable {exact : Prop}

theorem Exhausted.refl (failed : Reader κ) : Exhausted failed exact [] [] failed :=
  ⟨by simp [Source.feed_nil], fun _ => rfl, Nat.le_refl _⟩

theorem Exhausted.poisoned (h : Exhausted failed exact events got now) :
    now.poisoned = failed.poisoned := by
  rw [← h.same]

variable [Codec κ]

theorem read_short (poisoned : reader.poisoned = true) {size : Nat}
    (short : reader.pending.toList.length < size) :
    reader.read size = (.failed (.format .poisoned), reader) := by
  rw [ByteQueue.length_to_list] at short
  rw [read, if_pos short, refill_poisoned poisoned]
  rfl

theorem read_enough {size : Nat} (enough : size ≤ reader.pending.toList.length) :
    ∃ after, reader.read size = (.done (reader.pending.toList.take size), after) ∧
      reader.Leaves (reader.pending.toList.drop size) after := by
  rw [ByteQueue.length_to_list] at enough
  refine ⟨_, ?_, leaves_serve reader size⟩
  rw [read, if_neg (Nat.not_lt.mpr enough)]
  simp only [serve, ByteQueue.to_list_take]

theorem gather_poisoned (poisoned : reader.poisoned = true) {wanted : Nat}
    (short : reader.pending.toList.length < wanted) (got : Array UInt8) :
    reader.gather wanted got = (.failed (.format .poisoned), reader) := by
  rw [gather_eq, if_neg (Nat.ne_zero_of_lt short), read_short poisoned short]
  rfl

theorem read_exact_enough {count : Nat} (enough : count ≤ reader.pending.toList.length) :
    ∃ after, reader.readExact count = (.done (reader.pending.toList.take count), after) ∧
      reader.Leaves (reader.pending.toList.drop count) after := by
  rw [readExact, gather_eq]
  by_cases none : count = 0
  · subst none
    exact ⟨reader, rfl, leaves_refl reader⟩
  · obtain ⟨after, call, leaves⟩ := read_enough enough
    refine ⟨after, ?_, leaves⟩
    have length := List.length_take_of_le enough
    rw [if_neg none, call]
    cases taken : reader.pending.toList.take count with
    | nil =>
      rw [taken] at length
      exact absurd length.symm none
    | cons first more =>
      rw [taken, List.length_cons] at length
      dsimp only
      rw [length, Nat.sub_self, gather_eq, if_pos rfl]
      simp

theorem collect_all_poisoned (poisoned : reader.poisoned = true) {size : Nat} (positive : 0 < size)
    (got : Array UInt8) (calls : Nat) :
    let whole := reader.pending.toList.length / size
    ∃ after, reader.collectAll (fun _ => size) got calls =
        ⟨.failed (.format .poisoned), got ++ reader.pending.toList.take (whole * size),
          calls + (whole + 1), after⟩ ∧
      reader.Leaves (reader.pending.toList.drop (whole * size)) after := by
  intro whole
  induction length : reader.pending.toList.length using Nat.strongRecOn
    generalizing reader got calls with
  | ind count ih =>
    rw [collect_all_eq]
    rcases Nat.lt_or_ge reader.pending.toList.length size with short | enough
    · have none : whole = 0 := Nat.div_eq_of_lt short
      refine ⟨reader, ?_, ?_⟩
      · rw [read_short poisoned short, none]
        simp
      · rw [none, Nat.zero_mul, List.drop_zero]
        exact leaves_refl reader
    · obtain ⟨middle, call, leaves⟩ := read_enough enough
      have fewer : middle.pending.toList.length = reader.pending.toList.length - size := by
        rw [leaves.waiting, List.length_drop]
      obtain ⟨after, goes_on, last⟩ :=
        @ih _ (by omega) middle (leaves.poisoned.trans poisoned)
          (got ++ reader.pending.toList.take size) (calls + 1) rfl
      generalize rounds : middle.pending.toList.length / size = more at goes_on last
      have one : whole = more + 1 := by
        rw [← rounds, fewer]
        exact Nat.div_eq_sub_div positive enough
      have span : whole * size = size + more * size := by
        rw [one, Nat.add_mul, Nat.one_mul, Nat.add_comm]
      have some : reader.pending.toList.take size ≠ [] := by
        rw [← List.length_pos_iff, List.length_take_of_le enough]
        exact positive
      refine ⟨after, ?_, ?_⟩
      · rw [call, span, one, List.take_add, ← leaves.waiting, Bytes.collect_append]
        obtain ⟨first, others, split⟩ := List.exists_cons_of_ne_nil some
        rw [split] at goes_on ⊢
        rw [Nat.add_assoc calls, Nat.add_comm 1] at goes_on
        exact goes_on
      · rw [span, ← List.drop_drop, ← leaves.waiting]
        exact leaves.trans last

theorem collect_until_poisoned (poisoned : reader.poisoned = true)
    (dry : reader.pending.toList = [])
    (delimiter : UInt8) (got : Array UInt8) :
    reader.collectUntil delimiter got = (.failed (.format .poisoned), got, reader) := by
  rw [collect_until_eq, peek, if_pos ((ByteQueue.is_empty_to_list _).mpr dry),
    refill_poisoned poisoned]
  rfl

theorem collect_until_waiting (waits : reader.pending.toList ≠ []) (delimiter : UInt8)
    (got : Array UInt8) :
    reader.collectUntil delimiter got =
      let line := Bytes.upTo delimiter reader.pending.toList
      let after := reader.consume line.1.length
      if line.2 then (.done (), got ++ line.1, after)
      else after.collectUntil delimiter (got ++ line.1) := by
  rw [collect_until_eq, peek_waiting waits]
  obtain ⟨first, more, split⟩ := List.exists_cons_of_ne_nil waits
  simp only [split]

theorem read_until_exhausts {delimiter : UInt8}
    (h : delimiter ∉ reader.pending.toList → reader.poisoned = true) :
    let line := Bytes.upTo delimiter reader.pending.toList
    ∃ ending got after, reader.readUntil delimiter = (ending, got, after) ∧
      replyLine got ending =
        .line line.1 (if line.2 then none else some (.format .poisoned)) ∧
      reader.Leaves (reader.pending.toList.drop line.1.length) after := by
  intro line
  have leaves := leaves_within reader (Bytes.up_to_within delimiter reader.pending.toList)
  by_cases there : delimiter ∈ reader.pending.toList
  · obtain ⟨front, rest, found, -⟩ := Bytes.up_to_of_mem there
    have called := collect_until_waiting (List.ne_nil_of_mem there) delimiter #[]
    simp only [line, found] at leaves called ⊢
    exact ⟨_, _, _, called, by simp [replyLine], leaves⟩
  · have whole := Bytes.up_to_of_not_mem there
    simp only [line, whole] at leaves ⊢
    by_cases dry : reader.pending.toList = []
    · refine ⟨_, _, _, collect_until_poisoned (h there) dry delimiter #[], ?_, ?_⟩
      · simp [replyLine, dry]
      · simpa [dry] using leaves_refl reader
    · have called := collect_until_waiting dry delimiter #[]
      have nothing := leaves.waiting.trans List.drop_length
      simp only [whole, collect_until_poisoned (leaves.poisoned.trans (h there)) nothing] at called
      exact ⟨_, _, _, called, by simp [replyLine], leaves⟩

theorem visit_exhausts {visitor : Visitor}
    (h : (ReaderOperation.visitBlocks visitor).Needs reader.pending.toList →
      reader.poisoned = true) :
    let exhausted := (ReaderOperation.visitBlocks visitor).exhaust reader.pending.toList
    ∃ ending seen after, reader.visitBlocks visitor = (ending, seen, after) ∧
      replyVisited seen ending = exhausted.1 ∧ reader.Leaves exhausted.2 after := by
  unfold visitBlocks ReaderOperation.exhaust
  by_cases dry : reader.pending.toList = []
  · rw [if_pos ((ByteQueue.is_empty_to_list _).mpr dry), visit_rest_poisoned (h (.inl dry))]
    simp only [if_pos dry]
    exact ⟨_, _, _, rfl, rfl, leaves_refl reader⟩
  · rw [if_neg (mt (ByteQueue.is_empty_to_list _).mp dry)]
    simp only [if_neg dry]
    cases told : visitor #[reader.pending.toList] with
    | some e => exact ⟨_, _, _, rfl, rfl, leaves_refl reader⟩
    | none =>
      rw [@visit_rest_poisoned _ _ visitor { reader with pending := .empty } (h (.inr told))]
      exact ⟨_, _, _, rfl, rfl, leaves_emptied reader⟩

/-- An operation is answered from the bytes that wait, or the reader has failed: either way nothing
else of the reader is touched. -/
theorem perform_exhausts {operation : ReaderOperation} (own : operation.Own)
    (h : operation.Needs reader.pending.toList → reader.poisoned = true) :
    (reader.perform operation).1 = (operation.exhaust reader.pending.toList).1 ∧
      ∃ left, (reader.feed operation.fed).Leaves left (reader.perform operation).2 ∧
        (¬ reader.pending.Wraps operation.amount →
          left = (operation.exhaust reader.pending.toList).2) := by
  have unfed : reader.feed [] = reader := by simp [feed, Source.feed_nil]
  cases operation with
  | read size =>
    simp only [perform, ReaderOperation.exhaust, ReaderOperation.fed, unfed]
    split
    · rename_i short
      rw [read_short (h short) short]
      exact ⟨rfl, _, leaves_refl reader, fun _ => rfl⟩
    · rename_i enough
      obtain ⟨after, call, leaves⟩ := read_enough (Nat.not_lt.mp enough)
      rw [call]
      exact ⟨rfl, _, leaves, fun _ => rfl⟩
  | readExact count =>
    simp only [perform, ReaderOperation.exhaust, ReaderOperation.fed, unfed]
    split
    · rename_i short
      rw [readExact, gather_poisoned (h short) short]
      exact ⟨rfl, _, leaves_refl reader, fun _ => rfl⟩
    · rename_i enough
      obtain ⟨after, call, leaves⟩ := read_exact_enough (Nat.not_lt.mp enough)
      rw [call]
      exact ⟨rfl, _, leaves, fun _ => rfl⟩
  | readAll size =>
    simp only [perform, readAll, drain, ReaderOperation.exhaust, ReaderOperation.fed, unfed]
    split
    · rename_i none
      subst none
      obtain ⟨after, call, leaves⟩ := @read_enough _ reader _ 0 (Nat.zero_le _)
      rw [collect_all_eq, call]
      exact ⟨rfl, _, leaves, fun _ => rfl⟩
    · rename_i some
      have positive := Nat.pos_of_ne_zero some
      obtain ⟨after, call, leaves⟩ := collect_all_poisoned (h positive) positive #[] 0
      rw [call]
      exact ⟨by simp [replyCollected], _, leaves, fun _ => rfl⟩
  | peek =>
    simp only [perform, ReaderOperation.exhaust, ReaderOperation.fed, unfed]
    split
    · rename_i dry
      rw [peek, if_pos ((ByteQueue.is_empty_to_list _).mpr dry), refill_poisoned (h dry)]
      exact ⟨rfl, _, leaves_refl reader, fun _ => rfl⟩
    · rename_i waits
      rw [peek_waiting waits]
      exact ⟨rfl, _, leaves_refl reader, fun _ => rfl⟩
  | consume count =>
    simp only [ReaderOperation.fed, unfed]
    exact ⟨rfl, _, leaves_consume reader count, ByteQueue.to_list_consume⟩
  | readUntil delimiter =>
    obtain ⟨ending, got, after, call, reply, leaves⟩ := read_until_exhausts h
    simp only [perform, ReaderOperation.exhaust, ReaderOperation.fed, unfed, call]
    exact ⟨reply, _, leaves, fun _ => rfl⟩
  | visitBlocks visitor =>
    obtain ⟨ending, seen, after, call, reply, leaves⟩ := visit_exhausts h
    simp only [perform, ReaderOperation.fed, unfed, call]
    exact ⟨reply, _, leaves, fun _ => rfl⟩
  | feed events => exact ⟨rfl, _, leaves_refl (reader.feed events), fun _ => rfl⟩
  | rawRead size => exact own.elim

def taken (reader : Reader κ) (operation : ReaderOperation) : Bytes :=
  (reader.perform operation).1.taken reader.pending.toList operation

def takenAll : Reader κ → List ReaderOperation → Bytes
  | _, [] => []
  | reader, operation :: rest =>
    reader.taken operation ++ (reader.perform operation).2.takenAll rest

theorem Exhausted.perform (h : Exhausted failed exact events got now)
    (poisoned : failed.poisoned = true) {operation : ReaderOperation} (own : operation.Own) :
    Exhausted failed (exact ∧ ¬ now.pending.Wraps operation.amount) (events ++ operation.fed)
      (got ++ now.taken operation) (now.perform operation).2 := by
  obtain ⟨reply, left, leaves, known⟩ := perform_exhausts own fun _ => h.poisoned.trans poisoned
  constructor
  · rw [← leaves.same, Source.feed_append, ← h.same]
    rfl
  · rintro ⟨exact, step⟩
    rw [List.append_assoc, taken, reply, leaves.waiting, known step,
      ReaderOperation.exhaust_accounts, h.total exact]
  · exact Nat.le_trans leaves.size h.size

theorem Exhausted.perform_all (h : Exhausted failed exact events got now)
    (poisoned : failed.poisoned = true) {later : List ReaderOperation}
    (own : ∀ operation ∈ later, operation.Own) :
    Exhausted failed (exact ∧ now.Exact later) (events ++ later.flatMap ReaderOperation.fed)
      (got ++ now.takenAll later) (now.performAll later) := by
  induction later generalizing now events got exact with
  | nil => simpa [takenAll, Reader.performAll, Exact] using h
  | cons operation rest ih =>
    have next := h.perform poisoned (own operation List.mem_cons_self)
    have last := ih next fun other mem => own other (List.mem_cons_of_mem _ mem)
    simpa [takenAll, Reader.performAll, Exact, and_assoc] using last

theorem refill_failed_poisons {e : Error} (h : reader.refill = (.failed e, after)) :
    after.poisoned = true := by
  unfold refill at h
  split at h
  · cases h
    assumption
  · exact (decode_until_pending_failed h).2

theorem read_failed_poisons {size : Nat} {e : StreamError}
    (h : reader.read size = (.failed e, after)) : after.poisoned = true := by
  obtain ⟨-, why, failed, -⟩ := refill_of_read_failed h
  exact refill_failed_poisons failed

theorem peek_failed_poisons {e : StreamError} (h : reader.peek = (.failed e, after)) :
    after.poisoned = true := by
  obtain ⟨-, why, failed, -⟩ := refill_of_peek_failed h
  exact refill_failed_poisons failed

end Reader

end FramedSnappy
