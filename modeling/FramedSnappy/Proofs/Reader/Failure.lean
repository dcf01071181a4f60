import FramedSnappy.Proofs.Reader.Operation

/-! What becomes of a reader after a failure that no visitor has caused. It decodes nothing more,
but it still hands over bytes that were waiting when it failed, to calls that need no others. Only
a read that wanted more than was waiting can leave such bytes behind. -/
namespace FramedSnappy

/-- The reply is an error that does not come from a visitor. -/
def ReaderReply.Broken : ReaderReply → Prop
  | failed _ => True
  | visited _ (some (.failed _)) => True
  | _ => False

/-- The reply is an error, wherever it comes from. -/
def ReaderReply.Fails : ReaderReply → Prop
  | failed _ => True
  | visited _ (some _) => True
  | _ => False

/-- The operations that ask a reader for bytes. -/
def ReaderOperation.Asks : ReaderOperation → Prop
  | read size => 0 < size
  | peek => True
  | visitBlocks _ => True
  | _ => False

namespace Reader

variable {κ : Type} {reader after failed : Reader κ}

/-- What a failed reader turns into: nothing has come into its queue. -/
structure Remains (failed now : Reader κ) : Prop where
  poisoned : now.poisoned = true
  stored : now.pending.stored.toList <:+ failed.pending.stored.toList

theorem Remains.dry (h : failed.Remains reader) (empty : failed.pending = .empty) :
    reader.pending.toList = [] := by
  have none := h.stored
  rw [empty] at none
  exact List.suffix_nil.mp ((ByteQueue.to_list_suffix _).trans none)

/-- The same without bytes that were taken and wait again. -/
structure Dwindles (failed now : Reader κ) : Prop where
  poisoned : now.poisoned = true
  waiting : now.pending.toList <:+ failed.pending.toList

theorem dwindles_consume (now : Reader κ) (count : Nat) (exact : ¬ now.pending.Wraps count)
    (h : failed.Dwindles now) : failed.Dwindles (now.consume count) := by
  refine ⟨h.poisoned, ?_⟩
  rw [consume, ByteQueue.to_list_consume exact]
  exact (List.drop_suffix _ _).trans h.waiting

variable [Codec κ]

/-- Whoever asks for bytes gets an error, whatever has been done in between. -/
def Silent (reader : Reader κ) : Prop :=
  ∀ (between : List ReaderOperation) (operation : ReaderOperation), operation.Asks →
    ((reader.performAll between).perform operation).1.Fails

theorem remains_kept (failed : Reader κ) : Kept failed.Remains where
  refill now h := by
    rw [refill_poisoned h.poisoned]
    exact h
  consume now count h :=
    ⟨h.poisoned, (ByteQueue.stored_consume now.pending count).trans h.stored⟩
  source _ _ h := ⟨h.poisoned, h.stored⟩

theorem perform_all_remains (poisoned : failed.poisoned = true)
    (between : List ReaderOperation) : failed.Remains (failed.performAll between) :=
  (remains_kept failed).perform_all ⟨poisoned, List.suffix_refl _⟩ between

theorem Dwindles.refill (h : failed.Dwindles reader) : failed.Dwindles reader.refill.2 := by
  rw [refill_poisoned h.poisoned]
  exact h

theorem dwindles_paced (failed : Reader κ) : Paced failed.Dwindles where
  read _ size h := holds_of_read h h.refill dwindles_consume size
  refill _ _ h := h.refill
  consume := dwindles_consume
  source _ _ h := ⟨h.poisoned, h.waiting⟩

theorem read_poisoned (poisoned : reader.poisoned = true) (size : Nat) :
    (reader.perform (.read size)).1 =
      if reader.pending.toList.length < size then .failed (.format .poisoned)
      else .bytes (reader.pending.toList.take size) := by
  simp only [perform, read, refill_poisoned poisoned, ByteQueue.length_to_list]
  split
  · rfl
  · simp only [serve, ByteQueue.to_list_take, replyBytes]

theorem peek_poisoned (poisoned : reader.poisoned = true) :
    (reader.perform .peek).1 =
      if reader.pending.toList = [] then .failed (.format .poisoned)
      else .bytes reader.pending.toList := by
  simp only [perform, peek, refill_poisoned poisoned, ← ByteQueue.is_empty_to_list]
  split
  · rfl
  · rfl

theorem visit_poisoned (poisoned : reader.poisoned = true) (visitor : Visitor) :
    (reader.perform (.visitBlocks visitor)).1.Fails := by
  obtain ⟨e, seen, queue, visited, -⟩ := @visit_blocks_poisoned _ _ visitor _ poisoned
  simp only [perform, visited]
  trivial

theorem Remains.fails (remains : failed.Remains reader) {operation : ReaderOperation}
    (asks : operation.Asks) (empty : failed.pending = .empty) :
    (reader.perform operation).1.Fails := by
  have nothing := remains.dry empty
  cases operation with
  | read size =>
    have short : reader.pending.toList.length < size := nothing ▸ asks
    rw [read_poisoned remains.poisoned, if_pos short]
    trivial
  | peek =>
    rw [peek_poisoned remains.poisoned, if_pos nothing]
    trivial
  | visitBlocks visitor => exact visit_poisoned remains.poisoned visitor
  | _ => exact asks.elim

theorem silent_iff (poisoned : reader.poisoned = true) (tidy : reader.pending.Tidy) :
    reader.Silent ↔ reader.pending.toList = [] := by
  constructor
  · intro silent
    have one := silent [] (.read 1) Nat.one_pos
    change (reader.perform (.read 1)).1.Fails at one
    rw [read_poisoned poisoned] at one
    split at one
    · rename_i none
      exact List.length_eq_zero_iff.mp (Nat.lt_one_iff.mp none)
    · exact one.elim
  · intro dry between operation asks
    have remains := perform_all_remains poisoned between
    exact remains.fails asks (tidy.eq_empty_of_dry dry)

theorem silent_for_good (poisoned : reader.poisoned = true) (tidy : reader.pending.Tidy)
    (dry : reader.pending.toList = []) :
    reader.Silent ∧ ∀ between, (reader.performAll between).pending.toList = [] := by
  refine ⟨(silent_iff poisoned tidy).mpr dry, fun between => ?_⟩
  exact (perform_all_remains poisoned between).dry (tidy.eq_empty_of_dry dry)

theorem refill_failed_leaves (fit : reader.Fit) {e : Error}
    (h : reader.refill = (.failed e, after)) :
    after.poisoned = true ∧ after.pending.toList = reader.pending.toList := by
  cases poisoned : reader.poisoned with
  | true =>
    rw [refill_poisoned poisoned] at h
    cases h
    exact ⟨poisoned, rfl⟩
  | false =>
    have decodes := refill_decodes fit poisoned
    rw [h] at decodes
    cases decodes with
    | broken reaches idle breaks kept => exact ⟨breaks.poisoned, kept⟩

theorem visit_failed_leaves (fit : reader.Fit) {visitor : Visitor} {seen : Array Bytes} {e : Error}
    (h : reader.visitBlocks visitor = (.failed (.failed e), seen, after)) :
    after.poisoned = true ∧ after.pending.toList = [] := by
  cases poisoned : reader.poisoned with
  | true =>
    obtain ⟨error, shown, queue, visited, -, rest⟩ := @visit_blocks_poisoned _ _ visitor _ poisoned
    rw [h] at visited
    cases visited
    rcases rest with ⟨-, -, empty⟩ | ⟨why, refused, -⟩
    · exact ⟨poisoned, empty⟩
    · cases refused
  | false =>
    have visits := @visit_blocks_visits _ _ visitor _ fit poisoned
    rw [h] at visits
    cases visits with
    | broken reaches breaks empty shown => exact ⟨breaks.poisoned, empty⟩

/-- A failure leaves bytes in the queue only if it is a read that has failed. -/
theorem broken_leaves (fit : reader.Fit) {operation : ReaderOperation} (direct : operation.Direct)
    (broken : (reader.perform operation).1.Broken) :
    (reader.perform operation).2.poisoned = true ∧
      ((reader.perform operation).2.pending.toList = [] ↔
        ∀ size, operation = .read size → reader.pending.toList = []) := by
  cases operation with
  | read size =>
    simp only [perform, read] at broken ⊢
    split at broken
    · rename_i short
      rw [if_pos short]
      rcases h : reader.refill with ⟨outcome, after⟩
      rw [h] at broken
      cases outcome with
      | done waiting => exact broken.elim
      | overrun => exact broken.elim
      | failed e =>
        obtain ⟨poisoned, kept⟩ := refill_failed_leaves fit h
        refine ⟨poisoned, ?_⟩
        dsimp only
        rw [kept]
        exact ⟨fun empty _ _ => empty, fun empty => empty size rfl⟩
    · exact broken.elim
  | peek =>
    simp only [perform, peek] at broken ⊢
    split at broken
    · rename_i dry
      rw [if_pos dry]
      rcases h : reader.refill with ⟨outcome, after⟩
      rw [h] at broken
      cases outcome with
      | done waiting => exact broken.elim
      | overrun => exact broken.elim
      | failed e =>
        obtain ⟨poisoned, kept⟩ := refill_failed_leaves fit h
        have empty := kept.trans ((ByteQueue.is_empty_to_list _).mp dry)
        exact ⟨poisoned, fun _ _ same => (by cases same), fun _ => empty⟩
    · exact broken.elim
  | consume count => exact broken.elim
  | visitBlocks visitor =>
    rcases h : reader.visitBlocks visitor with ⟨outcome, seen, after⟩
    simp only [perform, h] at broken ⊢
    cases outcome with
    | done => exact broken.elim
    | overrun => exact broken.elim
    | failed e =>
      cases e with
      | refused e => exact broken.elim
      | failed e =>
        obtain ⟨poisoned, empty⟩ := visit_failed_leaves fit h
        exact ⟨poisoned, fun _ _ same => (by cases same), fun _ => empty⟩
  | _ => exact direct.elim

/-- After a failure every call fails if nothing was waiting, and in no other case: a read that wants
no more than what is left, and a peek while anything is left, are still served. What is left was
stored at the failure, and it was waiting then unless the cursor has wrapped since. -/
theorem failed_silent_iff (source : Source) (codec : κ) (policy : ChecksumPolicy)
    (before : List ReaderOperation) {operation : ReaderOperation} (direct : operation.Direct) :
    let now := (ofSource source codec policy).performAll before
    let failed := (now.perform operation).2
    (now.perform operation).1.Broken →
      (failed.Silent ↔ ∀ size, operation = .read size → now.pending.toList = []) ∧
      ∀ between, let later := failed.performAll between
        later.pending.toList <:+ failed.pending.stored.toList ∧
        (failed.Exact between → later.pending.toList <:+ failed.pending.toList) ∧
        (∀ size, (later.perform (.read size)).1 =
          if later.pending.toList.length < size then .failed (.format .poisoned)
          else .bytes (later.pending.toList.take size)) ∧
        ((later.perform .peek).1 =
          if later.pending.toList = [] then .failed (.format .poisoned)
          else .bytes later.pending.toList) ∧
        ∀ visitor, (later.perform (.visitBlocks visitor)).1.Fails := by
  intro now failed broken
  have start : now.Fit ∧ now.pending.Tidy := tidy_kept.perform_all
    ⟨fit_of_source source codec policy, ByteQueue.tidy_empty⟩ before
  have tidy : failed.Fit ∧ failed.pending.Tidy := tidy_kept.perform start operation
  obtain ⟨poisoned, left⟩ := broken_leaves start.1 direct broken
  constructor
  · exact (silent_iff poisoned tidy.2).trans left
  · intro between later
    have remains : failed.Remains later := perform_all_remains poisoned between
    have start : failed.Dwindles failed := ⟨poisoned, List.suffix_refl _⟩
    exact ⟨(ByteQueue.to_list_suffix _).trans remains.stored,
      fun exact => ((dwindles_paced failed).perform_all start exact).waiting,
      read_poisoned remains.poisoned, peek_poisoned remains.poisoned,
      visit_poisoned remains.poisoned⟩

/-- One byte of two has been read when a cut frame is met. -/
def halfRead : Reader Codec.Scripted :=
  (ofSource (.ofEvents [.deliver (Codec.Scripted.sample ++ [0x00])] none) Codec.Scripted.honest
    .verify).performAll [.read 1]

theorem half_read_not_silent :
    (halfRead.perform (.read 2)).1 = .failed (.format .unexpectedEof) ∧
      ¬ (halfRead.perform (.read 2)).2.Silent := by
  have failed : (halfRead.perform (.read 2)).1 = .failed (.format .unexpectedEof) := by
    decide +kernel
  have direct : (ReaderOperation.read 2).Direct := trivial
  obtain ⟨silent, -⟩ := failed_silent_iff
    (.ofEvents [.deliver (Codec.Scripted.sample ++ [0x00])] none) Codec.Scripted.honest .verify
    [.read 1] direct (failed ▸ trivial)
  refine ⟨failed, fun h => ?_⟩
  have waiting : halfRead.pending.toList = [0x62] := by decide +kernel
  cases waiting.symm.trans (silent.mp h 2 rfl)

/-- The read that fails is followed by one that succeeds. -/
theorem half_read_served :
    let failed := halfRead.perform (.read 2)
    failed.1 = .failed (.format .unexpectedEof) ∧
      ¬ (failed.2.perform (.read 1)).1.Fails ∧ ¬ (failed.2.perform .peek).1.Fails := by
  intro failed
  have read : (failed.2.perform (.read 1)).1 = .bytes [0x62] := by decide +kernel
  have peek : (failed.2.perform .peek).1 = .bytes [0x62] := by decide +kernel
  rw [read, peek]
  exact ⟨by decide +kernel, nofun, nofun⟩

end Reader

end FramedSnappy
