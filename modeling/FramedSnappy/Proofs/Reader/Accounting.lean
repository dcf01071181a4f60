import FramedSnappy.Proofs.Codec.Scripted
import FramedSnappy.Proofs.Reader.Visit
import FramedSnappy.Reader.Operation

/-! Whatever is asked of a reader, the bytes it has handed over and those that wait are what its
frames carry, and unless it has failed it has taken these frames and nothing else from its
source. -/
namespace FramedSnappy

/-- The operations that read from the queue and refill it, one at a time. -/
def ReaderOperation.Direct : ReaderOperation → Prop
  | .read _ => True
  | .peek => True
  | .consume _ => True
  | .visitBlocks _ => True
  | _ => False

/-- How many bytes are passed over, whether so many wait or not. -/
def ReaderOperation.amount : ReaderOperation → Nat
  | .consume count => count
  | _ => 0

/-- What the caller has got from an operation before which `waiting` was in the queue. A block that
its visitor refused has not been handed over. -/
def ReaderReply.handed (waiting : Bytes) : ReaderOperation → ReaderReply → Bytes
  | .read _, .bytes data => data
  | .consume count, _ => waiting.take count
  | .visitBlocks _, .visited blocks none => blocks.toList.flatten
  | .visitBlocks _, .visited blocks (some (.failed _)) => blocks.toList.flatten
  | .visitBlocks _, .visited blocks (some (.refused _)) => blocks.toList.dropLast.flatten
  | _, _ => []

namespace Reader

open FramedSnappy.Frame (Parsed)

variable {κ : Type} [Codec κ]

/-- A reader that has accepted `frames` can go on, or the next frame was a bad one. -/
inductive Course (first : Reader κ) (frames : List Parsed) : Reader κ → Prop
  | going {now : Reader κ} : Reaches first frames now → Course first frames now
  | broken {middle after : Reader κ} {e : Error} (queue : ByteQueue) :
      Reaches first frames middle → middle.Breaks e after →
      Course first frames { after with pending := queue }

/-- What has been handed over and what waits is what was in the queue and in the frames, provided
that the way to here was `exact`. -/
structure Accounted (first : Reader κ) (exact : Prop) (frames : List Parsed) (got : Bytes)
    (now : Reader κ) : Prop where
  course : Course first frames now
  total : exact → got ++ now.pending.toList = first.pending.toList ++ Frame.payload frames

variable {reader first now after : Reader κ} {frames : List Parsed} {got : Bytes} {exact : Prop}

theorem Course.queue (h : Course first frames now) (queue : ByteQueue) :
    Course first frames { now with pending := queue } := by
  cases h with
  | going reaches => simpa using Course.going (reaches.trans (.here now queue))
  | broken _ reaches breaks =>
    have broken := Course.broken queue reaches breaks
    exact broken

theorem Course.fit (h : Course first frames now) (fit : first.Fit) : now.Fit := by
  cases h with
  | going reaches => exact reaches.fit fit
  | broken _ reaches breaks =>
    have kept := breaks.keeps.fit (reaches.fit fit)
    exact ⟨kept.body, kept.decoded⟩

theorem Course.later (h : Course first frames now) : Codec.Later first.codec now.codec := by
  cases h with
  | going reaches => exact reaches.keeps.codec
  | broken _ reaches breaks => exact reaches.keeps.codec.trans breaks.keeps.codec

theorem Course.prepend {more : List Parsed} (start : Reaches first frames reader)
    (h : Course reader more now) : Course first (frames ++ more) now := by
  cases h with
  | going reaches => exact .going (start.trans reaches)
  | broken queue reaches breaks => exact .broken queue (start.trans reaches) breaks

theorem Course.reached (h : Course first frames now) : ∃ middle, Reaches first frames middle := by
  cases h with
  | going reaches => exact ⟨_, reaches⟩
  | broken _ reaches _ => exact ⟨_, reaches⟩

theorem Course.breaks (h : Course first frames now) (fresh : first.poisoned = false)
    (poisoned : now.poisoned = true) :
    ∃ middle e last, Reaches first frames middle ∧ middle.Breaks e last := by
  cases h with
  | going reaches => exact absurd (poisoned.symm.trans (reaches.keeps.poisoned.trans fresh)) nofun
  | broken _ reaches breaks => exact ⟨_, _, _, reaches, breaks⟩

theorem Course.going_of_fresh (h : Course first frames now) (fresh : now.poisoned = false) :
    Reaches first frames now := by
  cases h with
  | going reaches => exact reaches
  | broken _ reaches breaks => exact absurd (breaks.poisoned.symm.trans fresh) nofun

theorem not_overruns (fit : reader.Fit) (inside : Codec.Inside reader.codec) :
    ¬ reader.Overruns after := by
  intro overruns
  obtain ⟨rest, judged⟩ := overruns.verdict
  exact Frame.judge_inside (decode_inside fit inside) judged

theorem refill_accounted (fit : reader.Fit) (fresh : reader.poisoned = false)
    (inside : Codec.Inside reader.codec) :
    ∃ frames, Accounted reader exact frames [] reader.refill.2 := by
  have decodes := refill_decodes fit fresh
  generalize reader.refill = result at decodes ⊢
  cases decodes with
  | filled reaches idle carries pending _ =>
    refine ⟨_, .going reaches, fun _ => ?_⟩
    simp [pending, payload_idle idle, Parsed.data, carries]
  | ended reaches idle halts kept =>
    refine ⟨_, .going (reaches.trans (.halt halts (.refl _))), fun _ => ?_⟩
    simp [kept, payload_idle idle]
  | broken reaches idle breaks kept =>
    refine ⟨_, .broken _ reaches breaks, fun _ => ?_⟩
    simp [kept, payload_idle idle]
  | overrun reaches idle overruns kept =>
    exact absurd overruns (not_overruns (reaches.fit fit) (inside.later reaches.keeps.codec))

theorem Accounted.serve (h : Accounted first exact frames got now) (size : Nat) :
    Accounted first exact frames (got ++ (now.serve size).1) (now.serve size).2 := by
  refine ⟨h.course.queue _, fun exact => ?_⟩
  rw [List.append_assoc, ← h.total exact]
  congr 1
  simp only [Reader.serve, ByteQueue.to_list_take, ByteQueue.to_list_take_rest]
  exact List.take_append_drop _ _

theorem Accounted.refl (reader : Reader κ) : Accounted reader exact [] [] reader :=
  ⟨.going (.refl reader), fun _ => by simp⟩

theorem read_accounted (fit : reader.Fit) (fresh : reader.poisoned = false)
    (inside : Codec.Inside reader.codec) (size : Nat) :
    ∃ frames, Accounted reader exact frames
      (ReaderReply.handed reader.pending.toList (.read size) (replyBytes (reader.read size).1))
      (reader.read size).2 := by
  unfold read
  split
  · obtain ⟨frames, accounted⟩ : ∃ frames, Accounted reader exact frames [] reader.refill.2 :=
      refill_accounted fit fresh inside
    generalize reader.refill = result at accounted ⊢
    obtain ⟨outcome, filled⟩ := result
    cases outcome with
    | done waiting =>
      have served := accounted.serve size
      exact ⟨frames, served⟩
    | failed e => exact ⟨frames, accounted⟩
    | overrun => exact ⟨frames, accounted⟩
  · have start : Accounted reader exact [] [] reader := .refl reader
    have served := start.serve size
    exact ⟨[], served⟩

theorem peek_accounted (fit : reader.Fit) (fresh : reader.poisoned = false)
    (inside : Codec.Inside reader.codec) :
    ∃ frames, Accounted reader exact frames [] reader.peek.2 := by
  unfold peek
  split
  · obtain ⟨frames, accounted⟩ : ∃ frames, Accounted reader exact frames [] reader.refill.2 :=
      refill_accounted fit fresh inside
    generalize reader.refill = result at accounted ⊢
    obtain ⟨outcome, filled⟩ := result
    cases outcome with
    | done waiting => exact ⟨frames, accounted⟩
    | failed e => exact ⟨frames, accounted⟩
    | overrun => exact ⟨frames, accounted⟩
  · exact ⟨[], .refl reader⟩

theorem consume_accounted (reader : Reader κ) (count : Nat) :
    Accounted reader (¬ reader.pending.Wraps count) [] (reader.pending.toList.take count)
      (reader.consume count) := by
  refine ⟨.going (.here reader _), fun exact => ?_⟩
  simp [consume, ByteQueue.to_list_consume exact]

theorem visit_accounted (fit : reader.Fit) (fresh : reader.poisoned = false)
    (inside : Codec.Inside reader.codec) (visitor : Visitor) :
    ∃ frames, Accounted reader exact frames
      (ReaderReply.handed reader.pending.toList (.visitBlocks visitor)
        (replyVisited (reader.visitBlocks visitor).2.1 (reader.visitBlocks visitor).1))
      (reader.visitBlocks visitor).2.2 := by
  have visits := @visit_blocks_visits _ _ visitor _ fit fresh
  generalize reader.visitBlocks visitor = visit at visits ⊢
  cases visits with
  | ended reaches halts empty seen =>
    refine ⟨_, .going (reaches.trans (.halt halts (.refl _))), fun _ => ?_⟩
    simp [replyVisited, ReaderReply.handed, empty, seen, flatten_held, Frame.flatten_blocks]
  | broken reaches breaks empty seen =>
    refine ⟨_, .broken _ reaches breaks, fun _ => ?_⟩
    simp [replyVisited, ReaderReply.handed, empty, seen, flatten_held, Frame.flatten_blocks]
  | refused reaches last seen _ =>
    refine ⟨_, .going reaches, fun _ => ?_⟩
    have total := congrArg List.flatten last
    simp only [List.flatten_append, flatten_held, Frame.flatten_blocks, List.flatten_cons,
      List.flatten_nil, List.append_nil] at total
    simp [replyVisited, ReaderReply.handed, seen, total]
  | overrun reaches overruns =>
    exact absurd overruns (not_overruns (reaches.fit fit) (inside.later reaches.keeps.codec))

def handed (reader : Reader κ) (operation : ReaderOperation) : Bytes :=
  (reader.perform operation).1.handed reader.pending.toList operation

def performAll (reader : Reader κ) (operations : List ReaderOperation) : Reader κ :=
  operations.foldl (fun now operation => (now.perform operation).2) reader

def handedAll : Reader κ → List ReaderOperation → Bytes
  | _, [] => []
  | reader, operation :: rest =>
    reader.handed operation ++ (reader.perform operation).2.handedAll rest

/-- No operation of a run makes the cursor of the queue wrap. -/
def Exact : Reader κ → List ReaderOperation → Prop
  | _, [] => True
  | reader, operation :: rest =>
    ¬ reader.pending.Wraps operation.amount ∧ (reader.perform operation).2.Exact rest

instance decidableExact : (reader : Reader κ) → (operations : List ReaderOperation) →
    Decidable (reader.Exact operations)
  | _, [] => isTrue trivial
  | reader, operation :: rest =>
    have := decidableExact (reader.perform operation).2 rest
    inferInstanceAs (Decidable (_ ∧ _))

theorem perform_accounted (fit : reader.Fit) (fresh : reader.poisoned = false)
    (inside : Codec.Inside reader.codec) {operation : ReaderOperation}
    (direct : operation.Direct) :
    ∃ frames, Accounted reader (¬ reader.pending.Wraps operation.amount) frames
      (reader.handed operation) (reader.perform operation).2 := by
  cases operation with
  | read size => exact read_accounted fit fresh inside size
  | peek => exact peek_accounted fit fresh inside
  | consume count => exact ⟨[], consume_accounted reader count⟩
  | visitBlocks visitor => exact visit_accounted fit fresh inside visitor
  | _ => exact direct.elim

/-- A reader that has failed only hands over what waits. -/
theorem perform_poisoned (poisoned : reader.poisoned = true) {operation : ReaderOperation}
    (direct : operation.Direct) :
    ∃ queue, (reader.perform operation).2 = { reader with pending := queue } ∧
      reader.pending.Passed queue ∧
      (¬ reader.pending.Wraps operation.amount →
        reader.handed operation ++ queue.toList = reader.pending.toList) := by
  unfold handed
  cases operation with
  | read size =>
    simp only [perform, read, refill_poisoned poisoned]
    split
    · exact ⟨_, rfl, .none, fun _ => rfl⟩
    · refine ⟨_, rfl, .over _, fun _ => ?_⟩
      simp only [replyBytes, ReaderReply.handed, serve, ByteQueue.to_list_take,
        ByteQueue.to_list_take_rest]
      exact List.take_append_drop _ _
  | peek =>
    simp only [perform, peek, refill_poisoned poisoned]
    split
    · exact ⟨_, rfl, .none, fun _ => rfl⟩
    · exact ⟨_, rfl, .none, fun _ => rfl⟩
  | consume count =>
    have exact (step : ¬ reader.pending.Wraps count) := ByteQueue.to_list_consume step
    refine ⟨_, rfl, .over count, fun step => ?_⟩
    rw [exact step]
    exact List.take_append_drop _ _
  | visitBlocks visitor =>
    obtain ⟨e, seen, queue, visited, passed, rest⟩ :=
      @visit_blocks_poisoned _ _ visitor _ poisoned
    simp only [perform, visited]
    refine ⟨queue, rfl, passed, fun _ => ?_⟩
    rcases rest with ⟨rfl, all, empty⟩ | ⟨why, rfl, last, same⟩
    · simp [replyVisited, ReaderReply.handed, all, empty, flatten_held]
    · simp [replyVisited, ReaderReply.handed, last, same]
  | _ => exact direct.elim

theorem Accounted.perform (h : Accounted first exact frames got now) (fit : first.Fit)
    (inside : Codec.Inside first.codec) {operation : ReaderOperation} (direct : operation.Direct) :
    ∃ more, Accounted first (exact ∧ ¬ now.pending.Wraps operation.amount) (frames ++ more)
      (got ++ now.handed operation) (now.perform operation).2 := by
  cases fresh : now.poisoned with
  | true =>
    obtain ⟨queue, performed, -, kept⟩ := perform_poisoned fresh direct
    rw [performed]
    refine ⟨[], by simpa using h.course.queue queue, fun ⟨exact, step⟩ => ?_⟩
    simp [kept step, h.total exact]
  | false =>
    obtain ⟨more, next⟩ :=
      perform_accounted (h.course.fit fit) fresh (inside.later h.course.later) direct
    refine ⟨more, .prepend (h.course.going_of_fresh fresh) next.course, fun ⟨exact, step⟩ => ?_⟩
    rw [List.append_assoc, next.total step, ← List.append_assoc, h.total exact,
      Frame.payload_append, List.append_assoc]

theorem Accounted.perform_all (h : Accounted first exact frames got now) (fit : first.Fit)
    (inside : Codec.Inside first.codec) {operations : List ReaderOperation}
    (direct : ∀ operation ∈ operations, operation.Direct) :
    ∃ more, Accounted first (exact ∧ now.Exact operations) (frames ++ more)
      (got ++ now.handedAll operations) (now.performAll operations) := by
  induction operations generalizing now got frames exact with
  | nil => exact ⟨[], by simpa [handedAll, Reader.performAll, Exact] using h⟩
  | cons operation rest ih =>
    obtain ⟨more, next⟩ := h.perform fit inside (direct operation List.mem_cons_self)
    obtain ⟨others, last⟩ := ih next fun other mem => direct other (List.mem_cons_of_mem _ mem)
    refine ⟨more ++ others, ?_⟩
    simpa [handedAll, Reader.performAll, Exact, and_assoc] using last

end Reader

end FramedSnappy
