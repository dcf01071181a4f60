import FramedSnappy.Proofs.ByteQueue

/-! The queue against the plain list of the bytes that wait in it. Whatever is done to a new queue
without making its cursor wrap, every answer is the answer of the list, and in any case the bytes
that were handed over do not outlive those that wait. -/
namespace FramedSnappy

inductive QueueOperation where
  | append (bytes : Bytes)
  | take (count : Nat)
  | consume (count : Nat)
  | clear
  | length
  | isEmpty
  /-- Shows all bytes that wait. -/
  | toList

inductive QueueReply where
  | silent
  | bytes (data : Bytes)
  | number (value : Nat)
  | flag (value : Bool)
  deriving DecidableEq

namespace QueueOperation

/-- The operation on a list of bytes: its answer, and the bytes that wait after it. -/
def onList (waiting : Bytes) : QueueOperation → QueueReply × Bytes
  | append bytes => (.silent, waiting ++ bytes)
  | take count =>
    let served := min count waiting.length
    (.bytes (waiting.take served), waiting.drop served)
  | consume count => (.silent, waiting.drop (min count waiting.length))
  | clear => (.silent, [])
  | length => (.number waiting.length, waiting)
  | isEmpty => (.flag waiting.isEmpty, waiting)
  | toList => (.bytes waiting, waiting)

def onQueue (queue : ByteQueue) : QueueOperation → QueueReply × ByteQueue
  | append bytes => (.silent, queue.append bytes)
  | take count =>
    let served := queue.take count
    (.bytes served.1, served.2)
  | consume count => (.silent, queue.consume count)
  | clear => (.silent, .empty)
  | length => (.number queue.length, queue)
  | isEmpty => (.flag queue.isEmpty, queue)
  | toList => (.bytes queue.toList, queue)

/-- The answers to a sequence of operations, and the state after them. -/
def runWith {σ : Type} (step : σ → QueueOperation → QueueReply × σ) :
    σ → List QueueOperation → List QueueReply × σ
  | state, [] => ([], state)
  | state, operation :: rest =>
    let first := step state operation
    let later := runWith step first.2 rest
    (first.1 :: later.1, later.2)

/-- How many bytes are passed over, whether so many wait or not. -/
def amount : QueueOperation → Nat
  | consume count => count
  | _ => 0

/-- No operation of a run makes the cursor wrap. -/
def Exact : ByteQueue → List QueueOperation → Prop
  | _, [] => True
  | queue, operation :: rest =>
    ¬ queue.Wraps operation.amount ∧ Exact (onQueue queue operation).2 rest

instance decidableExact : (queue : ByteQueue) → (operations : List QueueOperation) →
    Decidable (Exact queue operations)
  | _, [] => isTrue trivial
  | queue, operation :: rest =>
    have := decidableExact (onQueue queue operation).2 rest
    inferInstanceAs (Decidable (_ ∧ _))

end QueueOperation

namespace ByteQueue

open QueueOperation (Exact onList onQueue runWith)

variable {queue : ByteQueue}

theorem is_empty_eq (queue : ByteQueue) : queue.isEmpty = queue.toList.isEmpty := by
  rw [Bool.eq_iff_iff, is_empty_to_list, List.isEmpty_iff]

theorem tidy_on_queue (tidy : queue.Tidy) (operation : QueueOperation) :
    (onQueue queue operation).2.Tidy := by
  cases operation with
  | append bytes => exact tidy_append queue bytes
  | take count => exact tidy_consume queue _
  | consume count => exact tidy_consume queue count
  | clear => exact tidy_empty
  | length => exact tidy
  | isEmpty => exact tidy
  | toList => exact tidy

theorem tidy_run (tidy : queue.Tidy) (operations : List QueueOperation) :
    (runWith onQueue queue operations).2.Tidy := by
  induction operations generalizing queue with
  | nil => exact tidy
  | cons operation rest ih => exact ih (tidy_on_queue tidy operation)

/-- One operation: the list gives the same answer and keeps what the queue keeps. -/
theorem on_queue_simulates {operation : QueueOperation} (exact : ¬ queue.Wraps operation.amount) :
    (onQueue queue operation).1 = (onList queue.toList operation).1 ∧
      (onQueue queue operation).2.toList = (onList queue.toList operation).2 := by
  cases operation with
  | append bytes => exact ⟨rfl, to_list_append queue bytes⟩
  | take count =>
    constructor
    · simp only [onQueue, onList, to_list_take, ← List.take_eq_take_min]
    · simp only [onQueue, onList, to_list_take_rest, ← List.drop_eq_drop_min]
  | consume count =>
    have exact : ¬ queue.Wraps count := exact
    refine ⟨rfl, ?_⟩
    simp only [onQueue, onList, to_list_consume exact, ← List.drop_eq_drop_min]
  | clear => exact ⟨rfl, rfl⟩
  | length => exact ⟨congrArg QueueReply.number (length_to_list queue).symm, rfl⟩
  | isEmpty => exact ⟨congrArg QueueReply.flag (is_empty_eq queue), rfl⟩
  | toList => exact ⟨rfl, rfl⟩

theorem run_simulates {operations : List QueueOperation} (exact : Exact queue operations) :
    (runWith onQueue queue operations).1 = (runWith onList queue.toList operations).1 ∧
      (runWith onQueue queue operations).2.toList = (runWith onList queue.toList operations).2 := by
  induction operations generalizing queue with
  | nil => exact ⟨rfl, rfl⟩
  | cons operation rest ih =>
    obtain ⟨answer, kept⟩ := on_queue_simulates exact.1
    obtain ⟨answers, last⟩ := ih exact.2
    rw [kept] at answers last
    exact ⟨by simp only [runWith, answer, answers], last⟩

/-- As long as its cursor does not wrap, a queue cannot be told from the list of its bytes. In every
state that a new queue comes to, the cursor stands on a byte or nothing is stored, so that the length
is no cut-off difference and a queue that has run dry is a new one. -/
theorem behaves_as_list (operations : List QueueOperation) :
    let queue := runWith onQueue .empty operations
    let list := runWith onList [] operations
    (Exact .empty operations → queue.1 = list.1 ∧ queue.2.toList = list.2) ∧
      (queue.2.cursor < queue.2.stored.size ∨ queue.2.cursor = 0 ∧ queue.2.stored.size = 0) ∧
      queue.2.length + queue.2.cursor = queue.2.stored.size ∧
      (queue.2.isEmpty = true ↔ queue.2.length = 0) ∧
      (queue.2.length = 0 → queue.2 = .empty) := by
  intro queue list
  have tidy : queue.2.Tidy := tidy_run tidy_empty operations
  exact ⟨run_simulates, tidy, tidy.length_add_cursor, is_empty_iff _, tidy.eq_empty⟩

/-- Bytes that come in behind a front that was handed over, and more asked for than there is. -/
theorem clamped_as_list :
    let operations : List QueueOperation :=
      [.append [1, 2, 3], .take 2, .append [4], .toList, .consume 9, .isEmpty]
    Exact .empty operations ∧ (runWith onQueue .empty operations).1 =
      [.silent, .bytes [1, 2], .silent, .bytes [3, 4], .silent, .flag true] := by
  intro operations
  have exact : Exact .empty operations := by decide +kernel
  obtain ⟨answers, -⟩ := (behaves_as_list operations).1 exact
  exact ⟨exact, answers.trans (by decide +kernel)⟩

end ByteQueue

end FramedSnappy
