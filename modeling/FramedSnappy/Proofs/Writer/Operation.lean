import FramedSnappy.Proofs.Writer.Whole

/-! What one operation adds to the frames in the sink, and what a run of them adds. -/
namespace FramedSnappy

namespace WriterOperation

/-- The operations that do not go past the writer. -/
def Plain : WriterOperation → Prop
  | write _ => True
  | writeFrames _ => True
  | writeAll _ _ => True
  | flush => True
  | raw _ => False
  | feed _ => False

/-- The operations that frame their data in one call. -/
def Call : WriterOperation → Prop
  | write _ => True
  | writeFrames _ => True
  | _ => False

def data : WriterOperation → Bytes
  | write data => data
  | writeFrames data => data
  | writeAll data _ => data
  | flush => []
  | raw _ => []
  | feed _ => []

def blocks (operation : WriterOperation) : List Bytes :=
  Bytes.pieces Frame.pieceSize Writer.piece_size_pos operation.data

def success : WriterOperation → WriterReply
  | write data => .accepted data.length
  | writeFrames data => .accepted data.length
  | _ => .silent

theorem flatten_blocks (operations : List WriterOperation) :
    (operations.flatMap (·.blocks)).flatten = operations.flatMap (·.data) := by
  induction operations with
  | nil => rfl
  | cons operation rest ih =>
    rw [List.flatMap_cons, List.flatten_append, ih, blocks, Bytes.flatten_pieces]
    rfl

end WriterOperation

namespace Writer

variable {κ : Type} [Codec κ] {form : Bytes → Bytes}

def performAll (writer : Writer κ) (operations : List WriterOperation) : Writer κ :=
  operations.foldl (fun now operation => (now.perform operation).2) writer

theorem run_cons (writer : Writer κ) (operation : WriterOperation) (rest : List WriterOperation) :
    writer.run (operation :: rest) = writer.perform operation ::
      if (writer.perform operation).1 = .overrun then []
      else (writer.perform operation).2.run rest := by
  rw [run]
  rcases writer.perform operation with ⟨reply, after⟩
  cases reply <;> rfl

theorem write_nothing (writer : Writer κ) : writer.write [] = (.done (), writer) := by
  simp [write, writeFrames, Bytes.pieces, sendBlocks, Outcome.mapError]

/-- Writing everything comes to a single write, or to a single write behind interrupted ones. -/
@[elab_as_elim] theorem write_all_elim {data : Bytes}
    {motive : Writer κ → Outcome StreamError Unit × Writer κ → Prop}
    (ended : ∀ writer, motive writer (writer.write data))
    (again : ∀ writer middle e result, writer.write data = (.failed e, middle) →
      e.interrupted = true → motive middle result → motive writer result)
    (patience : Nat) (writer : Writer κ) : motive writer (writer.writeAll patience data) := by
  fun_induction writeAll patience writer data with
  | case1 patience writer empty =>
    obtain rfl := List.isEmpty_iff.mp empty
    have nothing := ended writer
    rwa [write_nothing] at nothing
  | case2 writer some e after failed =>
    rw [← failed]
    exact ended writer
  | case3 writer some e middle failed patience interrupted ih =>
    exact again writer middle e _ failed interrupted ih
  | case4 writer some e after failed patience final =>
    rw [← failed]
    exact ended writer
  | case5 patience writer some other => exact ended writer

variable {writer : Writer κ}

theorem write_all_of_done {data : Bytes} {after : Writer κ} (patience : Nat)
    (done : writer.write data = (.done (), after)) :
    writer.writeAll patience data = (.done (), after) := by
  rw [writeAll, done]
  split
  · rename_i empty
    rw [List.isEmpty_iff.mp empty, write_nothing] at done
    exact done
  · rfl

theorem write_all_of_interrupted {data : Bytes} {after : Writer κ} {e : StreamError}
    (patience : Nat) (failed : writer.write data = (.failed e, after))
    (interrupted : e.interrupted = true) :
    writer.writeAll (patience + 1) data = after.writeAll patience data := by
  rw [writeAll, failed]
  split
  · rename_i empty
    rw [List.isEmpty_iff.mp empty, write_nothing] at failed
    cases failed
  · exact if_pos interrupted

/-- What becomes of one call. Only a call that has delivered everything replies with a success. -/
inductive Performs (form : Bytes → Bytes) (writer : Writer κ) (operation : WriterOperation) :
    WriterReply × Writer κ → Prop
  | all {after : Writer κ} : after.Fit → Codec.Later writer.codec after.codec →
      (after.identified = true ↔ writer.identified = true ∨ operation.blocks ≠ []) →
      writer.Delivers (writer.stream form operation.blocks) after →
      Performs form writer operation (operation.success, after)
  | torn {reply : WriterReply} {after : Writer κ} : reply ≠ operation.success → after.Fit →
      Codec.Later writer.codec after.codec →
      writer.Tears (writer.stream form operation.blocks) after →
      Performs form writer operation (reply, after)

theorem perform_call (fit : writer.Fit) (promise : Codec.Packs writer.codec form)
    {operation : WriterOperation} (call : operation.Call) :
    Performs form writer operation (writer.perform operation) := by
  cases operation with
  | write data =>
    have sends := write_frames_sends fit promise data
    simp only [perform, write]
    generalize writer.writeFrames data = result at sends ⊢
    cases sends with
    | all fit later known delivers => exact .all fit later known delivers
    | torn fit later tears => exact .torn nofun fit later tears
  | writeFrames data =>
    have sends := write_frames_sends fit promise data
    simp only [perform]
    generalize writer.writeFrames data = result at sends ⊢
    cases sends with
    | all fit later known delivers => exact .all fit later known delivers
    | torn fit later tears => exact .torn nofun fit later tears
  | _ => exact call.elim

theorem Performs.keeps {operation : WriterOperation} {result : WriterReply × Writer κ}
    (h : Performs form writer operation result) :
    result.2.Fit ∧ Codec.Later writer.codec result.2.codec := by
  cases h with
  | all fit later known delivers => exact ⟨fit, later⟩
  | torn failed fit later tears => exact ⟨fit, later⟩

/-- What one call has sent, if only a front of it, and when the identifier is known to be part of
it. -/
theorem Performs.sent {operation : WriterOperation} {result : WriterReply × Writer κ}
    (h : Performs form writer operation result) :
    ∃ taken left, writer.stream form operation.blocks = taken ++ left ∧
      result.2.sink.received.toList = writer.sink.received.toList ++ taken ∧
      (result.2.identified = true ↔
        writer.identified = true ∨ Frame.streamIdentifier <+: taken) := by
  cases h with
  | all _ _ known delivers =>
    refine ⟨_, [], (List.append_nil _).symm, delivers.received, ?_⟩
    cases early : writer.identified with
    | true => simp [known, early]
    | false =>
      by_cases none : operation.blocks = []
      · simp [known, early, none, stream_nil, Frame.streamIdentifier]
      · simp [known, none, stream_some none, due_new early]
  | torn _ _ _ tears =>
    obtain ⟨taken, left, split, -, received, known⟩ := tears.received
    refine ⟨taken, left, split, received, ?_⟩
    cases early : writer.identified with
    | true => simp [known, due_known early]
    | false => simp [known, due_new early]

theorem perform_nothing (writer : Writer κ) :
    writer.perform (.write []) = (.accepted 0, writer) := by
  simp [perform, write_nothing]

theorem perform_all_preserves {holds : Writer κ → Prop}
    (step : ∀ now : Writer κ, now.Fit → Codec.Packs now.codec form → holds now →
      ∀ operation : WriterOperation, operation.Call → holds (now.perform operation).2)
    (fit : writer.Fit) (promise : Codec.Packs writer.codec form) (start : holds writer)
    {history : List WriterOperation} (calls : ∀ operation ∈ history, operation.Call) :
    (writer.performAll history).Fit ∧ Codec.Packs (writer.performAll history).codec form ∧
      holds (writer.performAll history) := by
  induction history generalizing writer with
  | nil => exact ⟨fit, promise, start⟩
  | cons operation rest ih =>
    have call := calls operation List.mem_cons_self
    obtain ⟨kept, later⟩ := (perform_call fit promise call).keeps
    exact ih kept (promise.later later) (step writer fit promise start operation call)
      fun other mem => calls other (List.mem_cons_of_mem _ mem)

theorem write_frames_willing (fit : writer.Fit) (promise : Codec.Packs writer.codec form)
    (willing : writer.sink.Willing) (data : Bytes) :
    ∃ after, writer.writeFrames data = (.done (), after) ∧ after.Fit ∧
      Codec.Later writer.codec after.codec ∧ after.sink.Willing ∧
      ∀ blocks, writer.Whole form blocks →
        after.Whole form (blocks ++ Bytes.pieces Frame.pieceSize piece_size_pos data) := by
  have sends := write_frames_sends fit promise data
  generalize writer.writeFrames data = result at sends ⊢
  cases sends with
  | all fit later known delivers =>
    exact ⟨_, rfl, fit, later, delivers.willing willing, fun blocks whole =>
      whole.delivers (fun _ => Bytes.mem_pieces) known delivers⟩
  | torn fit later tears => exact absurd willing tears.unwilling

theorem perform_willing (fit : writer.Fit) (promise : Codec.Packs writer.codec form)
    (willing : writer.sink.Willing) {operation : WriterOperation} (plain : operation.Plain) :
    ∃ after, writer.perform operation = (operation.success, after) ∧ after.Fit ∧
      Codec.Later writer.codec after.codec ∧ after.sink.Willing ∧
      ∀ blocks, writer.Whole form blocks → after.Whole form (blocks ++ operation.blocks) := by
  cases operation with
  | write data =>
    obtain ⟨after, wrote, rest⟩ := write_frames_willing fit promise willing data
    exact ⟨after, by simp [perform, write, wrote, Outcome.mapError, WriterOperation.success], rest⟩
  | writeFrames data =>
    obtain ⟨after, wrote, rest⟩ := write_frames_willing fit promise willing data
    exact ⟨after, by simp [perform, wrote, WriterOperation.success], rest⟩
  | writeAll data patience =>
    obtain ⟨after, wrote, rest⟩ := write_frames_willing fit promise willing data
    have done : writer.write data = (.done (), after) := by
      rw [write, wrote]
      rfl
    exact ⟨after, by rw [perform, write_all_of_done patience done]; rfl, rest⟩
  | flush =>
    obtain ⟨flushed, able, received⟩ := Sink.flush_willing willing
    rcases h : writer.sink.flush with ⟨result, sink⟩
    rw [h] at flushed able received
    obtain rfl : result = .ok () := flushed
    refine ⟨{ writer with sink }, ?_, fit, .now, able, fun blocks whole => ?_⟩
    · simp [perform, flush, h, WriterOperation.success]
    · have nothing : WriterOperation.flush.blocks = [] := by
        simp [WriterOperation.blocks, WriterOperation.data, Bytes.pieces]
      rw [nothing, List.append_nil]
      exact ⟨whole.pieces, whole.opened, (congrArg _ received).trans whole.received⟩
  | raw data => exact plain.elim
  | feed events => exact plain.elim

theorem perform_all_willing (fit : writer.Fit) (promise : Codec.Packs writer.codec form)
    (willing : writer.sink.Willing) {operations : List WriterOperation}
    (plain : ∀ operation ∈ operations, operation.Plain) {blocks : List Bytes}
    (whole : writer.Whole form blocks) :
    (writer.run operations).map (·.1) = operations.map (·.success) ∧
      (writer.performAll operations).Whole form (blocks ++ operations.flatMap (·.blocks)) := by
  induction operations generalizing writer blocks with
  | nil => exact ⟨rfl, by simpa [performAll] using whole⟩
  | cons operation rest ih =>
    obtain ⟨after, performed, fit, later, able, added⟩ :=
      perform_willing fit promise willing (plain operation List.mem_cons_self)
    obtain ⟨replies, last⟩ := ih fit (promise.later later) able
      (fun other mem => plain other (List.mem_cons_of_mem _ mem)) (added blocks whole)
    constructor
    · rw [List.map_cons, ← replies, run, performed]
      cases operation <;> rfl
    · simpa [performAll, performed] using last

end Writer

end FramedSnappy
