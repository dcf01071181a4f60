import FramedSnappy.Proofs.Guarded.Frame
import FramedSnappy.Proofs.Reader.Equations
import FramedSnappy.Proofs.Reader.Operation

/-! Whole runs of a reader that looks at the range of every access first. No operation brings its
queue out of range, so that it does what every reader does. -/
namespace FramedSnappy

namespace Guarded

open Reader (Visitor Collected replyBytes replyCollected replyLine replyVisited)

variable {κ : Type}

/-- Hands bytes over in a buffer of `size` bytes. -/
def serve (reader : Reader κ) (size : Nat) : Outcome StreamError Bytes × Reader κ :=
  match take reader.pending (List.replicate size 0) with
  | none => (.overrun, reader)
  | some (bytes, pending) => (.done bytes, { reader with pending })

/-- Lends all that waits. -/
def lend (reader : Reader κ) : Outcome StreamError Bytes × Reader κ :=
  match readable reader.pending with
  | none => (.overrun, reader)
  | some bytes => (.done bytes, reader)

/-- What a call for bytes comes to once the queue has been refilled. -/
def filled (refilled : Outcome Error Bool × Reader κ)
    (give : Reader κ → Outcome StreamError Bytes × Reader κ) :
    Outcome StreamError Bytes × Reader κ :=
  match refilled with
  | (.failed e, after) => (.failed e.toStreamError, after)
  | (.overrun, after) => (.overrun, after)
  | (.done _, after) => give after

theorem serve_agrees (reader : Reader κ) (size : Nat) :
    Agrees reader (serve reader size)
      (.done (reader.serve size).1, (reader.serve size).2) := by
  constructor
  · by_cases sound : reader.pending.Sound
    · rw [serve, take_sound sound, List.length_replicate]
      exact .inl rfl
    · rw [serve, take, waiting_unsound sound]
      exact .inr ⟨rfl, sound⟩
  · exact fun _ => ByteQueue.sound_consume _ _

theorem lend_agrees (reader : Reader κ) :
    Agrees reader (lend reader) (.done reader.pending.toList, reader) := by
  constructor
  · by_cases sound : reader.pending.Sound
    · rw [lend, readable_sound sound]
      exact .inl rfl
    · rw [lend, readable_unsound sound]
      exact .inr ⟨rfl, sound⟩
  · exact id

theorem Agrees.filled {reader : Reader κ} {guarded plain : Outcome Error Bool × Reader κ}
    {give next : Reader κ → Outcome StreamError Bytes × Reader κ}
    (h : Agrees reader guarded plain) (agrees : ∀ after, Agrees after (give after) (next after)) :
    Agrees reader (filled guarded give) (filled plain next) := by
  obtain ⟨rfl | ⟨past, unsound⟩, sound⟩ := h
  · rcases guarded with ⟨_ | _ | _, after⟩
    · exact (agrees after).of_pending sound
    · exact agrees_refl sound
    · exact agrees_refl sound
  · rcases guarded with ⟨_ | _ | _, after⟩ <;> cases past
    exact agrees_unsound unsound rfl

variable [Codec κ]

def decodeUntilPending (reader : Reader κ) : Outcome Error Bool × Reader κ :=
  match h : advance reader with
  | (.failed e, after) => (.failed e, { after with poisoned := true })
  | (.overrun, after) => (.overrun, after)
  | (.done .ended, after) => (.done false, after)
  | (.done .passed, after) =>
    have : after.source.weight < reader.source.weight :=
      Reader.advance_shrinks ((advance_agrees reader).going h nofun).1 nofun
    decodeUntilPending after
  | (.done .block, after) =>
    have : after.source.weight < reader.source.weight :=
      Reader.advance_shrinks ((advance_agrees reader).going h nofun).1 nofun
    if after.pending.isEmpty then decodeUntilPending after else (.done true, after)
termination_by reader.source.weight

def refill (reader : Reader κ) : Outcome Error Bool × Reader κ :=
  if reader.poisoned then (.failed .poisoned, reader) else decodeUntilPending reader

/-- The number of bytes that wait is a difference. -/
def read (reader : Reader κ) (size : Nat) : Outcome StreamError Bytes × Reader κ :=
  match waiting reader.pending with
  | none => (.overrun, reader)
  | some waits =>
    if waits < size then filled (refill reader) (serve · size) else serve reader size

def peek (reader : Reader κ) : Outcome StreamError Bytes × Reader κ :=
  if reader.pending.isEmpty then filled (refill reader) lend else lend reader

theorem decode_until_pending_agrees (reader : Reader κ) :
    Agrees reader (decodeUntilPending reader) reader.decodeUntilPending := by
  fun_induction decodeUntilPending reader with
  | case1 reader e after h =>
    obtain ⟨plain, sound⟩ := (advance_agrees reader).going h nofun
    rw [Reader.decode_until_pending_eq, plain]
    exact agrees_refl sound
  | case2 reader after h =>
    obtain ⟨same | ⟨-, unsound⟩, sound⟩ := advance_agrees reader
    · rw [Reader.decode_until_pending_eq]
      rw [← same, h] at sound ⊢
      exact agrees_refl sound
    · exact agrees_unsound unsound rfl
  | case3 reader after h =>
    obtain ⟨plain, sound⟩ := (advance_agrees reader).going h nofun
    rw [Reader.decode_until_pending_eq, plain]
    exact agrees_refl sound
  | case4 reader after h _ ih =>
    obtain ⟨plain, sound⟩ := (advance_agrees reader).going h nofun
    rw [Reader.decode_until_pending_eq, plain]
    exact ih.of_pending sound
  | case5 reader after h _ empty ih =>
    obtain ⟨plain, sound⟩ := (advance_agrees reader).going h nofun
    rw [Reader.decode_until_pending_eq, plain]
    simp only [empty]
    exact ih.of_pending sound
  | case6 reader after h _ filled =>
    obtain ⟨plain, sound⟩ := (advance_agrees reader).going h nofun
    rw [Reader.decode_until_pending_eq, plain]
    simp only [filled]
    exact agrees_refl sound

theorem refill_agrees (reader : Reader κ) : Agrees reader (refill reader) reader.refill := by
  unfold refill Reader.refill
  split
  · exact agrees_refl id
  · exact decode_until_pending_agrees reader

theorem read_agrees (reader : Reader κ) (size : Nat) :
    Agrees reader (read reader size) (reader.read size) := by
  unfold read Reader.read
  by_cases sound : reader.pending.Sound
  · rw [waiting_sound sound]
    dsimp only
    split
    · exact (refill_agrees reader).filled fun after => serve_agrees after size
    · exact serve_agrees reader size
  · rw [waiting_unsound sound]
    exact agrees_unsound sound rfl

theorem peek_agrees (reader : Reader κ) : Agrees reader (peek reader) reader.peek := by
  unfold peek Reader.peek
  split
  · exact (refill_agrees reader).filled lend_agrees
  · exact lend_agrees reader

def gather (reader : Reader κ) (wanted : Nat) (got : Array UInt8) :
    Outcome StreamError Bytes × Reader κ :=
  if wanted = 0 then (.done got.toList, reader)
  else match h : read reader wanted with
    | (.failed e, after) =>
      if again : e.interrupted then
        have : after.spare < reader.spare :=
          Reader.read_failed ((read_agrees reader wanted).going h nofun).1 again
        gather after wanted got
      else (.failed e, after)
    | (.overrun, after) => (.overrun, after)
    | (.done [], after) => (.failed (.fault .shortRead), after)
    | (.done (first :: more), after) =>
      gather after (wanted - (more.length + 1)) (got ++ first :: more)
termination_by (wanted, reader.spare)

def collectUntil (reader : Reader κ) (delimiter : UInt8) (got : Array UInt8) :
    Outcome StreamError Unit × Array UInt8 × Reader κ :=
  match h : peek reader with
  | (.failed e, after) =>
    if again : e.interrupted then
      have := Reader.peek_failed ((peek_agrees reader).going h nofun).1 again
      collectUntil after delimiter got
    else (.failed e, got, after)
  | (.overrun, after) => (.overrun, got, after)
  | (.done [], after) => (.done (), got, after)
  | (.done (first :: more), after) =>
    let line := Bytes.upTo delimiter (first :: more)
    have := Reader.peek_consume_lighter ((peek_agrees reader).going h nofun).1
      (Bytes.up_to_nonempty delimiter first more) (Bytes.up_to_within delimiter (first :: more))
    let after := after.consume line.1.length
    let got := got ++ line.1
    if line.2 then (.done (), got, after) else collectUntil after delimiter got
termination_by (reader.source.weight, reader.spare, reader.pending.length)
decreasing_by all_goals exact this

def collectAll (reader : Reader κ) (sizes : Nat → Nat) (got : Array UInt8) (calls : Nat) :
    Collected κ :=
  match h : read reader (sizes calls) with
  | (.failed e, after) => ⟨.failed e, got, calls + 1, after⟩
  | (.overrun, after) => ⟨.overrun, got, calls + 1, after⟩
  | (.done [], after) => ⟨.done (), got, calls + 1, after⟩
  | (.done (first :: more), after) =>
    have := Reader.read_shorter ((read_agrees reader (sizes calls)).going h nofun).1
    collectAll after sizes (got ++ first :: more) (calls + 1)
termination_by (reader.source.weight, reader.pending.length)
decreasing_by exact this

def visitRest (reader : Reader κ) (visitor : Visitor) (seen : Array Bytes) :
    Outcome VisitError Unit × Array Bytes × Reader κ :=
  match h : refill reader with
  | (.failed e, after) => (.failed (.failed e), seen, after)
  | (.overrun, after) => (.overrun, seen, after)
  | (.done false, after) => (.done (), seen, after)
  | (.done true, after) =>
    have : after.source.weight < reader.source.weight :=
      Reader.refill_true ((refill_agrees reader).going h nofun).1
    match readable after.pending with
    | none => (.overrun, seen, after)
    | some block =>
      let seen := seen.push block
      match visitor seen with
      | some e => (.failed (.refused e), seen, after)
      | none => visitRest { after with pending := .empty } visitor seen
termination_by reader.source.weight

def visitBlocks (reader : Reader κ) (visitor : Visitor) :
    Outcome VisitError Unit × Array Bytes × Reader κ :=
  if reader.pending.isEmpty then visitRest reader visitor #[]
  else match readable reader.pending with
    | none => (.overrun, #[], reader)
    | some block =>
      let seen := #[block]
      match visitor seen with
      | some e => (.failed (.refused e), seen, reader)
      | none => visitRest { reader with pending := .empty } visitor seen

variable {reader : Reader κ}

theorem gather_sound (sound : reader.pending.Sound) (wanted : Nat) (got : Array UInt8) :
    gather reader wanted got = reader.gather wanted got := by
  fun_induction gather reader wanted got with
  | case1 reader got => rw [Reader.gather_eq, if_pos rfl]
  | case2 reader wanted got some e after h again _ ih =>
    obtain ⟨plain, keeps⟩ := (read_agrees reader wanted).going h nofun
    rw [Reader.gather_eq, if_neg some, plain, ih (keeps sound)]
    exact (if_pos again).symm
  | case3 reader wanted got some e after h final =>
    rw [Reader.gather_eq, if_neg some, ← (read_agrees reader wanted).of_sound sound, h]
    exact (if_neg final).symm
  | case4 reader wanted got some after h =>
    rw [Reader.gather_eq, if_neg some, ← (read_agrees reader wanted).of_sound sound, h]
  | case5 reader wanted got some after h =>
    rw [Reader.gather_eq, if_neg some, ← (read_agrees reader wanted).of_sound sound, h]
  | case6 reader wanted got some first more after h ih =>
    obtain ⟨plain, keeps⟩ := (read_agrees reader wanted).going h nofun
    rw [Reader.gather_eq, if_neg some, plain, ih (keeps sound)]

theorem collect_until_sound (sound : reader.pending.Sound) (delimiter : UInt8)
    (got : Array UInt8) :
    collectUntil reader delimiter got = reader.collectUntil delimiter got := by
  fun_induction collectUntil reader delimiter got with
  | case1 reader got e after h again _ ih =>
    obtain ⟨plain, keeps⟩ := (peek_agrees reader).going h nofun
    rw [Reader.collect_until_eq, plain, ih (keeps sound)]
    exact (if_pos again).symm
  | case2 reader got e after h final =>
    rw [Reader.collect_until_eq, ← (peek_agrees reader).of_sound sound, h]
    exact (if_neg final).symm
  | case3 reader got after h =>
    rw [Reader.collect_until_eq, ← (peek_agrees reader).of_sound sound, h]
  | case4 reader got after h =>
    rw [Reader.collect_until_eq, ← (peek_agrees reader).of_sound sound, h]
  | case5 reader got first more after h line _ last all found =>
    rw [Reader.collect_until_eq, ← (peek_agrees reader).of_sound sound, h]
    exact (if_pos found).symm
  | case6 reader got first more after h line _ last all missing ih =>
    rw [Reader.collect_until_eq, ← (peek_agrees reader).of_sound sound, h,
      ih (ByteQueue.sound_consume _ _)]
    exact (if_neg missing).symm

theorem collect_all_sound (sound : reader.pending.Sound) (sizes : Nat → Nat)
    (got : Array UInt8) (calls : Nat) :
    collectAll reader sizes got calls = reader.collectAll sizes got calls := by
  fun_induction collectAll reader sizes got calls with
  | case1 reader got calls e after h =>
    rw [Reader.collect_all_eq, ← (read_agrees reader (sizes calls)).of_sound sound, h]
  | case2 reader got calls after h =>
    rw [Reader.collect_all_eq, ← (read_agrees reader (sizes calls)).of_sound sound, h]
  | case3 reader got calls after h =>
    rw [Reader.collect_all_eq, ← (read_agrees reader (sizes calls)).of_sound sound, h]
  | case4 reader got calls first more after h _ ih =>
    obtain ⟨plain, keeps⟩ := (read_agrees reader (sizes calls)).going h nofun
    rw [Reader.collect_all_eq, plain, ih (keeps sound)]

theorem visit_rest_sound (sound : reader.pending.Sound) (visitor : Visitor) (seen : Array Bytes) :
    visitRest reader visitor seen = reader.visitRest visitor seen := by
  fun_induction visitRest reader visitor seen with
  | case1 reader seen e after h =>
    rw [Reader.visit_rest_eq, ← (refill_agrees reader).of_sound sound, h]
  | case2 reader seen after h =>
    rw [Reader.visit_rest_eq, ← (refill_agrees reader).of_sound sound, h]
  | case3 reader seen after h =>
    rw [Reader.visit_rest_eq, ← (refill_agrees reader).of_sound sound, h]
  | case4 reader seen after h _ outside =>
    obtain ⟨-, keeps⟩ := (refill_agrees reader).going h nofun
    cases (readable_sound (keeps sound)).symm.trans outside
  | case5 reader seen after h _ block lent shown e told =>
    obtain ⟨plain, keeps⟩ := (refill_agrees reader).going h nofun
    cases (readable_sound (keeps sound)).symm.trans lent
    rw [Reader.visit_rest_eq, plain]
    simp only [shown, told]
  | case6 reader seen after h _ block lent shown told ih =>
    obtain ⟨plain, keeps⟩ := (refill_agrees reader).going h nofun
    cases (readable_sound (keeps sound)).symm.trans lent
    rw [Reader.visit_rest_eq, plain, ih ByteQueue.sound_empty]
    simp only [shown, told]

theorem visit_blocks_sound (sound : reader.pending.Sound) (visitor : Visitor) :
    visitBlocks reader visitor = reader.visitBlocks visitor := by
  unfold visitBlocks Reader.visitBlocks
  rw [readable_sound sound, visit_rest_sound sound]
  dsimp only
  rewrite [visit_rest_sound ByteQueue.sound_empty]
  rfl

def perform (reader : Reader κ) : ReaderOperation → ReaderReply × Reader κ
  | .read size =>
    match read reader size with
    | (result, reader) => (replyBytes result, reader)
  | .readExact count =>
    match gather reader count #[] with
    | (result, reader) => (replyBytes result, reader)
  | .readAll size =>
    let all := collectAll reader (fun _ => size) #[] 0
    (replyCollected all.bytes all.calls all.ending, all.reader)
  | .peek =>
    match peek reader with
    | (result, reader) => (replyBytes result, reader)
  | .consume count => (.silent, reader.consume count)
  | .readUntil delimiter =>
    match collectUntil reader delimiter #[] with
    | (result, bytes, reader) => (replyLine bytes result, reader)
  | .visitBlocks visitor =>
    match visitBlocks reader visitor with
    | (result, blocks, reader) => (replyVisited blocks result, reader)
  | .feed events => (.silent, reader.feed events)
  | .rawRead size =>
    match reader.rawRead size with
    | (.ok data, reader) => (.bytes data, reader)
    | (.error fault, reader) => (.failed (.fault fault), reader)

def run (reader : Reader κ) : List ReaderOperation → List (ReaderReply × Reader κ)
  | [] => []
  | operation :: rest =>
    match perform reader operation with
    | (.overrun, reader) => [(.overrun, reader)]
    | (reply, reader) => (reply, reader) :: run reader rest

theorem perform_sound (sound : reader.pending.Sound) (operation : ReaderOperation) :
    perform reader operation = reader.perform operation := by
  cases operation with
  | read size => rw [perform, (read_agrees reader size).of_sound sound, Reader.perform]
  | readExact count => rw [perform, gather_sound sound, Reader.perform, Reader.readExact]
  | readAll size => rw [perform, collect_all_sound sound, Reader.perform, Reader.readAll, Reader.drain]
  | peek => rw [perform, (peek_agrees reader).of_sound sound, Reader.perform]
  | consume count => rfl
  | readUntil delimiter =>
    rw [perform, collect_until_sound sound, Reader.perform, Reader.readUntil]
  | visitBlocks visitor => rw [perform, visit_blocks_sound sound, Reader.perform]
  | feed events => rfl
  | rawRead size => rfl

theorem sound_kept : Reader.Kept fun reader : Reader κ => reader.pending.Sound where
  refill reader sound := (refill_agrees reader).sound sound
  consume _ _ _ := ByteQueue.sound_consume _ _
  source _ _ sound := sound

theorem run_sound (sound : reader.pending.Sound) (operations : List ReaderOperation) :
    run reader operations = reader.run operations := by
  induction operations generalizing reader with
  | nil => rfl
  | cons operation rest ih =>
    have next := ih (sound_kept.perform sound operation)
    rw [run, perform_sound sound, Reader.run]
    generalize reader.perform operation = step at next ⊢
    obtain ⟨reply, after⟩ := step
    cases reply with
    | overrun => rfl
    | _ => exact congrArg (_ :: ·) next

end Guarded

end FramedSnappy
