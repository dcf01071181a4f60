import FramedSnappy.Proofs.Codec.Promise

/-! How a codec meets the blocks of a writer. They are shown to it one after the other, it packs
each of them or refuses it, and the first refusal ends the attempt. There is no sink in this. -/
namespace FramedSnappy.Codec

/-- A block and what a codec has made of it. -/
structure Packing where
  block : Bytes
  payload : Bytes

def pack (form : Bytes → Bytes) (block : Bytes) : Packing := ⟨block, form block⟩

/-- Some blocks, the packings of the first of them, and why the next one has been refused if there
is a next one. -/
structure Attempt where
  blocks : List Bytes
  packings : List Packing
  refusal : Option Error

namespace Attempt

def outcome (attempt : Attempt) : Outcome Error Unit :=
  match attempt.refusal with
  | none => .done ()
  | some e => .failed e

/-- The client of a byte stream is told to make its call again. -/
def Interrupted (attempt : Attempt) : Prop :=
  ∃ e, attempt.refusal = some e ∧ e.toStreamError.interrupted = true

/-- What has been packed. -/
def front (attempt : Attempt) : List Bytes := attempt.packings.map (·.block)

end Attempt

variable {κ lam : Type} [Codec κ] [Codec lam]

/-- One block: there is no room for what the codec asks for, compressing fails, or it succeeds. -/
inductive Answers (codec : κ) (block : Bytes) : Except Error Bytes → κ → Prop
  | unreserved : Frame.compressedLimit < (Codec.bound codec block.length).1 →
      Answers codec block
        (.error (.blockTooLarge (Codec.bound codec block.length).1 Frame.compressedLimit))
        (Codec.bound codec block.length).2
  | failed {window : Bytes} {e : Error} :
      window.length = (Codec.bound codec block.length).1 → window.length ≤ Frame.compressedLimit →
      (Codec.compress (Codec.bound codec block.length).2 block window).result window = .failed e →
      Answers codec block (.error e)
        (Codec.compress (Codec.bound codec block.length).2 block window).codec
  | packed {window payload : Bytes} :
      window.length = (Codec.bound codec block.length).1 → window.length ≤ Frame.compressedLimit →
      (Codec.compress (Codec.bound codec block.length).2 block window).result window =
        .done payload →
      Answers codec block (.ok payload)
        (Codec.compress (Codec.bound codec block.length).2 block window).codec

/-- An attempt takes a codec from its first state to its last one. -/
inductive Attempt.Runs : Attempt → κ → κ → Prop
  | ended (codec : κ) : Runs ⟨[], [], none⟩ codec codec
  | refused {block : Bytes} {rest : List Bytes} {e : Error} {codec after : κ} :
      Answers codec block (.error e) after → Runs ⟨block :: rest, [], some e⟩ codec after
  | packed {block payload : Bytes} {rest : List Bytes} {packings : List Packing}
      {refusal : Option Error} {codec middle after : κ} :
      Answers codec block (.ok payload) middle → Runs ⟨rest, packings, refusal⟩ middle after →
      Runs ⟨block :: rest, ⟨block, payload⟩ :: packings, refusal⟩ codec after

/-- Attempts one after the other. -/
inductive Course : κ → List Attempt → κ → Prop
  | done (codec : κ) : Course codec [] codec
  | next {codec middle after : κ} {attempt : Attempt} {more : List Attempt} :
      attempt.Runs codec middle → Course middle more after → Course codec (attempt :: more) after

/-- Decompression gives back the block, whatever calls were made before. -/
def Restored (codec : κ) (packing : Packing) : Prop :=
  ∀ now, Later codec now →
    (Codec.decodedLength now packing.payload).1 = .ok packing.block.length ∧
    ∀ window, window.length = packing.block.length →
      (Codec.decompress (Codec.decodedLength now packing.payload).2 packing.payload window).result
        window = .done packing.block

/-- Compression may fail, but where it succeeds it stays inside its window and `other` restores what
it has packed. -/
structure Lossless (codec : κ) (other : lam) : Prop where
  bounded : Bounded codec
  restored : ∀ now, Later codec now → ∀ packing after, Piece packing.block →
    Answers now packing.block (.ok packing.payload) after → Restored other packing

variable {codec middle after : κ} {attempt : Attempt} {attempts more : List Attempt} {block : Bytes}
  {form : Bytes → Bytes}

theorem Answers.later {answer : Except Error Bytes} (h : Answers codec block answer after) :
    Later codec after := by
  have start : Later codec codec := .now
  have asked := start.bound block.length
  cases h with
  | unreserved _ => exact asked
  | @failed window e _ _ _ => exact asked.compress block window
  | @packed window payload _ _ _ => exact asked.compress block window

theorem Answers.fits {payload : Bytes} (h : Answers codec block (.ok payload) after) :
    payload.length ≤ Frame.compressedLimit := by
  cases h with
  | packed _ small done => exact Nat.le_trans (Reply.of_result done).2.1 small

/-- A codec that packs every block has no other answer. -/
theorem Answers.packs {answer : Except Error Bytes} (h : Answers codec block answer after)
    (promise : Packs codec form) (piece : Piece block) : answer = .ok (form block) := by
  have small := (promise.bound codec .now block piece).2
  have packs := promise.compress codec .now block piece
  cases h with
  | unreserved large => exact absurd small (Nat.not_le.mpr large)
  | failed length _ failed => cases failed.symm.trans (packs _ length)
  | packed length _ done =>
    cases done.symm.trans (packs _ length)
    rfl

theorem Lossless.later {other : lam} (h : Lossless codec other) (later : Later codec after) :
    Lossless after other :=
  ⟨h.bounded.later later, fun now further => h.restored now (later.trans further)⟩

namespace Attempt

theorem whole_of_outcome {attempt : Attempt}
    (done : attempt.outcome.mapError Error.toStreamError = .done ()) : attempt.refusal = none := by
  unfold outcome at done
  split at done
  · assumption
  · cases done

theorem interrupted_of_outcome {attempt : Attempt} {e : StreamError}
    (failed : attempt.outcome.mapError Error.toStreamError = .failed e)
    (again : e.interrupted = true) : attempt.Interrupted := by
  unfold outcome at failed
  split at failed
  · cases failed
  · rename_i error refused
    cases failed
    exact ⟨error, refused, again⟩

theorem Runs.later (h : attempt.Runs codec after) : Later codec after := by
  induction h with
  | ended codec => exact .now
  | refused answers => exact answers.later
  | packed answers _ ih => exact answers.later.trans ih

/-- An attempt packs all of its blocks, or the front of them up to the one it is refused. -/
theorem Runs.split (h : attempt.Runs codec after) :
    ∃ unsent, attempt.blocks = attempt.front ++ unsent ∧
      (attempt.refusal = none ↔ unsent = []) := by
  induction h with
  | ended codec => exact ⟨[], rfl, by simp⟩
  | @refused block rest e codec after _ => exact ⟨block :: rest, rfl, by simp⟩
  | @packed block payload rest packings refusal codec middle after _ _ ih =>
    obtain ⟨unsent, split, ending⟩ := ih
    exact ⟨unsent, congrArg (block :: ·) split, ending⟩

theorem Runs.restored {other : lam} (h : attempt.Runs codec after)
    (lossless : Lossless codec other) (pieces : ∀ block ∈ attempt.blocks, Piece block) :
    ∀ packing ∈ attempt.packings, Restored other packing := by
  induction h with
  | ended codec => exact nofun
  | refused answers => exact nofun
  | @packed block payload rest packings refusal codec middle after answers _ ih =>
    intro packing mem
    rcases List.mem_cons.mp mem with rfl | behind
    · exact lossless.restored codec .now ⟨block, payload⟩ middle
        (pieces block List.mem_cons_self) answers
    · exact ih (lossless.later answers.later)
        (fun other mem => pieces other (List.mem_cons_of_mem _ mem)) packing behind

theorem Runs.packs (h : attempt.Runs codec after) (promise : Packs codec form)
    (pieces : ∀ block ∈ attempt.blocks, Piece block) :
    attempt.refusal = none ∧ attempt.packings = attempt.blocks.map (pack form) := by
  induction h with
  | ended codec => exact ⟨rfl, rfl⟩
  | @refused block rest e codec after answers =>
    cases answers.packs promise (pieces block List.mem_cons_self)
  | @packed block payload rest packings refusal codec middle after answers _ ih =>
    cases answers.packs promise (pieces block List.mem_cons_self)
    obtain ⟨whole, packed⟩ := ih (promise.later answers.later)
      fun other mem => pieces other (List.mem_cons_of_mem _ mem)
    exact ⟨whole, congrArg (pack form block :: ·) packed⟩

end Attempt

theorem Course.later (h : Course codec attempts after) : Later codec after := by
  induction h with
  | done codec => exact .now
  | next runs _ ih => exact runs.later.trans ih

theorem Course.split (h : Course codec attempts after) (mem : attempt ∈ attempts) :
    ∃ unsent, attempt.blocks = attempt.front ++ unsent ∧
      (attempt.refusal = none ↔ unsent = []) := by
  induction h with
  | done codec => cases mem
  | next runs _ ih =>
    rcases List.mem_cons.mp mem with rfl | behind
    · exact runs.split
    · exact ih behind

theorem Course.packs (h : Course codec attempts after) (promise : Packs codec form)
    (pieces : ∀ attempt ∈ attempts, ∀ block ∈ attempt.blocks, Piece block) :
    ∀ attempt ∈ attempts,
      attempt.refusal = none ∧ attempt.packings = attempt.blocks.map (pack form) := by
  induction h with
  | done codec => exact nofun
  | next runs _ ih =>
    intro attempt mem
    rcases List.mem_cons.mp mem with rfl | behind
    · exact runs.packs promise (pieces attempt List.mem_cons_self)
    · exact ih (promise.later runs.later)
        (fun other mem => pieces other (List.mem_cons_of_mem _ mem)) attempt behind

theorem Course.front_eq (h : Course codec attempts after) (mem : attempt ∈ attempts)
    (whole : attempt.refusal = none) : attempt.front = attempt.blocks := by
  obtain ⟨unsent, split, ending⟩ := h.split mem
  rw [split, ending.mp whole, List.append_nil]

theorem Course.one (h : attempt.Runs codec after) : Course codec [attempt] after :=
  .next h (.done after)

theorem Course.restored {other : lam} (h : Course codec attempts after)
    (lossless : Lossless codec other)
    (pieces : ∀ attempt ∈ attempts, ∀ block ∈ attempt.blocks, Piece block) :
    ∀ packing ∈ attempts.flatMap (·.packings), Restored other packing := by
  induction h with
  | done codec => exact nofun
  | next runs _ ih =>
    intro packing mem
    rw [List.flatMap_cons] at mem
    rcases List.mem_append.mp mem with first | behind
    · exact runs.restored lossless (pieces _ List.mem_cons_self) packing first
    · exact ih (lossless.later runs.later)
        (fun attempt mem => pieces attempt (List.mem_cons_of_mem _ mem)) packing behind

theorem Restores.restored (promise : Restores codec form) (piece : Piece block) :
    Restored codec (pack form block) :=
  fun now later => ⟨promise.announce now later block piece, promise.restore now later block piece⟩

end FramedSnappy.Codec
