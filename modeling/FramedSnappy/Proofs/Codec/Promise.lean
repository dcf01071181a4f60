import FramedSnappy.Codec.Basic
import FramedSnappy.Frame.Limits
import FramedSnappy.Outcome
import FramedSnappy.Proofs.Bytes

/-! Promises a codec may give. They speak of every value the codec can become, whatever calls
were made of it, because a codec is free to remember its past. -/
namespace FramedSnappy.Codec

variable {κ : Type}

/-- What the caller gets: the front of the window, as far as the codec claims to have written. -/
def Reply.result (reply : Reply κ) (window : Bytes) : Outcome Error Bytes :=
  match reply.count with
  | .error e => .failed e
  | .ok count =>
    if count > window.length then .overrun else .done ((reply.window window).take count)

theorem Reply.of_result {reply : Reply κ} {window content : Bytes}
    (h : reply.result window = .done content) :
    reply.count = .ok content.length ∧ content.length ≤ window.length ∧
      (reply.window window).take content.length = content := by
  unfold result at h
  split at h
  · cases h
  · rename_i count claim
    split at h
    · cases h
    · rename_i inside
      have front := Outcome.done.inj h
      have length : content.length = count := by
        rw [← front]
        exact List.length_take_of_le (by simpa [Reply.window] using inside)
      rw [length]
      exact ⟨claim, Nat.not_lt.mp inside, front⟩

theorem Reply.of_failed {reply : Reply κ} {window : Bytes} {e : Error}
    (h : reply.result window = .failed e) : reply.count = .error e := by
  unfold result at h
  split at h
  · cases h
    assumption
  · split at h <;> cases h

/-- A codec that tells the truth about what it has written, and has kept to its window. -/
theorem Reply.result_written {written window : Bytes} (inside : written.length ≤ window.length)
    (codec : κ) : (Reply.mk (.ok written.length) written codec).result window = .done written := by
  have front : (Bytes.overlay written window).take written.length = written := by
    rw [Bytes.overlay, List.take_of_length_le inside, List.take_left]
  simp only [result, if_neg (Nat.not_lt.mpr inside), Reply.window, front]

variable [Codec κ]

inductive Later (first : κ) : κ → Prop where
  | now : Later first first
  | bound {codec : κ} (size : Nat) : Later first codec → Later first (Codec.bound codec size).2
  | compress {codec : κ} (block window : Bytes) :
      Later first codec → Later first (Codec.compress codec block window).codec
  | decodedLength {codec : κ} (block : Bytes) :
      Later first codec → Later first (Codec.decodedLength codec block).2
  | decompress {codec : κ} (block window : Bytes) :
      Later first codec → Later first (Codec.decompress codec block window).codec

theorem Later.trans {first second third : κ} (start : Later first second)
    (rest : Later second third) : Later first third := by
  induction rest with
  | now => exact start
  | bound size _ ih => exact .bound size ih
  | compress block window _ ih => exact .compress block window ih
  | decodedLength block _ ih => exact .decodedLength block ih
  | decompress block window _ ih => exact .decompress block window ih

/-- What a codec makes of a block in a clean window of the length it announces. -/
def unpack (codec : κ) (block : Bytes) : Outcome Error Bytes :=
  match Codec.decodedLength codec block with
  | (.error e, _) => .failed e
  | (.ok size, codec) =>
    if size > Frame.blockLimit then .failed (.blockTooLarge size Frame.blockLimit)
    else
      let window := List.replicate size 0
      (Codec.decompress codec block window).result window

def Inside (codec : κ) : Prop :=
  ∀ now, Later codec now → ∀ block window,
    (Codec.decompress now block window).result window ≠ .overrun

/-- Decoding depends on the input alone, and stays inside the window. -/
structure InputOnly (codec : κ) : Prop where
  length : ∀ now, Later codec now → ∀ block,
    (Codec.decodedLength now block).1 = (Codec.decodedLength codec block).1
  bytes : ∀ now other, Later codec now → Later codec other → ∀ block window clean,
    window.length = clean.length →
      (Codec.decompress now block window).result window =
        (Codec.decompress other block clean).result clean
  inside : Inside codec

def Piece (block : Bytes) : Prop := block ≠ [] ∧ block.length ≤ Frame.pieceSize

/-- Compression of a piece stays inside the window it has asked for. It may fail. -/
def Bounded (codec : κ) : Prop :=
  ∀ now, Later codec now → ∀ block, Piece block → ∀ window,
    window.length = (Codec.bound now block.length).1 →
      (Codec.compress (Codec.bound now block.length).2 block window).result window ≠ .overrun

/-- Compression succeeds within its bound, which fits a frame, and produces `form block`. -/
structure Packs (codec : κ) (form : Bytes → Bytes) : Prop where
  bound : ∀ now, Later codec now → ∀ block, Piece block →
    (form block).length ≤ (Codec.bound now block.length).1 ∧
      (Codec.bound now block.length).1 ≤ Frame.compressedLimit
  compress : ∀ now, Later codec now → ∀ block, Piece block → ∀ window,
    window.length = (Codec.bound now block.length).1 →
      (Codec.compress (Codec.bound now block.length).2 block window).result window =
        .done (form block)

/-- Decompression gives back the block from `form block`. -/
structure Restores (codec : κ) (form : Bytes → Bytes) : Prop where
  announce : ∀ now, Later codec now → ∀ block, Piece block →
    (Codec.decodedLength now (form block)).1 = .ok block.length
  restore : ∀ now, Later codec now → ∀ block, Piece block → ∀ window,
    window.length = block.length →
      (Codec.decompress (Codec.decodedLength now (form block)).2 (form block) window).result
        window = .done block

theorem Inside.later {first codec : κ} (h : Inside first) (later : Later first codec) :
    Inside codec :=
  fun now after => h now (later.trans after)

theorem Packs.later {first codec : κ} {form : Bytes → Bytes} (h : Packs first form)
    (later : Later first codec) : Packs codec form where
  bound now after := h.bound now (later.trans after)
  compress now after := h.compress now (later.trans after)

theorem Bounded.later {first codec : κ} (h : Bounded first) (later : Later first codec) :
    Bounded codec :=
  fun now after => h now (later.trans after)

theorem Packs.bounded {codec : κ} {form : Bytes → Bytes} (h : Packs codec form) :
    Bounded codec := by
  intro now later block piece window length
  rw [h.compress now later block piece window length]
  exact nofun

theorem Packs.fits {codec : κ} {form : Bytes → Bytes} (h : Packs codec form) (block : Bytes)
    (piece : Piece block) : (form block).length ≤ Frame.compressedLimit :=
  Nat.le_trans (h.bound codec .now block piece).1 (h.bound codec .now block piece).2

theorem unpack_inside {codec : κ} (promise : InputOnly codec) (block : Bytes) :
    unpack codec block ≠ .overrun := by
  unfold unpack
  rcases h : Codec.decodedLength codec block with ⟨_ | size, after⟩
  · exact nofun
  · dsimp only
    split
    · exact nofun
    · have start : Later codec codec := .now
      have later : Later codec after := by simpa [h] using start.decodedLength block
      exact promise.inside after later block _

end FramedSnappy.Codec
