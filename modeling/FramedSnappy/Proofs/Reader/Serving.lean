import FramedSnappy.Proofs.Reader.Ending
import FramedSnappy.Proofs.Reader.Exhaustion
import FramedSnappy.Proofs.Reader.Safety

/-! What `read` and `peek` do, to the byte: when they fetch, where the source stands afterwards, what
they hand over and what they keep. -/
namespace FramedSnappy.Reader

open FramedSnappy.Frame (Parsed)

variable {κ : Type} [Codec κ] {now after : Reader κ} {frames : List Parsed} {content data : Bytes}
  {waits : Bool} {size : Nat}

/-- The reader hands over up to `size` bytes of those that wait. Nothing of it but the queue is
touched. -/
def Hands (reader : Reader κ) (size : Nat) (result : Outcome StreamError Bytes × Reader κ) : Prop :=
  ∃ last, result = (.done (reader.pending.toList.take size), last) ∧
    reader.Leaves (reader.pending.toList.drop size) last

/-- The source has given the frames and not one byte more, and the content waits behind what has
waited before. A refill that tells of no more bytes has stopped where the source ended cleanly. -/
structure Stops (now : Reader κ) (frames : List Parsed) (content : Bytes) (waits : Bool)
    (after : Reader κ) : Prop where
  remaining : now.source.remaining = Frame.wire frames ++ after.source.remaining
  delivered : after.source.delivered = now.source.delivered + (Frame.wire frames).length
  waiting : after.pending.toList = now.pending.toList ++ content
  boundary : waits = false → now.AtBoundary frames after

theorem Fetches.stops (fit : now.Fit) (h : Fetches now frames content (.done waits, after)) :
    Stops now frames content waits after := by
  have reaches := h.reaches fit
  obtain ⟨remaining, delivered⟩ := reaches.remaining
  refine ⟨remaining, delivered, h.waiting fit, ?_⟩
  rintro rfl
  exact h.boundary fit

section Refilled

variable (short : now.pending.toList.length < size)
include short

theorem read_refilled (filled : now.refill = (.done waits, after)) :
    after.Hands size (now.read size) := by
  rw [ByteQueue.length_to_list] at short
  rw [read, if_pos short, filled]
  exact ⟨_, by simp only [serve, ByteQueue.to_list_take], leaves_serve after size⟩

theorem read_unfilled {e : Error} (failed : now.refill = (.failed e, after)) :
    now.read size = (.failed e.toStreamError, after) := by
  rw [ByteQueue.length_to_list] at short
  rw [read, if_pos short, failed]

end Refilled

theorem peek_refilled (dry : now.pending.toList = []) (filled : now.refill = (.done waits, after)) :
    now.peek = (.done after.pending.toList, after) := by
  rw [peek, if_pos ((ByteQueue.is_empty_to_list _).mpr dry), filled]

theorem peek_unfilled (dry : now.pending.toList = []) {e : Error}
    (failed : now.refill = (.failed e, after)) :
    now.peek = (.failed e.toStreamError, after) := by
  rw [peek, if_pos ((ByteQueue.is_empty_to_list _).mpr dry), failed]

theorem run_peeks (waits : now.pending.toList ≠ []) (count : Nat) :
    now.run (List.replicate count .peek) =
      List.replicate count (.bytes now.pending.toList, now) := by
  have performed : now.perform .peek = (.bytes now.pending.toList, now) := by
    rw [perform, peek_waiting waits]
    rfl
  induction count with
  | zero => rfl
  | succ count ih =>
    rw [List.replicate_succ, run_cons, performed, if_neg (by simp), ih, List.replicate_succ]

/-- A read that asks for no more than what waits is served from it. Any other one takes frames up to
the first data frame, or up to the first one with content if nothing waits, and is served from what
waits then. A peek takes frames only if nothing waits, and the same ones. It shows all that waits,
and what it has shown it goes on showing. -/
theorem read_and_peek_exact {codec : κ} (inside : Codec.Inside codec) (policy : ChecksumPolicy)
    (source : Source) (before : List ReaderOperation) :
    let now := (ofSource source codec policy).performAll before
    let waiting := now.pending.toList
    now.poisoned = false →
    ∃ frames content, Fetches now frames content now.refill ∧
      now.refill.1 ≠ .overrun ∧
      (∀ size ≤ waiting.length, now.Hands size (now.read size)) ∧
      (waiting ≠ [] → now.peek = (.done waiting, now)) ∧
      (∀ waits after, now.refill = (.done waits, after) →
        Stops now frames content waits after ∧
          (∀ size > waiting.length, after.Hands size (now.read size)) ∧
          (waiting = [] → now.peek = (.done content, after))) ∧
      (∀ e after, now.refill = (.failed e, after) →
        (∀ size > waiting.length, now.read size = (.failed e.toStreamError, after)) ∧
          (waiting = [] → now.peek = (.failed e.toStreamError, after))) ∧
      ∀ data after, now.peek = (.done data, after) → data ≠ [] →
        ∀ count, after.run (List.replicate count .peek) =
          List.replicate count (.bytes data, after) := by
  intro now waiting fresh
  have safe : now.Safe :=
    safe_kept.perform_all ⟨fit_of_source source codec policy, inside⟩ before
  obtain ⟨frames, content, fetches⟩ := refill_fetches safe.fit fresh
  refine ⟨frames, content, fetches, safe.refill, ?served, ?shown, ?filled, ?failed, ?again⟩
  case served => exact fun size enough => read_enough enough
  case shown => exact peek_waiting
  case filled =>
    intro waits after filled
    have stops : Stops now frames content waits after := (filled ▸ fetches).stops safe.fit
    refine ⟨stops, fun size short => read_refilled short filled, fun dry => ?_⟩
    have shows := peek_refilled dry filled
    rwa [stops.waiting, show now.pending.toList = [] from dry, List.nil_append] at shows
  case failed =>
    intro e after failed
    exact ⟨fun size short => read_unfilled short failed, fun dry => peek_unfilled dry failed⟩
  case again =>
    intro data after peeked some count
    have shows := peek_shows peeked
    subst shows
    exact run_peeks some count

/-- One byte of two has been read. A read of five takes the byte that waits, and the end of the
source. -/
theorem read_past_last_byte :
    let now := (ofSource (.ofEvents [.deliver Codec.Scripted.sample] none) Codec.Scripted.honest
      .verify).performAll [.read 1]
    (∃ frames content, Fetches now frames content now.refill) ∧
      (now.read 5).1 = .done [0x62] ∧ now.peek.1 = .done [0x62] := by
  intro now
  obtain ⟨frames, content, fetches, -⟩ :=
    read_and_peek_exact Codec.Scripted.honest_input_only.inside .verify
      (.ofEvents [.deliver Codec.Scripted.sample] none) [.read 1] (by decide +kernel)
  exact ⟨⟨frames, content, fetches⟩, by decide +kernel, by decide +kernel⟩

end FramedSnappy.Reader
