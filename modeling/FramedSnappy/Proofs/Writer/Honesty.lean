import FramedSnappy.Proofs.Agreement
import FramedSnappy.Proofs.Codec.Scripted
import FramedSnappy.Proofs.Writer.Operation

/-! Whether data that a call has reported as written can be read. It can as long as no failure has
cut an item short. The writer does not stop at such a failure: what it sends later stands behind
the item that was cut short, and a reader takes it for the rest of that item. -/
namespace FramedSnappy

namespace Writer

variable {κ lam : Type} [Codec lam]

/-- A verifying reader comes to the end of `bytes`, and all it hands over ends with `data`. -/
def Readable (other : lam) (bytes data : Bytes) : Prop :=
  ∀ source, source.signals = bytes.map .byte →
    let reader := Reader.ofSource source other .verify
    (∀ visitor, (∀ seen, visitor seen = none) →
      (reader.visitBlocks visitor).1 = .done () ∧
      data <:+ (reader.visitBlocks visitor).2.1.toList.flatten) ∧
    ∀ sizes, (∀ call, 0 < sizes call) →
      ∃ all after, Reader.Drains reader sizes all after ∧ data <:+ all

variable {form : Bytes → Bytes} {other : lam} {blocks : List Bytes} {torn data : Bytes}
  {writer : Writer κ}

theorem Whole.readable (whole : writer.Whole form blocks)
    (fits : ∀ block, Codec.Piece block → (form block).length ≤ Frame.compressedLimit)
    (restores : Codec.Restores other form) (ends : data <:+ blocks.flatten) :
    Readable other writer.sink.received.toList data := by
  intro source carries reader
  obtain ⟨visited, drained⟩ := whole.reads fits restores carries .verify
  constructor
  · intro visitor accepts
    obtain ⟨done, seen⟩ := visited visitor accepts
    exact ⟨done, seen.symm ▸ ends⟩
  · intro sizes positive
    obtain ⟨after, drains⟩ := drained sizes positive
    exact ⟨_, after, drains, ends⟩

theorem Holds.nothing_torn (holds : writer.Holds form blocks torn)
    (fits : ∀ block, Codec.Piece block → (form block).length ≤ Frame.compressedLimit)
    (restores : Codec.Restores other form)
    (cut : torn = [] ∨ ∃ frame : Frame, torn <+: frame.bytes ∧ torn ≠ frame.bytes)
    (readable : Readable other writer.sink.received.toList data) : torn = [] := by
  rcases cut with none | ⟨frame, front, incomplete⟩
  · exact none
  obtain ⟨frames, wire, -, written, opens⟩ := holds.frames fits
  have carries := Source.signals_deliver writer.sink.received.toList
  have faces : (Reader.ofSource _ other .verify).Faces frames torn :=
    Reader.faces_of_written restores (carries.trans (congrArg _ wire)) written opens fun _ =>
      Frame.blocked_of_cut front incomplete _
  have accepts : ∀ seen, (fun _ => none : Reader.Visitor) seen = none := fun _ => rfl
  exact Reader.nothing_left faces rfl rfl accepts ((readable _ carries).1 _ accepts).1

/-- The front of an identifier stands first in the sink, and then nothing or another one. -/
def Spoiled (writer : Writer κ) : Prop :=
  ∃ count tail, 0 < count ∧ count < Frame.streamIdentifier.length ∧
    writer.sink.received.toList = Frame.streamIdentifier.take count ++ tail ∧
    (∀ byte ∈ tail.head?, byte = 0xff) ∧ (tail = [] → writer.identified = false)

theorem Spoiled.unreadable (spoiled : writer.Spoiled) (restores : Codec.Restores other form) :
    ¬ Readable other writer.sink.received.toList data := by
  intro readable
  obtain ⟨count, tail, some, part, holds, again, -⟩ := spoiled
  have carries := Source.signals_deliver writer.sink.received.toList
  have faces : (Reader.ofSource _ other .verify).Faces [] _ :=
    Reader.faces_of_written restores (carries.trans (congrArg _ holds)) nofun nofun fun _ =>
      Frame.blocked_of_torn_identifier some part again
  have accepts : ∀ seen, (fun _ => none : Reader.Visitor) seen = none := fun _ => rfl
  have empty := Reader.nothing_left faces rfl rfl accepts ((readable _ carries).1 _ accepts).1
  rcases List.take_eq_nil_iff.mp (List.append_eq_nil_iff.mp empty).1 with zero | never
  · exact Nat.ne_of_gt some zero
  · cases never

variable [Codec κ]

/-- If the next call succeeds, its data can be read. -/
def Honest (other : lam) (writer : Writer κ) : Prop :=
  ∀ operation : WriterOperation, operation.Call →
    (writer.perform operation).1 = operation.success →
    Readable other (writer.perform operation).2.sink.received.toList operation.data

theorem Whole.honest (whole : writer.Whole form blocks) (fit : writer.Fit)
    (packs : Codec.Packs writer.codec form) (restores : Codec.Restores other form) :
    Honest other writer := by
  intro operation call told
  have performs := perform_call fit packs call
  generalize writer.perform operation = result at performs told ⊢
  cases performs with
  | all _ _ known delivers =>
    have added := whole.delivers (fun _ => Bytes.mem_pieces) known delivers
    refine added.readable packs.fits restores ?_
    rw [List.flatten_append, Bytes.flatten_pieces]
    exact List.suffix_append _ _
  | torn failed => exact absurd told failed

/-- A call that has torn an item is followed by one that succeeds and is not honest. -/
theorem Whole.step (whole : writer.Whole form blocks) (fit : writer.Fit)
    (packs : Codec.Packs writer.codec form) (restores : Codec.Restores other form)
    {operation : WriterOperation} (call : operation.Call)
    (honest : Honest other (writer.perform operation).2) :
    ∃ blocks, (writer.perform operation).2.Whole form blocks := by
  have performs := perform_call fit packs call
  generalize writer.perform operation = result at performs honest ⊢
  cases performs with
  | all _ _ known delivers =>
    exact ⟨_, whole.delivers (fun _ => Bytes.mem_pieces) known delivers⟩
  | @torn _ after _ _ _ tears =>
    obtain ⟨sent, torn, holds, cut⟩ := whole.tears (fun _ => Bytes.mem_pieces) packs.fits tears
    -- a write without data sends nothing, so its success depends on the torn item alone
    have nothing := perform_nothing after
    have readable := honest (.write []) trivial (by rw [nothing]; rfl)
    rw [nothing] at readable
    obtain rfl := holds.nothing_torn packs.fits restores cut readable
    exact ⟨sent, holds⟩

theorem Whole.whole_of_honest (whole : writer.Whole form blocks) (fit : writer.Fit)
    (packs : Codec.Packs writer.codec form) (restores : Codec.Restores other form)
    {history : List WriterOperation} (calls : ∀ operation ∈ history, operation.Call)
    (honest : ∀ front, front <+: history → Honest other (writer.performAll front)) :
    ∀ front, front <+: history → ∃ blocks, (writer.performAll front).Whole form blocks := by
  induction history generalizing writer blocks with
  | nil =>
    intro front within
    rw [List.prefix_nil.mp within]
    exact ⟨blocks, whole⟩
  | cons operation rest ih =>
    intro front within
    rcases List.prefix_cons_iff.mp within with rfl | ⟨more, rfl, behind⟩
    · exact ⟨blocks, whole⟩
    · have call := calls operation List.mem_cons_self
      have first : [operation] <+: operation :: rest := ⟨rest, rfl⟩
      obtain ⟨kept, later⟩ := (perform_call fit packs call).keeps
      obtain ⟨sent, next⟩ := whole.step fit packs restores call (honest _ first)
      refine ih next kept (packs.later later)
        (fun other mem => calls other (List.mem_cons_of_mem _ mem)) ?_ more behind
      intro front within
      exact honest (operation :: front) (List.prefix_cons_iff.mpr (.inr ⟨front, rfl, within⟩))

theorem Spoiled.step (spoiled : writer.Spoiled) (fit : writer.Fit)
    (packs : Codec.Packs writer.codec form) {operation : WriterOperation} (call : operation.Call) :
    (writer.perform operation).2.Spoiled := by
  obtain ⟨count, tail, some, part, holds, again, early⟩ := spoiled
  obtain ⟨taken, left, split, received, known⟩ := (perform_call fit packs call).sent
  refine ⟨count, tail ++ taken, some, part, ?_, ?_, ?_⟩
  · rw [received, holds, List.append_assoc]
  · cases tail with
    | nil => exact stream_opens (early rfl) split
    | cons first rest => exact again
  · intro none
    obtain ⟨rfl, rfl⟩ := List.append_eq_nil_iff.mp none
    exact Bool.eq_false_iff.mpr fun late =>
      (known.mp late).elim (Bool.eq_false_iff.mp (early rfl)) nofun

/-- The first failure to send anything leaves a writer that has sent the identifier, or nothing, or
only some of it. -/
def Begun (writer : Writer κ) : Prop :=
  writer.identified = true ∨ writer.sink.received.toList = [] ∨ writer.Spoiled

theorem Begun.step (begun : writer.Begun) (fit : writer.Fit)
    (packs : Codec.Packs writer.codec form) {operation : WriterOperation} (call : operation.Call) :
    (writer.perform operation).2.Begun := by
  rcases begun with identified | empty | spoiled
  · obtain ⟨taken, left, -, -, known⟩ := (perform_call fit packs call).sent
    exact .inl (known.mpr (.inl identified))
  · obtain ⟨taken, left, split, received, known⟩ := (perform_call fit packs call).sent
    rw [empty, List.nil_append] at received
    -- either the identifier has gone out whole, or all that has gone out is its front
    by_cases late : writer.identified = true ∨ Frame.streamIdentifier <+: taken
    · exact .inl (known.mpr late)
    · rw [not_or] at late
      obtain ⟨⟨missing, whole⟩, short⟩ := stream_cut (Bool.eq_false_iff.mpr late.1) split late.2
      by_cases none : taken = []
      · exact .inr (.inl (received.trans none))
      · refine .inr (.inr ⟨taken.length, [], List.length_pos_iff.mpr none, short, ?_, nofun, ?_⟩)
        · rw [received, List.append_nil, ← whole, List.take_left]
        · exact fun _ => Bool.eq_false_iff.mpr fun sent =>
            (known.mp sent).elim late.1 late.2
  · exact .inr (.inr (spoiled.step fit packs call))

/-- Calls are honest as long as no item has been cut short, and in a whole history only if none has.
The front of an identifier makes everything unreadable, whatever is written later. -/
theorem honest_iff_whole {codec : κ} (packs : Codec.Packs codec form)
    (restores : Codec.Restores other form) {sink : Sink} (fresh : sink.received = #[])
    {history : List WriterOperation} (calls : ∀ operation ∈ history, operation.Call) :
    let after := (ofSink sink codec).performAll
    ((∃ blocks, (after history).Whole form blocks) → Honest other (after history)) ∧
    ((∀ front, front <+: history → Honest other (after front)) ↔
      ∀ front, front <+: history → ∃ blocks, (after front).Whole form blocks) ∧
    ((after history).identified = false → (after history).sink.received ≠ #[] →
      ∀ later : List WriterOperation, (∀ operation ∈ later, operation.Call) →
        ∀ data, ¬ Readable other ((after history).performAll later).sink.received.toList data) := by
  intro after
  have start : (ofSink sink codec).Whole form [] := whole_of_fresh fresh codec
  have fit : (ofSink sink codec).Fit := rfl
  have reached (front : List WriterOperation) (within : front <+: history) :
      (after front).Fit ∧ Codec.Packs (after front).codec form ∧ (after front).Begun :=
    perform_all_preserves (fun _ fit packs begun _ call => begun.step fit packs call) fit packs
      (.inr (.inl (congrArg _ fresh))) fun operation mem => calls operation (within.subset mem)
  have honest (front : List WriterOperation) (within : front <+: history)
      (whole : ∃ blocks, (after front).Whole form blocks) : Honest other (after front) := by
    obtain ⟨blocks, whole⟩ := whole
    obtain ⟨fit, packs, -⟩ := reached front within
    exact whole.honest fit packs restores
  refine ⟨honest history (List.prefix_refl _), ⟨?_, ?_⟩, ?_⟩
  · exact start.whole_of_honest rfl packs restores calls
  · exact fun whole front within => honest front within (whole front within)
  · intro new some later calls data
    obtain ⟨fit, packs, begun⟩ := reached history (List.prefix_refl _)
    have spoiled : (after history).Spoiled := by
      rcases begun with identified | empty | spoiled
      · cases new.symm.trans identified
      · exact absurd (Array.toList_eq_nil_iff.mp empty) some
      · exact spoiled
    have lasts : ((after history).performAll later).Spoiled :=
      (perform_all_preserves (fun _ fit packs spoiled _ call => Spoiled.step spoiled fit packs call)
        fit packs spoiled calls).2.2
    exact lasts.unreadable restores

/-- Takes the front of an identifier, fails, and takes all that comes later. -/
def faltering : Sink := .ofEvents [.accept 3, .fail ⟨.brokenPipe, "cable pulled"⟩] none []

theorem faltering_not_honest :
    let writer := (ofSink faltering Codec.Scripted.honest).performAll [.writeFrames [0x61, 0x62]]
    ¬ Honest Codec.Scripted.honest writer := by
  intro writer
  have calls : ∀ operation ∈ [.writeFrames [0x61, 0x62]], WriterOperation.Call operation := by
    simp [WriterOperation.Call]
  obtain ⟨-, -, unreadable⟩ := honest_iff_whole Codec.Scripted.honest_packs
    Codec.Scripted.honest_restores (rfl : faltering.received = #[]) calls
  have again : (writer.perform (.writeFrames [0x61, 0x62])).1 = .accepted 2 := by decide +kernel
  exact fun honest => unreadable (by decide +kernel) (by decide +kernel) _ calls _
    (honest (.writeFrames [0x61, 0x62]) trivial again)

/-- The second of two calls succeeds, but the reader only sees an identifier that starts again in
its own middle. -/
theorem accepted_unreadable :
    let writer := (ofSink faltering Codec.Scripted.honest).performAll [.writeFrames [0x61, 0x62]]
    let last := writer.perform (.writeFrames [0x61, 0x62])
    last.1 = .accepted 2 ∧
      ¬ Readable Codec.Scripted.honest last.2.sink.received.toList [0x61, 0x62] := by
  intro writer last
  have spoiled : last.2.Spoiled :=
    ⟨3, Codec.Scripted.sample, by decide, by decide, by decide +kernel,
      fun _ mem => (Option.some.inj mem).symm, nofun⟩
  exact ⟨by decide +kernel, spoiled.unreadable Codec.Scripted.honest_restores⟩

end Writer

end FramedSnappy
