import FramedSnappy.Proofs.Codec.Scripted
import FramedSnappy.Proofs.Writer.Storing

/-! Writing everything starts again from the first byte when an attempt has been interrupted. What
the attempt has framed by then stays in the sink, so it is framed once more. -/
namespace FramedSnappy

open FramedSnappy.Codec (Packing Attempt Lossless Restored)

namespace Writer

variable {κ lam : Type} [Codec κ] [Codec lam] {writer middle after : Writer κ} {other : lam}
  {packings : List Packing} {blocks : List Bytes} {retried : List Attempt} {last : Attempt}

/-- What has been stored can be restored, and so can all that will be. -/
structure Recoverable (other : lam) (packings : List Packing) (writer : Writer κ) : Prop where
  stores : writer.Stores packings
  lossless : Lossless writer.codec other
  restored : ∀ packing ∈ packings, Restored other packing

theorem Recoverable.serves (h : writer.Recoverable other packings)
    (serves : writer.Serves packings blocks retried last after)
    (pieces : ∀ block ∈ blocks, Codec.Piece block) :
    after.Recoverable other (packings ++ (retried ++ [last]).flatMap (·.packings)) := by
  refine ⟨serves.stores, h.lossless.later serves.later, ?_⟩
  intro packing mem
  rcases List.mem_append.mp mem with early | late
  · exact h.restored packing early
  · exact serves.course.restored h.lossless (fun attempt mem => serves.same attempt mem ▸ pieces)
      packing late

theorem Recoverable.perform (h : writer.Recoverable other packings) {operation : WriterOperation}
    (plain : operation.Plain) :
    ∃ more, (writer.perform operation).2.Recoverable other (packings ++ more) := by
  obtain ⟨retried, last, after, performed, serves⟩ := h.stores.perform h.lossless.bounded plain
  rw [performed]
  exact ⟨_, h.serves serves fun _ => Bytes.mem_pieces⟩

theorem Recoverable.perform_all (h : writer.Recoverable other packings)
    {history : List WriterOperation} (plain : ∀ operation ∈ history, operation.Plain) :
    ∃ stored, (writer.performAll history).Recoverable other stored := by
  induction history generalizing writer packings with
  | nil => exact ⟨packings, h⟩
  | cons operation rest ih =>
    obtain ⟨more, first⟩ := h.perform (plain operation List.mem_cons_self)
    exact ih first fun other mem => plain other (List.mem_cons_of_mem _ mem)

theorem Recoverable.recovers (h : writer.Recoverable other packings) (policy : ChecksumPolicy) :
    Reader.Recovers other policy writer.sink.received.toList (packings.map (·.block)) := by
  rw [h.stores.received]
  exact Reader.recovers_image h.stores.carried h.restored policy

/-- Nothing is repeated exactly if every interrupted attempt was so at its first block. -/
theorem Serves.repeats_nothing (serves : writer.Serves packings blocks retried last after)
    (pieces : ∀ block ∈ blocks, Codec.Piece block) :
    (retried.flatMap (·.front)).flatten = [] ↔ ∀ attempt ∈ retried, attempt.packings = [] := by
  rw [List.flatten_eq_nil_iff]
  constructor
  · intro none attempt mem
    obtain ⟨unsent, split, -⟩ := serves.course.split (List.mem_append_left _ mem)
    apply List.map_eq_nil_iff.mp
    apply List.eq_nil_iff_forall_not_mem.mpr
    intro block front
    have among : block ∈ blocks := by
      rw [← serves.same attempt (List.mem_append_left _ mem), split]
      exact List.mem_append_left _ front
    exact (pieces block among).1 (none block (List.mem_flatMap_of_mem mem front))
  · intro none block mem
    obtain ⟨attempt, among, front⟩ := List.mem_flatMap.mp mem
    rw [Attempt.front, none attempt among] at front
    cases front

/-- The last attempt decides how the call ends. The sink has gained what every attempt has framed
before it was refused, so a success has sent the data once exactly if no attempt before the last one
had framed anything. -/
theorem write_all_repeats {codec : κ} (lossless : Lossless codec other) {sink : Sink}
    (willing : sink.Willing) (fresh : sink.received = #[]) {history : List WriterOperation}
    (plain : ∀ operation ∈ history, operation.Plain) (patience : Nat) (data : Bytes) :
    let writer := (ofSink sink codec).performAll history
    let result := writer.writeAll patience data
    ∃ (earlier : List Bytes) (retried : List Attempt) (last : Attempt),
      Codec.Course writer.codec (retried ++ [last]) result.2.codec ∧
      (∀ attempt ∈ retried ++ [last],
        attempt.blocks = Bytes.pieces Frame.pieceSize piece_size_pos data) ∧
      (∀ attempt ∈ retried, attempt.Interrupted) ∧
      result.1 = last.outcome.mapError Error.toStreamError ∧
      let added := (retried ++ [last]).flatMap (·.front)
      (∀ policy, Reader.Recovers other policy writer.sink.received.toList earlier ∧
        Reader.Recovers other policy result.2.sink.received.toList (earlier ++ added)) ∧
      (result.1 = .done () →
        (added.flatten = data ↔ ∀ attempt ∈ retried, attempt.packings = [])) := by
  intro writer result
  have start : (ofSink sink codec).Recoverable other [] :=
    ⟨stores_of_fresh willing fresh codec, lossless, nofun⟩
  obtain ⟨packings, held⟩ := start.perform_all plain
  obtain ⟨retried, last, after, wrote, serves⟩ :=
    held.stores.write_all held.lossless.bounded patience data
  have pieces : ∀ block ∈ Bytes.pieces Frame.pieceSize piece_size_pos data, Codec.Piece block :=
    fun _ => Bytes.mem_pieces
  have same : result = (last.outcome.mapError Error.toStreamError, after) := wrote
  have lasting := held.serves serves pieces
  have framed : (packings ++ (retried ++ [last]).flatMap (·.packings)).map (·.block) =
      packings.map (·.block) ++ (retried ++ [last]).flatMap (·.front) := by
    rw [List.map_append, List.map_flatMap]
    rfl
  rw [same]
  refine ⟨packings.map (·.block), retried, last, serves.course, serves.same, serves.again, rfl,
    ?_, fun done => ?_⟩
  · exact fun policy => ⟨held.recovers policy, framed ▸ lasting.recovers policy⟩
  · have mem : last ∈ retried ++ [last] := List.mem_append_right _ List.mem_cons_self
    have final := serves.course.front_eq mem (Attempt.whole_of_outcome done)
    rw [← serves.repeats_nothing pieces, List.flatMap_append, List.flatMap_singleton, final,
      serves.same last mem, List.flatten_append, Bytes.flatten_pieces]
    exact List.append_left_eq_self

/-- The only block is refused once, and framed once. -/
theorem refused_at_once :
    let codec := Codec.Scripted.faltering 1 (.io ⟨.interrupted, "signal"⟩)
    let result := (ofSink .plain codec).writeAll 1 [0x61, 0x62]
    result.1 = .done () ∧ ∃ (retried : List Attempt) (last : Attempt),
      Codec.Course codec (retried ++ [last]) result.2.codec ∧
      ∀ attempt ∈ retried, attempt.packings = [] := by
  intro codec result
  have lossless := Codec.Scripted.faltering_lossless 1 (.io ⟨.interrupted, "signal"⟩)
  have done : result.1 = .done () := by decide +kernel
  obtain ⟨earlier, retried, last, course, -, -, -, recovers, whole⟩ :=
    @write_all_repeats _ _ _ _ _ _ lossless _ Sink.plain_willing rfl [] nofun 1 [0x61, 0x62]
  obtain ⟨before, behind⟩ := recovers .verify
  have nothing : [] = earlier := by
    rw [← ((before (Source.ofEvents [.deliver []] none) (Source.signals_deliver [])).1
      (fun _ => none) fun _ => rfl).2]
    decide +kernel
  have seen := ((behind (Source.ofEvents [.deliver result.2.sink.received.toList] none)
    (Source.signals_deliver _)).1 (fun _ => none) fun _ => rfl).2
  subst nothing
  refine ⟨done, retried, last, course, (whole done).mp ?_⟩
  rw [List.nil_append] at seen
  rw [← seen]
  decide +kernel

/-- A codec that refuses one block once, with an interruption, has the blocks before it framed
twice. -/
theorem Stores.write_all_faltering {writer : Writer Codec.Scripted} (h : writer.Stores packings)
    {call : Nat} {fault : Fault} (interrupted : fault.interrupted = true)
    (later : Codec.Later (Codec.Scripted.faltering call (.io fault)) writer.codec) {data : Bytes}
    {front rest : List Bytes} {block : Bytes}
    (split : Bytes.pieces Frame.pieceSize piece_size_pos data = front ++ block :: rest)
    (due : call = writer.codec.compressCalls + front.length + 1) (patience : Nat) :
    ∃ after, writer.writeAll (patience + 1) data = (.done (), after) ∧
      after.Stores (packings ++
        (front ++ (front ++ block :: rest)).map (Codec.pack Codec.Scripted.inverted)) := by
  have bounded := (Codec.Scripted.bounded_faltering call (.io fault)).later later
  have pieces : ∀ piece ∈ front ++ block :: rest, Codec.Piece piece :=
    split ▸ fun _ => Bytes.mem_pieces
  obtain ⟨first, middle, wrote, serves⟩ := h.write bounded data
  rw [split] at serves
  have same := serves.same first List.mem_cons_self
  obtain ⟨packed, refused, counted⟩ :=
    Codec.Scripted.runs_faltering later serves.runs same (same ▸ pieces) due
  have failed : writer.write data = (.failed (.fault fault), middle) := by
    rw [wrote, Attempt.outcome, refused]
    rfl
  -- the second attempt starts with the first block again, and nothing stops it
  have past := Nat.le_of_eq counted.symm
  have packs := Codec.Scripted.faltering_packs (later.trans serves.later) past
  obtain ⟨second, after, again, served⟩ := serves.stores.write packs.bounded data
  rw [split] at served
  obtain ⟨whole, stores⟩ := served.packs packs pieces
  have done : middle.write data = (.done (), after) := by
    rw [again, Attempt.outcome, whole]
    rfl
  refine ⟨after, ?_, ?_⟩
  · rw [write_all_of_interrupted patience failed interrupted]
    exact write_all_of_done patience done
  · simpa [packed] using stores

/-- Two blocks, of which the second one is refused once. -/
theorem interrupted_write_repeats :
    let full : Bytes := List.replicate Frame.pieceSize 0
    let codec := Codec.Scripted.faltering 2 (.io ⟨.interrupted, "signal"⟩)
    let result := (ofSink .plain codec).writeAll 65536 (full ++ [0])
    Lossless codec Codec.Scripted.honest ∧ Sink.plain.Willing ∧ result.1 = .done () ∧
      (∀ policy, Reader.Recovers Codec.Scripted.honest policy result.2.sink.received.toList
        [full, full, [0]]) ∧
      [full, full, [0]].flatten ≠ full ++ [0] := by
  intro full codec result
  have length : full.length = Frame.pieceSize := List.length_replicate
  have filled : full ≠ [] := List.ne_nil_of_length_pos (length ▸ piece_size_pos)
  have split : Bytes.pieces Frame.pieceSize piece_size_pos (full ++ [0]) = [full] ++ [[0]] := by
    rw [Bytes.pieces_append (length ▸ Nat.dvd_refl _),
      Bytes.pieces_short filled (Nat.le_of_eq length),
      Bytes.pieces_short (List.cons_ne_nil _ _) piece_size_pos]
  have start : (ofSink .plain codec).Stores [] := stores_of_fresh Sink.plain_willing rfl codec
  obtain ⟨after, wrote, stores⟩ := start.write_all_faltering rfl .now split rfl 65535
  have ended : result = (.done (), after) := wrote
  refine ⟨Codec.Scripted.faltering_lossless 2 _, Sink.plain_willing, ?_⟩
  rw [ended]
  refine ⟨rfl, fun policy => ?_, ?_⟩
  · rw [stores.received]
    refine Reader.recovers_image stores.carried ?_ policy
    intro packing mem
    have piece := (stores.carried packing mem).piece
    obtain ⟨block, -, rfl⟩ := List.mem_map.mp mem
    exact Codec.Scripted.honest_restores.restored piece
  · intro equal
    have lengths := congrArg List.length equal
    simp only [List.flatten_cons, List.flatten_nil, List.length_append, length] at lengths
    have := piece_size_pos
    omega

end Writer

end FramedSnappy
