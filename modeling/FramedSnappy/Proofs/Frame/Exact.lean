import FramedSnappy.Proofs.Frame.Reading
import FramedSnappy.Proofs.Source.Script

/-! The bytes that taking a part of a frame takes off a source, and the answer that goes with them.
A part that is passed over goes the same way as one that is read. -/
namespace FramedSnappy

namespace Signal

theorem bytes_gather (wanted : Nat) (signals : List Signal) :
    bytes signals = (front signals).take wanted ++ bytes (gather wanted signals).2 := by
  induction signals generalizing wanted with
  | nil => cases wanted <;> rfl
  | cons signal rest ih =>
    cases wanted with
    | zero => rfl
    | succ wanted =>
      cases signal with
      | byte value => exact congrArg (value :: ·) (ih wanted)
      | fault fault => rfl
      | pause => rfl

/-- Nothing comes, or nothing for now. -/
inductive Ends : List Signal → Prop
  | spent : Ends []
  | paused (rest : List Signal) : Ends (.pause :: rest)

theorem Ends.front {signals : List Signal} (ends : Ends signals) : Signal.front signals = [] := by
  cases ends with
  | spent => rfl
  | paused rest => rfl

theorem Ends.stop {signals : List Signal} (ends : Ends signals) :
    Signal.stop (behind signals) = none := by
  cases ends with
  | spent => rfl
  | paused rest => rfl

theorem behind_ends (signals : List Signal) :
    Ends (behind signals) ∨ ∃ fault rest, behind signals = .fault fault :: rest := by
  induction signals with
  | nil => exact .inl .spent
  | cons signal rest ih =>
    cases signal with
    | byte value => exact ih
    | fault fault => exact .inr ⟨fault, rest, rfl⟩
    | pause => exact .inl (.paused rest)

end Signal

theorem Frame.cut_short_eof {stop : Option Fault} :
    Frame.cutShort stop = .unexpectedEof ↔
      stop = none ∨ ∃ fault, stop = some fault ∧ fault.kind = .unexpectedEof := by
  cases stop with
  | none => simp
  | some fault => simp [Fault.insideFrame]

theorem Frame.cut_short_io {stop : Option Fault} {fault : Fault} :
    Frame.cutShort stop = .io fault ↔ stop = some fault ∧ fault.kind ≠ .unexpectedEof := by
  cases stop with
  | none => simp
  | some other =>
    simp only [Frame.cut_short_some, Fault.insideFrame, Option.some.injEq]
    split
    · rename_i ended
      refine iff_of_false nofun ?_
      rintro ⟨rfl, kept⟩
      exact kept ended
    · rename_i kept
      simp only [Error.io.injEq, iff_self_and]
      rintro rfl
      exact kept

namespace Source

/-- The source has given away `taken` and nothing else. -/
structure Consumes (source : Source) (taken : Bytes) (after : Source) : Prop where
  remaining : source.remaining = taken ++ after.remaining
  delivered : after.delivered = source.delivered + taken.length

theorem Consumes.unique {source after : Source} {taken other : Bytes}
    (one : source.Consumes taken after) (two : source.Consumes other after) : taken = other :=
  List.append_cancel_right (one.remaining.symm.trans two.remaining)

variable {source : Source}

theorem Follows.consumes {after : Source} (follows : after.Follows source) {wanted : Nat}
    (said : after.signals = (Signal.gather wanted source.signals).2) :
    source.Consumes (source.front.take wanted) after := by
  obtain ⟨remaining, delivered⟩ := follows.remaining (said ▸ Signal.bytes_gather wanted _)
  exact ⟨remaining, delivered⟩

theorem gather_consumes (source : Source) (wanted : Nat) (got : Array UInt8) :
    source.Consumes (source.front.take wanted) (source.gather wanted got).2 := by
  obtain ⟨-, said, follows⟩ := gather_signals source wanted got
  exact follows.consumes said

theorem skip_consumes (source : Source) {portion : Nat} (some : portion ≠ 0) (count : Nat) :
    source.Consumes (source.front.take count) (source.skip portion count).2 := by
  obtain ⟨-, said, follows⟩ := skip_signals source some count
  exact follows.consumes said

theorem read_header_after (source : Source) :
    source.readHeader.2 = (source.gather Frame.headerSize #[]).2 := by
  unfold readHeader
  split
  · rename_i failed
    rw [failed]
  · rename_i none
    rw [none]
  · rename_i read
    rw [read]
    split <;> rfl

theorem read_body_after (source : Source) (length : Nat) :
    (source.readBody length).2 = (source.gather length #[]).2 := by
  unfold readBody readExact
  rcases source.gather length #[] with ⟨_ | got, after⟩
  · rfl
  · dsimp only
    by_cases short : got.length < length
    · rw [if_pos short]
    · rw [if_neg short]

theorem skip_body_by_after (source : Source) (portion length : Nat) :
    (source.skipBodyBy portion length).2 = (source.skip portion length).2 := by
  unfold skipBodyBy
  split
  · rename_i failed
    rw [failed]
  · rename_i skipped
    rw [skipped]

/-- Where the same is said and the same has gone, only the number of calls can differ. -/
theorem skip_as_gather (source : Source) {portion : Nat} (some : portion ≠ 0) (count : Nat) :
    (source.skip portion count).2 =
      { (source.gather count #[]).2 with calls := (source.skip portion count).2.calls } := by
  have events : (source.skip portion count).2.events = (source.gather count #[]).2.events :=
    (source.skip_pull some count).2.trans (source.gather_pull count #[]).2.symm
  have limit : (source.skip portion count).2.limit = (source.gather count #[]).2.limit :=
    (source.skip_signals some count).2.2.limit.trans
      (source.gather_signals count #[]).2.2.limit.symm
  have delivered :
      (source.skip portion count).2.delivered = (source.gather count #[]).2.delivered :=
    (source.skip_consumes some count).delivered.trans
      (source.gather_consumes count #[]).delivered.symm
  rcases h : (source.skip portion count).2 with ⟨_, _, _, _⟩
  simp only [h] at events limit delivered
  simp only [events, limit, delivered]

variable {portion length : Nat}

theorem skip_body_by_ok (some : portion ≠ 0) :
    (source.skipBodyBy portion length).1 = .ok () ↔ length ≤ source.front.length := by
  rcases Nat.lt_or_ge source.front.length length with short | enough
  · obtain ⟨after, skipped, -⟩ := skip_body_by_short some short
    simpa [skipped] using short
  · obtain ⟨after, skipped, -⟩ := skip_body_by_enough some enough
    simpa [skipped] using enough

theorem skip_body_by_error (some : portion ≠ 0) {e : Error} :
    (source.skipBodyBy portion length).1 = .error e ↔
      source.front.length < length ∧ Frame.cutShort (Signal.stop source.behind) = e := by
  rcases Nat.lt_or_ge source.front.length length with short | enough
  · obtain ⟨after, skipped, -⟩ := skip_body_by_short some short
    simp [skipped, short]
  · obtain ⟨after, skipped, -⟩ := skip_body_by_enough some enough
    simp [skipped, Nat.not_lt.mpr enough]

theorem skip_body_by_answer (some : portion ≠ 0) :
    (source.skipBodyBy portion length).1 = (source.readBody length).1.map fun _ => () := by
  rcases Nat.lt_or_ge source.front.length length with short | enough
  · obtain ⟨after, skipped, -⟩ := skip_body_by_short some short
    obtain ⟨after', read, -⟩ := read_body_short short
    rw [skipped, read]
    rfl
  · obtain ⟨after, skipped, -⟩ := skip_body_by_enough some enough
    obtain ⟨after', read, -⟩ := read_body_enough enough
    rw [skipped, read]
    rfl

/-- Passing over a part of a frame is reading it and dropping what was read, whatever the script is
and however large the portions are: the answer is the same, and so is all that is left of the
source but the number of calls it took. -/
theorem skipped_as_read (source : Source) (some : 0 < portion) (length : Nat) :
    let skipped := source.skipBodyBy portion length
    let read := source.readBody length
    (skipped.1 = read.1.map fun _ => ()) ∧
      skipped.2 = { read.2 with calls := skipped.2.calls } ∧
      (skipped.1 = .ok () ↔ length ≤ source.front.length) ∧
      (skipped.1 = .error .unexpectedEof ↔ source.front.length < length ∧
        (Signal.stop source.behind = none ∨
          ∃ fault, Signal.stop source.behind = .some fault ∧ fault.kind = .unexpectedEof)) ∧
      (∀ fault, skipped.1 = .error (.io fault) ↔ source.front.length < length ∧
        Signal.stop source.behind = .some fault ∧ fault.kind ≠ .unexpectedEof) ∧
      source.Consumes (source.front.take length) skipped.2 ∧
      (length = 0 → skipped = (.ok (), source) ∧ read = (.ok [], source)) := by
  have room : portion ≠ 0 := Nat.ne_of_gt some
  refine ⟨skip_body_by_answer room, ?_, skip_body_by_ok room, ?_, ?_, ?_, ?_⟩
  · rw [skip_body_by_after, read_body_after]
    exact source.skip_as_gather room length
  · rw [skip_body_by_error room, Frame.cut_short_eof]
  · intro fault
    rw [skip_body_by_error room, Frame.cut_short_io]
  · rw [skip_body_by_after]
    exact source.skip_consumes room length
  · rintro rfl
    simp [skipBodyBy, readBody, readExact, skip, gather]

/-- The bytes asked for arrive in two deliveries with an interruption between them, and one more
stands behind them. -/
theorem skipped_over_a_cut :
    let source := ofEvents [.deliver [1, 2], .fail ⟨.interrupted, ""⟩, .deliver [3, 4]] none
    0 < 2 ∧ (source.skipBodyBy 2 3).2.remaining = [4] ∧
      ((source.skipBodyBy 2 3).1 = .ok () ↔ 3 ≤ source.front.length) :=
  ⟨by decide, by decide +kernel, (skipped_as_read _ (by decide) 3).2.2.1⟩

/-- What the first header of a script comes to, and the bytes it takes. Four bytes are a header,
however they are cut; fewer are none, unless not even one has come. -/
inductive Opening : List Signal → Except Error (Option Frame.Header) → Bytes → Prop
  | nothing {script : List Signal} : Signal.Ends script → Opening script (.ok none) []
  | header {header : Frame.Header} {taken : Bytes} (rest : List Signal) :
      Frame.Header.decode taken = some header →
      Opening (taken.map .byte ++ rest) (.ok (some header)) taken
  | torn {taken : Bytes} {rest : List Signal} :
      taken ≠ [] → taken.length < Frame.headerSize → Signal.Ends rest →
      Opening (taken.map .byte ++ rest) (.error .unexpectedEof) taken
  | fault {taken : Bytes} (fault : Fault) (rest : List Signal) :
      taken.length < Frame.headerSize →
      Opening (taken.map .byte ++ .fault fault :: rest) (.error (.io fault)) taken

theorem exists_opening (script : List Signal) : ∃ answer taken, Opening script answer taken := by
  rw [← Signal.front_append_behind script]
  generalize Signal.front script = data
  rcases Nat.lt_or_ge data.length Frame.headerSize with short | enough
  · rcases Signal.behind_ends script with ends | ⟨fault, rest, failed⟩
    · cases data with
      | nil => exact ⟨_, _, .nothing ends⟩
      | cons tag field => exact ⟨_, _, .torn (List.cons_ne_nil tag field) short ends⟩
    · rw [failed]
      exact ⟨_, _, .fault fault rest short⟩
  · match data, enough with
    | tag :: low :: middle :: high :: rest, _ =>
      have decoded : Frame.Header.decode [tag, low, middle, high] =
        some (.parse tag [low, middle, high]) := rfl
      exact ⟨_, _, .header (rest.map .byte ++ Signal.behind script) decoded⟩

theorem four_of_decoded {header : Frame.Header} {taken : Bytes}
    (decoded : Frame.Header.decode taken = some header) :
    ∃ tag low middle high, taken = [tag, low, middle, high] := by
  unfold Frame.Header.decode at decoded
  split at decoded
  · exact ⟨_, _, _, _, rfl⟩
  · cases decoded

theorem opening_read {script : List Signal} {answer : Except Error (Option Frame.Header)}
    {taken : Bytes} (said : source.signals = script) (opening : Opening script answer taken) :
    source.readHeader.1 = answer ∧ source.front.take Frame.headerSize = taken := by
  cases opening with
  | nothing ends =>
    have none : source.front = [] := by rw [front, said, ends.front]
    obtain ⟨after, read, -⟩ := read_header_none none
    rw [read, behind, said, ends.stop, none]
    exact ⟨rfl, rfl⟩
  | @header header taken rest decoded =>
    obtain ⟨tag, low, middle, high, rfl⟩ := four_of_decoded decoded
    have full : source.front = tag :: low :: middle :: high :: Signal.front rest := by
      rw [front, said, Signal.front_map_append]
      rfl
    obtain ⟨after, read, -⟩ := read_header_full full
    rw [read, full]
    exact ⟨congrArg Except.ok decoded, rfl⟩
  | torn begun short ends =>
    have all : source.front = taken := by
      rw [front, said, Signal.front_map_append, ends.front, List.append_nil]
    obtain ⟨after, read, -⟩ := read_header_cut (all ▸ begun) (all ▸ short)
    rw [read, behind, said, Signal.behind_map_append, ends.stop, all]
    exact ⟨rfl, List.take_of_length_le (Nat.le_of_lt short)⟩
  | fault fault rest short =>
    have all : source.front = taken := by
      rw [front, said, Signal.front_map_append]
      exact List.append_nil taken
    have failed : Signal.stop source.behind = some fault := by
      rw [behind, said, Signal.behind_map_append]
      rfl
    refine ⟨?_, by rw [all, List.take_of_length_le (Nat.le_of_lt short)]⟩
    by_cases begun : taken = []
    · obtain ⟨after, read, -⟩ := read_header_none (all.trans begun)
      rw [read, failed]
    · obtain ⟨after, read, -⟩ := read_header_cut (all ▸ begun) (all ▸ short)
      rw [read, failed]

/-- A header is read exactly as the script opens. Where every call has room for a byte, neither cuts
nor interruptions count. -/
theorem read_header_iff_opening (fed : source.limit ≠ some 0)
    (answer : Except Error (Option Frame.Header)) (taken : Bytes) :
    source.readHeader.1 = answer ∧ source.Consumes taken source.readHeader.2 ↔
      Opening (source.events.flatMap SourceEvent.signals) answer taken := by
  have said := signals_fed source fed
  have consumes : source.Consumes (source.front.take Frame.headerSize) source.readHeader.2 := by
    rw [read_header_after]
    exact source.gather_consumes Frame.headerSize #[]
  constructor
  · rintro ⟨rfl, consumed⟩
    obtain ⟨answer, other, opening⟩ := exists_opening (source.events.flatMap SourceEvent.signals)
    obtain ⟨rfl, rfl⟩ := opening_read said opening
    rwa [consumes.unique consumed] at opening
  · intro opening
    obtain ⟨rfl, rfl⟩ := opening_read said opening
    exact ⟨rfl, consumes⟩

/-- Two bytes come, one call at a time and with an interruption between them, and then a pause. -/
theorem header_torn_by_a_pause :
    let source := ofEvents [.deliver [0], .fail ⟨.interrupted, ""⟩, .deliver [5], .pause,
      .deliver [0, 0]] (some 1)
    source.limit ≠ some 0 ∧ source.readHeader.1 = .error .unexpectedEof ∧
      source.Consumes [0, 5] source.readHeader.2 := by
  refine ⟨by decide, (read_header_iff_opening (by decide) _ [0, 5]).mpr ?_⟩
  have begun : ([0, 5] : Bytes) ≠ [] := by decide
  exact .torn begun (by decide) (.paused [.byte 0, .byte 0])

end Source

end FramedSnappy
