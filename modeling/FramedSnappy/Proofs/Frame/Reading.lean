import FramedSnappy.Proofs.Source.Reading

/-! The parts of a frame on a source: each is there in full, or the source stops inside it. -/
namespace FramedSnappy

/-- What a frame fails with when its source stops before the frame is complete. -/
def Frame.cutShort (stop : Option Fault) : Error := (stop.getD .shortRead).insideFrame

@[simp] theorem Frame.cut_short_none : Frame.cutShort none = .unexpectedEof := rfl

@[simp] theorem Frame.cut_short_some (f : Fault) : Frame.cutShort (some f) = f.insideFrame := rfl

namespace Source

def front (source : Source) : Bytes := Signal.front source.signals

def behind (source : Source) : List Signal := Signal.behind source.signals

theorem front_of_signals {source : Source} {data : Bytes} {tail : List Signal}
    (h : source.signals = data.map .byte ++ Signal.behind tail) : source.front = data := by
  simp [front, h]

theorem behind_of_signals {source : Source} {data : Bytes} {tail : List Signal}
    (h : source.signals = data.map .byte ++ Signal.behind tail) :
    source.behind = Signal.behind tail := by
  simp [behind, h]

theorem front_of_bytes {source : Source} {data : Bytes} (h : source.signals = data.map .byte) :
    source.front = data :=
  @front_of_signals source data [] (h.trans (List.append_nil _).symm)

theorem behind_of_bytes {source : Source} {data : Bytes} (h : source.signals = data.map .byte) :
    source.behind = [] :=
  @behind_of_signals source data [] (h.trans (List.append_nil _).symm)

theorem gather_enough {source : Source} {wanted : Nat} (enough : wanted ≤ source.front.length) :
    ∃ after, source.gather wanted #[] = (.ok (source.front.take wanted), after) ∧
      after.signals = (source.front.drop wanted).map .byte ++ source.behind ∧
      after.Follows source := by
  obtain ⟨result, said, follows⟩ := gather_signals source wanted #[]
  rw [Signal.gather_enough enough] at result said
  exact ⟨_, Prod.ext (by simpa [Except.map, front] using result) rfl, said, follows⟩

theorem gather_short {source : Source} {wanted : Nat} (short : source.front.length < wanted) :
    ∃ after, source.gather wanted #[] =
        (match Signal.stop source.behind with
          | none => .ok source.front
          | some f => .error f, after) ∧
      after.signals = source.behind.tail ∧ after.Follows source := by
  obtain ⟨result, said, follows⟩ := gather_signals source wanted #[]
  rw [Signal.gather_short short] at result said
  refine ⟨_, Prod.ext (result.trans ?_) rfl, said, follows⟩
  rw [← behind]
  cases Signal.stop source.behind <;> simp [Except.map, front]

theorem skip_enough {source : Source} {portion count : Nat} (room : portion ≠ 0)
    (enough : count ≤ source.front.length) :
    ∃ after, source.skip portion count = (.ok 0, after) ∧
      after.signals = (source.front.drop count).map .byte ++ source.behind ∧
      after.Follows source := by
  obtain ⟨result, said, follows⟩ := skip_signals source room count
  rw [Signal.gather_enough enough] at result said
  refine ⟨_, Prod.ext (result.trans ?_) rfl, said, follows⟩
  have all : (Signal.front source.signals).length ≥ count := enough
  simp [Except.map, all]

theorem skip_short {source : Source} {portion count : Nat} (room : portion ≠ 0)
    (short : source.front.length < count) :
    ∃ after, source.skip portion count =
        (match Signal.stop source.behind with
          | none => .ok (count - source.front.length)
          | some f => .error f, after) ∧
      after.signals = source.behind.tail ∧ after.Follows source := by
  obtain ⟨result, said, follows⟩ := skip_signals source room count
  rw [Signal.gather_short short] at result said
  refine ⟨_, Prod.ext (result.trans ?_) rfl, said, follows⟩
  rw [← behind]
  cases Signal.stop source.behind <;> simp [Except.map, front]

theorem read_header_full {source : Source} {tag low middle high : UInt8} {rest : Bytes}
    (h : source.front = tag :: low :: middle :: high :: rest) :
    ∃ after, source.readHeader = (.ok (some (.parse tag [low, middle, high])), after) ∧
      after.signals = rest.map .byte ++ source.behind ∧ after.Follows source := by
  have enough : Frame.headerSize ≤ source.front.length := by simp [h, Frame.headerSize]
  obtain ⟨after, gathered, said, follows⟩ := gather_enough enough
  refine ⟨after, ?_, by simpa [h, Frame.headerSize] using said, follows⟩
  rw [h] at gathered
  simp only [readHeader, gathered]
  rfl

theorem read_header_none {source : Source} (h : source.front = []) :
    ∃ after, source.readHeader =
        (match Signal.stop source.behind with
          | none => .ok none
          | some f => .error (.io f), after) ∧
      after.signals = source.behind.tail ∧ after.Follows source := by
  obtain ⟨after, gathered, said, follows⟩ :=
    @gather_short source Frame.headerSize (by simp [h, Frame.headerSize])
  refine ⟨after, ?_, said, follows⟩
  rw [h] at gathered
  simp only [readHeader, gathered]
  cases Signal.stop source.behind <;> rfl

theorem read_header_cut {source : Source} (begun : source.front ≠ [])
    (short : source.front.length < Frame.headerSize) :
    ∃ after, source.readHeader =
        (.error (match Signal.stop source.behind with
          | none => .unexpectedEof
          | some f => .io f), after) ∧
      after.signals = source.behind.tail ∧ after.Follows source := by
  obtain ⟨after, gathered, said, follows⟩ := gather_short short
  refine ⟨after, ?_, said, follows⟩
  simp only [readHeader, gathered]
  cases Signal.stop source.behind with
  | some f => rfl
  | none =>
    cases hf : source.front with
    | nil => exact absurd hf begun
    | cons tag field =>
      have : field.length + 1 < Frame.headerSize := by simpa [hf] using short
      simp [this]

theorem read_body_enough {source : Source} {length : Nat}
    (enough : length ≤ source.front.length) :
    ∃ after, source.readBody length = (.ok (source.front.take length), after) ∧
      after.signals = (source.front.drop length).map .byte ++ source.behind ∧
      after.Follows source := by
  obtain ⟨after, gathered, said, follows⟩ := gather_enough enough
  exact ⟨after, by simp [readBody, readExact, gathered, enough], said, follows⟩

theorem read_body_short {source : Source} {length : Nat} (short : source.front.length < length) :
    ∃ after, source.readBody length =
        (.error (Frame.cutShort (Signal.stop source.behind)), after) ∧
      after.signals = source.behind.tail ∧ after.Follows source := by
  obtain ⟨after, gathered, said, follows⟩ := gather_short short
  refine ⟨after, ?_, said, follows⟩
  cases hs : Signal.stop source.behind <;>
    simp [readBody, readExact, gathered, hs, short, Frame.cutShort]

theorem skip_body_by_enough {source : Source} {portion length : Nat} (room : portion ≠ 0)
    (enough : length ≤ source.front.length) :
    ∃ after, source.skipBodyBy portion length = (.ok (), after) ∧
      after.signals = (source.front.drop length).map .byte ++ source.behind ∧
      after.Follows source := by
  obtain ⟨after, skipped, said, follows⟩ := skip_enough room enough
  exact ⟨after, by simp [skipBodyBy, skipped], said, follows⟩

theorem skip_body_by_short {source : Source} {portion length : Nat} (room : portion ≠ 0)
    (short : source.front.length < length) :
    ∃ after, source.skipBodyBy portion length =
        (.error (Frame.cutShort (Signal.stop source.behind)), after) ∧
      after.signals = source.behind.tail ∧ after.Follows source := by
  obtain ⟨after, skipped, said, follows⟩ := skip_short room short
  refine ⟨after, ?_, said, follows⟩
  have missing : length - source.front.length ≠ 0 := by omega
  cases hs : Signal.stop source.behind <;> simp [skipBodyBy, skipped, hs, missing]

theorem skip_body_enough {source : Source} {length : Nat}
    (enough : length ≤ source.front.length) :
    ∃ after, source.skipBody length = (.ok (), after) ∧
      after.signals = (source.front.drop length).map .byte ++ source.behind ∧
      after.Follows source :=
  skip_body_by_enough (show 8192 ≠ 0 by decide) enough

theorem skip_body_short {source : Source} {length : Nat} (short : source.front.length < length) :
    ∃ after, source.skipBody length =
        (.error (Frame.cutShort (Signal.stop source.behind)), after) ∧
      after.signals = source.behind.tail ∧ after.Follows source :=
  skip_body_by_short (show 8192 ≠ 0 by decide) short

end Source

end FramedSnappy
