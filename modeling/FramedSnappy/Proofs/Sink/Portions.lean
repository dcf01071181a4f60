import FramedSnappy.Proofs.Sink.Bytewise
import FramedSnappy.Proofs.Source.Delivery

/-! Sinks that stop after the same numbers of bytes and take the bytes in between in other portions.
Writing and flushing do not tell them apart. -/
namespace FramedSnappy

namespace SinkEvent

/-- Where a script stops its sink, when some bytes have been taken before: how many there are by
then, and the fault, unless one call just takes nothing. A call that is interrupted is made again
and does not count. -/
def stops (taken : Nat) : List SinkEvent → List (Nat × Option Fault)
  | [] => []
  | accept count :: rest => stops (taken + count) rest
  | fail fault :: rest =>
    if fault.interrupted then stops taken rest else (taken, some fault) :: stops taken rest
  | refuse :: rest => (taken, none) :: stops taken rest

/-- What becomes of one byte in front of some stops, and where these are behind it. -/
def pass : List (Nat × Option Fault) → Except Fault Unit × List (Nat × Option Fault)
  | [] => (.ok (), [])
  | (0, some fault) :: rest => (.error fault, rest)
  | (0, none) :: rest => (.error .shortWrite, rest)
  | (taken + 1, stop) :: rest =>
    (.ok (), (taken, stop) :: rest.map fun later => (later.1 - 1, later.2))

theorem stops_succ (taken : Nat) (events : List SinkEvent) :
    stops (taken + 1) events = (stops taken events).map fun stop => (stop.1 + 1, stop.2) := by
  induction events generalizing taken with
  | nil => rfl
  | cons event rest ih =>
    cases event with
    | accept count =>
      rw [stops, stops, ← ih, Nat.add_right_comm]
    | fail fault =>
      rw [stops, stops, ih]
      split <;> rfl
    | refuse => rw [stops, stops, ih, List.map_cons]

theorem pass_succ (stops : List (Nat × Option Fault)) :
    pass (stops.map fun stop => (stop.1 + 1, stop.2)) = (.ok (), stops) := by
  cases stops with
  | nil => rfl
  | cons stop rest => simp [pass, Function.comp_def]

/-- A byte is taken or not as the stops say. -/
theorem put_stops (events : List SinkEvent) :
    (put events).1 = (pass (stops 0 events)).1 ∧
      stops 0 (put events).2 = (pass (stops 0 events)).2 := by
  fun_induction put events with
  | case1 => exact ⟨rfl, rfl⟩
  | case2 rest ih => exact ih
  | case3 count rest =>
    have behind : stops 0 (accept (count + 1) :: rest) =
        (stops 0 (accept count :: rest)).map fun stop => (stop.1 + 1, stop.2) :=
      stops_succ (0 + count) rest
    rw [behind, pass_succ]
    exact ⟨rfl, rfl⟩
  | case4 rest fault again ih =>
    rw [stops, if_pos again]
    exact ih
  | case5 rest fault final =>
    rw [stops, if_neg final]
    exact ⟨rfl, rfl⟩
  | case6 rest => exact ⟨rfl, rfl⟩

end SinkEvent

namespace Sink

/-- Both take something in every call until they are stopped, and are stopped at the same bytes. -/
structure Alike (sink other : Sink) : Prop where
  fed : sink.limit ≠ some 0
  fed_too : other.limit ≠ some 0
  stops : SinkEvent.stops 0 sink.events = SinkEvent.stops 0 other.events
  flushFaults : sink.flushFaults = other.flushFaults
  received : sink.received = other.received
  flushes : sink.flushes = other.flushes

namespace Alike

variable {sink other : Sink}

theorem put (h : sink.Alike other) (byte : UInt8) :
    Agree Alike (sink.put byte) (other.put byte) := by
  obtain ⟨mine, left⟩ := SinkEvent.put_stops sink.events
  obtain ⟨yours, right⟩ := SinkEvent.put_stops other.events
  rw [← h.stops] at yours right
  have answers := mine.trans yours.symm
  have behind := left.trans right.symm
  unfold Sink.put
  rw [if_neg h.fed, if_neg h.fed_too]
  generalize SinkEvent.put sink.events = one, SinkEvent.put other.events = two at answers behind ⊢
  obtain ⟨answer, events⟩ := one
  obtain ⟨answer', others⟩ := two
  obtain rfl : answer = answer' := answers
  cases answer with
  | ok =>
    have received : sink.received ++ [byte] = other.received ++ [byte] := by rw [h.received]
    exact .intro _ ⟨h.fed, h.fed_too, behind, h.flushFaults, received, h.flushes⟩
  | error fault =>
    exact .intro _ ⟨h.fed, h.fed_too, behind, h.flushFaults, h.received, h.flushes⟩

theorem put_all (h : sink.Alike other) (data : Bytes) :
    Agree Alike (sink.putAll data) (other.putAll data) := by
  induction data generalizing sink other with
  | nil => exact .intro _ h
  | cons first more ih =>
    unfold putAll
    refine (h.put first).elim fun answer left right alike => ?_
    cases answer with
    | ok => exact ih alike
    | error fault => exact .intro _ alike

theorem write_all (h : sink.Alike other) (data : Bytes) :
    Agree Alike (sink.writeAll data) (other.writeAll data) := by
  rw [write_all_eq, write_all_eq]
  exact h.put_all data

theorem flush (h : sink.Alike other) : Agree Alike sink.flush other.flush := by
  have flushes : sink.flushes + 1 = other.flushes + 1 := congrArg (· + 1) h.flushes
  unfold Sink.flush
  dsimp only
  rw [← h.flushFaults]
  rcases sink.flushFaults with _ | ⟨_ | fault, rest⟩
  · exact .intro _ ⟨h.fed, h.fed_too, h.stops, rfl, h.received, flushes⟩
  · exact .intro _ ⟨h.fed, h.fed_too, h.stops, rfl, h.received, flushes⟩
  · exact .intro _ ⟨h.fed, h.fed_too, h.stops, rfl, h.received, flushes⟩

end Alike

end Sink

end FramedSnappy
