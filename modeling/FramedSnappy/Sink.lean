import FramedSnappy.Error

/-! A sink of bytes that follows a script. It may take less than it is offered, fail, or take
nothing at all; once its script is over it takes everything. -/
namespace FramedSnappy

inductive SinkEvent where
  /-- Takes up to `count` bytes, over as many calls as that needs. -/
  | accept (count : Nat)
  | fail (fault : Fault)
  /-- One call takes nothing. -/
  | refuse
  deriving DecidableEq

structure Sink where
  events : List SinkEvent
  /-- The most bytes one call takes. -/
  limit : Option Nat
  /-- What the coming flushes answer; later ones succeed. -/
  flushFaults : List (Option Fault)
  received : Array UInt8
  flushes : Nat
  deriving DecidableEq

namespace SinkEvent

/-- The front of a script, offered some bytes: those it takes. -/
def take (offered : Bytes) : List SinkEvent → Except Fault Bytes × List SinkEvent
  | [] => (.ok offered, [])
  | accept 0 :: rest => take offered rest
  | accept (count + 1) :: rest =>
    let taken := offered.take (count + 1)
    (.ok taken, accept (count + 1 - taken.length) :: rest)
  | fail fault :: rest => (.error fault, rest)
  | refuse :: rest => (.ok [], rest)

theorem take_events_ok {offered taken : Bytes} {events after : List SinkEvent}
    (h : take offered events = (.ok taken, after)) : after.length ≤ events.length := by
  induction events with
  | nil =>
    cases h
    exact Nat.le_refl _
  | cons event rest ih =>
    cases event with
    | accept count =>
      cases count with
      | zero => exact Nat.le_succ_of_le (ih h)
      | succ count =>
        cases h
        exact Nat.le_refl _
    | fail fault => cases h
    | refuse =>
      cases h
      exact Nat.le_succ _

theorem take_events_error {offered : Bytes} {events after : List SinkEvent} {fault : Fault}
    (h : take offered events = (.error fault, after)) : after.length < events.length := by
  induction events with
  | nil => cases h
  | cons event rest ih =>
    cases event with
    | accept count =>
      cases count with
      | zero => exact Nat.lt_succ_of_lt (ih h)
      | succ count => cases h
    | fail fault =>
      cases h
      exact Nat.lt_succ_self _
    | refuse => cases h

end SinkEvent

namespace Sink

def ofEvents (events : List SinkEvent) (limit : Option Nat) (flushFaults : List (Option Fault)) :
    Sink :=
  ⟨events, limit, flushFaults, #[], 0⟩

/-- Takes everything. -/
def plain : Sink := ofEvents [] none []

def feed (sink : Sink) (events : List SinkEvent) : Sink :=
  { sink with events := sink.events ++ events }

/-- Adds bytes past the script. -/
def append (sink : Sink) (data : Bytes) : Sink := { sink with received := sink.received ++ data }

def offer (sink : Sink) (data : Bytes) : Bytes :=
  match sink.limit with
  | none => data
  | some limit => data.take limit

/-- One call; the answer is the number of bytes taken. An empty offer touches no event. -/
def write (sink : Sink) (data : Bytes) : Except Fault Nat × Sink :=
  let offered := sink.offer data
  if offered.isEmpty then (.ok 0, sink)
  else match SinkEvent.take offered sink.events with
    | (.error fault, events) => (.error fault, { sink with events })
    | (.ok taken, events) =>
      (.ok taken.length, { sink with events, received := sink.received ++ taken })

theorem write_events_ok {sink after : Sink} {data : Bytes} {count : Nat}
    (h : sink.write data = (.ok count, after)) : after.events.length ≤ sink.events.length := by
  simp only [write] at h
  split at h
  · cases h
    exact Nat.le_refl _
  · split at h
    · cases h
    · rename_i ht
      cases h
      exact SinkEvent.take_events_ok ht

theorem write_events_error {sink after : Sink} {data : Bytes} {fault : Fault}
    (h : sink.write data = (.error fault, after)) : after.events.length < sink.events.length := by
  simp only [write] at h
  split at h
  · cases h
  · split at h
    · rename_i ht
      cases h
      exact SinkEvent.take_events_error ht
    · cases h

/-- Writes until nothing is left. An interrupted call is made again; a call that takes nothing is a
fault of its own. -/
def writeAll (sink : Sink) (data : Bytes) : Except Fault Unit × Sink :=
  match data with
  | [] => (.ok (), sink)
  | first :: more =>
    match h : sink.write (first :: more) with
    | (.error fault, after) =>
      have : after.events.length < sink.events.length := write_events_error h
      if fault.interrupted then after.writeAll (first :: more) else (.error fault, after)
    | (.ok 0, after) => (.error .shortWrite, after)
    | (.ok (count + 1), after) =>
      have : after.events.length ≤ sink.events.length := write_events_ok h
      after.writeAll (more.drop count)
termination_by data.length + sink.events.length
decreasing_by
  · simp only [List.length_cons]
    omega
  · simp only [List.length_cons, List.length_drop]
    omega

def flush (sink : Sink) : Except Fault Unit × Sink :=
  let sink := { sink with flushes := sink.flushes + 1 }
  match sink.flushFaults with
  | [] => (.ok (), sink)
  | none :: flushFaults => (.ok (), { sink with flushFaults })
  | some fault :: flushFaults => (.error fault, { sink with flushFaults })

end Sink

end FramedSnappy
