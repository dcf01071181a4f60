import FramedSnappy.Error

/-! A source of bytes that follows a script. It may cut its deliveries short, fail between them,
and report an end that is not final. The weight of a script bounds what can still come out of it:
every byte and every event counts one. -/
namespace FramedSnappy

inductive SourceEvent where
  | deliver (bytes : Bytes)
  | fail (fault : Fault)
  /-- One call finds the end of the source. -/
  | pause
  deriving DecidableEq

structure Source where
  events : List SourceEvent
  /-- The most bytes one call delivers. -/
  limit : Option Nat
  delivered : Nat
  calls : Nat
  deriving DecidableEq

namespace SourceEvent

def weight : SourceEvent → Nat
  | deliver bytes => bytes.length + 1
  | fail _ => 1
  | pause => 1

def bytes : SourceEvent → Bytes
  | deliver bytes => bytes
  | fail _ => []
  | pause => []

def totalWeight : List SourceEvent → Nat
  | [] => 0
  | event :: rest => event.weight + totalWeight rest

/-- The front of a script, asked for up to `room` bytes. No call delivers across two events, and a
delivery that has run dry is passed over. -/
def take (room : Nat) : List SourceEvent → Except Fault Bytes × List SourceEvent
  | [] => (.ok [], [])
  | deliver [] :: rest => take room rest
  | deliver (first :: more) :: rest =>
    (.ok ((first :: more).take room), deliver ((first :: more).drop room) :: rest)
  | fail fault :: rest => (.error fault, rest)
  | pause :: rest => (.ok [], rest)

theorem take_weight_ok {room : Nat} {events after : List SourceEvent} {got : Bytes}
    (h : take room events = (.ok got, after)) :
    totalWeight after + got.length ≤ totalWeight events := by
  induction events with
  | nil =>
    cases h
    simp [totalWeight]
  | cons event rest ih =>
    cases event with
    | deliver bytes =>
      cases bytes with
      | nil =>
        have := ih h
        simp only [totalWeight, weight] at this ⊢
        omega
      | cons first more =>
        cases h
        simp only [totalWeight, weight, List.length_drop, List.length_take]
        omega
    | fail fault => cases h
    | pause =>
      cases h
      simp only [totalWeight, weight, List.length_nil]
      omega

theorem take_weight_error {room : Nat} {events after : List SourceEvent} {fault : Fault}
    (h : take room events = (.error fault, after)) : totalWeight after < totalWeight events := by
  induction events with
  | nil => cases h
  | cons event rest ih =>
    cases event with
    | deliver bytes =>
      cases bytes with
      | nil =>
        have := ih h
        simp only [totalWeight, weight] at this ⊢
        omega
      | cons first more => cases h
    | fail fault =>
      cases h
      simp only [totalWeight, weight]
      omega
    | pause => cases h

end SourceEvent

namespace Source

def ofEvents (events : List SourceEvent) (limit : Option Nat) : Source := ⟨events, limit, 0, 0⟩

def weight (source : Source) : Nat := SourceEvent.totalWeight source.events

/-- The bytes still to be delivered, if nothing else gets in the way. -/
def remaining (source : Source) : Bytes := source.events.flatMap SourceEvent.bytes

def feed (source : Source) (events : List SourceEvent) : Source :=
  { source with events := source.events ++ events }

def room (source : Source) (size : Nat) : Nat :=
  match source.limit with
  | none => size
  | some limit => min size limit

/-- One call with a buffer of `size` bytes. No bytes mean the end of the source, or an empty buffer,
with which no event is touched. -/
def read (source : Source) (size : Nat) : Except Fault Bytes × Source :=
  let source := { source with calls := source.calls + 1 }
  if size = 0 then (.ok [], source)
  else match SourceEvent.take (source.room size) source.events with
    | (.error fault, events) => (.error fault, { source with events })
    | (.ok got, events) =>
      (.ok got, { source with events, delivered := source.delivered + got.length })

theorem read_weight_ok {source after : Source} {size : Nat} {got : Bytes}
    (h : source.read size = (.ok got, after)) : after.weight + got.length ≤ source.weight := by
  simp only [read] at h
  split at h
  · cases h
    simp [weight]
  · split at h
    · cases h
    · rename_i ht
      cases h
      exact SourceEvent.take_weight_ok ht

theorem read_weight_error {source after : Source} {size : Nat} {fault : Fault}
    (h : source.read size = (.error fault, after)) : after.weight < source.weight := by
  simp only [read] at h
  split at h
  · cases h
  · split at h
    · rename_i ht
      cases h
      exact SourceEvent.take_weight_error ht
    · cases h

end Source

end FramedSnappy
