import FramedSnappy.Proofs.Source.Reading

/-! What a loop of calls leaves of a script, event by event. However large the single calls are, the
bytes come off the script one by one, and the interruptions between them go with them. -/
namespace FramedSnappy

namespace SourceEvent

/-- Bytes that came before those of a later call. -/
def prepend (data : Bytes) (later : Except Fault Bytes × List SourceEvent) :
    Except Fault Bytes × List SourceEvent :=
  (later.1.map (data ++ ·), later.2)

theorem prepend_nil (later : Except Fault Bytes × List SourceEvent) : prepend [] later = later := by
  obtain ⟨_ | _, _⟩ := later <;> rfl

theorem prepend_append (data more : Bytes) (later : Except Fault Bytes × List SourceEvent) :
    prepend data (prepend more later) = prepend (data ++ more) later := by
  obtain ⟨_ | _, _⟩ := later <;> simp [prepend, Except.map]

/-- Takes `wanted` bytes off the front, unless a pause, the end or a fault comes first. Where no call
has room for a byte, a byte in front is an end. -/
def pull (fed : Bool) : Nat → List SourceEvent → Except Fault Bytes × List SourceEvent
  | 0, events => (.ok [], events)
  | _ + 1, [] => (.ok [], [])
  | wanted + 1, deliver [] :: rest => pull fed (wanted + 1) rest
  | wanted + 1, deliver (first :: more) :: rest =>
    if fed then prepend [first] (pull fed wanted (deliver more :: rest))
    else (.ok [], deliver (first :: more) :: rest)
  | wanted + 1, fail fault :: rest =>
    if fault.interrupted then pull fed (wanted + 1) rest else (.error fault, rest)
  | _ + 1, pause :: rest => (.ok [], rest)
termination_by _ events => totalWeight events
decreasing_by
  all_goals
    simp only [totalWeight, weight, List.length_nil, List.length_cons]
    omega

variable {fed : Bool} {room wanted : Nat} {events after rest : List SourceEvent} {got : Bytes}
  {fault : Fault}

theorem pull_deliver (data more : Bytes) (inside : data.length ≤ wanted) :
    pull true wanted (deliver (data ++ more) :: rest) =
      prepend data (pull true (wanted - data.length) (deliver more :: rest)) := by
  induction data generalizing wanted with
  | nil => exact (prepend_nil _).symm
  | cons first data ih =>
    cases wanted with
    | zero => cases inside
    | succ wanted =>
      rw [List.cons_append, pull, if_pos rfl, ih (Nat.le_of_succ_le_succ inside), prepend_append,
        List.length_cons, Nat.add_sub_add_right]
      rfl

/-- One call is the first part of the whole. -/
theorem pull_take (some : room ≠ 0 ↔ fed = true) (inside : room ≤ wanted + 1) :
    pull fed (wanted + 1) events =
      match take room events with
      | (.error fault, after) =>
        if fault.interrupted then pull fed (wanted + 1) after else (.error fault, after)
      | (.ok [], after) => (.ok [], after)
      | (.ok (first :: more), after) =>
        prepend (first :: more) (pull fed (wanted - more.length) after) := by
  induction events with
  | nil => rw [pull, take]
  | cons event rest ih =>
    cases event with
    | deliver bytes =>
      cases bytes with
      | nil => rw [pull, take, ih]
      | cons first more =>
        cases room with
        | zero =>
          have starved : ¬ fed = true := fun open_ => some.mpr open_ rfl
          rw [pull, take, if_neg starved]
          rfl
        | succ room =>
          obtain rfl : fed = true := some.mp (Nat.succ_ne_zero room)
          have short : (List.take (room + 1) (first :: more)).length ≤ wanted + 1 :=
            Nat.le_trans (List.length_take_le _ _) inside
          have parts := @pull_deliver (wanted + 1) rest (List.take (room + 1) (first :: more))
            (List.drop (room + 1) (first :: more)) short
          rw [List.take_append_drop] at parts
          rw [parts, take, List.take_succ_cons, List.length_cons, Nat.add_sub_add_right]
    | fail fault => rw [pull, take]
    | pause => rw [pull, take]

end SourceEvent

namespace Source

/-- Some byte fits into a call. -/
def fed (source : Source) : Bool := source.limit ≠ some 0

theorem pull_read (source : Source) {size wanted : Nat} (left : wanted ≠ 0) (some : size ≠ 0)
    (inside : size ≤ wanted) :
    SourceEvent.pull source.fed wanted source.events =
      match source.read size with
      | (.error fault, after) =>
        if fault.interrupted then SourceEvent.pull after.fed wanted after.events
        else (.error fault, after.events)
      | (.ok [], after) => (.ok [], after.events)
      | (.ok (first :: more), after) =>
        SourceEvent.prepend (first :: more)
          (SourceEvent.pull after.fed (wanted - (more.length + 1)) after.events) := by
  obtain ⟨wanted, rfl⟩ := Nat.exists_eq_succ_of_ne_zero left
  have room : source.room size ≠ 0 ↔ source.fed = true := by
    by_cases starved : source.limit = .some 0
    · simp [fed, starved, room_starved starved]
    · simp [fed, starved, room_pos starved some]
  rw [SourceEvent.pull_take room (Nat.le_trans (room_le source size) inside)]
  simp only [read, if_neg some, Nat.succ_eq_add_one, Nat.add_sub_add_right]
  rw [show Source.room { source with calls := source.calls + 1 } size = source.room size from rfl]
  rcases SourceEvent.take (source.room size) source.events with ⟨_ | _ | _, events⟩ <;> rfl

/-- However the bytes are collected. -/
theorem gather_pull (source : Source) (wanted : Nat) (got : Array UInt8) :
    (source.gather wanted got).1 =
        (SourceEvent.pull source.fed wanted source.events).1.map (got.toList ++ ·) ∧
      (source.gather wanted got).2.events =
        (SourceEvent.pull source.fed wanted source.events).2 := by
  fun_induction gather source wanted got with
  | case1 source got => simp [SourceEvent.pull, Except.map]
  | case2 source wanted got left fault after hr _ again ih =>
    rw [pull_read source left left (Nat.le_refl _), hr]
    simpa [again] using ih
  | case3 source wanted got left fault after hr _ final =>
    rw [pull_read source left left (Nat.le_refl _), hr]
    simp [final, Except.map]
  | case4 source wanted got left after hr =>
    rw [pull_read source left left (Nat.le_refl _), hr]
    simp [Except.map]
  | case5 source wanted got left first more after hr _ ih =>
    rw [pull_read source left left (Nat.le_refl _), hr]
    dsimp only [SourceEvent.prepend]
    rw [ih.1, ih.2]
    rcases SourceEvent.pull after.fed (wanted - (more.length + 1)) after.events with ⟨_ | _, _⟩ <;>
      simp [Except.map]

/-- However they are passed over. -/
theorem skip_pull (source : Source) {portion : Nat} (some : portion ≠ 0) (count : Nat) :
    (source.skip portion count).1 =
        (SourceEvent.pull source.fed count source.events).1.map (count - ·.length) ∧
      (source.skip portion count).2.events =
        (SourceEvent.pull source.fed count source.events).2 := by
  have asks {count : Nat} (left : count ≠ 0) : min portion count ≠ 0 := by omega
  fun_induction skip source portion count with
  | case1 source => simp [SourceEvent.pull, Except.map]
  | case2 source count left fault after hr _ again ih =>
    rw [pull_read source left (asks left) (Nat.min_le_right _ _), hr]
    simpa [again] using ih
  | case3 source count left fault after hr _ final =>
    rw [pull_read source left (asks left) (Nat.min_le_right _ _), hr]
    simp [final, Except.map]
  | case4 source count left after hr =>
    rw [pull_read source left (asks left) (Nat.min_le_right _ _), hr]
    simp [Except.map]
  | case5 source count left first more after hr _ ih =>
    rw [pull_read source left (asks left) (Nat.min_le_right _ _), hr]
    dsimp only [SourceEvent.prepend]
    rw [ih.1, ih.2]
    rcases SourceEvent.pull after.fed (count - (more.length + 1)) after.events with ⟨_ | _, _⟩
    · exact ⟨rfl, rfl⟩
    · simp only [Except.map, List.length_append, List.length_cons, Nat.sub_sub, and_self]

end Source

end FramedSnappy
