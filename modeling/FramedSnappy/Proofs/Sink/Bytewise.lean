import FramedSnappy.Proofs.Sink

/-! What a sink makes of the bytes of a write does not depend on how many of them it is offered at
once: writing all of them is putting one after the other. -/
namespace FramedSnappy

namespace SinkEvent

/-- The front of a script, offered a byte until it is taken or refused. -/
def put : List SinkEvent → Except Fault Unit × List SinkEvent
  | [] => (.ok (), [])
  | accept 0 :: rest => put rest
  | accept (count + 1) :: rest => (.ok (), accept count :: rest)
  | fail fault :: rest => if fault.interrupted then put rest else (.error fault, rest)
  | refuse :: rest => (.error .shortWrite, rest)

/-- A byte that is not taken meets a fault of the script, or one that took nothing. -/
theorem put_error {events after : List SinkEvent} {f : Fault}
    (h : put events = (.error f, after)) :
    fail f ∈ events ∧ f.interrupted = false ∨ f = .shortWrite := by
  fun_induction put events with
  | case1 => cases h
  | case2 rest ih => exact (ih h).imp_left fun own => ⟨List.mem_cons_of_mem _ own.1, own.2⟩
  | case3 rest count => cases h
  | case4 rest fault again ih =>
    exact (ih h).imp_left fun own => ⟨List.mem_cons_of_mem _ own.1, own.2⟩
  | case5 rest fault final =>
    cases h
    exact .inl ⟨List.mem_cons_self, Bool.eq_false_iff.mpr final⟩
  | case6 rest =>
    cases h
    exact .inr rfl

theorem put_ok {events after : List SinkEvent} (h : put events = (.ok (), after)) (f : Fault)
    (mem : fail f ∈ after) : fail f ∈ events := by
  fun_induction put events with
  | case1 =>
    cases h
    exact mem
  | case2 rest ih => exact List.mem_cons_of_mem _ (ih h)
  | case3 rest count =>
    cases h
    simpa using mem
  | case4 rest fault again ih => exact List.mem_cons_of_mem _ (ih h)
  | case5 rest fault final => cases h
  | case6 rest => cases h

theorem put_of_take_error {offered : Bytes} {events after : List SinkEvent} {f : Fault}
    (h : take offered events = (.error f, after)) :
    put events = if f.interrupted then put after else (.error f, after) := by
  induction events with
  | nil => cases h
  | cons event rest ih =>
    cases event with
    | accept count =>
      cases count with
      | zero => exact ih h
      | succ count => cases h
    | fail f =>
      cases h
      rfl
    | refuse => cases h

theorem put_of_take_nothing {offered : Bytes} {events after : List SinkEvent} (some : offered ≠ [])
    (h : take offered events = (.ok [], after)) : put events = (.error .shortWrite, after) := by
  induction events with
  | nil =>
    cases h
    exact absurd rfl some
  | cons event rest ih =>
    cases event with
    | accept count =>
      cases count with
      | zero => exact ih h
      | succ count =>
        simp only [take, Prod.mk.injEq, Except.ok.injEq, List.take_eq_nil_iff] at h
        exact absurd h.1 (by simp [some])
    | fail f => cases h
    | refuse =>
      cases h
      rfl

end SinkEvent

namespace Sink

def put (sink : Sink) (byte : UInt8) : Except Fault Unit × Sink :=
  if sink.limit = some 0 then (.error .shortWrite, sink)
  else match SinkEvent.put sink.events with
    | (.ok (), events) => (.ok (), { sink with events, received := sink.received ++ [byte] })
    | (.error fault, events) => (.error fault, { sink with events })

def putAll (sink : Sink) : Bytes → Except Fault Unit × Sink
  | [] => (.ok (), sink)
  | first :: more =>
    match sink.put first with
    | (.ok (), after) => after.putAll more
    | (.error fault, after) => (.error fault, after)

theorem put_ok {sink after : Sink} {byte : UInt8} (h : sink.put byte = (.ok (), after)) (f : Fault)
    (mem : .fail f ∈ after.events) : .fail f ∈ sink.events := by
  unfold put at h
  split at h
  · cases h
  · split at h
    · rename_i events taken
      cases h
      exact SinkEvent.put_ok taken f mem
    · cases h

theorem put_error {sink after : Sink} {byte : UInt8} {f : Fault}
    (h : sink.put byte = (.error f, after)) :
    .fail f ∈ sink.events ∧ f.interrupted = false ∨ f = .shortWrite := by
  unfold put at h
  split at h
  · cases h
    exact .inr rfl
  · split at h
    · cases h
    · rename_i g events refused
      cases h
      exact SinkEvent.put_error refused

theorem put_all_append (sink : Sink) (left right : Bytes) :
    sink.putAll (left ++ right) =
      match sink.putAll left with
      | (.ok (), after) => after.putAll right
      | (.error fault, after) => (.error fault, after) := by
  induction left generalizing sink with
  | nil => rfl
  | cons first more ih =>
    rw [List.cons_append, putAll, putAll]
    rcases sink.put first with ⟨f | _, after⟩
    · rfl
    · exact ih after

theorem put_all_accept {sink : Sink} (fed : sink.limit ≠ some 0) {count : Nat}
    {rest : List SinkEvent} {data : Bytes} (room : data.length ≤ count) :
    ({ sink with events := .accept count :: rest } : Sink).putAll data =
      (.ok (), { sink with
        events := .accept (count - data.length) :: rest, received := sink.received ++ data }) := by
  induction data generalizing sink count with
  | nil => simp [putAll]
  | cons first more ih =>
    cases count with
    | zero => cases room
    | succ count =>
      have fewer : more.length ≤ count := Nat.le_of_succ_le_succ room
      have next := @ih { sink with received := sink.received ++ [first] } fed count fewer
      simp only [putAll, put, if_neg fed, SinkEvent.put]
      simpa using next

theorem put_all_open {sink : Sink} (fed : sink.limit ≠ some 0) (data : Bytes) :
    ({ sink with events := [] } : Sink).putAll data =
      (.ok (), { sink with events := [], received := sink.received ++ data }) := by
  induction data generalizing sink with
  | nil => simp [putAll]
  | cons first more ih =>
    have next := @ih { sink with received := sink.received ++ [first] } fed
    simp only [putAll, put, if_neg fed, SinkEvent.put]
    simpa using next

theorem put_all_taken {sink : Sink} (fed : sink.limit ≠ some 0) {offered taken : Bytes}
    {events after : List SinkEvent} (some : taken ≠ [])
    (h : SinkEvent.take offered events = (.ok taken, after)) :
    ({ sink with events } : Sink).putAll taken =
      (.ok (), { sink with events := after, received := sink.received ++ taken }) := by
  induction events with
  | nil =>
    cases h
    exact put_all_open fed _
  | cons event rest ih =>
    cases event with
    | accept count =>
      cases count with
      | zero =>
        rw [← ih h]
        cases taken with
        | nil => exact absurd rfl some
        | cons first more => simp only [putAll, put, if_neg fed, SinkEvent.put]
      | succ count =>
        cases h
        exact put_all_accept fed (List.length_take_le _ _)
    | fail f => cases h
    | refuse =>
      cases h
      exact absurd rfl some

theorem offer_eq_nil {sink : Sink} {first : UInt8} {more : Bytes} :
    sink.offer (first :: more) = [] ↔ sink.limit = some 0 := by
  unfold offer
  split
  · rename_i none
    simp [none]
  · rename_i limit h
    simp [h]

theorem put_of_write_error {sink after : Sink} {first : UInt8} {more : Bytes} {f : Fault}
    (h : sink.write (first :: more) = (.error f, after)) (byte : UInt8) :
    sink.put byte = if f.interrupted then after.put byte else (.error f, after) := by
  simp only [write] at h
  split at h
  · cases h
  · rename_i offered
    rw [List.isEmpty_iff, offer_eq_nil] at offered
    split at h
    · rename_i g events taken
      cases h
      simp only [put, if_neg offered, SinkEvent.put_of_take_error taken]
      by_cases again : f.interrupted = true
      · simp only [if_pos again]
      · simp only [if_neg again]
    · cases h

theorem put_of_write_nothing {sink after : Sink} {first : UInt8} {more : Bytes}
    (h : sink.write (first :: more) = (.ok 0, after)) (byte : UInt8) :
    sink.put byte = (.error .shortWrite, after) := by
  simp only [write] at h
  split at h
  · rename_i starved
    cases h
    rw [List.isEmpty_iff, offer_eq_nil] at starved
    rw [put, if_pos starved]
  · rename_i offered
    rw [List.isEmpty_iff] at offered
    split at h
    · cases h
    · rename_i taken events took
      simp only [Prod.mk.injEq, Except.ok.injEq, List.length_eq_zero_iff] at h
      obtain ⟨rfl, rfl⟩ := h
      have refused := SinkEvent.put_of_take_nothing offered took
      rw [offer_eq_nil] at offered
      simp [put, if_neg offered, refused]

theorem put_all_of_write {sink after : Sink} {data : Bytes} {count : Nat}
    (h : sink.write data = (.ok (count + 1), after)) :
    sink.putAll (data.take (count + 1)) = (.ok (), after) := by
  have fed : sink.limit ≠ some 0 := by
    intro starved
    simp [write, offer, starved] at h
  simp only [write] at h
  split at h
  · cases h
  · split at h
    · cases h
    · rename_i taken events took
      simp only [Prod.mk.injEq, Except.ok.injEq] at h
      obtain ⟨length, rfl⟩ := h
      have front := (SinkEvent.take_front took).trans (offer_front sink data)
      have some : taken ≠ [] := List.ne_nil_of_length_eq_add_one length
      rw [← length, ← List.prefix_iff_eq_take.mp front]
      exact put_all_taken fed some took

theorem write_all_eq (sink : Sink) (data : Bytes) : sink.writeAll data = sink.putAll data := by
  fun_induction writeAll sink data with
  | case1 sink => rfl
  | case2 sink first more f after h _ again ih =>
    rw [ih, putAll, putAll, put_of_write_error h, if_pos again]
  | case3 sink first more f after h _ final =>
    rw [putAll, put_of_write_error h, if_neg final]
  | case4 sink first more after h => rw [putAll, put_of_write_nothing h]
  | case5 sink first more count after h _ ih =>
    have split := put_all_append sink ((first :: more).take (count + 1)) (more.drop count)
    rw [List.take_succ_cons, List.cons_append, List.take_append_drop, ← List.take_succ_cons,
      put_all_of_write h] at split
    rw [ih, split]

/-- Where one write ends and the next one starts is nothing to the sink. -/
theorem write_all_append (sink : Sink) (left right : Bytes) :
    sink.writeAll (left ++ right) =
      match sink.writeAll left with
      | (.ok (), after) => after.writeAll right
      | (.error fault, after) => (.error fault, after) := by
  simp only [write_all_eq]
  exact put_all_append sink left right

theorem write_all_error {sink after : Sink} {data : Bytes} {f : Fault}
    (h : sink.writeAll data = (.error f, after)) :
    .fail f ∈ sink.events ∧ f.interrupted = false ∨ f = .shortWrite := by
  rw [write_all_eq] at h
  fun_induction putAll sink data with
  | case1 sink => cases h
  | case2 sink first more middle told ih =>
    exact (ih h).imp_left fun own => ⟨put_ok told f own.1, own.2⟩
  | case3 sink first more g middle told =>
    cases h
    exact put_error told

/-- What has arrived tells how far a write of two parts has come. -/
theorem write_all_ok_iff {sink : Sink} {left right taken : Bytes}
    (received : (sink.writeAll (left ++ right)).2.received.toList =
      sink.received.toList ++ taken) :
    (sink.writeAll left).1 = .ok () ↔ left <+: taken := by
  rw [write_all_append] at received
  obtain ⟨got, missing, split, front, ending⟩ := write_all_takes sink left
  rcases h : sink.writeAll left with ⟨f | _, after⟩
  · rw [h] at received front ending
    have same : got = taken := List.append_cancel_left (front.symm.trans received)
    have some : missing ≠ [] := by
      rcases ending with ⟨done, -⟩ | ⟨-, -, some⟩
      · cases done
      · exact some
    refine iff_of_false nofun fun whole => ?_
    have long := whole.length_le
    have := List.length_pos_iff.mpr some
    rw [split, same, List.length_append] at long
    omega
  · rw [h] at received front ending
    obtain rfl : missing = [] := by
      rcases ending with ⟨-, none⟩ | ⟨_, failed, -⟩
      · exact none
      · cases failed
    obtain ⟨more, _, -, behind, -⟩ := write_all_takes after right
    have joined : sink.received.toList ++ (left ++ more) = sink.received.toList ++ taken := by
      rw [← received, behind, front, split, List.append_nil, List.append_assoc]
    exact iff_of_true rfl ⟨more, List.append_cancel_left joined⟩

end Sink

end FramedSnappy
