import FramedSnappy.Sink

/-! What a sink has received after a write: a front of the data, and all of it if and only if the
write succeeded. A sink that is willing to take everything does so. -/
namespace FramedSnappy

namespace SinkEvent

def Willing : SinkEvent → Prop
  | accept _ => True
  | fail f => f.interrupted = true
  | refuse => False

theorem take_front {offered taken : Bytes} {events after : List SinkEvent}
    (h : take offered events = (.ok taken, after)) : taken <+: offered := by
  induction events with
  | nil =>
    cases h
    exact List.prefix_refl _
  | cons event rest ih =>
    cases event with
    | accept count =>
      cases count with
      | zero => exact ih h
      | succ count =>
        cases h
        exact List.take_prefix _ _
    | fail f => cases h
    | refuse =>
      cases h
      exact List.nil_prefix

theorem take_willing {offered : Bytes} {events : List SinkEvent}
    (willing : ∀ event ∈ events, event.Willing) (some : offered ≠ []) :
    (∀ event ∈ (take offered events).2, event.Willing) ∧
      (∀ f, (take offered events).1 = .error f → f.interrupted = true) ∧
      (∀ taken, (take offered events).1 = .ok taken → taken ≠ []) := by
  induction events with
  | nil =>
    refine ⟨willing, nofun, ?_⟩
    rintro taken h
    cases h
    exact some
  | cons event rest ih =>
    have first := willing event List.mem_cons_self
    have others : ∀ event ∈ rest, event.Willing := fun event mem =>
      willing event (List.mem_cons_of_mem _ mem)
    cases event with
    | accept count =>
      cases count with
      | zero => exact ih others
      | succ count =>
        refine ⟨?_, nofun, ?_⟩
        · intro event mem
          rcases List.mem_cons.mp mem with rfl | later
          · trivial
          · exact others event later
        · intro taken h
          cases h
          simpa using some
    | fail f =>
      refine ⟨others, ?_, nofun⟩
      intro f h
      cases h
      exact first
    | refuse => exact first.elim

end SinkEvent

namespace Sink

/-- A sink that may interrupt but never fails. -/
structure Willing (sink : Sink) : Prop where
  room : sink.limit ≠ some 0
  events : ∀ event ∈ sink.events, event.Willing
  flushes : ∀ answer ∈ sink.flushFaults, answer = none

theorem plain_willing : plain.Willing := by
  constructor <;> simp [plain, ofEvents]

theorem offer_front (sink : Sink) (data : Bytes) : sink.offer data <+: data := by
  unfold offer
  split
  · exact List.prefix_refl _
  · exact List.take_prefix _ _

theorem offer_ne_nil {sink : Sink} (room : sink.limit ≠ some 0) {data : Bytes} (some : data ≠ []) :
    sink.offer data ≠ [] := by
  unfold offer
  split
  · exact some
  · rename_i limit h
    have : limit ≠ 0 := by
      rintro rfl
      exact room h
    simp [this, some]

theorem write_ok {sink after : Sink} {data : Bytes} {count : Nat}
    (h : sink.write data = (.ok count, after)) :
    after.received.toList = sink.received.toList ++ data.take count ∧
      after.limit = sink.limit ∧ after.flushFaults = sink.flushFaults := by
  simp only [write] at h
  split at h
  · cases h
    simp
  · split at h
    · cases h
    · rename_i taken
      cases h
      have front := (SinkEvent.take_front taken).trans (offer_front sink data)
      refine ⟨?_, rfl, rfl⟩
      rw [← List.prefix_iff_eq_take.mp front]
      exact Array.toList_appendList

theorem write_error {sink after : Sink} {data : Bytes} {f : Fault}
    (h : sink.write data = (.error f, after)) :
    after.received = sink.received ∧ after.limit = sink.limit ∧
      after.flushFaults = sink.flushFaults := by
  simp only [write] at h
  split at h
  · cases h
  · split at h
    · cases h
      exact ⟨rfl, rfl, rfl⟩
    · cases h

theorem write_willing {sink : Sink} (willing : sink.Willing) {data : Bytes} (some : data ≠ []) :
    (sink.write data).2.Willing ∧
      (∀ f, (sink.write data).1 = .error f → f.interrupted = true) ∧
      (sink.write data).1 ≠ .ok 0 := by
  have offered := offer_ne_nil willing.room some
  obtain ⟨events, failed, took⟩ := SinkEvent.take_willing willing.events offered
  unfold write
  dsimp only
  split
  · rename_i none
    exact absurd (List.isEmpty_iff.mp none) offered
  · split
    · rename_i f rest h
      rw [h] at events failed
      refine ⟨⟨willing.room, events, willing.flushes⟩, ?_, nofun⟩
      intro other same
      cases same
      exact failed f rfl
    · rename_i taken rest h
      rw [h] at events took
      refine ⟨⟨willing.room, events, willing.flushes⟩, nofun, ?_⟩
      intro none
      exact took taken rfl (List.eq_nil_of_length_eq_zero (Except.ok.inj none))

theorem write_all_takes (sink : Sink) (data : Bytes) :
    ∃ taken left, data = taken ++ left ∧
      (sink.writeAll data).2.received.toList = sink.received.toList ++ taken ∧
      ((sink.writeAll data).1 = .ok () ∧ left = [] ∨
        ∃ f, (sink.writeAll data).1 = .error f ∧ left ≠ []) := by
  fun_induction writeAll sink data with
  | case1 sink => exact ⟨[], [], rfl, by simp, .inl ⟨rfl, rfl⟩⟩
  | case2 sink first more f after h _ again ih =>
    rw [← (write_error h).1]
    exact ih
  | case3 sink first more f after h _ final =>
    refine ⟨[], first :: more, rfl, ?_, .inr ⟨f, rfl, by simp⟩⟩
    simp [(write_error h).1]
  | case4 sink first more after h =>
    refine ⟨[], first :: more, rfl, ?_, .inr ⟨_, rfl, by simp⟩⟩
    simp [(write_ok h).1]
  | case5 sink first more count after h _ ih =>
    obtain ⟨taken, left, split, received, ending⟩ := ih
    refine ⟨first :: (more.take count ++ taken), left, ?_, ?_, ending⟩
    · rw [List.cons_append, List.append_assoc, ← split, List.take_append_drop]
    · rw [received, (write_ok h).1, List.take_succ_cons, List.append_assoc, List.cons_append]

theorem write_all_received {sink after : Sink} {data : Bytes}
    (h : sink.writeAll data = (.ok (), after)) :
    after.received.toList = sink.received.toList ++ data := by
  obtain ⟨taken, left, split, received, ending⟩ := write_all_takes sink data
  rw [h] at received ending
  rcases ending with ⟨-, rfl⟩ | ⟨_, failed, -⟩
  · rw [split, List.append_nil]
    exact received
  · cases failed

theorem write_all_willing {sink : Sink} (willing : sink.Willing) (data : Bytes) :
    (sink.writeAll data).1 = .ok () ∧ (sink.writeAll data).2.Willing := by
  fun_induction writeAll sink data with
  | case1 sink => exact ⟨rfl, willing⟩
  | case2 sink first more f after h _ again ih =>
    have wrote := write_willing willing (List.cons_ne_nil first more)
    rw [h] at wrote
    exact ih wrote.1
  | case3 sink first more f after h _ final =>
    have wrote := write_willing willing (List.cons_ne_nil first more)
    rw [h] at wrote
    exact absurd (wrote.2.1 f rfl) final
  | case4 sink first more after h =>
    have wrote := write_willing willing (List.cons_ne_nil first more)
    rw [h] at wrote
    exact absurd rfl wrote.2.2
  | case5 sink first more count after h _ ih =>
    have wrote := write_willing willing (List.cons_ne_nil first more)
    rw [h] at wrote
    exact ih wrote.1

theorem flush_willing {sink : Sink} (willing : sink.Willing) :
    sink.flush.1 = .ok () ∧ sink.flush.2.Willing ∧ sink.flush.2.received = sink.received := by
  unfold flush
  dsimp only
  split
  · exact ⟨rfl, ⟨willing.room, willing.events, willing.flushes⟩, rfl⟩
  · rename_i rest h
    refine ⟨rfl, ⟨willing.room, willing.events, ?_⟩, rfl⟩
    intro answer mem
    exact willing.flushes answer (h ▸ List.mem_cons_of_mem _ mem)
  · rename_i f rest h
    have := willing.flushes (some f) (h ▸ List.mem_cons_self)
    cases this

end Sink

end FramedSnappy
