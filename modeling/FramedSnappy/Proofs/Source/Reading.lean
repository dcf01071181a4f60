import FramedSnappy.Frame.Reading
import FramedSnappy.Proofs.Source.Signal

/-! The loops over a source, in terms of its signals. -/
namespace FramedSnappy

namespace SourceEvent

def signals : SourceEvent → List Signal
  | deliver bytes => bytes.map .byte
  | fail f => if f.interrupted then [] else [.fault f]
  | pause => [.pause]

theorem signals_fail (f : Fault) :
    signals (.fail f) = if f.interrupted then [] else [.fault f] := rfl

/-- What one call makes of a script. With no room at all a byte in front stays where it is. -/
theorem take_signals_ok {room : Nat} {events after : List SourceEvent} {got : Bytes}
    (h : take room events = (.ok got, after)) :
    (got ≠ [] ∧ got.length ≤ room ∧
      events.flatMap signals = got.map .byte ++ after.flatMap signals) ∨
    (got = [] ∧ events.flatMap signals = .pause :: after.flatMap signals) ∨
    (got = [] ∧ after.flatMap signals = events.flatMap signals ∧
      (room ≠ 0 → events.flatMap signals = []) ∧
      ∀ signal ∈ (events.flatMap signals).head?, signal.isByte = true) := by
  induction events with
  | nil =>
    cases h
    simp
  | cons event rest ih =>
    cases event with
    | deliver bytes =>
      cases bytes with
      | nil => simpa [signals] using ih h
      | cons first more =>
        cases h
        cases room with
        | zero => simp [signals, Signal.isByte]
        | succ room =>
          left
          refine ⟨by simp, List.length_take_le _ _, ?_⟩
          simp [signals, ← List.append_assoc]
    | fail f => cases h
    | pause =>
      cases h
      simp [signals]

theorem take_signals_error {room : Nat} {events after : List SourceEvent} {f : Fault}
    (h : take room events = (.error f, after)) :
    events.flatMap signals = signals (.fail f) ++ after.flatMap signals := by
  induction events with
  | nil => cases h
  | cons event rest ih =>
    cases event with
    | deliver bytes =>
      cases bytes with
      | nil => simpa [signals] using ih h
      | cons first more => cases h
    | fail f =>
      cases h
      simp
    | pause => cases h

theorem take_bytes_ok {room : Nat} {events after : List SourceEvent} {got : Bytes}
    (h : take room events = (.ok got, after)) :
    events.flatMap bytes = got ++ after.flatMap bytes := by
  induction events with
  | nil =>
    cases h
    rfl
  | cons event rest ih =>
    cases event with
    | deliver data =>
      cases data with
      | nil => exact ih h
      | cons first more =>
        cases h
        simp only [List.flatMap_cons, bytes]
        rw [← List.append_assoc, List.take_append_drop]
    | fail f => cases h
    | pause =>
      cases h
      rfl

theorem take_bytes_error {room : Nat} {events after : List SourceEvent} {f : Fault}
    (h : take room events = (.error f, after)) :
    events.flatMap bytes = after.flatMap bytes := by
  induction events with
  | nil => cases h
  | cons event rest ih =>
    cases event with
    | deliver data =>
      cases data with
      | nil => exact ih h
      | cons first more => cases h
    | fail f =>
      cases h
      rfl
    | pause => cases h

theorem bytes_signals (events : List SourceEvent) :
    Signal.bytes (events.flatMap signals) = events.flatMap bytes := by
  induction events with
  | nil => rfl
  | cons event rest ih =>
    rw [List.flatMap_cons, List.flatMap_cons, Signal.bytes_append, ih]
    congr 1
    cases event with
    | deliver data => exact Signal.bytes_map data
    | fail f =>
      rw [signals_fail]
      split <;> rfl
    | pause => rfl

end SourceEvent

namespace Source

/-- A source that has no room for a single byte in any call ends before the first one. -/
def signals (source : Source) : List Signal :=
  let said := source.events.flatMap SourceEvent.signals
  if source.limit = some 0 then said.takeWhile (! ·.isByte) else said

def total (source : Source) : Nat := source.delivered + (Signal.bytes source.signals).length

structure Follows (after source : Source) : Prop where
  limit : after.limit = source.limit
  total : after.total = source.total
  taken : ∃ got, source.remaining = got ++ after.remaining ∧
    after.delivered = source.delivered + got.length

theorem Follows.refl (source : Source) : source.Follows source := ⟨rfl, rfl, [], rfl, rfl⟩

theorem Follows.trans {last after source : Source} (second : last.Follows after)
    (first : after.Follows source) : last.Follows source := by
  obtain ⟨got, remaining, delivered⟩ := first.taken
  obtain ⟨more, left, count⟩ := second.taken
  refine ⟨second.limit.trans first.limit, second.total.trans first.total, got ++ more, ?_, ?_⟩
  · rw [remaining, left, List.append_assoc]
  · rw [count, delivered, List.length_append, Nat.add_assoc]

theorem signals_starved (source : Source) (starved : source.limit = some 0) :
    source.signals = (source.events.flatMap SourceEvent.signals).takeWhile (! ·.isByte) := by
  simp [signals, starved]

theorem signals_fed (source : Source) (fed : source.limit ≠ some 0) :
    source.signals = source.events.flatMap SourceEvent.signals := by
  simp [signals, fed]

theorem signals_deliver (data : Bytes) :
    (ofEvents [.deliver data] none).signals = data.map .byte := by
  simp [signals, ofEvents, SourceEvent.signals]

theorem feed_nil (source : Source) : source.feed [] = source := by
  simp [feed]

theorem feed_append (source : Source) (first more : List SourceEvent) :
    source.feed (first ++ more) = (source.feed first).feed more := by
  simp [feed]

theorem remaining_feed (source : Source) (events : List SourceEvent) :
    (source.feed events).remaining = source.remaining ++ events.flatMap SourceEvent.bytes :=
  List.flatMap_append

theorem room_pos {source : Source} {size : Nat} (fed : source.limit ≠ some 0) (some : size ≠ 0) :
    source.room size ≠ 0 := by
  unfold room
  split
  · exact some
  · rename_i limit hl
    have : limit ≠ 0 := by
      rintro rfl
      exact fed hl
    omega

theorem room_le (source : Source) (size : Nat) : source.room size ≤ size := by
  unfold room
  split
  · exact Nat.le_refl _
  · exact Nat.min_le_left _ _

theorem room_starved {source : Source} (starved : source.limit = some 0) (size : Nat) :
    source.room size = 0 := by
  simp [room, starved]

theorem read_signals_ok {source after : Source} {size : Nat} {got : Bytes}
    (h : source.read size = (.ok got, after)) (some : size ≠ 0) :
    after.limit = source.limit ∧ after.delivered = source.delivered + got.length ∧
    ((got ≠ [] ∧ got.length ≤ size ∧ source.signals = got.map .byte ++ after.signals) ∨
      (got = [] ∧ source.signals = .pause :: after.signals) ∨
      (got = [] ∧ source.signals = [] ∧ after.signals = [])) := by
  simp only [read, if_neg some] at h
  split at h
  · cases h
  · rename_i events taken
    obtain ⟨read, rfl⟩ := Prod.mk.inj h
    cases read
    refine ⟨rfl, rfl, ?_⟩
    have said := SourceEvent.take_signals_ok taken
    by_cases starved : source.limit = .some 0
    · rw [signals_starved source starved, signals_starved ⟨events, _, _, _⟩ starved]
      rw [show Source.room { source with calls := source.calls + 1 } size = 0 from
        room_starved starved size] at said
      rcases said with ⟨filled, none, _⟩ | ⟨empty, paused⟩ | ⟨empty, same, _, first⟩
      · exact absurd (List.eq_nil_of_length_eq_zero (Nat.le_zero.mp none)) filled
      · exact .inr (.inl ⟨empty, by simp [paused, Signal.isByte]⟩)
      · have spent : (source.events.flatMap SourceEvent.signals).takeWhile (! ·.isByte) = [] := by
          cases hs : source.events.flatMap SourceEvent.signals with
          | nil => rfl
          | cons signal rest => simp [first signal (by simp [hs])]
        exact .inr (.inr ⟨empty, spent, by rw [same, spent]⟩)
    · rw [signals_fed source starved, signals_fed ⟨events, _, _, _⟩ starved]
      rcases said with ⟨filled, short, said⟩ | ⟨empty, paused⟩ | ⟨empty, same, spent, _⟩
      · exact .inl ⟨filled, Nat.le_trans short (room_le _ size), said⟩
      · exact .inr (.inl ⟨empty, paused⟩)
      · have spent := spent (room_pos starved some)
        exact .inr (.inr ⟨empty, spent, same.trans spent⟩)

theorem read_signals_error {source after : Source} {size : Nat} {f : Fault}
    (h : source.read size = (.error f, after)) :
    after.limit = source.limit ∧ after.delivered = source.delivered ∧
      source.signals = SourceEvent.signals (.fail f) ++ after.signals := by
  simp only [read] at h
  split at h
  · cases h
  · split at h
    · rename_i events taken
      obtain ⟨failed, rfl⟩ := Prod.mk.inj h
      cases failed
      refine ⟨rfl, rfl, ?_⟩
      have said := SourceEvent.take_signals_error taken
      by_cases starved : source.limit = .some 0
      · rw [signals_starved source starved, signals_starved ⟨events, _, _, _⟩ starved, said,
          SourceEvent.signals_fail]
        split <;> simp [Signal.isByte]
      · rw [signals_fed source starved, signals_fed ⟨events, _, _, _⟩ starved, said]
    · cases h

/-- What one call hands over. -/
def got (source : Source) (size : Nat) : Bytes :=
  match (source.read size).1 with
  | .ok data => data
  | .error _ => []

theorem read_got (source : Source) (size : Nat) :
    source.remaining = source.got size ++ (source.read size).2.remaining ∧
      (source.read size).2.delivered = source.delivered + (source.got size).length := by
  unfold got read
  by_cases none : size = 0
  · simp only [if_pos none]
    exact ⟨rfl, rfl⟩
  · simp only [if_neg none]
    let called := { source with calls := source.calls + 1 }
    rcases taken : SourceEvent.take (called.room size) source.events with ⟨fault | data, events⟩
    · exact ⟨SourceEvent.take_bytes_error taken, rfl⟩
    · exact ⟨SourceEvent.take_bytes_ok taken, rfl⟩

theorem read_taken (source : Source) (size : Nat) :
    ∃ got, source.remaining = got ++ (source.read size).2.remaining ∧
      (source.read size).2.delivered = source.delivered + got.length :=
  ⟨source.got size, source.read_got size⟩

theorem read_follows (source : Source) (size : Nat) : (source.read size).2.Follows source := by
  have taken := read_taken source size
  by_cases some : size = 0
  · simp only [read, if_pos some] at taken ⊢
    exact ⟨rfl, rfl, taken⟩
  · rcases h : source.read size with ⟨_ | got, after⟩
    · rw [h] at taken
      obtain ⟨limit, delivered, said⟩ := read_signals_error h
      refine ⟨limit, ?_, taken⟩
      rw [total, total, delivered, said, Signal.bytes_append, SourceEvent.signals_fail]
      split <;> simp [Signal.bytes]
    · rw [h] at taken
      obtain ⟨limit, delivered, said⟩ := read_signals_ok h some
      refine ⟨limit, ?_, taken⟩
      rw [total, total, delivered]
      rcases said with ⟨_, _, said⟩ | ⟨rfl, said⟩ | ⟨rfl, said, spent⟩
      · rw [said, Signal.bytes_append, Signal.bytes_map, List.length_append, Nat.add_assoc]
      · rw [said]
        rfl
      · rw [said, spent]
        rfl

theorem gather_again {source after : Source} {size : Nat} {f : Fault}
    (h : source.read size = (.error f, after)) (again : f.interrupted = true) :
    source.signals = after.signals ∧ after.Follows source := by
  have follows := read_follows source size
  rw [h] at follows
  obtain ⟨_, _, said⟩ := read_signals_error h
  rw [SourceEvent.signals_fail, if_pos again] at said
  exact ⟨said, follows⟩

theorem gather_fails {source after : Source} {size wanted : Nat} {f : Fault}
    (h : source.read size = (.error f, after)) (final : ¬ f.interrupted = true)
    (some : wanted ≠ 0) :
    Signal.gather wanted source.signals = (.error f, after.signals) ∧ after.Follows source := by
  have follows := read_follows source size
  rw [h] at follows
  obtain ⟨_, _, said⟩ := read_signals_error h
  obtain ⟨wanted, rfl⟩ := Nat.exists_eq_succ_of_ne_zero some
  rw [said, SourceEvent.signals_fail, if_neg final]
  exact ⟨rfl, follows⟩

theorem gather_stops {source after : Source} {size wanted : Nat}
    (h : source.read size = (.ok [], after)) (room : size ≠ 0) (some : wanted ≠ 0) :
    Signal.gather wanted source.signals = (.ok [], after.signals) ∧ after.Follows source := by
  have follows := read_follows source size
  rw [h] at follows
  obtain ⟨_, _, said⟩ := read_signals_ok h room
  obtain ⟨wanted, rfl⟩ := Nat.exists_eq_succ_of_ne_zero some
  rcases said with ⟨filled, _⟩ | ⟨_, said⟩ | ⟨_, said, spent⟩
  · exact absurd rfl filled
  · rw [said]
    exact ⟨rfl, follows⟩
  · rw [said, spent]
    exact ⟨rfl, follows⟩

theorem gather_goes_on {source after : Source} {size wanted : Nat} {got : Bytes}
    (h : source.read size = (.ok got, after)) (filled : got ≠ []) (room : size ≠ 0)
    (inside : size ≤ wanted) :
    Signal.gather wanted source.signals =
        ((Signal.gather (wanted - got.length) after.signals).1.map (got ++ ·),
          (Signal.gather (wanted - got.length) after.signals).2) ∧
      after.Follows source := by
  have follows := read_follows source size
  rw [h] at follows
  obtain ⟨_, _, said⟩ := read_signals_ok h room
  rcases said with ⟨_, short, said⟩ | ⟨none, _⟩ | ⟨none, _⟩
  · rw [said, Signal.gather_map_append _ _ (Nat.le_trans short inside)]
    exact ⟨rfl, follows⟩
  · exact absurd none filled
  · exact absurd none filled

/-- Reading on until enough bytes are there makes the same of the signals as taking them off one
by one, whatever was collected before. -/
theorem gather_signals (source : Source) (wanted : Nat) (got : Array UInt8) :
    (source.gather wanted got).1 =
        (Signal.gather wanted source.signals).1.map (got.toList ++ ·) ∧
      (source.gather wanted got).2.signals = (Signal.gather wanted source.signals).2 ∧
      (source.gather wanted got).2.Follows source := by
  fun_induction gather source wanted got with
  | case1 source got => simp [Signal.gather, Except.map, Follows.refl]
  | case2 source wanted got some f after hr _ again ih =>
    obtain ⟨same, follows⟩ := gather_again hr again
    rw [same]
    exact ⟨ih.1, ih.2.1, ih.2.2.trans follows⟩
  | case3 source wanted got some f after hr _ final =>
    obtain ⟨gathered, follows⟩ := gather_fails hr final some
    rw [gathered]
    exact ⟨rfl, rfl, follows⟩
  | case4 source wanted got some after hr =>
    obtain ⟨gathered, follows⟩ := gather_stops hr some some
    rw [gathered]
    exact ⟨by simp [Except.map], rfl, follows⟩
  | case5 source wanted got some first more after hr _ ih =>
    obtain ⟨gathered, follows⟩ := gather_goes_on hr (List.cons_ne_nil _ _) some (Nat.le_refl _)
    rw [gathered, ih.1, ih.2.1]
    refine ⟨?_, rfl, ih.2.2.trans follows⟩
    rw [List.length_cons]
    rcases Signal.gather (wanted - (more.length + 1)) after.signals with ⟨_ | _, _⟩ <;>
      simp [Except.map]

theorem skip_signals (source : Source) {portion : Nat} (some : portion ≠ 0) (count : Nat) :
    (source.skip portion count).1 =
        (Signal.gather count source.signals).1.map (count - ·.length) ∧
      (source.skip portion count).2.signals = (Signal.gather count source.signals).2 ∧
      (source.skip portion count).2.Follows source := by
  fun_induction skip source portion count with
  | case1 source => simp [Signal.gather, Except.map, Follows.refl]
  | case2 source count left f after hr _ again ih =>
    obtain ⟨same, follows⟩ := gather_again hr again
    rw [same]
    exact ⟨ih.1, ih.2.1, ih.2.2.trans follows⟩
  | case3 source count left f after hr _ final =>
    obtain ⟨gathered, follows⟩ := gather_fails hr final left
    rw [gathered]
    exact ⟨rfl, rfl, follows⟩
  | case4 source count left after hr =>
    have room : min portion count ≠ 0 := by omega
    obtain ⟨gathered, follows⟩ := gather_stops hr room left
    rw [gathered]
    exact ⟨rfl, rfl, follows⟩
  | case5 source count left first more after hr _ ih =>
    have room : min portion count ≠ 0 := by omega
    have inside : min portion count ≤ count := Nat.min_le_right _ _
    obtain ⟨gathered, follows⟩ := gather_goes_on hr (List.cons_ne_nil _ _) room inside
    rw [gathered, ih.1, ih.2.1]
    refine ⟨?_, rfl, ih.2.2.trans follows⟩
    rw [List.length_cons]
    rcases Signal.gather (count - (more.length + 1)) after.signals with ⟨_ | _, _⟩
    · rfl
    · simp only [Except.map, List.length_append, List.length_cons, Except.ok.injEq]
      omega

theorem bytes_starved {source : Source} (starved : source.limit = some 0) :
    Signal.bytes source.signals = [] := by
  rw [signals_starved source starved]
  induction source.events.flatMap SourceEvent.signals with
  | nil => rfl
  | cons signal rest ih =>
    cases signal with
    | byte value => rfl
    | fault f => simpa [Signal.isByte, Signal.bytes] using ih
    | pause => simpa [Signal.isByte, Signal.bytes] using ih

theorem Follows.remaining {after source : Source} (h : after.Follows source) {data : Bytes}
    (said : Signal.bytes source.signals = data ++ Signal.bytes after.signals) :
    source.remaining = data ++ after.remaining ∧
      after.delivered = source.delivered + data.length := by
  obtain ⟨got, remaining, delivered⟩ := h.taken
  have total := h.total
  simp only [Source.total, said, delivered, List.length_append] at total
  have same : got.length = data.length := by omega
  by_cases starved : source.limit = some 0
  · rw [bytes_starved starved] at said
    obtain ⟨rfl, -⟩ := List.append_eq_nil_iff.mp said.symm
    obtain rfl := List.eq_nil_of_length_eq_zero same
    exact ⟨remaining, delivered⟩
  · have fed : after.limit ≠ some 0 := h.limit ▸ starved
    rw [signals_fed source starved, signals_fed after fed, SourceEvent.bytes_signals,
      SourceEvent.bytes_signals] at said
    rw [Source.remaining, Source.remaining, said] at remaining
    obtain rfl := List.append_cancel_right remaining
    exact ⟨said, delivered⟩

end Source

end FramedSnappy
