import FramedSnappy.Proofs.Source.Reading

/-! Sources that say the same and say it differently: deliveries cut elsewhere, interruptions, other
limits on what one call delivers. No part of a frame tells them apart. -/
namespace FramedSnappy

/-- Two calls with the same answer leave states that are alike. -/
inductive Agree {α β : Type} (alike : β → β → Prop) : α × β → α × β → Prop
  | intro (answer : α) {left right : β} :
      alike left right → Agree alike (answer, left) (answer, right)

theorem agree_of_eq {α β : Type} {alike : β → β → Prop} {one other : α × β}
    (answers : one.1 = other.1) (states : alike one.2 other.2) : Agree alike one other := by
  obtain ⟨answer, left⟩ := one
  obtain ⟨answer', right⟩ := other
  obtain rfl : answer = answer' := answers
  exact .intro answer states

/-- To compare what is made of the two, compare what is made of one answer and states alike. -/
@[elab_as_elim] theorem Agree.elim {α β : Type} {alike : β → β → Prop}
    {motive : α × β → α × β → Prop} {one other : α × β} (h : Agree alike one other)
    (intro : ∀ answer left right, alike left right → motive (answer, left) (answer, right)) :
    motive one other := by
  cases h with
  | intro answer states => exact intro answer _ _ states

theorem Agree.of_left {α β : Type} {alike : β → β → Prop} {one other : α × β} {answer : α}
    {left : β} (agree : Agree alike one other) (h : one = (answer, left)) :
    ∃ right, other = (answer, right) ∧ alike left right := by
  subst h
  cases agree with
  | intro _ states => exact ⟨_, rfl, states⟩

theorem Agree.states {α β : Type} {alike : β → β → Prop} {one other : α × β}
    (agree : Agree alike one other) : alike one.2 other.2 := by
  cases agree with
  | intro _ states => exact states

namespace SourceEvent

/-- Puts an event in front of a script without empty deliveries, interruptions, and cuts between
deliveries. -/
def merge : SourceEvent → List SourceEvent → List SourceEvent
  | deliver [], rest => rest
  | deliver (first :: more), deliver bytes :: rest => deliver (first :: more ++ bytes) :: rest
  | deliver (first :: more), rest => deliver (first :: more) :: rest
  | fail fault, rest => if fault.interrupted then rest else fail fault :: rest
  | pause, rest => pause :: rest

def merged : List SourceEvent → List SourceEvent := List.foldr merge []

theorem merge_signals (event : SourceEvent) (rest : List SourceEvent) :
    (event.merge rest).flatMap signals = event.signals ++ rest.flatMap signals := by
  fun_cases merge event rest with
  | case1 => rfl
  | case2 first more bytes rest =>
    simp only [List.flatMap_cons, signals, List.map_append, List.append_assoc]
  | case3 rest first more => rfl
  | case4 rest fault again =>
    rw [signals_fail, if_pos again]
    rfl
  | case5 rest fault final => rfl
  | case6 rest => rfl

theorem merged_signals (events : List SourceEvent) :
    (merged events).flatMap signals = events.flatMap signals := by
  induction events with
  | nil => rfl
  | cons event rest ih =>
    rw [List.flatMap_cons, ← ih]
    exact merge_signals event (merged rest)

end SourceEvent

namespace Source

/-- Both deliver something in every call that asks for it, and have the same to say. -/
structure Alike (source other : Source) : Prop where
  fed : source.limit ≠ some 0
  fed_too : other.limit ≠ some 0
  signals : source.signals = other.signals
  delivered : source.delivered = other.delivered

theorem alike_of_merged {events others : List SourceEvent} {limit limit' : Option Nat}
    (same : SourceEvent.merged events = SourceEvent.merged others) (fed : limit ≠ some 0)
    (fed_too : limit' ≠ some 0) : (ofEvents events limit).Alike (ofEvents others limit') where
  fed := fed
  fed_too := fed_too
  signals := by
    rw [signals_fed _ fed, signals_fed _ fed_too]
    exact (SourceEvent.merged_signals events).symm.trans
      (same ▸ SourceEvent.merged_signals others)
  delivered := rfl

namespace Alike

variable {source other : Source}

theorem after (h : source.Alike other) {left right : Source} (mine : left.Follows source)
    (yours : right.Follows other) (same : left.signals = right.signals) : left.Alike right where
  fed := mine.limit ▸ h.fed
  fed_too := yours.limit ▸ h.fed_too
  signals := same
  delivered := by
    have totals : left.total = right.total := by
      rw [mine.total, yours.total, total, total, h.signals, h.delivered]
    rw [total, total, same] at totals
    exact Nat.add_right_cancel totals

theorem feed (h : source.Alike other) (events : List SourceEvent) :
    (source.feed events).Alike (other.feed events) where
  fed := h.fed
  fed_too := h.fed_too
  signals := by
    have same := h.signals
    rw [signals_fed _ h.fed, signals_fed _ h.fed_too] at same
    rw [signals_fed (source.feed events) h.fed, signals_fed (other.feed events) h.fed_too,
      Source.feed, Source.feed, List.flatMap_append, List.flatMap_append, same]
  delivered := h.delivered

theorem gather (h : source.Alike other) (wanted : Nat) (got : Array UInt8) :
    Agree Alike (source.gather wanted got) (other.gather wanted got) := by
  obtain ⟨mine, said, follows⟩ := gather_signals source wanted got
  obtain ⟨yours, said', follows'⟩ := gather_signals other wanted got
  rw [← h.signals] at yours said'
  exact agree_of_eq (mine.trans yours.symm) (h.after follows follows' (said.trans said'.symm))

theorem skip (h : source.Alike other) {portion : Nat} (some : portion ≠ 0) (count : Nat) :
    Agree Alike (source.skip portion count) (other.skip portion count) := by
  obtain ⟨mine, said, follows⟩ := skip_signals source some count
  obtain ⟨yours, said', follows'⟩ := skip_signals other some count
  rw [← h.signals] at yours said'
  exact agree_of_eq (mine.trans yours.symm) (h.after follows follows' (said.trans said'.symm))

theorem read_header (h : source.Alike other) :
    Agree Alike source.readHeader other.readHeader := by
  unfold readHeader
  refine (h.gather Frame.headerSize #[]).elim fun answer left right alike => ?_
  match answer with
  | .error fault => exact .intro _ alike
  | .ok [] => exact .intro _ alike
  | .ok (tag :: field) =>
    dsimp only
    split
    · exact .intro _ alike
    · exact .intro _ alike

theorem read_exact (h : source.Alike other) (count : Nat) :
    Agree Alike (source.readExact count) (other.readExact count) := by
  unfold readExact
  refine (h.gather count #[]).elim fun answer left right alike => ?_
  cases answer with
  | error fault => exact .intro _ alike
  | ok got =>
    dsimp only
    split
    · exact .intro _ alike
    · exact .intro _ alike

theorem read_body (h : source.Alike other) (length : Nat) :
    Agree Alike (source.readBody length) (other.readBody length) := by
  unfold readBody
  refine (h.read_exact length).elim fun answer left right alike => ?_
  cases answer with
  | error fault => exact .intro _ alike
  | ok body => exact .intro _ alike

theorem skip_body (h : source.Alike other) (length : Nat) :
    Agree Alike (source.skipBody length) (other.skipBody length) := by
  unfold skipBody skipBodyBy
  refine (h.skip (show 8192 ≠ 0 by decide) length).elim fun answer left right alike => ?_
  cases answer with
  | error fault => exact .intro _ alike
  | ok missing => exact .intro _ alike

end Alike

end Source

end FramedSnappy
