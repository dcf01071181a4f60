import FramedSnappy.Proofs.Source.Reading

/-! What the loops over a source cost in calls. A call is paid for by the bytes that it delivers, or
by the event that it uses up. Only one that finds nothing in front is not, and with it every loop
is over. -/
namespace FramedSnappy

namespace SourceEvent

/-- An event that costs a call and brings no bytes. -/
def hitch : SourceEvent → Bool
  | deliver _ => false
  | fail _ => true
  | pause => true

theorem take_hitches_ok {room : Nat} {events after : List SourceEvent} {got : Bytes}
    (h : take room events = (.ok got, after)) : after.countP hitch ≤ events.countP hitch := by
  induction events with
  | nil =>
    cases h
    exact Nat.le_refl _
  | cons event rest ih =>
    cases event with
    | deliver bytes =>
      cases bytes with
      | nil => exact ih h
      | cons first more =>
        cases h
        exact Nat.le_refl _
    | fail f => cases h
    | pause =>
      cases h
      exact (List.sublist_cons_self _ _).countP_le

theorem take_hitches_error {room : Nat} {events after : List SourceEvent} {f : Fault}
    (h : take room events = (.error f, after)) :
    events.countP hitch = after.countP hitch + 1 := by
  induction events with
  | nil => cases h
  | cons event rest ih =>
    cases event with
    | deliver bytes =>
      cases bytes with
      | nil => exact ih h
      | cons first more => cases h
    | fail f =>
      cases h
      exact List.countP_cons_of_pos rfl
    | pause => cases h

end SourceEvent

namespace Source

variable {source middle after : Source} {size free : Nat}

/-- The failures and pauses that are still to come. -/
def hitches (source : Source) : Nat := source.events.countP SourceEvent.hitch

/-- How often the source has been called on the way to `after`, what it has delivered, and how many
hitches it has gone through. -/
structure Spends (source : Source) (calls bytes hitches : Nat) (after : Source) : Prop where
  calls : after.calls = source.calls + calls
  delivered : after.delivered = source.delivered + bytes
  hitches : source.hitches = after.hitches + hitches

namespace Spends

theorem refl (source : Source) : source.Spends 0 0 0 source := ⟨rfl, rfl, rfl⟩

theorem trans {calls bytes hitches calls' bytes' hitches' : Nat}
    (first : source.Spends calls bytes hitches middle)
    (second : middle.Spends calls' bytes' hitches' after) :
    source.Spends (calls + calls') (bytes + bytes') (hitches + hitches') after := by
  refine ⟨?_, ?_, ?_⟩
  · rw [second.calls, first.calls, Nat.add_assoc]
  · rw [second.delivered, first.delivered, Nat.add_assoc]
  · rw [first.hitches, second.hitches, Nat.add_assoc, Nat.add_comm hitches]

end Spends

/-- All calls but `free` are paid for. -/
def Pays (source : Source) (free : Nat) (after : Source) : Prop :=
  ∃ calls bytes hitches, source.Spends calls bytes hitches after ∧
    calls ≤ bytes + hitches + free

namespace Pays

theorem refl (source : Source) : source.Pays free source :=
  ⟨0, 0, 0, .refl source, Nat.zero_le _⟩

theorem trans {more : Nat} (first : source.Pays free middle) (second : middle.Pays more after) :
    source.Pays (free + more) after := by
  obtain ⟨calls, bytes, hitches, spent, paid⟩ := first
  obtain ⟨calls', bytes', hitches', spent', paid'⟩ := second
  exact ⟨_, _, _, spent.trans spent', by omega⟩

theorem mono {more : Nat} (h : source.Pays free after) (le : free ≤ more) :
    source.Pays more after := by
  obtain ⟨calls, bytes, hitches, spent, paid⟩ := h
  exact ⟨calls, bytes, hitches, spent, by omega⟩

end Pays

/-- One call at most is not paid for, and none if it `goes` as it should. -/
structure Charged (source : Source) (goes : Prop) (after : Source) : Prop where
  most : source.Pays 1 after
  all : goes → source.Pays 0 after

namespace Charged

variable {goes goes' : Prop}

theorem of_paid (h : source.Pays 0 after) : source.Charged goes after :=
  ⟨h.mono (Nat.zero_le _), fun _ => h⟩

theorem refl (source : Source) : source.Charged goes source := of_paid (.refl source)

/-- Nothing more is asked of a call that does not go as it should. -/
theorem stop (h : source.Pays 1 after) (fails : ¬ goes) : source.Charged goes after :=
  ⟨h, fun there => (fails there).elim⟩

theorem imp (h : source.Charged goes after) (less : goes' → goes) : source.Charged goes' after :=
  ⟨h.most, fun there => h.all (less there)⟩

theorem prepend (h : middle.Charged goes after) (paid : source.Pays 0 middle) :
    source.Charged goes after := by
  refine ⟨?_, fun there => ?_⟩
  · exact paid.trans h.most
  · exact paid.trans (h.all there)

end Charged

theorem read_error_pays {f : Fault} (h : source.read size = (.error f, after)) :
    source.Pays 0 after := by
  simp only [read] at h
  split at h
  · cases h
  · split at h
    · rename_i taken
      cases h
      exact ⟨1, 0, 1, ⟨rfl, rfl, SourceEvent.take_hitches_error taken⟩, Nat.le_refl _⟩
    · cases h

theorem read_ok_spends {got : Bytes} (h : source.read size = (.ok got, after)) :
    ∃ hitches, source.Spends 1 got.length hitches after := by
  simp only [read] at h
  split at h
  · cases h
    exact ⟨0, rfl, rfl, rfl⟩
  · split at h
    · cases h
    · rename_i taken
      cases h
      obtain ⟨hitches, count⟩ := Nat.exists_eq_add_of_le (SourceEvent.take_hitches_ok taken)
      exact ⟨hitches, rfl, rfl, count⟩

theorem read_some_pays {first : UInt8} {more : Bytes}
    (h : source.read size = (.ok (first :: more), after)) : source.Pays 0 after := by
  obtain ⟨hitches, spent⟩ := read_ok_spends h
  exact ⟨1, more.length + 1, hitches, spent, by omega⟩

theorem read_none_pays (h : source.read size = (.ok [], after)) : source.Pays 1 after := by
  obtain ⟨hitches, spent⟩ := read_ok_spends h
  exact ⟨1, 0, hitches, spent, Nat.le_add_left _ _⟩

theorem read_ok_length {got : Bytes} (h : source.read size = (.ok got, after)) (some : size ≠ 0) :
    got.length ≤ size := by
  obtain ⟨-, -, said⟩ := read_signals_ok h some
  rcases said with ⟨-, short, -⟩ | ⟨rfl, -⟩ | ⟨rfl, -⟩
  · exact short
  · exact Nat.zero_le _
  · exact Nat.zero_le _

/-- Whoever has got all that was wanted has paid for it. -/
theorem gather_charged (source : Source) (wanted : Nat) (got : Array UInt8) :
    source.Charged
      (∃ bytes, (source.gather wanted got).1 = .ok bytes ∧ got.size + wanted ≤ bytes.length)
      (source.gather wanted got).2 := by
  fun_induction gather source wanted got with
  | case1 source => exact .refl source
  | case2 source wanted got some f after hr _ again ih => exact ih.prepend (read_error_pays hr)
  | case3 source wanted got some f after hr _ final => exact .of_paid (read_error_pays hr)
  | case4 source wanted got some after hr =>
    refine ⟨read_none_pays hr, ?_⟩
    rintro ⟨bytes, same, enough⟩
    cases same
    rw [Array.length_toList] at enough
    omega
  | case5 source wanted got some first more after hr _ ih =>
    refine (ih.imp ?_).prepend (read_some_pays hr)
    rintro ⟨bytes, same, enough⟩
    refine ⟨bytes, same, ?_⟩
    have short := read_ok_length hr some
    simp only [← Array.length_toList, Array.toList_appendList, List.length_append,
      List.length_cons] at enough short ⊢
    omega

theorem skip_charged (source : Source) (portion count : Nat) :
    source.Charged ((source.skip portion count).1 = .ok 0) (source.skip portion count).2 := by
  fun_induction skip source portion count with
  | case1 source => exact .refl source
  | case2 source count left f after hr _ again ih => exact ih.prepend (read_error_pays hr)
  | case3 source count left f after hr _ final => exact .of_paid (read_error_pays hr)
  | case4 source count left after hr =>
    refine ⟨read_none_pays hr, fun same => ?_⟩
    cases same
    exact absurd rfl left
  | case5 source count left first more after hr _ ih => exact ih.prepend (read_some_pays hr)

theorem read_exact_charged (source : Source) (count : Nat) :
    source.Charged (∃ got, (source.readExact count).1 = .ok got)
      (source.readExact count).2 := by
  have charged := source.gather_charged count #[]
  unfold readExact
  split
  · rename_i h
    rw [h] at charged
    exact .stop charged.most nofun
  · rename_i got after h
    rw [h] at charged
    split
    · exact .stop charged.most nofun
    · rename_i enough
      refine charged.imp fun _ => ⟨got, rfl, ?_⟩
      rw [List.size_toArray, List.length_nil, Nat.zero_add]
      exact Nat.not_lt.mp enough

theorem read_header_charged (source : Source) :
    source.Charged (∃ header, source.readHeader.1 = .ok (some header)) source.readHeader.2 := by
  have charged := source.gather_charged Frame.headerSize #[]
  unfold readHeader
  split
  · rename_i h
    rw [h] at charged
    exact .stop charged.most nofun
  · rename_i h
    rw [h] at charged
    exact .stop charged.most nofun
  · rename_i tag field after h
    rw [h] at charged
    split
    · exact .stop charged.most nofun
    · rename_i enough
      refine charged.imp fun _ => ⟨tag :: field, rfl, ?_⟩
      rw [List.size_toArray, List.length_nil, Nat.zero_add]
      exact Nat.not_lt.mp enough

theorem read_body_charged (source : Source) (length : Nat) :
    source.Charged (∃ body, (source.readBody length).1 = .ok body) (source.readBody length).2 := by
  have charged := source.read_exact_charged length
  unfold readBody
  split
  · rename_i h
    rw [h] at charged
    exact .stop charged.most nofun
  · rename_i body after h
    rw [h] at charged
    exact charged.imp fun _ => ⟨body, rfl⟩

theorem skip_body_by_charged (source : Source) (portion length : Nat) :
    source.Charged ((source.skipBodyBy portion length).1 = .ok ())
      (source.skipBodyBy portion length).2 := by
  have charged := source.skip_charged portion length
  unfold skipBodyBy
  split
  · rename_i h
    rw [h] at charged
    exact .stop charged.most nofun
  · rename_i missing after h
    rw [h] at charged
    split
    · rename_i none
      exact charged.imp fun _ => congrArg Except.ok none
    · exact .stop charged.most nofun

end Source

end FramedSnappy
