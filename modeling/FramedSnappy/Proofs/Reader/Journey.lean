import FramedSnappy.Proofs.Reader.Delivery
import FramedSnappy.Proofs.Reader.Operation

/-! The way of a reader from its first state to any state it can be in: whatever its client does, and
as long as no frame fails, the source has given whole frames to the reader, every one of them
accepted, and nothing else but what the client has taken past the reader. -/
namespace FramedSnappy

/-- What has been taken from a source: a frame, or bytes that went past the reader. -/
inductive Taken where
  | frame (parsed : Frame.Parsed)
  | raw (data : Bytes)

def Taken.bytes : Taken → Bytes
  | frame parsed => parsed.frame.bytes
  | raw data => data

theorem bytes_frames (frames : List Frame.Parsed) :
    (frames.map Taken.frame).flatMap Taken.bytes = Frame.wire frames := by
  rw [List.flatMap_map]
  rfl

namespace Reader

open FramedSnappy.Frame (Parsed)

variable {κ : Type} [Codec κ] {first now next : Reader κ} {frames : List Parsed}

theorem refill_course (fit : first.Fit) (inside : Codec.Inside first.codec)
    (course : Course first frames now) : ∃ frames, Course first frames now.refill.2 := by
  cases fresh : now.poisoned with
  | true =>
    rw [refill_poisoned fresh]
    exact ⟨frames, course⟩
  | false =>
    have reaches := course.going_of_fresh fresh
    obtain ⟨more, accounted⟩ : ∃ more, Accounted now True more [] now.refill.2 :=
      refill_accounted (course.fit fit) fresh (inside.later course.later)
    exact ⟨frames ++ more, .prepend reaches accounted.course⟩

theorem course_served (fit : first.Fit) (inside : Codec.Inside first.codec) :
    Served fun now => ∃ frames, Course first frames now where
  read now size := by
    rintro ⟨frames, course⟩
    have filled := refill_course fit inside course
    refine @holds_of_read _ _ (fun now => ∃ frames, Course first frames now) now ⟨frames, course⟩
      filled ?_ size
    rintro now count - ⟨frames, course⟩
    exact ⟨frames, course.queue _⟩
  refill now _ := by
    rintro ⟨frames, course⟩
    exact refill_course fit inside course
  consume now count _ := by
    rintro ⟨frames, course⟩
    exact ⟨frames, course.queue _⟩

/-- What has been fed to the source on the way, and what has been taken from it. -/
inductive Journey (first : Reader κ) : List SourceEvent → List Taken → Reader κ → Prop
  | start : Journey first [] [] first
  | on {fed : List SourceEvent} {taken : List Taken} {now next : Reader κ}
      {frames : List Parsed} :
      Journey first fed taken now → Reaches now frames next →
      Journey first fed (taken ++ frames.map .frame) next
  | feed {fed : List SourceEvent} {taken : List Taken} {now : Reader κ}
      (events : List SourceEvent) :
      Journey first fed taken now → Journey first (fed ++ events) taken (now.feed events)
  | raw {fed : List SourceEvent} {taken : List Taken} {now : Reader κ} (size : Nat) :
      Journey first fed taken now →
      Journey first fed (taken ++ [.raw (now.source.got size)])
        { now with source := (now.source.read size).2 }

namespace Journey

variable {fed : List SourceEvent} {taken : List Taken}

theorem fit (h : Journey first fed taken now) (fit : first.Fit) : now.Fit := by
  induction h with
  | start => exact fit
  | on _ reaches ih => exact reaches.fit ih
  | feed events _ ih => exact ⟨ih.body, ih.decoded⟩
  | raw size _ ih => exact ⟨ih.body, ih.decoded⟩

theorem later (h : Journey first fed taken now) : Codec.Later first.codec now.codec := by
  induction h with
  | start => exact .now
  | on _ reaches ih => exact ih.trans reaches.keeps.codec
  | feed events _ ih => exact ih
  | raw size _ ih => exact ih

theorem fresh (h : Journey first fed taken now) (fresh : first.poisoned = false) :
    now.poisoned = false := by
  induction h with
  | start => exact fresh
  | on _ reaches ih => exact reaches.keeps.poisoned.trans ih
  | feed events _ ih => exact ih
  | raw size _ ih => exact ih

theorem accounts (h : Journey first fed taken now) :
    (first.source.feed fed).remaining = taken.flatMap Taken.bytes ++ now.source.remaining ∧
      now.source.delivered =
        first.source.delivered + (taken.flatMap Taken.bytes).length := by
  induction h with
  | start => exact ⟨congrArg _ (Source.feed_nil _), rfl⟩
  | @on fed taken now next frames _ reaches ih =>
    obtain ⟨remaining, delivered⟩ := ih
    obtain ⟨left, counted⟩ := reaches.remaining
    rw [List.flatMap_append, bytes_frames]
    constructor
    · rw [remaining, left, List.append_assoc]
    · rw [counted, delivered, List.length_append, Nat.add_assoc]
  | @feed fed taken now events _ ih =>
    obtain ⟨remaining, delivered⟩ := ih
    have more : (now.feed events).source.remaining =
        now.source.remaining ++ events.flatMap SourceEvent.bytes :=
      Source.remaining_feed _ _
    refine ⟨?_, delivered⟩
    rw [Source.feed_append, Source.remaining_feed, remaining, more, List.append_assoc]
  | @raw fed taken now size _ ih =>
    obtain ⟨remaining, delivered⟩ := ih
    obtain ⟨left, counted⟩ := now.source.read_got size
    have last : (taken ++ [Taken.raw (now.source.got size)]).flatMap Taken.bytes =
        taken.flatMap Taken.bytes ++ now.source.got size := by
      rw [List.flatMap_append, List.flatMap_singleton]
      rfl
    rw [last]
    constructor
    · rw [remaining, left, List.append_assoc]
    · dsimp only
      rw [counted, delivered, List.length_append, Nat.add_assoc]

theorem perform_inward (h : Journey first fed taken now) (fit : first.Fit)
    (inside : Codec.Inside first.codec) {operation : ReaderOperation} (inward : operation.Inward)
    (fine : (now.perform operation).2.poisoned = false) :
    ∃ frames : List Parsed,
      Journey first fed (taken ++ frames.map .frame) (now.perform operation).2 := by
  have served := course_served (h.fit fit) (inside.later h.later)
  have passed : Course now [] (now.consume operation.amount) := .going (.here now _)
  obtain ⟨frames, course⟩ := served.perform ⟨[], .going (.refl now)⟩ inward ⟨[], passed⟩
  exact ⟨frames, h.on (course.going_of_fresh fine)⟩

/-- An operation goes on with the journey, or a frame fails. -/
theorem perform (h : Journey first fed taken now) (fit : first.Fit)
    (inside : Codec.Inside first.codec) (operation : ReaderOperation)
    (fine : (now.perform operation).2.poisoned = false) :
    ∃ more, Journey first (fed ++ operation.fed) (taken ++ more) (now.perform operation).2 ∧
      (operation.Own → ∀ one ∈ more, ∃ parsed, one = .frame parsed) := by
  by_cases inward : operation.Inward
  · obtain ⟨frames, next⟩ := h.perform_inward fit inside inward fine
    have nothing : operation.fed = [] := by
      cases operation with
      | feed events => exact inward.elim
      | _ => rfl
    rw [nothing, List.append_nil]
    refine ⟨frames.map .frame, next, fun _ one mem => ?_⟩
    obtain ⟨parsed, -, rfl⟩ := List.mem_map.mp mem
    exact ⟨parsed, rfl⟩
  · cases operation with
    | feed events =>
      rw [← List.append_nil taken] at h
      exact ⟨[], h.feed events, fun _ => nofun⟩
    | rawRead size =>
      rw [raw_read_eq]
      rw [← List.append_nil fed] at h
      exact ⟨_, h.raw size, False.elim⟩
    | _ => exact absurd trivial inward

end Journey

theorem poisoned_kept : Kept fun now : Reader κ => now.poisoned = true where
  refill now poisoned := by
    rw [refill_poisoned poisoned]
    exact poisoned
  consume _ _ poisoned := poisoned
  source _ _ poisoned := poisoned

/-- No operation heals a reader. -/
theorem fresh_of_perform {operation : ReaderOperation}
    (fine : (now.perform operation).2.poisoned = false) : now.poisoned = false := by
  cases poisoned : now.poisoned with
  | false => rfl
  | true =>
    have still := poisoned_kept.perform poisoned operation
    cases still.symm.trans fine

theorem fresh_of_perform_all {operations : List ReaderOperation}
    (fine : (now.performAll operations).poisoned = false) : now.poisoned = false := by
  cases poisoned : now.poisoned with
  | false => rfl
  | true =>
    have still := poisoned_kept.perform_all poisoned operations
    cases still.symm.trans fine

theorem Journey.perform_all {fed : List SourceEvent} {taken : List Taken}
    (h : Journey first fed taken now) (fit : first.Fit) (inside : Codec.Inside first.codec)
    {operations : List ReaderOperation} (fine : (now.performAll operations).poisoned = false) :
    ∃ more, Journey first (fed ++ operations.flatMap (·.fed)) (taken ++ more)
        (now.performAll operations) ∧
      ((∀ operation ∈ operations, operation.Own) → ∀ one ∈ more, ∃ parsed, one = .frame parsed) := by
  induction operations generalizing now fed taken with
  | nil => exact ⟨[], by simpa [performAll] using h, fun _ => nofun⟩
  | cons operation rest ih =>
    obtain ⟨some, next, own⟩ := h.perform fit inside operation (fresh_of_perform_all fine)
    obtain ⟨more, last, others⟩ := ih next fine
    rw [List.append_assoc, List.append_assoc] at last
    refine ⟨some ++ more, last, fun all one mem => ?_⟩
    rcases List.mem_append.mp mem with early | late
    · exact own (all operation List.mem_cons_self) one early
    · exact others (fun other mem => all other (List.mem_cons_of_mem _ mem)) one late

/-- Every state of a reader that no frame has failed. -/
theorem exists_journey {source : Source} {codec : κ} (inside : Codec.Inside codec)
    {policy : ChecksumPolicy} {operations : List ReaderOperation}
    (fine : ((ofSource source codec policy).performAll operations).poisoned = false) :
    ∃ taken, Journey (ofSource source codec policy) (operations.flatMap (·.fed)) taken
        ((ofSource source codec policy).performAll operations) ∧
      ((∀ operation ∈ operations, operation.Own) → ∀ one ∈ taken, ∃ parsed, one = .frame parsed) :=
  Journey.start.perform_all (fit_of_source source codec policy) inside fine

end Reader

end FramedSnappy
