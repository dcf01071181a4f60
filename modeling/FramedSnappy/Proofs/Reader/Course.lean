import FramedSnappy.Proofs.ByteQueue
import FramedSnappy.Proofs.Frame.Stream
import FramedSnappy.Proofs.Reader.Step
import FramedSnappy.Reader.Stream

/-! The course of a reader through its source, frame by frame, and how far one refill of the queue
takes it. All of this holds for every source and for every codec, one that remembers or lies
included. -/
namespace FramedSnappy

namespace Frame.Parsed

def progress (parsed : Parsed) : Progress :=
  match parsed.content with
  | none => .passed
  | some _ => .block

def queue (parsed : Parsed) (pending : ByteQueue) : ByteQueue :=
  match parsed.content with
  | none => pending
  | some content => pending.append content

end Frame.Parsed

namespace Reader

open FramedSnappy.Frame (Parsed Verdict)

variable {κ : Type} [Codec κ]

structure Takes (reader : Reader κ) (parsed : Parsed) (after : Reader κ) : Prop where
  keeps : reader.Keeps after
  opened : reader.identified = true ∨ parsed.frame.tag = 0xff
  identified : after.identified = true
  yields : parsed.frame.Yields reader.decode reader.policy parsed.content
  said : reader.source.signals = parsed.frame.bytes.map .byte ++ after.source.signals

theorem Takes.front {reader after : Reader κ} {parsed : Parsed} (h : reader.Takes parsed after) :
    reader.source.front = parsed.frame.bytes ++ after.source.front := by
  rw [Source.front, h.said, Signal.front_map_append]
  rfl

/-- The frame that the next call takes, and what it puts into the queue. -/
structure Passes (reader : Reader κ) (parsed : Parsed) (after : Reader κ) : Prop where
  takes : reader.Takes parsed after
  advance : reader.advance = (.done parsed.progress, after)
  pending : after.pending = parsed.queue reader.pending

/-- The source has come to its end between two frames, or says so for once. -/
structure Halts (reader after : Reader κ) : Prop where
  keeps : reader.Keeps after
  identified : after.identified = reader.identified
  verdict : reader.verdict = .ended
  said : after.source.signals = reader.source.behind.tail

/-- The next frame is a bad one, and the reader will not go on. -/
structure Breaks (reader : Reader κ) (e : Error) (after : Reader κ) : Prop where
  keeps : reader.Keeps { after with poisoned := reader.poisoned }
  poisoned : after.poisoned = true
  identified : after.identified = reader.identified
  verdict : ∃ rest, reader.verdict = .broken e rest ∧
    Signal.bytes after.source.signals = rest ++ Signal.bytes reader.source.behind

/-- The codec has claimed more than it was given room for. -/
structure Overruns (reader after : Reader κ) : Prop where
  keeps : reader.Keeps after
  verdict : ∃ rest, reader.verdict = .overrun rest

/-- Frames are taken one after the other; the queue is nobody's business here. -/
inductive Reaches : Reader κ → List Parsed → Reader κ → Prop
  | here (reader : Reader κ) (queue : ByteQueue) :
      Reaches reader [] { reader with pending := queue }
  | halt {reader middle last : Reader κ} {frames : List Parsed} :
      reader.Halts middle → Reaches middle frames last → Reaches reader frames last
  | take {reader middle last : Reader κ} {parsed : Parsed} {frames : List Parsed} :
      reader.Takes parsed middle → Reaches middle frames last →
      Reaches reader (parsed :: frames) last

section Advance

variable {reader after : Reader κ}

theorem advance_passes (fit : reader.Fit) {progress : Progress}
    (h : reader.advance = (.done progress, after)) (there : progress ≠ .ended) :
    ∃ parsed, reader.Passes parsed after ∧ progress = parsed.progress := by
  have answers := advance_answers fit
  rw [h] at answers
  obtain ⟨content, rest, judged⟩ := Verdict.of_passed answers.outcome.symm there
  rw [judged] at answers
  obtain ⟨frame, front, opened, yields⟩ := Frame.yields_of_judge judged
  have said : reader.source.signals = frame.bytes.map .byte ++ after.source.signals := by
    rw [answers.leaves, ← List.append_assoc, ← List.map_append, ← front]
    exact (Signal.front_append_behind _).symm
  have takes : reader.Takes ⟨frame, content⟩ after :=
    ⟨answers.keeps, opened, answers.identified, yields, said⟩
  have queued := answers.pending
  refine ⟨⟨frame, content⟩, ?_⟩
  cases content with
  | none =>
    cases answers.outcome
    exact ⟨⟨takes, h, queued⟩, rfl⟩
  | some content =>
    cases answers.outcome
    exact ⟨⟨takes, h, queued⟩, rfl⟩

theorem Passes.waiting {parsed : Parsed} (h : reader.Passes parsed after) :
    after.pending.toList = reader.pending.toList ++ parsed.data := by
  rw [h.pending]
  rcases parsed with ⟨frame, _ | content⟩
  · exact (List.append_nil _).symm
  · exact ByteQueue.to_list_append _ _

theorem advance_passed (fit : reader.Fit) {progress : Progress}
    (h : reader.advance = (.done progress, after)) (there : progress ≠ .ended) :
    ∃ parsed, reader.Takes parsed after ∧
      after.pending.toList = reader.pending.toList ++ parsed.data ∧
      (progress = .passed → parsed.content = none) ∧
      (progress = .block → ∃ content, parsed.content = some content) := by
  obtain ⟨parsed, passes, rfl⟩ := advance_passes fit h there
  refine ⟨parsed, passes.takes, passes.waiting, ?_⟩
  rcases parsed with ⟨frame, _ | content⟩
  · exact ⟨fun _ => rfl, nofun⟩
  · exact ⟨nofun, fun _ => ⟨content, rfl⟩⟩

theorem advance_ended (fit : reader.Fit) (h : reader.advance = (.done .ended, after)) :
    reader.Halts after ∧ after.pending = reader.pending := by
  have answers := advance_answers fit
  rw [h] at answers
  have judged := Verdict.of_ended answers.outcome.symm
  rw [judged] at answers
  exact ⟨⟨answers.keeps, answers.identified, judged, answers.leaves⟩, answers.pending⟩

theorem advance_failed (fit : reader.Fit) {e : Error} (h : reader.advance = (.failed e, after)) :
    reader.Breaks e { after with poisoned := true } ∧ after.pending = reader.pending := by
  have answers := advance_answers fit
  rw [h] at answers
  obtain ⟨rest, judged⟩ := Verdict.of_failed answers.outcome.symm
  rw [judged] at answers
  refine ⟨⟨?_, rfl, answers.identified, rest, judged, answers.leaves⟩, answers.pending⟩
  obtain ⟨policy, -, codec, body, decoded, source⟩ := answers.keeps
  exact ⟨policy, rfl, codec, body, decoded, source⟩

theorem advance_overrun (fit : reader.Fit) (h : reader.advance = (.overrun, after)) :
    reader.Overruns after ∧ after.pending = reader.pending := by
  have answers := advance_answers fit
  rw [h] at answers
  obtain ⟨rest, judged⟩ := Verdict.of_overrun answers.outcome.symm
  rw [judged] at answers
  exact ⟨⟨answers.keeps, rest, judged⟩, answers.pending⟩

end Advance

section Queue

variable {reader after last : Reader κ} {queue : ByteQueue}

theorem verdict_queue (reader : Reader κ) (queue : ByteQueue) :
    ({ reader with pending := queue } : Reader κ).verdict = reader.verdict := by
  have same : ({ reader with pending := queue } : Reader κ).decode = reader.decode :=
    decode_congr rfl rfl
  simp only [verdict, same]

theorem Keeps.of_queue (h : ({ reader with pending := queue } : Reader κ).Keeps after) :
    reader.Keeps after :=
  ⟨h.policy, h.poisoned, h.codec, h.body, h.decoded, h.source⟩

theorem Takes.of_queue {parsed : Parsed}
    (h : ({ reader with pending := queue } : Reader κ).Takes parsed after) :
    reader.Takes parsed after := by
  have same : ({ reader with pending := queue } : Reader κ).decode = reader.decode :=
    decode_congr rfl rfl
  exact ⟨h.keeps.of_queue, h.opened, h.identified, same ▸ h.yields, h.said⟩

theorem Halts.of_queue (h : ({ reader with pending := queue } : Reader κ).Halts after) :
    reader.Halts after :=
  ⟨h.keeps.of_queue, h.identified, (verdict_queue reader queue).symm.trans h.verdict, h.said⟩

theorem Reaches.of_queue {frames : List Parsed}
    (h : Reaches { reader with pending := queue } frames last) : Reaches reader frames last := by
  cases h with
  | here => exact .here reader _
  | halt halts rest => exact .halt halts.of_queue rest
  | take takes rest => exact .take takes.of_queue rest

end Queue

namespace Reaches

variable {reader middle last : Reader κ} {frames more : List Parsed}

theorem refl (reader : Reader κ) : Reaches reader [] reader := .here reader reader.pending

theorem trans (first : Reaches reader frames middle) (second : Reaches middle more last) :
    Reaches reader (frames ++ more) last := by
  induction first with
  | here reader queue => exact second.of_queue
  | halt halts _ ih => exact .halt halts (ih second)
  | take takes _ ih => exact .take takes (ih second)

theorem keeps (h : Reaches reader frames last) : reader.Keeps last := by
  induction h with
  | here reader queue => exact ⟨rfl, rfl, .now, rfl, rfl, .refl _⟩
  | halt halts _ ih => exact halts.keeps.trans ih
  | take takes _ ih => exact takes.keeps.trans ih

theorem fit (h : Reaches reader frames last) (fit : reader.Fit) : last.Fit := h.keeps.fit fit

theorem identified (h : Reaches reader frames last) :
    last.identified = (reader.identified || ! frames.isEmpty) := by
  induction h with
  | here reader queue => simp
  | halt halts _ ih => rw [ih, halts.identified]
  | take takes _ ih => rw [ih, takes.identified]; simp

theorem opened (h : Reaches reader frames last) :
    reader.identified = true ∨ ∀ parsed ∈ frames.head?, parsed.frame.tag = 0xff := by
  induction h with
  | here reader queue => exact .inr nofun
  | halt halts _ ih => exact halts.identified ▸ ih
  | take takes _ _ =>
    refine takes.opened.imp_right fun tag parsed mem => ?_
    cases mem
    exact tag

theorem allowed {decode : Bytes → Outcome Error Bytes} (h : Reaches reader frames last)
    (same : ∀ now, reader.Keeps now → now.decode = decode) :
    ∀ parsed ∈ frames, parsed.frame.Yields decode reader.policy parsed.content := by
  induction h with
  | here reader queue => exact nofun
  | halt halts _ ih =>
    rw [← halts.keeps.policy]
    exact ih fun now keeps => same now (halts.keeps.trans keeps)
  | take takes _ ih =>
    intro parsed mem
    rcases List.mem_cons.mp mem with rfl | later
    · rw [← same _ (.refl _)]
      exact takes.yields
    · rw [← takes.keeps.policy]
      exact ih (fun now keeps => same now (takes.keeps.trans keeps)) parsed later

end Reaches

theorem Halts.signals {reader after : Reader κ} (h : reader.Halts after) :
    reader.source.signals = [] ∧ after.source.signals = [] ∨
      reader.source.signals = .pause :: after.source.signals := by
  obtain ⟨front, stop⟩ := Frame.ended_of_judge h.verdict
  have said := h.said
  have all := Signal.front_append_behind reader.source.signals
  rw [show Signal.front reader.source.signals = [] from front] at all
  unfold Source.behind at stop said
  cases behind : Signal.behind reader.source.signals with
  | nil =>
    rw [behind] at all said
    exact .inl ⟨all.symm, said⟩
  | cons signal rest =>
    rw [behind] at all said stop
    cases signal with
    | byte value =>
      have none : Signal.front (Signal.behind reader.source.signals) = [] := Signal.front_behind _
      rw [behind] at none
      cases none
    | fault f => cases stop
    | pause =>
      right
      rw [said]
      exact all.symm

theorem Reaches.said {reader last : Reader κ} {frames : List Parsed}
    (h : Reaches reader frames last) :
    Signal.bytes reader.source.signals =
      Frame.wire frames ++ Signal.bytes last.source.signals := by
  induction h with
  | here reader queue => rfl
  | halt halts _ ih =>
    rcases halts.signals with ⟨spent, none⟩ | paused
    · rw [← ih, spent, none]
    · rw [← ih, paused]
      rfl
  | take takes _ ih =>
    rw [takes.said, Signal.bytes_append, Signal.bytes_map, ih, Frame.wire_cons, List.append_assoc]

/-- All that the source has delivered on the way are the frames. -/
theorem Reaches.remaining {reader last : Reader κ} {frames : List Parsed}
    (h : Reaches reader frames last) :
    reader.source.remaining = Frame.wire frames ++ last.source.remaining ∧
      last.source.delivered = reader.source.delivered + (Frame.wire frames).length :=
  h.keeps.source.remaining h.said

theorem Reaches.suffix {reader last : Reader κ} {frames : List Parsed}
    (h : Reaches reader frames last) : last.source.signals <:+ reader.source.signals := by
  induction h with
  | here reader queue => exact List.suffix_refl _
  | halt halts _ ih =>
    refine ih.trans ?_
    rcases halts.signals with ⟨spent, none⟩ | paused
    · exact none ▸ List.nil_suffix
    · rw [paused]
      exact List.suffix_cons _ _
  | take takes _ ih =>
    refine ih.trans ?_
    rw [takes.said]
    exact List.suffix_append _ _

/-- Frames that leave an empty queue empty; if bytes wait, only frames without data do. -/
def Idle (waiting : Bytes) (frames : List Parsed) : Prop :=
  ∀ parsed ∈ frames, parsed.content = none ∨ waiting = [] ∧ parsed.content = some []

theorem payload_idle {waiting : Bytes} {frames : List Parsed} (idle : Idle waiting frames) :
    Frame.payload frames = [] := by
  refine List.flatMap_eq_nil_iff.mpr fun parsed mem => ?_
  rcases idle parsed mem with none | ⟨_, empty⟩
  · simp [Parsed.data, none]
  · simp [Parsed.data, empty]

theorem blocks_idle {waiting : Bytes} {frames : List Parsed} (idle : Idle waiting frames) :
    Frame.blocks frames = [] := by
  refine List.filter_eq_nil_iff.mpr ?_
  simp only [List.mem_map, forall_exists_index, and_imp, forall_apply_eq_imp_iff₂]
  intro parsed mem
  rcases idle parsed mem with none | ⟨_, empty⟩
  · simp [Parsed.data, none]
  · simp [Parsed.data, empty]

/-- How far a refill gets: to the first data frame that leaves bytes waiting, or as far as the
source and its frames allow. -/
inductive Decodes (reader : Reader κ) : Outcome Error Bool × Reader κ → Prop
  | filled {frames : List Parsed} {parsed : Parsed} {content : Bytes} {after : Reader κ} :
      Reaches reader (frames ++ [parsed]) after → Idle reader.pending.toList frames →
      parsed.content = some content →
      after.pending.toList = reader.pending.toList ++ content → after.pending.toList ≠ [] →
      Decodes reader (.done true, after)
  | ended {frames : List Parsed} {middle after : Reader κ} :
      Reaches reader frames middle → Idle reader.pending.toList frames → middle.Halts after →
      after.pending.toList = reader.pending.toList → Decodes reader (.done false, after)
  | broken {frames : List Parsed} {middle after : Reader κ} {e : Error} :
      Reaches reader frames middle → Idle reader.pending.toList frames → middle.Breaks e after →
      after.pending.toList = reader.pending.toList → Decodes reader (.failed e, after)
  | overrun {frames : List Parsed} {middle after : Reader κ} :
      Reaches reader frames middle → Idle reader.pending.toList frames → middle.Overruns after →
      after.pending.toList = reader.pending.toList → Decodes reader (.overrun, after)

theorem Decodes.after {reader middle : Reader κ} {parsed : Parsed}
    {result : Outcome Error Bool × Reader κ} (takes : reader.Takes parsed middle)
    (quiet : parsed.content = none ∨ reader.pending.toList = [] ∧ parsed.content = some [])
    (kept : middle.pending.toList = reader.pending.toList) (h : Decodes middle result) :
    Decodes reader result := by
  have idle {frames : List Parsed} (rest : Idle middle.pending.toList frames) :
      Idle reader.pending.toList (parsed :: frames) := by
    intro other mem
    rcases List.mem_cons.mp mem with rfl | later
    · exact quiet
    · exact kept ▸ rest other later
  cases h with
  | filled reaches rest content pending waits =>
    exact .filled (.take takes reaches) (idle rest) content (kept ▸ pending) waits
  | ended reaches rest halts pending =>
    exact .ended (.take takes reaches) (idle rest) halts (pending.trans kept)
  | broken reaches rest breaks pending =>
    exact .broken (.take takes reaches) (idle rest) breaks (pending.trans kept)
  | overrun reaches rest overruns pending =>
    exact .overrun (.take takes reaches) (idle rest) overruns (pending.trans kept)

theorem idle_nil (waiting : Bytes) : Idle waiting [] := nofun

theorem decode_until_pending_decodes {reader : Reader κ} (fit : reader.Fit) :
    Decodes reader reader.decodeUntilPending := by
  fun_induction decodeUntilPending reader with
  | case1 reader e after h =>
    obtain ⟨breaks, kept⟩ := advance_failed fit h
    exact .broken (.refl reader) (idle_nil _) breaks (congrArg _ kept)
  | case2 reader after h =>
    obtain ⟨overruns, kept⟩ := advance_overrun fit h
    exact .overrun (.refl reader) (idle_nil _) overruns (congrArg _ kept)
  | case3 reader after h =>
    obtain ⟨halts, kept⟩ := advance_ended fit h
    exact .ended (.refl reader) (idle_nil _) halts (congrArg _ kept)
  | case4 reader after h _ ih =>
    obtain ⟨parsed, takes, pending, passed, -⟩ := advance_passed fit h (by simp)
    have none := passed rfl
    have kept : after.pending.toList = reader.pending.toList := by simp [pending, Parsed.data, none]
    exact .after takes (.inl none) kept (ih (takes.keeps.fit fit))
  | case5 reader after h _ empty ih =>
    obtain ⟨parsed, takes, pending, -, block⟩ := advance_passed fit h (by simp)
    obtain ⟨content, some⟩ := block rfl
    have nothing : after.pending.toList = [] := (ByteQueue.is_empty_to_list _).mp empty
    rw [nothing] at pending
    obtain ⟨before, none⟩ := List.append_eq_nil_iff.mp pending.symm
    have hollow : parsed.content = .some [] := by
      rw [some]
      simpa [Parsed.data, some] using none
    exact .after takes (.inr ⟨before, hollow⟩) (nothing.trans before.symm)
      (ih (takes.keeps.fit fit))
  | case6 reader after h _ filled =>
    obtain ⟨parsed, takes, pending, -, block⟩ := advance_passed fit h (by simp)
    obtain ⟨content, some⟩ := block rfl
    have waits : after.pending.toList ≠ [] := fun none =>
      filled ((ByteQueue.is_empty_to_list _).mpr none)
    have reaches : Reaches reader ([] ++ [parsed]) after := .take takes (.refl after)
    exact .filled reaches (idle_nil _) some (by simpa [Parsed.data, some] using pending) waits

theorem refill_decodes {reader : Reader κ} (fit : reader.Fit) (fresh : reader.poisoned = false) :
    Decodes reader reader.refill := by
  unfold refill
  rw [fresh]
  exact decode_until_pending_decodes fit

theorem refill_poisoned {reader : Reader κ} (poisoned : reader.poisoned = true) :
    reader.refill = (.failed .poisoned, reader) := by
  unfold refill
  rw [if_pos poisoned]

end Reader

end FramedSnappy
