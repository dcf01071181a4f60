import FramedSnappy.Proofs.Codec.Scripted
import FramedSnappy.Proofs.Reader.Awaiting
import FramedSnappy.Proofs.Reader.Transparency

/-! An end that is not the last word. A stream reaches its reader in segments, and between these the
source says that it has come to its end, or has nothing more until it is fed. One visit for each
segment shows the blocks of that segment; a loop of reads that does not stop at an end gets the
bytes of all of them. -/
namespace FramedSnappy

open FramedSnappy.Frame (Parsed)

/-- What comes in at one time: segments with pauses in between, and a script that says so. -/
structure Arrival where
  segments : List (List Parsed)
  events : List SourceEvent
  carries : events.flatMap SourceEvent.signals = (Parcel.joined segments).flatMap Parcel.signals

namespace Arrival

/-- One visit for each segment. -/
def visits (visitor : Reader.Visitor) (arrival : Arrival) : List ReaderOperation :=
  arrival.segments.map fun _ => .visitBlocks visitor

def shown (arrival : Arrival) : List ReaderReply :=
  arrival.segments.map fun segment => .visited (Frame.blocks segment).toArray none

end Arrival

/-- Reads with room for at least one byte, between which more comes in. -/
inductive ReadLoop : List ReaderOperation → List Arrival → Prop
  | done : ReadLoop [] []
  | read {size : Nat} {rest : List ReaderOperation} {arrivals : List Arrival} :
      0 < size → ReadLoop rest arrivals → ReadLoop (.read size :: rest) arrivals
  | feed {rest : List ReaderOperation} {arrivals : List Arrival} (arrival : Arrival) :
      ReadLoop rest arrivals → ReadLoop (.feed arrival.events :: rest) (arrival :: arrivals)

/-- The bytes a read has handed over. -/
def ReaderReply.content : ReaderReply → Bytes
  | bytes data => data
  | _ => []

/-- No operation of a loop of reads has failed. -/
def ReaderReply.Fine : ReaderReply → Prop
  | bytes _ => True
  | silent => True
  | _ => False

theorem ReaderReply.Fine.goes_on {reply : ReaderReply} (fine : reply.Fine) : reply ≠ .overrun := by
  rintro rfl
  exact fine

namespace Reader

variable {κ : Type} [Codec κ] {reader middle after : Reader κ}

/-- Operations with their replies, up to a reader that can go on. -/
inductive Responds : Reader κ → List ReaderOperation → List ReaderReply → Reader κ → Prop
  | done (reader : Reader κ) : Responds reader [] [] reader
  | step {reader middle last : Reader κ} {operation : ReaderOperation} {reply : ReaderReply}
      {operations : List ReaderOperation} {replies : List ReaderReply} :
      reader.perform operation = (reply, middle) → reply ≠ .overrun →
      Responds middle operations replies last →
      Responds reader (operation :: operations) (reply :: replies) last

section Responds

variable {operations others : List ReaderOperation} {replies answers : List ReaderReply}

theorem Responds.run (h : Responds reader operations replies after) :
    (reader.run operations).map (·.1) = replies := by
  induction h with
  | done reader => rfl
  | step performed fine _ ih =>
    rw [run_cons, performed, if_neg fine, List.map_cons, ih]

theorem Responds.append (first : Responds reader operations replies middle)
    (second : Responds middle others answers after) :
    Responds reader (operations ++ others) (replies ++ answers) after := by
  induction first with
  | done reader => exact second
  | step performed fine _ ih => exact .step performed fine (ih second)

theorem Responds.length (h : Responds reader operations replies after) :
    replies.length = operations.length := by
  induction h with
  | done reader => rfl
  | step _ _ _ ih => exact congrArg Nat.succ ih

end Responds

namespace Awaits

variable {codec : κ} {parcels : List Parcel} {coming : List Parsed} {visitor : Visitor}

theorem visit_all {segments : List (List Parsed)}
    (h : reader.Awaits codec (Parcel.joined segments) coming) (empty : reader.pending = .empty)
    (accepts : ∀ seen, visitor seen = none) :
    ∃ after, Responds reader (segments.map fun _ => .visitBlocks visitor)
        (segments.map fun segment => .visited (Frame.blocks segment).toArray none) after ∧
      after.pending = .empty ∧ after.Awaits codec [] coming := by
  induction segments using Parcel.joined.induct generalizing reader with
  | case1 => exact ⟨reader, .done reader, empty, h⟩
  | case2 segment =>
    have whole : reader.Awaits codec (segment.map .frame ++ []) coming := by
      rw [List.append_nil]
      exact h
    obtain ⟨after, visited, left, awaits⟩ := whole.visit trivial empty accepts
    refine ⟨after, .step ?_ nofun (.done after), left, awaits⟩
    rw [perform, visited]
    rfl
  | case3 segment next more ih =>
    have front : reader.Awaits codec
        (segment.map .frame ++ .pause :: Parcel.joined (next :: more)) coming := h
    obtain ⟨middle, visited, left, awaits⟩ := front.visit trivial empty accepts
    obtain ⟨after, responds, last, rest⟩ := ih awaits left
    refine ⟨after, .step ?_ nofun responds, last, rest⟩
    rw [perform, visited]
    rfl

theorem arrive {arrival : Arrival}
    (h : reader.Awaits codec parcels (arrival.segments.flatten ++ coming)) :
    (reader.feed arrival.events).Awaits codec (parcels ++ Parcel.joined arrival.segments)
      coming := by
  rw [← Parcel.frames_joined] at h
  exact h.feed arrival.carries

theorem visit_arrivals {arrivals : List Arrival}
    (h : reader.Awaits codec [] (arrivals.flatMap (·.segments)).flatten)
    (empty : reader.pending = .empty) (accepts : ∀ seen, visitor seen = none) :
    ∃ after, Responds reader
      (arrivals.flatMap fun arrival => .feed arrival.events :: arrival.visits visitor)
      (arrivals.flatMap fun arrival => .silent :: arrival.shown) after := by
  induction arrivals generalizing reader with
  | nil => exact ⟨reader, .done reader⟩
  | cons arrival rest ih =>
    rw [List.flatMap_cons, List.flatten_append] at h
    obtain ⟨middle, visited, left, awaits⟩ := h.arrive.visit_all empty accepts
    obtain ⟨after, responds⟩ := ih awaits left
    exact ⟨after, .step rfl nofun (visited.append responds)⟩

/-- All that is owed comes in order, and every read hands over a byte or uses up a pause, as long as
anything is owed. -/
theorem read_loop {operations : List ReaderOperation} {arrivals : List Arrival}
    (loop : ReadLoop operations arrivals)
    (h : reader.Awaits codec parcels (arrivals.flatMap (·.segments)).flatten) :
    ∃ replies after more, Responds reader operations replies after ∧ after.Awaits codec more [] ∧
      (∀ reply ∈ replies, reply.Fine) ∧
      replies.flatMap ReaderReply.content ++ after.owed (Parcel.frames more) =
        reader.owed (Parcel.frames parcels ++ (arrivals.flatMap (·.segments)).flatten) ∧
      Parcel.pauses more ≤ Parcel.pauses parcels + (arrivals.flatMap (·.segments)).length := by
  induction loop generalizing reader parcels with
  | done =>
    exact ⟨[], reader, parcels, .done reader, h, List.forall_mem_nil _, by simp, Nat.le_refl _⟩
  | read positive _ ih =>
    obtain ⟨data, middle, behind, served, awaits, total, fewer, -⟩ := h.read positive
    obtain ⟨replies, after, more, responds, last, fine, rest, least⟩ := ih awaits
    have mine : (ReaderReply.bytes data).Fine := trivial
    refine ⟨.bytes data :: replies, after, more, .step ?_ mine.goes_on responds, last, ?_, ?_,
      Nat.le_trans least (Nat.add_le_add_right fewer _)⟩
    · rw [perform, served]
      rfl
    · intro reply mem
      rcases List.mem_cons.mp mem with rfl | later
      · exact mine
      · exact fine reply later
    · rw [List.flatMap_cons, List.append_assoc, rest, owed_append, owed_append, ← total,
        List.append_assoc]
      rfl
  | feed arrival _ ih =>
    rw [List.flatMap_cons, List.flatten_append] at h
    obtain ⟨replies, after, more, responds, last, fine, rest, least⟩ := ih h.arrive
    have mine : ReaderReply.silent.Fine := trivial
    refine ⟨.silent :: replies, after, more, .step rfl mine.goes_on responds, last, ?_, ?_, ?_⟩
    · intro reply mem
      rcases List.mem_cons.mp mem with rfl | later
      · exact mine
      · exact fine reply later
    · rw [Parcel.frames_append, Parcel.frames_joined, List.append_assoc] at rest
      rw [List.flatMap_cons, List.flatMap_cons, List.flatten_append]
      exact rest
    · have few := Parcel.pauses_joined arrival.segments
      rw [Parcel.pauses_append] at least
      rw [List.flatMap_cons, List.length_append]
      omega

/-- Enough reads get all that is owed. -/
theorem read_all {sizes : List Nat} (positive : ∀ size ∈ sizes, 0 < size)
    (h : reader.Awaits codec parcels []) :
    ∃ replies after, Responds reader (sizes.map .read) replies after ∧
      (∀ reply ∈ replies, reply.Fine) ∧
      replies.flatMap ReaderReply.content <+: reader.owed (Parcel.frames parcels) ∧
      ((reader.owed (Parcel.frames parcels)).length + Parcel.pauses parcels ≤ sizes.length →
        replies.flatMap ReaderReply.content = reader.owed (Parcel.frames parcels)) := by
  induction sizes generalizing reader parcels with
  | nil =>
    refine ⟨[], reader, .done reader, nofun, List.nil_prefix, fun enough => ?_⟩
    have none : (reader.owed (Parcel.frames parcels)).length = 0 := by
      rw [List.length_nil] at enough
      omega
    exact (List.eq_nil_of_length_eq_zero none).symm
  | cons size rest ih =>
    obtain ⟨data, middle, more, served, awaits, total, fewer, last⟩ :=
      h.read (positive size List.mem_cons_self)
    obtain ⟨replies, after, responds, fine, front, whole⟩ :=
      ih (fun other mem => positive other (List.mem_cons_of_mem _ mem)) awaits
    have mine : (ReaderReply.bytes data).Fine := trivial
    refine ⟨.bytes data :: replies, after, .step ?_ mine.goes_on responds, ?_, ?_, fun enough => ?_⟩
    · rw [perform, served]
      rfl
    · intro reply mem
      rcases List.mem_cons.mp mem with rfl | later
      · exact mine
      · exact fine reply later
    · rw [← total]
      exact (List.prefix_append_right_inj data).mpr front
    · have content : (ReaderReply.bytes data :: replies).flatMap ReaderReply.content =
          data ++ replies.flatMap ReaderReply.content := rfl
      rw [content, ← total]
      congr 1
      rw [← total, List.length_append, List.length_cons] at enough
      by_cases none : data = []
      · rcases last none with nothing | used
        · -- nothing comes of nothing
          rw [← total, none, List.nil_append] at nothing
          rw [nothing] at front ⊢
          exact List.prefix_nil.mp front
        · apply whole
          rw [none, List.length_nil] at enough
          omega
      · have some := List.length_pos_iff.mpr none
        exact whole (by omega)

end Awaits

theorem awaits_start {codec : κ} (promise : Codec.InputOnly codec) (policy : ChecksumPolicy)
    {limit : Option Nat} (fed : limit ≠ some 0) (start : Arrival) {coming : List Parsed}
    (stream : Frame.Stream (Codec.unpack codec) policy (start.segments.flatten ++ coming)) :
    (ofSource (.ofEvents start.events limit) codec policy).Awaits codec
      (Parcel.joined start.segments) coming := by
  refine ⟨promise, .now, fit_of_source _ _ _, rfl, fed, ?_, .inr ?_, ?_⟩
  · exact (Source.signals_fed _ fed).trans start.carries
  · rw [Parcel.frames_joined]
    exact stream.opens
  · rw [Parcel.frames_joined]
    exact stream.allowed

/-- However an accepted stream is cut into segments, and whether the source only pauses between these
or is fed with some of them later: the visits show the blocks segment by segment; reads in a loop
give a front of all the bytes at any time, and if there are enough of them all the bytes, which
are those of the stream in one piece. -/
theorem growing_source_resumes {codec : κ} (promise : Codec.InputOnly codec)
    {policy : ChecksumPolicy} {limit : Option Nat} (fed : limit ≠ some 0) (start : Arrival)
    (arrivals : List Arrival) :
    let segments := start.segments ++ arrivals.flatMap (·.segments)
    let frames := segments.flatten
    let first := ofSource (.ofEvents start.events limit) codec policy
    Frame.Stream (Codec.unpack codec) policy frames →
    (∀ visitor, (∀ seen, visitor seen = none) →
      (first.run (start.visits visitor ++ arrivals.flatMap fun arrival =>
          .feed arrival.events :: arrival.visits visitor)).map (·.1) =
        start.shown ++ arrivals.flatMap fun arrival => .silent :: arrival.shown) ∧
    (∀ operations, ReadLoop operations arrivals → ∀ sizes : List Nat, (∀ size ∈ sizes, 0 < size) →
      let replies := (first.run (operations ++ sizes.map .read)).map (·.1)
      replies.length = operations.length + sizes.length ∧
      (∀ reply ∈ replies, reply.Fine) ∧
      replies.flatMap ReaderReply.content <+: Frame.payload frames ∧
      ((Frame.payload frames).length + segments.length ≤ sizes.length →
        replies.flatMap ReaderReply.content = Frame.payload frames)) ∧
    ∀ uncut : Source, uncut.signals = (Frame.wire frames).map .byte →
      ∀ sizes : Nat → Nat, (∀ call, 0 < sizes call) →
        ∃ after, Drains (ofSource uncut codec policy) sizes (Frame.payload frames) after := by
  intro segments frames first stream
  have split : frames = start.segments.flatten ++ (arrivals.flatMap (·.segments)).flatten :=
    List.flatten_append
  have awaits : first.Awaits codec (Parcel.joined start.segments)
      (arrivals.flatMap (·.segments)).flatten := awaits_start promise policy fed start (split ▸ stream)
  have owed : first.owed frames = Frame.payload frames := rfl
  refine ⟨?_, ?_, ?_⟩
  · intro visitor accepts
    obtain ⟨middle, visited, left, next⟩ := awaits.visit_all rfl accepts
    obtain ⟨after, others⟩ := next.visit_arrivals left accepts
    exact (visited.append others).run
  · intro operations loop sizes positive replies
    obtain ⟨early, middle, more, began, next, fine, total, least⟩ := awaits.read_loop loop
    obtain ⟨late, after, ended, others, front, whole⟩ := next.read_all positive
    have answered : replies = early ++ late := (began.append ended).run
    rw [Parcel.frames_joined, ← split, owed] at total
    rw [answered, List.flatMap_append, ← total]
    refine ⟨?_, ?_, (List.prefix_append_right_inj _).mpr front, fun enough => ?_⟩
    · rw [List.length_append, began.length, ended.length, List.length_map]
    · intro reply mem
      rcases List.mem_append.mp mem with soon | later
      · exact fine reply soon
      · exact others reply later
    · congr 1
      apply whole
      have few := Parcel.pauses_joined start.segments
      have count : segments.length =
          start.segments.length + (arrivals.flatMap (·.segments)).length := List.length_append
      rw [List.length_append] at enough
      omega
  · intro uncut said sizes positive
    have faces : (ofSource uncut codec policy).Faces frames [] := by
      apply faces_of_stream promise _ stream (Frame.blocked_nil _)
      rw [List.append_nil]
      exact said
    exact drains_whole faces rfl positive

/-- A pause behind the first two bytes, and the last two fed later. -/
theorem two_bytes_at_a_time :
    let pair := Frame.wire [twoBytes]
    let begun := Frame.wire [opening, twoBytes]
    let start : Arrival :=
      ⟨[[opening, twoBytes], [twoBytes]], [.deliver begun, .pause, .deliver pair], by decide⟩
    let later : Arrival := ⟨[[twoBytes]], [.deliver pair], by decide⟩
    let first := ofSource (.ofEvents start.events none) Codec.Scripted.honest .verify
    let visit : ReaderOperation := .visitBlocks fun _ => none
    (first.run [visit, visit, .feed later.events, visit]).map (·.1) =
      [.visited #[[0x61, 0x62]] none, .visited #[[0x61, 0x62]] none, .silent,
        .visited #[[0x61, 0x62]] none] ∧
    ((first.run ([.read 3, .feed later.events] ++ (List.replicate 9 1).map .read)).map (·.1)).flatMap
      ReaderReply.content = [0x61, 0x62, 0x61, 0x62, 0x61, 0x62] := by
  intro pair begun start later first visit
  have opens : opening.frame.Yields (Codec.unpack Codec.Scripted.honest) .verify opening.content :=
    .identifier rfl rfl
  have stored : twoBytes.frame.Yields (Codec.unpack Codec.Scripted.honest) .verify
      twoBytes.content := .uncompressed rfl (by decide) (by decide) fun _ => by decide +kernel
  have stream : Frame.Stream (Codec.unpack Codec.Scripted.honest) .verify
      [opening, twoBytes, twoBytes, twoBytes] := by
    refine ⟨by simp [opening], fun parsed mem => ?_⟩
    simp only [List.mem_cons, List.not_mem_nil, or_false, or_self] at mem
    rcases mem with rfl | rfl
    · exact opens
    · exact stored
  obtain ⟨visits, reads, -⟩ := growing_source_resumes Codec.Scripted.honest_input_only
    (show (none : Option Nat) ≠ some 0 from nofun) start [later] stream
  obtain ⟨-, -, -, whole⟩ := reads [.read 3, .feed later.events]
    (.read (by decide) (.feed later .done)) (List.replicate 9 1) (by decide)
  exact ⟨visits _ fun _ => rfl, whole (by decide)⟩

end Reader

end FramedSnappy
