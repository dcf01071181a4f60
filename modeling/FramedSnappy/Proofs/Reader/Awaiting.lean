import FramedSnappy.Proofs.Reader.Accounting
import FramedSnappy.Proofs.Reader.Drain
import FramedSnappy.Proofs.Reader.Walk

/-! A reader in front of a source that grows. The source has whole frames in store, and pauses between
them in which it says that it has come to its end; frames may be put behind those later. The
reader can only take what is in store, in this order, and every pause stops it once. -/
namespace FramedSnappy

open FramedSnappy.Frame (Parsed)

/-- What a source has in store. -/
inductive Parcel where
  | frame (parsed : Parsed)
  | pause

namespace Parcel

def signals : Parcel → List Signal
  | frame parsed => parsed.frame.bytes.map .byte
  | pause => [.pause]

def frames : List Parcel → List Parsed
  | [] => []
  | frame parsed :: rest => parsed :: frames rest
  | pause :: rest => frames rest

def pauses : List Parcel → Nat
  | [] => 0
  | frame _ :: rest => pauses rest
  | pause :: rest => pauses rest + 1

/-- One segment after the other, with a pause between one and the next. -/
def joined : List (List Parsed) → List Parcel
  | [] => []
  | [segment] => segment.map frame
  | segment :: next :: more => segment.map frame ++ pause :: joined (next :: more)

/-- No frame is in front. -/
def Stops : List Parcel → Prop
  | frame _ :: _ => False
  | _ => True

@[simp] theorem frames_append (left right : List Parcel) :
    frames (left ++ right) = frames left ++ frames right := by
  induction left with
  | nil => rfl
  | cons parcel rest ih => cases parcel <;> simp [frames, ih]

@[simp] theorem frames_map (segment : List Parsed) : frames (segment.map frame) = segment := by
  induction segment with
  | nil => rfl
  | cons parsed rest ih => exact congrArg (parsed :: ·) ih

@[simp] theorem pauses_append (left right : List Parcel) :
    pauses (left ++ right) = pauses left + pauses right := by
  induction left with
  | nil => simp [pauses]
  | cons parcel rest ih =>
    cases parcel with
    | frame parsed => exact ih
    | pause => simp [pauses, ih, Nat.add_right_comm]

@[simp] theorem pauses_map (segment : List Parsed) : pauses (segment.map frame) = 0 := by
  induction segment with
  | nil => rfl
  | cons parsed rest ih => exact ih

@[simp] theorem frames_joined (segments : List (List Parsed)) :
    frames (joined segments) = segments.flatten := by
  fun_induction joined segments with
  | case1 => rfl
  | case2 segment => simp
  | case3 segment next more ih => simp [frames, ih]

/-- There are fewer pauses than segments. -/
theorem pauses_joined (segments : List (List Parsed)) :
    pauses (joined segments) ≤ segments.length := by
  fun_induction joined segments with
  | case1 => exact Nat.le_refl _
  | case2 segment => simp
  | case3 segment next more ih => simpa [pauses] using ih

theorem frames_tail {parcels : List Parcel} (stops : Stops parcels) :
    frames parcels.tail = frames parcels := by
  match parcels, stops with
  | [], _ => rfl
  | pause :: rest, _ => rfl

theorem pauses_tail {parcels : List Parcel} (stops : Stops parcels) :
    parcels = [] ∨ pauses parcels.tail < pauses parcels := by
  match parcels, stops with
  | [], _ => exact .inl rfl
  | pause :: rest, _ => exact .inr (Nat.lt_succ_self _)

/-- Frames in front of a stop are the same in every reading. -/
theorem split_unique {left right : List Parsed} {rest more : List Parcel} (stops : Stops rest)
    (stops_too : Stops more) (h : left.map frame ++ rest = right.map frame ++ more) :
    left = right ∧ rest = more := by
  induction left generalizing right with
  | nil =>
    cases right with
    | nil => exact ⟨rfl, h⟩
    | cons parsed others =>
      rw [List.map_nil, List.nil_append] at h
      rw [h] at stops
      exact stops.elim
  | cons parsed others ih =>
    cases right with
    | nil =>
      rw [List.map_nil, List.nil_append] at h
      rw [← h] at stops_too
      exact stops_too.elim
    | cons first behind =>
      simp only [List.map_cons, List.cons_append, List.cons.injEq, frame.injEq] at h
      obtain ⟨same, tails⟩ := ih h.2
      exact ⟨by rw [h.1, same], tails⟩

end Parcel

namespace Reader

variable {κ : Type} [Codec κ]

/-- The source has the parcels in store, and `coming` will be put behind them. All together is what a
codec that keeps its promise accepts. -/
structure Awaits (reader : Reader κ) (codec : κ) (parcels : List Parcel) (coming : List Parsed) :
    Prop where
  promise : Codec.InputOnly codec
  later : Codec.Later codec reader.codec
  fit : reader.Fit
  fresh : reader.poisoned = false
  fed : reader.source.limit ≠ some 0
  said : reader.source.signals = parcels.flatMap Parcel.signals
  opened : reader.identified = true ∨
    ∀ parsed ∈ (Parcel.frames parcels ++ coming).head?, parsed.frame.tag = 0xff
  allowed : ∀ parsed ∈ Parcel.frames parcels ++ coming,
    parsed.frame.Yields (Codec.unpack codec) reader.policy parsed.content

variable {reader after last : Reader κ} {codec : κ} {parcels : List Parcel}
  {coming frames : List Parsed} {parsed : Parsed}

namespace Awaits

theorem decode (h : reader.Awaits codec parcels coming) : reader.decode = Codec.unpack codec :=
  funext (decode_input_only h.promise h.fit h.later)

theorem with_queue (h : reader.Awaits codec parcels coming) (queue : ByteQueue) :
    ({ reader with pending := queue } : Reader κ).Awaits codec parcels coming :=
  ⟨h.promise, h.later, ⟨h.fit.body, h.fit.decoded⟩, h.fresh, h.fed, h.said, h.opened, h.allowed⟩

theorem verdict_frame (h : reader.Awaits codec (.frame parsed :: parcels) coming) :
    ∃ rest, reader.source.front = parsed.frame.bytes ++ rest ∧
      reader.verdict = .passed parsed.content rest := by
  have said : reader.source.signals =
      parsed.frame.bytes.map .byte ++ parcels.flatMap Parcel.signals := h.said
  have front : reader.source.front =
      parsed.frame.bytes ++ Signal.front (parcels.flatMap Parcel.signals) := by
    rw [Source.front, said, Signal.front_map_append]
  have yields := h.allowed parsed List.mem_cons_self
  rw [← h.decode] at yields
  have opened := h.opened.imp_right fun tag => tag parsed rfl
  refine ⟨_, front, ?_⟩
  unfold Reader.verdict
  rw [front]
  exact yields.judge opened _ _

theorem verdict_stop (h : reader.Awaits codec parcels coming) (stops : Parcel.Stops parcels) :
    reader.verdict = .ended := by
  have said := h.said
  unfold Reader.verdict Source.front Source.behind
  cases parcels with
  | nil =>
    rw [said]
    rfl
  | cons parcel more =>
    cases parcel with
    | frame parsed => exact stops.elim
    | pause =>
      rw [said]
      rfl

theorem takes (h : reader.Awaits codec parcels coming) (takes : reader.Takes parsed after) :
    ∃ more, parcels = .frame parsed :: more ∧ after.Awaits codec more coming := by
  have taken := takes.verdict
  have stuck : ¬ Parcel.Stops parcels := by
    intro stops
    rw [h.verdict_stop stops] at taken
    cases taken
  match parcels, stuck with
  | [], stuck => exact absurd trivial stuck
  | .pause :: more, stuck => exact absurd trivial stuck
  | .frame first :: more, _ =>
    obtain ⟨rest, front, judged⟩ := h.verdict_frame
    obtain rfl := takes.unique front judged
    have said : first.frame.bytes.map .byte ++ more.flatMap Parcel.signals =
        first.frame.bytes.map .byte ++ after.source.signals := h.said.symm.trans takes.said
    refine ⟨more, rfl, h.promise, h.later.trans takes.keeps.codec, takes.keeps.fit h.fit,
      takes.keeps.poisoned.trans h.fresh, ?_, (List.append_cancel_left said).symm,
      .inl takes.identified, ?_⟩
    · rw [takes.keeps.source.limit]
      exact h.fed
    · intro other mem
      rw [takes.keeps.policy]
      exact h.allowed other (List.mem_cons_of_mem _ mem)

/-- A pause is used up; the very end stays. -/
theorem halts (h : reader.Awaits codec parcels coming) (halts : reader.Halts after) :
    Parcel.Stops parcels ∧ after.Awaits codec parcels.tail coming := by
  have ended := halts.verdict
  have stops : Parcel.Stops parcels := by
    match parcels, h with
    | [], _ => trivial
    | .pause :: more, _ => trivial
    | .frame first :: more, h =>
      obtain ⟨rest, -, judged⟩ := h.verdict_frame
      cases judged.symm.trans ended
  have said : after.source.signals = parcels.tail.flatMap Parcel.signals := by
    have before := h.said
    match parcels, stops with
    | [], _ =>
      rcases halts.signals with ⟨-, spent⟩ | paused
      · exact spent
      · cases paused.symm.trans before
    | .pause :: more, _ =>
      rcases halts.signals with ⟨none, -⟩ | paused
      · cases none.symm.trans before
      · exact (List.cons.inj (paused.symm.trans before)).2
  have same := Parcel.frames_tail stops
  refine ⟨stops, h.promise, h.later.trans halts.keeps.codec, halts.keeps.fit h.fit,
    halts.keeps.poisoned.trans h.fresh, ?_, said, ?_, ?_⟩
  · rw [halts.keeps.source.limit]
    exact h.fed
  · rw [halts.identified, same]
    exact h.opened
  · rw [halts.keeps.policy, same]
    exact h.allowed

theorem breaks {e : Error} (h : reader.Awaits codec parcels coming) :
    ¬ reader.Breaks e after := by
  intro breaks
  obtain ⟨rest, judged, -⟩ := breaks.verdict
  match parcels, h with
  | [], h => cases judged.symm.trans (h.verdict_stop trivial)
  | .pause :: more, h => cases judged.symm.trans (h.verdict_stop trivial)
  | .frame first :: more, h =>
    obtain ⟨rest, -, passed⟩ := h.verdict_frame
    cases judged.symm.trans passed

theorem overruns (h : reader.Awaits codec parcels coming) : ¬ reader.Overruns after :=
  not_overruns h.fit (h.promise.inside.later h.later)

theorem reaches (h : reader.Awaits codec parcels coming) (reaches : Reaches reader frames last) :
    ∃ more, Parcel.frames parcels = frames ++ Parcel.frames more ∧
      Parcel.pauses more ≤ Parcel.pauses parcels ∧ last.Awaits codec more coming := by
  induction reaches generalizing parcels with
  | here reader queue => exact ⟨parcels, rfl, Nat.le_refl _, h.with_queue queue⟩
  | halt halts _ ih =>
    obtain ⟨stops, next⟩ := h.halts halts
    obtain ⟨more, split, fewer, awaits⟩ := ih next
    rw [Parcel.frames_tail stops] at split
    refine ⟨more, split, ?_, awaits⟩
    rcases Parcel.pauses_tail stops with rfl | used
    · exact fewer
    · omega
  | take takes _ ih =>
    obtain ⟨rest, rfl, next⟩ := h.takes takes
    obtain ⟨more, split, fewer, awaits⟩ := ih next
    exact ⟨more, congrArg (_ :: ·) split, fewer, awaits⟩

theorem walks (h : reader.Awaits codec parcels coming) (walk : Walks reader frames last) :
    ∃ more, parcels = frames.map .frame ++ more ∧ last.Awaits codec more coming := by
  induction walk generalizing parcels with
  | here reader => exact ⟨parcels, rfl, h⟩
  | step passes _ ih =>
    obtain ⟨rest, rfl, next⟩ := h.takes passes.takes
    obtain ⟨more, rfl, awaits⟩ := ih (next.with_queue .empty)
    exact ⟨more, rfl, awaits⟩

theorem feed {more : List Parcel} {events : List SourceEvent}
    (h : reader.Awaits codec parcels (Parcel.frames more ++ coming))
    (said : events.flatMap SourceEvent.signals = more.flatMap Parcel.signals) :
    (reader.feed events).Awaits codec (parcels ++ more) coming := by
  refine ⟨h.promise, h.later, ⟨h.fit.body, h.fit.decoded⟩, h.fresh, h.fed, ?_, ?_, ?_⟩
  · have before := h.said
    rw [Source.signals_fed _ h.fed] at before
    have fed : (reader.feed events).source.limit ≠ some 0 := h.fed
    rw [Source.signals_fed _ fed, List.flatMap_append, ← before, ← said]
    exact List.flatMap_append
  · rw [Parcel.frames_append, List.append_assoc]
    exact h.opened
  · rw [Parcel.frames_append, List.append_assoc]
    exact h.allowed

/-- A visit shows the blocks of the frames up to the next stop. -/
theorem visit {segment : List Parsed} {rest : List Parcel} {visitor : Visitor}
    (h : reader.Awaits codec (segment.map .frame ++ rest) coming) (stops : Parcel.Stops rest)
    (empty : reader.pending = .empty) (accepts : ∀ seen, visitor seen = none) :
    ∃ after, reader.visitBlocks visitor = (.done (), (Frame.blocks segment).toArray, after) ∧
      after.pending = .empty ∧ after.Awaits codec rest.tail coming := by
  obtain ⟨frames, last, walk, stuck⟩ := exists_walk h.fit
  obtain ⟨more, split, awaits⟩ := h.walks walk
  have stops_too : Parcel.Stops more := by
    match more, awaits with
    | [], _ => trivial
    | .pause :: _, _ => trivial
    | .frame first :: _, awaits =>
      -- a reader that faces a frame is not stuck
      obtain ⟨left, -, passed⟩ := awaits.verdict_frame
      have outcome := (advance_answers awaits.fit).outcome
      rw [passed] at outcome
      rcases first with ⟨frame, _ | content⟩
      · cases stuck _ outcome
      · cases stuck _ outcome
  obtain ⟨rfl, rfl⟩ := Parcel.split_unique stops stops_too split
  have answers := advance_answers awaits.fit
  rw [awaits.verdict_stop stops] at answers
  have advanced : last.advance = (.done .ended, last.advance.2) := Prod.ext answers.outcome rfl
  obtain ⟨halts, pending⟩ := advance_ended awaits.fit advanced
  have dry : reader.pending.isEmpty = true := empty ▸ rfl
  have visited := walk.visit h.fit h.fresh empty visitor #[]
  rw [offer_accepted accepts] at visited
  refine ⟨last.advance.2, ?_, pending.trans (walk.pending empty), (awaits.halts halts).2⟩
  rw [visitBlocks, if_pos dry, visited, visit_rest_step awaits.fit awaits.fresh, advanced]
  simp

/-- A refill succeeds. If nothing waits then, there is nothing left, or a pause has been used up. -/
theorem refill (h : reader.Awaits codec parcels coming) :
    ∃ waiting after more, reader.refill = (.done waiting, after) ∧ after.Awaits codec more coming ∧
      after.owed (Parcel.frames more) = reader.owed (Parcel.frames parcels) ∧
      Parcel.pauses more ≤ Parcel.pauses parcels ∧
      (after.pending.toList = [] → reader.owed (Parcel.frames parcels) = [] ∨
        Parcel.pauses more < Parcel.pauses parcels) := by
  have decodes := refill_decodes h.fit h.fresh
  generalize reader.refill = result at decodes ⊢
  cases decodes with
  | @filled quiet parsed content middle reaches idle carries pending waits =>
    obtain ⟨more, split, fewer, awaits⟩ := h.reaches reaches
    have owes : middle.owed (Parcel.frames more) = reader.owed (Parcel.frames parcels) := by
      simp [owed, split, pending, payload_idle idle, Parsed.data, carries]
    exact ⟨_, _, more, rfl, awaits, owes, fewer, fun none => absurd none waits⟩
  | @ended quiet middle last reaches idle halts kept =>
    obtain ⟨more, split, fewer, awaits⟩ := h.reaches reaches
    obtain ⟨stops, next⟩ := awaits.halts halts
    have owes : last.owed (Parcel.frames more.tail) = reader.owed (Parcel.frames parcels) := by
      simp [owed, Parcel.frames_tail stops, split, kept, payload_idle idle]
    refine ⟨_, _, more.tail, rfl, next, owes, ?_, fun dry => ?_⟩
    · rcases Parcel.pauses_tail stops with rfl | used
      · exact fewer
      · omega
    · rcases Parcel.pauses_tail stops with rfl | used
      · rw [owed, dry] at owes
        exact .inl owes.symm
      · right
        omega
  | broken reaches idle breaks kept =>
    obtain ⟨more, -, -, awaits⟩ := h.reaches reaches
    exact absurd breaks awaits.breaks
  | overrun reaches idle overruns kept =>
    obtain ⟨more, -, -, awaits⟩ := h.reaches reaches
    exact absurd overruns awaits.overruns

theorem read (h : reader.Awaits codec parcels coming) {size : Nat} (positive : 0 < size) :
    ∃ data after more, reader.read size = (.done data, after) ∧ after.Awaits codec more coming ∧
      data ++ after.owed (Parcel.frames more) = reader.owed (Parcel.frames parcels) ∧
      Parcel.pauses more ≤ Parcel.pauses parcels ∧
      (data = [] → reader.owed (Parcel.frames parcels) = [] ∨
        Parcel.pauses more < Parcel.pauses parcels) := by
  unfold Reader.read
  split
  · obtain ⟨waiting, after, more, refilled, awaits, owes, fewer, nothing⟩ := h.refill
    rw [refilled]
    exact ⟨_, _, more, rfl, awaits.with_queue _, (serve_owed _ _ _).trans owes, fewer,
      fun none => nothing (serve_dry positive none)⟩
  · rename_i enough
    exact ⟨_, _, parcels, rfl, h.with_queue _, serve_owed _ _ _, Nat.le_refl _,
      fun none => absurd none (serve_enough positive enough)⟩

end Awaits

end Reader

end FramedSnappy
