import FramedSnappy.Proofs.Codec.Scripted
import FramedSnappy.Proofs.Reader.Drain
import FramedSnappy.Proofs.Reader.Equations
import FramedSnappy.Proofs.Reader.Failure
import FramedSnappy.Proofs.Reader.Fetching
import FramedSnappy.Proofs.Reader.Journey

/-! The end of a stream, as a reader reports it. It is reported only when the source has come to an
end where the next header would start, and nothing waits; and there it is reported to every call, as
long as the source has nothing to add. -/
namespace FramedSnappy

/-- The reply reports the end: no bytes where there is room for some, or a visit that went well. -/
def ReaderReply.Ends : ReaderReply → Prop
  | bytes [] => True
  | visited _ none => True
  | _ => False

/-- The reply that says that there is nothing more. -/
def ReaderOperation.atEnd : ReaderOperation → ReaderReply
  | visitBlocks _ => .visited #[] none
  | _ => .bytes []

namespace Source

/-- Asked for `wanted` bytes, and again after every interruption, the source has not one. -/
inductive Denies (wanted : Nat) : Source → Source → Prop
  | ended {source after : Source} : source.read wanted = (.ok [], after) → Denies wanted source after
  | again {source middle after : Source} {fault : Fault} :
      source.read wanted = (.error fault, middle) → fault.interrupted = true →
      Denies wanted middle after → Denies wanted source after

/-- If nothing is gathered where something is wanted, all of it has been asked for in vain. -/
theorem gather_nothing {source after : Source} {wanted : Nat} (some : wanted ≠ 0)
    (h : source.gather wanted #[] = (.ok [], after)) : source.Denies wanted after := by
  generalize empty : (#[] : Array UInt8) = got at h
  fun_induction gather source wanted got with
  | case1 => contradiction
  | case2 source wanted got _ fault last hr _ interrupted ih =>
    exact .again hr interrupted (ih some empty h)
  | case3 => cases h
  | case4 source wanted got _ last hr =>
    obtain ⟨-, rfl⟩ := Prod.mk.inj h
    exact .ended hr
  | case5 source wanted got _ first more last hr _ ih =>
    -- a byte that is there stays there
    have gathered := (gather_signals last (wanted - (more.length + 1)) (got ++ first :: more)).1
    rw [h, ← empty] at gathered
    cases rest : (Signal.gather (wanted - (more.length + 1)) last.signals).1 <;>
      simp [rest, Except.map] at gathered

theorem read_header_nothing {source after : Source} (h : source.readHeader = (.ok none, after)) :
    source.Denies Frame.headerSize after := by
  unfold readHeader at h
  split at h
  · cases h
  · rename_i gathered
    cases h
    exact gather_nothing (by decide) gathered
  · split at h <;> cases h

end Source

namespace Reader

open FramedSnappy.Frame (Parsed)

variable {κ : Type} [Codec κ] {reader now after : Reader κ} {frames passed : List Parsed}

/-- When the frames have been taken, the source is asked for a whole header, and has not one byte. -/
def AtBoundary (now : Reader κ) (passed : List Parsed) (after : Reader κ) : Prop :=
  ∃ middle : Reader κ, Reaches now passed middle ∧ middle.advance = (.done .ended, after) ∧
    middle.source.Denies Frame.headerSize after.source

section Boundary

theorem advance_denied (fit : reader.Fit) (h : reader.advance = (.done .ended, after)) :
    reader.source.Denies Frame.headerSize after.source := by
  obtain ⟨front, stop⟩ := Frame.ended_of_judge (advance_ended fit h).1.verdict
  obtain ⟨source, read, -, -⟩ := Source.read_header_none front
  have stopped : Signal.stop reader.source.behind = none := stop
  rw [stopped] at read
  unfold advance at h
  rw [read] at h
  cases h
  exact Source.read_header_nothing read

theorem AtBoundary.reaches (fit : now.Fit) (h : now.AtBoundary passed after) :
    Reaches now passed after := by
  obtain ⟨middle, reaches, ended, -⟩ := h
  have all := reaches.trans (.halt (advance_ended (reaches.fit fit) ended).1 (.refl after))
  rwa [List.append_nil] at all

theorem AtBoundary.behind {middle : Reader κ} (reaches : Reaches now frames middle)
    (h : middle.AtBoundary passed after) : now.AtBoundary (frames ++ passed) after := by
  obtain ⟨last, more, ended, denied⟩ := h
  exact ⟨last, reaches.trans more, ended, denied⟩

theorem Fetches.boundary {content : Bytes} (fit : now.Fit)
    (h : Fetches now frames content (.done false, after)) : now.AtBoundary frames after := by
  cases h with
  | ended advances _ told =>
    have reaches := advances.reaches
    exact ⟨_, reaches, told, advance_denied (reaches.fit fit) told⟩

theorem visit_rest_boundary (fit : reader.Fit) (fresh : reader.poisoned = false)
    {visitor : Visitor} {seen shown : Array Bytes}
    (h : reader.visitRest visitor seen = (.done (), shown, after)) :
    ∃ passed, reader.AtBoundary passed after := by
  fun_induction visitRest reader visitor seen with
  | case1 => cases h
  | case2 => cases h
  | case3 reader seen last told =>
    cases h
    obtain ⟨frames, content, fetches⟩ := refill_fetches fit fresh
    exact ⟨frames, (told ▸ fetches).boundary fit⟩
  | case4 => cases h
  | case5 reader seen last told _ more fine ih =>
    obtain ⟨frames, content, fetches⟩ := refill_fetches fit fresh
    have reaches := (told ▸ fetches).reaches fit
    have emptied : Reaches reader (frames ++ []) { last with pending := .empty } :=
      reaches.trans (.here last .empty)
    obtain ⟨passed, boundary⟩ := ih (emptied.fit fit) (emptied.keeps.poisoned.trans fresh) h
    exact ⟨_, boundary.behind emptied⟩

theorem visit_boundary (fit : reader.Fit) (fresh : reader.poisoned = false) {visitor : Visitor}
    {shown : Array Bytes} (h : reader.visitBlocks visitor = (.done (), shown, after)) :
    ∃ passed, reader.AtBoundary passed after := by
  unfold visitBlocks at h
  split at h
  · exact visit_rest_boundary fit fresh h
  · dsimp only at h
    split at h
    · cases h
    · have emptied : Reaches reader [] { reader with pending := .empty } := .here reader .empty
      obtain ⟨passed, boundary⟩ := visit_rest_boundary (emptied.fit fit) fresh h
      exact ⟨_, boundary.behind emptied⟩

end Boundary

/-- How a reader comes to report the end: it takes some frames more, then there is none, and nothing
waits. -/
structure Finishes (now : Reader κ) (passed : List Parsed) (after : Reader κ) : Prop where
  boundary : ∃ ended queue, now.AtBoundary passed ended ∧ after = { ended with pending := queue }
  fresh : after.poisoned = false
  empty : after.pending.toList = []

theorem Finishes.with_queue {passed : List Parsed} (h : Finishes now passed after)
    {queue : ByteQueue} (empty : queue.toList = []) :
    Finishes now passed { after with pending := queue } where
  boundary := by
    obtain ⟨ended, other, boundary, same⟩ := h.boundary
    exact ⟨ended, queue, boundary, by rw [same]⟩
  fresh := h.fresh
  empty := empty

/-- A refill after which nothing waits has passed by frames without bytes only. -/
theorem refill_finishes (fit : now.Fit) {waiting : Bool} (h : now.refill = (.done waiting, after))
    (empty : after.pending.toList = []) :
    ∃ passed, Finishes now passed after ∧ now.pending.toList = [] ∧ Frame.payload passed = [] := by
  cases poisoned : now.poisoned with
  | true =>
    rw [refill_poisoned poisoned] at h
    cases h
  | false =>
    obtain ⟨frames, content, fetches⟩ := refill_fetches fit poisoned
    rw [h] at fetches
    have waits := fetches.waiting fit
    have reaches := fetches.reaches fit
    rw [empty] at waits
    obtain ⟨dry, none⟩ := List.append_eq_nil_iff.mp waits.symm
    cases waiting with
    | true =>
      cases fetches with
      | filled _ _ _ _ some => exact absurd none (some dry)
    | false =>
      have boundary := fetches.boundary fit
      have fresh := reaches.keeps.poisoned.trans poisoned
      refine ⟨frames, ⟨⟨after, _, boundary, rfl⟩, fresh, empty⟩, dry, ?_⟩
      cases fetches with
      | ended _ idle _ => exact payload_idle idle

section Ends

theorem read_ends (fit : now.Fit) {size : Nat} (positive : 0 < size)
    (ends : (now.perform (.read size)).1.Ends) :
    ∃ passed, Finishes now passed (now.perform (.read size)).2 ∧ now.pending.toList = [] ∧
      Frame.payload passed = [] := by
  have served (reader : Reader κ) (none : (replyBytes (.done (reader.serve size).1)).Ends) :
      reader.pending.toList = [] := by
    cases data : (reader.serve size).1 with
    | nil => exact serve_dry positive data
    | cons first more =>
      rw [data] at none
      exact none.elim
  simp only [perform, read] at ends ⊢
  split at ends
  · rename_i short
    rw [if_pos short]
    rcases filled : now.refill with ⟨_ | e | -, after⟩
    · rw [filled] at ends
      have empty := served after ends
      obtain ⟨passed, finishes, before, hollow⟩ := refill_finishes fit filled empty
      have left : (after.serve size).2.pending.toList = [] := by
        rw [serve, ByteQueue.to_list_take_rest, empty, List.drop_nil]
      exact ⟨passed, finishes.with_queue left, before, hollow⟩
    · rw [filled] at ends
      exact ends.elim
    · rw [filled] at ends
      exact ends.elim
  · rename_i enough
    have empty := served now ends
    rw [← ByteQueue.length_to_list, empty] at enough
    exact absurd positive enough

theorem peek_ends (fit : now.Fit) (ends : (now.perform .peek).1.Ends) :
    ∃ passed, Finishes now passed (now.perform .peek).2 ∧ now.pending.toList = [] ∧
      Frame.payload passed = [] := by
  have shown {data : Bytes} (none : (replyBytes (.done data)).Ends) : data = [] := by
    cases data with
    | nil => rfl
    | cons first more => exact none.elim
  simp only [perform, peek] at ends ⊢
  split at ends
  · rename_i dry
    rw [if_pos dry]
    rcases filled : now.refill with ⟨_ | e | -, after⟩
    · rw [filled] at ends
      exact refill_finishes fit filled (shown ends)
    · rw [filled] at ends
      exact ends.elim
    · rw [filled] at ends
      exact ends.elim
  · rename_i waits
    exact absurd ((ByteQueue.is_empty_to_list _).mpr (shown ends)) waits

theorem visit_ends (fit : now.Fit) {visitor : Visitor}
    (ends : (now.perform (.visitBlocks visitor)).1.Ends) :
    ∃ passed, Finishes now passed (now.perform (.visitBlocks visitor)).2 := by
  rcases visited : now.visitBlocks visitor with ⟨outcome, seen, after⟩
  simp only [perform, visited] at ends ⊢
  cases outcome with
  | failed e => exact ends.elim
  | overrun => exact ends.elim
  | done =>
    cases poisoned : now.poisoned with
    | true =>
      obtain ⟨e, shown, queue, failed, -⟩ := @visit_blocks_poisoned _ _ visitor _ poisoned
      cases visited.symm.trans failed
    | false =>
      have visits := @visit_blocks_visits _ _ visitor _ fit poisoned
      rw [visited] at visits
      obtain ⟨passed, boundary⟩ := visit_boundary fit poisoned visited
      have fresh := (boundary.reaches fit).keeps.poisoned.trans poisoned
      cases visits with
      | ended _ _ empty _ => exact ⟨passed, ⟨after, _, boundary, rfl⟩, fresh, empty⟩

end Ends

/-- A frame without bytes is passed by within one call. -/
theorem Passes.hollow {parsed : Parsed} (h : reader.Passes parsed after)
    (hollow : parsed.data = []) (empty : reader.pending.toList = []) :
    reader.decodeUntilPending = after.decodeUntilPending ∧ after.pending.toList = [] := by
  have waiting : after.pending.toList = [] := by
    rw [h.waiting, empty, hollow, List.append_nil]
  refine ⟨?_, waiting⟩
  rw [decode_until_pending_eq, h.advance]
  rcases parsed with ⟨frame, _ | content⟩
  · rfl
  · exact if_pos ((ByteQueue.is_empty_to_list _).mpr waiting)

theorem Advances.hollow {frames : List Parsed} {last : Reader κ}
    (h : Advances reader frames last) (hollow : ∀ parsed ∈ frames, parsed.data = [])
    (empty : reader.pending.toList = []) :
    reader.decodeUntilPending = last.decodeUntilPending ∧ last.pending.toList = [] := by
  induction h with
  | here reader => exact ⟨rfl, empty⟩
  | step passes _ ih =>
    obtain ⟨same, still⟩ := passes.hollow (hollow _ List.mem_cons_self) empty
    obtain ⟨rest, last⟩ := ih (fun other mem => hollow other (List.mem_cons_of_mem _ mem)) still
    exact ⟨same.trans rest, last⟩

theorem Passes.filled {parsed : Parsed} (h : reader.Passes parsed after)
    (filled : parsed.data ≠ []) (empty : reader.pending.toList = []) :
    reader.decodeUntilPending = (.done true, after) ∧ after.pending.toList = parsed.data := by
  have waiting : after.pending.toList = parsed.data := by
    rw [h.waiting, empty, List.nil_append]
  refine ⟨?_, waiting⟩
  rw [decode_until_pending_eq, h.advance]
  rcases parsed with ⟨frame, _ | content⟩
  · exact absurd rfl filled
  · have waits : ¬ after.pending.isEmpty = true := by
      rw [ByteQueue.is_empty_to_list, waiting]
      exact filled
    exact if_neg waits

/-- A visit goes on from the blocks that have been shown. -/
theorem visit_rest_goes_on (reader : Reader κ) (visitor : Visitor) (seen : Array Bytes) :
    seen.toList <+: (reader.visitRest visitor seen).2.1.toList := by
  fun_induction visitRest reader visitor seen with
  | case1 => exact List.prefix_refl _
  | case2 => exact List.prefix_refl _
  | case3 => exact List.prefix_refl _
  | case4 => exact Array.toList_push ▸ List.prefix_append _ _
  | case5 reader seen last told _ more fine ih =>
    have first : seen.toList <+: more.toList := Array.toList_push ▸ List.prefix_append _ _
    exact first.trans ih

/-- However many frames without bytes stand in front of a block, whoever asks for bytes gets those
of the block, and a visitor is shown them first. -/
theorem Advances.serves {hollow : List Parsed} {parsed : Parsed} {middle last : Reader κ}
    (h : Advances now hollow middle) (nothing : ∀ parsed ∈ hollow, parsed.data = [])
    (passes : middle.Passes parsed last) (filled : parsed.data ≠ [])
    (fresh : now.poisoned = false) (empty : now.pending.toList = []) :
    (∀ size, 0 < size → (now.perform (.read size)).1 = .bytes (parsed.data.take size)) ∧
      (now.perform .peek).1 = .bytes parsed.data ∧
      ∀ visitor, [parsed.data] <+: (now.visitBlocks visitor).2.1.toList := by
  obtain ⟨same, still⟩ := h.hollow nothing empty
  obtain ⟨done, waiting⟩ := passes.filled filled still
  have refilled : now.refill = (.done true, last) := by
    rw [refill, if_neg (Bool.eq_false_iff.mp fresh), same, done]
  have dry : now.pending.isEmpty = true := (ByteQueue.is_empty_to_list _).mpr empty
  refine ⟨fun size positive => ?_, ?_, fun visitor => ?_⟩
  · have short : now.pending.length < size := by
      rw [← ByteQueue.length_to_list, empty]
      exact positive
    simp only [perform, read, if_pos short, refilled, serve, ByteQueue.to_list_take, waiting,
      replyBytes]
  · simp only [perform, peek, if_pos dry, refilled, waiting, replyBytes]
  · rw [visitBlocks, if_pos dry, visit_rest_eq, refilled]
    dsimp only
    rw [waiting]
    cases visitor (#[].push parsed.data) with
    | some e => exact List.prefix_refl _
    | none => exact visit_rest_goes_on _ visitor (#[].push parsed.data)

/-- Nothing waits, and for the next `calls` times the source will say that it has come to an end. -/
structure Dry (reader : Reader κ) (calls : Nat) : Prop where
  fit : reader.Fit
  fresh : reader.poisoned = false
  empty : reader.pending.toList = []
  ended : ∀ signal ∈ reader.source.signals.take calls, signal = .pause

namespace Dry

variable {calls : Nat}

theorem verdict (h : reader.Dry (calls + 1)) : reader.verdict = .ended := by
  have ended := h.ended
  unfold Reader.verdict Source.front Source.behind
  cases said : reader.source.signals with
  | nil => rfl
  | cons signal rest =>
    rw [said] at ended
    obtain rfl : signal = .pause := ended signal List.mem_cons_self
    rfl

theorem refill (h : reader.Dry (calls + 1)) :
    ∃ after, reader.refill = (.done false, after) ∧ after.Dry calls := by
  have answers := advance_answers h.fit
  rw [h.verdict] at answers
  have advanced : reader.advance = (.done .ended, reader.advance.2) :=
    Prod.ext answers.outcome rfl
  obtain ⟨halts, pending⟩ := advance_ended h.fit advanced
  refine ⟨reader.advance.2, ?_, ?_⟩
  · rw [Reader.refill, if_neg (Bool.eq_false_iff.mp h.fresh), decode_until_pending_eq, advanced]
  · refine ⟨halts.keeps.fit h.fit, halts.keeps.poisoned.trans h.fresh, pending ▸ h.empty, ?_⟩
    intro signal mem
    apply h.ended
    rcases halts.signals with ⟨-, spent⟩ | paused
    · rw [spent, List.take_nil] at mem
      cases mem
    · rw [paused]
      exact List.mem_cons_of_mem _ mem

theorem perform (h : reader.Dry (calls + 1)) {operation : ReaderOperation}
    (asks : operation.Asks) :
    ∃ after, reader.perform operation = (operation.atEnd, after) ∧ after.Dry calls := by
  obtain ⟨after, refilled, dry⟩ := h.refill
  have empty : reader.pending.isEmpty = true := (ByteQueue.is_empty_to_list _).mpr h.empty
  cases operation with
  | read size =>
    have short : reader.pending.length < size := by
      rw [← ByteQueue.length_to_list, h.empty]
      exact asks
    have left : (after.pending.take size).2.toList = [] := by
      rw [ByteQueue.to_list_take_rest, dry.empty, List.drop_nil]
    refine ⟨{ after with pending := (after.pending.take size).2 }, ?_,
      ⟨dry.fit.body, dry.fit.decoded⟩, dry.fresh, left, dry.ended⟩
    simp only [Reader.perform, read, if_pos short, refilled, serve, ByteQueue.to_list_take,
      dry.empty, List.take_nil, replyBytes, ReaderOperation.atEnd]
  | peek =>
    refine ⟨after, ?_, dry⟩
    simp only [Reader.perform, peek, if_pos empty, refilled, dry.empty, replyBytes,
      ReaderOperation.atEnd]
  | visitBlocks visitor =>
    have visited : reader.visitBlocks visitor = (.done (), #[], after) := by
      rw [visitBlocks, if_pos empty, visit_rest_eq, refilled]
    refine ⟨after, ?_, dry⟩
    simp only [Reader.perform, visited, replyVisited, ReaderOperation.atEnd]
  | _ => exact asks.elim

/-- One report for every call. -/
theorem run {operations : List ReaderOperation} (h : reader.Dry operations.length)
    (asks : ∀ operation ∈ operations, operation.Asks) :
    (reader.run operations).map (·.1) = operations.map (·.atEnd) := by
  induction operations generalizing reader with
  | nil => rfl
  | cons operation rest ih =>
    obtain ⟨after, performed, dry⟩ := h.perform (asks operation List.mem_cons_self)
    have told : operation.atEnd ≠ .overrun := by
      cases operation <;> exact nofun
    have others := ih dry fun other mem => asks other (List.mem_cons_of_mem _ mem)
    rw [run_cons, performed, if_neg told, List.map_cons, List.map_cons, others]

end Dry

theorem end_finishes (fit : now.Fit) {operation : ReaderOperation} (asks : operation.Asks)
    (ends : (now.perform operation).1.Ends) :
    ∃ passed, Finishes now passed (now.perform operation).2 ∧
      ((∀ visitor, operation ≠ .visitBlocks visitor) →
        now.pending.toList = [] ∧ Frame.payload passed = []) := by
  cases operation with
  | read size =>
    obtain ⟨passed, finishes, hollow⟩ := read_ends fit asks ends
    exact ⟨passed, finishes, fun _ => hollow⟩
  | peek =>
    obtain ⟨passed, finishes, hollow⟩ := peek_ends fit ends
    exact ⟨passed, finishes, fun _ => hollow⟩
  | visitBlocks visitor =>
    obtain ⟨passed, finishes⟩ := visit_ends fit ends
    exact ⟨passed, finishes, fun other => absurd rfl (other visitor)⟩
  | _ => exact asks.elim

/-- Whatever has been done before, the end is reported only where nothing waits, every frame has been
accepted and the source has not one byte of another one. Frames without bytes never look like the
end. And where a reader that has not failed has come to the end of its source, every call says so. -/
theorem end_reported_at_the_end {codec : κ} (inside : Codec.Inside codec) (policy : ChecksumPolicy)
    (source : Source) (before : List ReaderOperation) :
    let first := ofSource source codec policy
    let now := first.performAll before
    let fed := before.flatMap (·.fed)
    (∀ operation : ReaderOperation, operation.Asks → (now.perform operation).1.Ends →
      let after := (now.perform operation).2
      after.poisoned = false ∧ after.pending.toList = [] ∧
      ∃ (taken : List Taken) (passed : List Parsed) (ended : Reader κ),
        Journey first fed taken now ∧ now.AtBoundary passed ended ∧
        (∃ queue, after = { ended with pending := queue }) ∧
        ((∀ operation ∈ before, operation.Own) → ∀ one ∈ taken, ∃ parsed, one = .frame parsed) ∧
        (source.feed fed).remaining =
          taken.flatMap Taken.bytes ++ Frame.wire passed ++ after.source.remaining ∧
        after.source.delivered =
          source.delivered + (taken.flatMap Taken.bytes ++ Frame.wire passed).length ∧
        ((∀ visitor, operation ≠ .visitBlocks visitor) →
          now.pending.toList = [] ∧ Frame.payload passed = [])) ∧
    (now.poisoned = false → now.pending.toList = [] →
      (∀ hollow middle parsed last, Advances now hollow middle → middle.Passes parsed last →
        (∀ parsed ∈ hollow, parsed.data = []) → parsed.data ≠ [] →
        (∀ size, 0 < size → (now.perform (.read size)).1 = .bytes (parsed.data.take size)) ∧
        (now.perform .peek).1 = .bytes parsed.data ∧
        ∀ visitor, [parsed.data] <+: (now.visitBlocks visitor).2.1.toList) ∧
      ∀ calls : List ReaderOperation, (∀ call ∈ calls, call.Asks) →
        (∀ signal ∈ now.source.signals.take calls.length, signal = .pause) →
        (now.run calls).map (·.1) = calls.map (·.atEnd)) := by
  intro first now fed
  have fit : now.Fit := fit_kept.perform_all (fit_of_source source codec policy) before
  constructor
  · intro operation asks ends after
    obtain ⟨passed, finishes, hollow⟩ := end_finishes fit asks ends
    have fresh : now.poisoned = false := fresh_of_perform finishes.fresh
    obtain ⟨taken, journey, own⟩ := exists_journey inside fresh
    obtain ⟨ended, queue, boundary, same⟩ := finishes.boundary
    have kept : (now.perform operation).2.source = ended.source := by rw [same]
    obtain ⟨remaining, delivered⟩ := (journey.on (boundary.reaches fit)).accounts
    rw [List.flatMap_append, bytes_frames, ← kept] at remaining delivered
    exact ⟨finishes.fresh, finishes.empty, taken, passed, ended, journey, boundary, ⟨queue, same⟩,
      own, remaining, delivered, hollow⟩
  · intro fresh empty
    constructor
    · intro hollow middle parsed last advances passes nothing filled
      exact advances.serves nothing passes filled fresh empty
    · intro calls asks ended
      have dry : now.Dry calls.length := ⟨fit, fresh, empty, ended⟩
      exact dry.run asks

/-- Behind the sample the source pauses, and later it is at its end. -/
theorem sample_ended :
    let source := Source.ofEvents [.deliver Codec.Scripted.sample, .pause] none
    let first := ofSource source Codec.Scripted.honest .verify
    let now := first.performAll [.read 2]
    (now.perform (.read 1)).1 = .bytes [] ∧
      (∃ passed ended, now.AtBoundary passed ended ∧
        (now.perform (.read 1)).2.source = ended.source) ∧
      (now.run [.peek, .read 1]).map (·.1) = [.bytes [], .bytes []] := by
  intro source first now
  obtain ⟨ends, rest⟩ := end_reported_at_the_end Codec.Scripted.honest_input_only.inside .verify
    source [.read 2]
  have told : (now.perform (.read 1)).1 = .bytes [] := by decide +kernel
  have asks : (ReaderOperation.read 1).Asks := Nat.one_pos
  have paused : ∀ signal ∈ now.source.signals.take 2, signal = .pause := by decide +kernel
  obtain ⟨-, -, taken, passed, ended, -, boundary, ⟨queue, same⟩, -⟩ :=
    ends _ asks (told ▸ trivial)
  obtain ⟨-, again⟩ := rest (by decide +kernel) (by decide +kernel)
  have asked : ∀ call ∈ [ReaderOperation.peek, .read 1], call.Asks := by
    simp [ReaderOperation.Asks]
  exact ⟨told, ⟨passed, ended, boundary, by rw [same]⟩, again _ asked paused⟩

end Reader

end FramedSnappy
