import FramedSnappy.Proofs.Reader.Equations

/-! The walk of a visit: one frame after the other, each into an empty queue. What the visitor sees
of a walk depends on the blocks of its frames alone. -/
namespace FramedSnappy.Reader

open FramedSnappy.Frame (Parsed)

variable {κ : Type}

/-- Shows one block after the other, on top of those seen before, until one is refused. -/
def offer (visitor : Visitor) (seen : Array Bytes) : List Bytes → Option Error × Array Bytes
  | [] => (none, seen)
  | block :: rest =>
    let seen := seen.push block
    match visitor seen with
    | some e => (some e, seen)
    | none => offer visitor seen rest

theorem offer_accepted {visitor : Visitor} (accepts : ∀ seen, visitor seen = none)
    (seen : Array Bytes) (blocks : List Bytes) :
    offer visitor seen blocks = (none, seen ++ blocks) := by
  induction blocks generalizing seen with
  | nil => simp [offer]
  | cons block rest ih =>
    rw [offer, accepts]
    dsimp only
    rw [ih]
    simp

variable [Codec κ]

theorem Passes.visit_rest {reader middle : Reader κ} {parsed : Parsed}
    (h : reader.Passes parsed middle) (fit : reader.Fit) (fresh : reader.poisoned = false)
    (empty : reader.pending = .empty) (visitor : Visitor) (seen : Array Bytes) :
    reader.visitRest visitor seen =
      if parsed.data = [] then { middle with pending := .empty }.visitRest visitor seen
      else match visitor (seen.push parsed.data) with
        | some e => (.failed (.refused e), seen.push parsed.data, middle)
        | none =>
          { middle with pending := .empty }.visitRest visitor (seen.push parsed.data) := by
  have waiting : middle.pending.toList = parsed.data := by
    rw [h.waiting, empty]
    rfl
  have queued := h.pending
  rw [empty] at queued
  rw [visit_rest_step fit fresh, h.advance]
  by_cases hollow : parsed.data = []
  · have still : middle.pending = .empty := by
      rcases parsed with ⟨frame, _ | content⟩
      · exact queued
      · obtain rfl : content = [] := hollow
        exact queued
    have dry : middle.pending.isEmpty = true := still ▸ rfl
    rw [if_pos hollow, ← still]
    rcases parsed with ⟨frame, _ | content⟩
    · rfl
    · exact if_pos dry
  · rw [if_neg hollow]
    rcases parsed with ⟨frame, _ | content⟩
    · exact absurd rfl hollow
    · have filled : ¬ middle.pending.isEmpty = true := by
        rw [ByteQueue.is_empty_to_list, waiting]
        exact hollow
      rw [← waiting]
      exact if_neg filled

/-- From frame to frame; what a frame has put into the queue leaves it before the next one. -/
inductive Walks : Reader κ → List Parsed → Reader κ → Prop
  | here (reader : Reader κ) : Walks reader [] reader
  | step {reader middle last : Reader κ} {parsed : Parsed} {frames : List Parsed} :
      reader.Passes parsed middle → Walks { middle with pending := .empty } frames last →
      Walks reader (parsed :: frames) last

namespace Walks

variable {reader last : Reader κ} {frames before behind : List Parsed}

theorem reaches (h : Walks reader frames last) : Reaches reader frames last := by
  induction h with
  | here reader => exact .refl reader
  | step passes _ ih => exact .take passes.takes ih.of_queue

theorem signals (h : Walks reader frames last) :
    reader.source.signals = (Frame.wire frames).map .byte ++ last.source.signals := by
  induction h with
  | here reader => rfl
  | step passes _ ih =>
    rw [passes.takes.said, Frame.wire_cons, List.map_append, List.append_assoc]
    exact congrArg _ ih

theorem pending (h : Walks reader frames last) (empty : reader.pending = .empty) :
    last.pending = .empty := by
  induction h with
  | here reader => exact empty
  | step _ _ ih => exact ih rfl

theorem split (h : Walks reader (before ++ behind) last) :
    ∃ middle, Walks reader before middle ∧ Walks middle behind last := by
  induction before generalizing reader with
  | nil => exact ⟨reader, .here reader, h⟩
  | cons parsed rest ih =>
    cases h with
    | step passes walk =>
      obtain ⟨middle, first, second⟩ := ih walk
      exact ⟨middle, .step passes first, second⟩

/-- A visit that gets through the frames goes on behind them. -/
theorem visit (h : Walks reader frames last) (fit : reader.Fit) (fresh : reader.poisoned = false)
    (empty : reader.pending = .empty) (visitor : Visitor) (seen : Array Bytes) :
    match offer visitor seen (Frame.blocks frames) with
    | (some e, shown) =>
      ∃ after, reader.visitRest visitor seen = (.failed (.refused e), shown, after)
    | (none, shown) => reader.visitRest visitor seen = last.visitRest visitor shown := by
  induction h generalizing seen with
  | here reader => rfl
  | @step reader middle last parsed frames passes walk ih =>
    have keeps := passes.takes.keeps
    have fits := keeps.fit fit
    have next := ih ⟨fits.body, fits.decoded⟩ (keeps.poisoned.trans fresh) rfl
    rw [passes.visit_rest fit fresh empty, Frame.blocks_cons]
    by_cases hollow : parsed.data = []
    · rw [if_pos hollow, if_pos hollow]
      exact next seen
    · rw [if_neg hollow, if_neg hollow, offer]
      cases told : visitor (seen.push parsed.data) with
      | some e => exact ⟨_, rfl⟩
      | none => exact next _

end Walks

/-- The next call takes no frame. -/
def Stuck (reader : Reader κ) : Prop :=
  ∀ progress, reader.advance.1 = .done progress → progress = .ended

/-- How a visit ends where no frame is taken. -/
def ending : Outcome Error Progress → Outcome VisitError Unit
  | .done _ => .done ()
  | .failed e => .failed (.failed e)
  | .overrun => .overrun

theorem Stuck.visit_rest {reader : Reader κ} (stuck : reader.Stuck) (fit : reader.Fit)
    (fresh : reader.poisoned = false) (visitor : Visitor) (seen : Array Bytes) :
    (reader.visitRest visitor seen).1 = ending reader.advance.1 ∧
      (reader.visitRest visitor seen).2.1 = seen := by
  rw [visit_rest_step fit fresh]
  unfold Stuck at stuck
  generalize reader.advance = result at stuck ⊢
  rcases result with ⟨progress | e | -, after⟩
  · obtain rfl := stuck progress rfl
    exact ⟨rfl, rfl⟩
  · exact ⟨rfl, rfl⟩
  · exact ⟨rfl, rfl⟩

theorem Stuck.ended {reader : Reader κ} (stuck : reader.Stuck)
    (done : ending reader.advance.1 = .done ()) : reader.advance.1 = .done .ended := by
  cases told : reader.advance.1 with
  | done progress => rw [stuck progress told]
  | failed e =>
    rw [told] at done
    cases done
  | overrun =>
    rw [told] at done
    cases done

/-- What a client of a visit learns: how it ends, and the blocks it has been shown. -/
def answer (reader : Reader κ) (visitor : Visitor) : Outcome VisitError Unit × Array Bytes :=
  let visit := reader.visitBlocks visitor
  (visit.1, visit.2.1)

/-- A visitor that has accepted everything learns the end. -/
def conclude (shown : Option Error × Array Bytes) (ending : Outcome VisitError Unit) :
    Outcome VisitError Unit × Array Bytes :=
  match shown with
  | (some e, seen) => (.failed (.refused e), seen)
  | (none, seen) => (ending, seen)

theorem Walks.answer {reader last : Reader κ} {frames : List Parsed}
    (walk : Walks reader frames last) (stuck : last.Stuck) (fit : reader.Fit)
    (fresh : reader.poisoned = false) (empty : reader.pending = .empty) (visitor : Visitor) :
    reader.answer visitor =
      conclude (offer visitor #[] (Frame.blocks frames)) (ending last.advance.1) := by
  have dry : reader.pending.isEmpty = true := empty ▸ rfl
  have keeps := walk.reaches.keeps
  have behind := stuck.visit_rest (keeps.fit fit) (keeps.poisoned.trans fresh) visitor
  have visit := walk.visit fit fresh empty visitor #[]
  unfold Reader.answer visitBlocks conclude
  rw [if_pos dry]
  generalize offer visitor #[] (Frame.blocks frames) = shown at visit ⊢
  rcases shown with ⟨_ | e, seen⟩
  · rw [visit]
    exact Prod.ext (behind seen).1 (behind seen).2
  · obtain ⟨after, refused⟩ := visit
    rw [refused]

/-- Every walk comes to an end. -/
theorem exists_walk {reader : Reader κ} (fit : reader.Fit) :
    ∃ frames last, Walks reader frames last ∧ last.Stuck := by
  -- every frame makes the source lighter
  induction weight : reader.source.weight using Nat.strongRecOn generalizing reader with
  | ind size ih =>
    by_cases stuck : reader.Stuck
    · exact ⟨[], reader, .here reader, stuck⟩
    · simp only [Stuck, Classical.not_forall] at stuck
      obtain ⟨progress, done, there⟩ := stuck
      have advanced : reader.advance = (.done progress, reader.advance.2) := Prod.ext done rfl
      obtain ⟨parsed, passes, -⟩ := advance_passes fit advanced there
      have lighter := advance_shrinks advanced there
      have kept := passes.takes.keeps.fit fit
      have next : ({ reader.advance.2 with pending := .empty } : Reader κ).Fit :=
        ⟨kept.body, kept.decoded⟩
      obtain ⟨frames, last, walk, ends⟩ := ih _ (weight ▸ lighter) next rfl
      exact ⟨parsed :: frames, last, .step passes walk, ends⟩

/-- A visit that accepts a stream walks through all of it. -/
theorem exists_walk_of_accepted {source : Source} {codec : κ} {policy : ChecksumPolicy}
    {data : Bytes} (carries : source.signals = data.map .byte) {visitor : Visitor}
    (accepts : ∀ seen, visitor seen = none)
    (accepted : ((ofSource source codec policy).visitBlocks visitor).1 = .done ()) :
    ∃ frames last, Walks (ofSource source codec policy) frames last ∧
      data = Frame.wire frames ∧
      ((ofSource source codec policy).visitBlocks visitor).2.1.toList = Frame.blocks frames := by
  have fit := fit_of_source source codec policy
  obtain ⟨frames, last, walk, stuck⟩ := exists_walk fit
  have answer := walk.answer stuck fit rfl rfl visitor
  rw [offer_accepted accepts] at answer
  have ends : ending last.advance.1 = .done () := (congrArg Prod.fst answer).symm.trans accepted
  have shown := congrArg (Array.toList ∘ Prod.snd) answer
  refine ⟨frames, last, walk, ?_, by simpa [conclude, Reader.answer] using shown⟩
  obtain ⟨halts, -⟩ := advance_ended (walk.reaches.keeps.fit fit)
    (show last.advance = (.done .ended, last.advance.2) from Prod.ext (stuck.ended ends) rfl)
  have said := walk.signals
  rw [show (ofSource source codec policy).source.signals = data.map .byte from carries] at said
  rcases halts.signals with ⟨spent, -⟩ | paused
  · have bytes := congrArg Signal.bytes said
    rwa [spent, List.append_nil, Signal.bytes_map, Signal.bytes_map] at bytes
  · -- such a source makes no pause
    have behind := congrArg Signal.behind said
    rw [← List.append_nil (data.map _), Signal.behind_map_append, Signal.behind_map_append,
      paused] at behind
    cases behind

end FramedSnappy.Reader
