import FramedSnappy.Proofs.Codec.Scripted
import FramedSnappy.Proofs.Reader.Accounting
import FramedSnappy.Proofs.Reader.Facing

/-! Visits that take turns with one reader, and whose visitors refuse blocks as they please. A block
that is refused stays in the queue and is the first one the next visitor sees, so that every block
is accepted once and in its place. -/
namespace FramedSnappy.Reader

open FramedSnappy.Frame (Parsed)

variable {κ : Type}

/-- Those of the blocks to which the visitor says yes when they are shown on top of `seen`. -/
def approved (visitor : Visitor) (seen : Array Bytes) : List Bytes → List Bytes
  | [] => []
  | block :: rest =>
    let seen := seen.push block
    if visitor seen = none then block :: approved visitor seen rest
    else approved visitor seen rest

theorem approved_cons {visitor : Visitor} {seen : Array Bytes} {block : Bytes}
    (told : visitor (seen.push block) = none) (rest : List Bytes) :
    approved visitor seen (block :: rest) = block :: approved visitor (seen.push block) rest :=
  if_pos told

theorem approved_refused {visitor : Visitor} {seen : Array Bytes} {block : Bytes} {e : Error}
    (told : visitor (seen.push block) = some e) : approved visitor seen [block] = [] := by
  simp [approved, told]

/-- What the visitor has said to the blocks shown on top of `seen`: yes to all of them, or no to the
last one. -/
def Answered (visitor : Visitor) (seen : Array Bytes) (shown : List Bytes)
    (visit : Outcome VisitError Unit × Array Bytes × Reader κ) : Prop :=
  visit.2.1.toList = seen.toList ++ shown ∧
    match visit.1 with
    | .failed (.refused e) =>
      shown ≠ [] ∧ approved visitor seen shown = shown.dropLast ∧ visitor visit.2.1 = some e
    | _ => approved visitor seen shown = shown

theorem Answered.cons {visitor : Visitor} {seen : Array Bytes} {shown : List Bytes} {block : Bytes}
    {visit : Outcome VisitError Unit × Array Bytes × Reader κ}
    (told : visitor (seen.push block) = none)
    (h : Answered visitor (seen.push block) shown visit) :
    Answered visitor seen (block :: shown) visit := by
  obtain ⟨all, said⟩ := h
  have more := approved_cons told shown
  constructor
  · simpa using all
  · split at said
    · obtain ⟨some, yes, no⟩ := said
      simp only [more, yes]
      exact ⟨nofun, (List.dropLast_cons_of_ne_nil some).symm, no⟩
    · simp only [more, said]

theorem Answered.refused {visitor : Visitor} {seen : Array Bytes} {block : Bytes} {e : Error}
    {after : Reader κ} (told : visitor (seen.push block) = some e) :
    Answered visitor seen [block] (.failed (.refused e), seen.push block, after) :=
  ⟨by simp, nofun, approved_refused told, told⟩

theorem held_filled {reader : Reader κ} {block : Bytes} (mem : block ∈ reader.held) :
    block ≠ [] := by
  unfold held at mem
  split at mem
  · cases mem
  · rename_i filled
    rwa [List.mem_singleton.mp mem]

theorem block_filled {frames : List Parsed} {block : Bytes}
    (mem : block ∈ Frame.blocks frames) : block ≠ [] := by
  have filled := (List.mem_filter.mp mem).2
  simpa using filled

variable [Codec κ] {reader after : Reader κ} {frames : List Parsed} {blocks done : List Bytes}
  {rest : Bytes}

/-- The blocks that a visit gets rid of. -/
def accepted (reader : Reader κ) (visitor : Visitor) : List Bytes :=
  approved visitor #[] (reader.visitBlocks visitor).2.1.toList

def acceptedAll : Reader κ → List Visitor → List Bytes
  | _, [] => []
  | reader, visitor :: others =>
    reader.accepted visitor ++ (reader.visitBlocks visitor).2.2.acceptedAll others

def visitAll (reader : Reader κ) (visitors : List Visitor) : Reader κ :=
  visitors.foldl (fun now visitor => (now.visitBlocks visitor).2.2) reader

theorem visit_rest_answered (visitor : Visitor) (reader : Reader κ) (seen : Array Bytes) :
    ∃ shown, Answered visitor seen shown (reader.visitRest visitor seen) := by
  fun_induction visitRest reader visitor seen with
  | case1 reader seen e after h => exact ⟨[], by simp [Answered, approved]⟩
  | case2 reader seen after h => exact ⟨[], by simp [Answered, approved]⟩
  | case3 reader seen after h => exact ⟨[], by simp [Answered, approved]⟩
  | case4 reader seen after h _ shown e told => exact ⟨_, .refused told⟩
  | case5 reader seen after h _ shown told ih =>
    obtain ⟨more, answered⟩ := ih
    exact ⟨_, .cons told answered⟩

theorem visit_blocks_answered (visitor : Visitor) (reader : Reader κ) :
    ∃ shown, Answered visitor #[] shown (reader.visitBlocks visitor) := by
  unfold visitBlocks
  split
  · exact visit_rest_answered visitor reader #[]
  · dsimp only
    split
    · rename_i told
      exact ⟨_, .refused told⟩
    · rename_i told
      obtain ⟨more, answered⟩ :=
        visit_rest_answered visitor { reader with pending := .empty } #[reader.pending.toList]
      exact ⟨_, .cons told answered⟩

theorem accepted_of_refused {visitor : Visitor} {e : Error}
    (h : (reader.visitBlocks visitor).1 = .failed (.refused e)) :
    reader.accepted visitor = (reader.visitBlocks visitor).2.1.toList.dropLast ∧
      visitor (reader.visitBlocks visitor).2.1 = some e := by
  obtain ⟨shown, all, said⟩ := visit_blocks_answered visitor reader
  rw [h] at said
  change _ = shown at all
  rw [accepted, all]
  exact said.2

theorem accepted_of_not_refused {visitor : Visitor}
    (h : ∀ e, (reader.visitBlocks visitor).1 ≠ .failed (.refused e)) :
    reader.accepted visitor = (reader.visitBlocks visitor).2.1.toList := by
  obtain ⟨shown, all, said⟩ := visit_blocks_answered visitor reader
  change _ = shown at all
  rw [accepted, all]
  split at said
  · rename_i e refused
    exact absurd refused (h e)
  · exact said

/-- What waits is shown first, and nothing happens to the reader before the visitor has answered. -/
theorem visit_waiting (waits : reader.pending.toList ≠ []) (visitor : Visitor) :
    (reader.visitBlocks visitor).2.1.toList.head? = some reader.pending.toList ∧
      ∀ e, visitor #[reader.pending.toList] = some e →
        reader.visitBlocks visitor = (.failed (.refused e), #[reader.pending.toList], reader) := by
  unfold visitBlocks
  rw [if_neg (mt (ByteQueue.is_empty_to_list _).mp waits)]
  dsimp only
  constructor
  · split
    · rfl
    · obtain ⟨more, all, -⟩ :=
        visit_rest_answered visitor { reader with pending := .empty } #[reader.pending.toList]
      rw [all]
      rfl
  · intro e told
    rw [told]

/-- A reader that has got rid of the blocks `done`. What is left of `blocks` waits in its queue and
in front of its source, and behind that is `rest`. -/
inductive Stands (blocks : List Bytes) (rest : Bytes) (done : List Bytes) (reader : Reader κ) :
    Prop
  | going {frames : List Parsed} : reader.poisoned = false → Codec.Inside reader.codec →
      reader.Faces frames rest → done ++ (reader.held ++ Frame.blocks frames) = blocks →
      Stands blocks rest done reader
  | failed : reader.poisoned = true → reader.pending.toList = [] → done = blocks →
      Stands blocks rest done reader

/-- How a visit goes that finds the blocks `done` gone. -/
inductive Turn (blocks : List Bytes) (rest : Bytes) (done : List Bytes) :
    Outcome VisitError Unit × Array Bytes × Reader κ → Prop
  | ended {seen : Array Bytes} {after : Reader κ} :
      Stands blocks rest (done ++ seen.toList) after → done ++ seen.toList = blocks → rest = [] →
      Turn blocks rest done (.done (), seen, after)
  | broken {e : Error} {seen : Array Bytes} {after : Reader κ} :
      Stands blocks rest (done ++ seen.toList) after → done ++ seen.toList = blocks →
      Turn blocks rest done (.failed (.failed e), seen, after)
  | refused {e : Error} {seen : Array Bytes} {shown : List Bytes} {after : Reader κ} :
      Stands blocks rest (done ++ shown) after → after.poisoned = false →
      seen.toList = shown ++ [after.pending.toList] → after.pending.toList ≠ [] →
      Turn blocks rest done (.failed (.refused e), seen, after)

theorem turn_of_visits {visitor : Visitor} (inside : Codec.Inside reader.codec)
    (fresh : reader.poisoned = false) (faces : reader.Faces frames rest)
    (total : done ++ (reader.held ++ Frame.blocks frames) = blocks)
    {visit : Outcome VisitError Unit × Array Bytes × Reader κ}
    (visits : Visits visitor reader reader.held visit) : Turn blocks rest done visit := by
  cases visits with
  | @ended passed middle last seen reaches halts empty all =>
    obtain ⟨more, rfl, behind⟩ := faces.reaches reaches
    obtain ⟨rfl, rfl, spent⟩ := behind.halts halts
    have later := reaches.keeps.codec.trans halts.keeps.codec
    have clean := halts.keeps.poisoned.trans (reaches.keeps.poisoned.trans fresh)
    have whole : done ++ seen.toList = blocks := by simpa [all] using total
    have nothing : last.held = [] := if_pos empty
    have left : done ++ seen.toList ++ (last.held ++ Frame.blocks []) = blocks := by
      simpa [nothing] using whole
    exact .ended (.going clean (inside.later later) spent left) whole rfl
  | @broken passed middle last seen e reaches breaks empty all =>
    obtain ⟨more, rfl, behind⟩ := faces.reaches reaches
    obtain ⟨rfl, -⟩ := behind.breaks breaks
    have whole : done ++ seen.toList = blocks := by simpa [all] using total
    exact .broken (.failed breaks.poisoned empty whole) whole
  | @refused passed last seen shown e reaches split all told =>
    obtain ⟨more, rfl, behind⟩ := faces.reaches reaches
    have clean := reaches.keeps.poisoned.trans fresh
    have filled : last.pending.toList ≠ [] := by
      have mem : last.pending.toList ∈ reader.held ++ Frame.blocks passed := by simp [split]
      rcases List.mem_append.mp mem with waiting | passed
      · exact held_filled waiting
      · exact block_filled passed
    have waits : last.held = [last.pending.toList] := if_neg filled
    have left : done ++ shown ++ (last.held ++ Frame.blocks more) = blocks := by
      rw [← total, Frame.blocks_append, ← List.append_assoc reader.held, split, waits]
      simp
    exact .refused (.going clean (inside.later reaches.keeps.codec) behind left) clean all filled
  | overrun reaches overruns =>
    have later := reaches.keeps.codec
    exact absurd overruns (not_overruns (reaches.fit faces.fit) (inside.later later))

theorem Stands.turn (h : Stands blocks rest done reader) (visitor : Visitor) :
    Turn blocks rest done (reader.visitBlocks visitor) := by
  cases h with
  | going fresh inside faces total =>
    exact turn_of_visits inside fresh faces total (visit_blocks_visits faces.fit fresh)
  | failed poisoned empty whole =>
    have dry := (ByteQueue.is_empty_to_list _).mpr empty
    have visited : reader.visitBlocks visitor = (.failed (.failed .poisoned), #[], reader) := by
      rw [visitBlocks, if_pos dry, visit_rest_poisoned poisoned]
    have nothing : done ++ #[].toList = blocks := by simpa using whole
    rw [visited]
    exact .broken (.failed poisoned empty nothing) nothing

theorem Stands.in_front (h : Stands blocks rest done reader) : done <+: blocks := by
  cases h with
  | going _ _ _ total => exact ⟨_, total⟩
  | failed _ _ whole => exact whole ▸ List.prefix_refl _

theorem Stands.visit (h : Stands blocks rest done reader) (visitor : Visitor) :
    Stands blocks rest (done ++ reader.accepted visitor) (reader.visitBlocks visitor).2.2 := by
  have turn := h.turn visitor
  have refused := @accepted_of_refused _ _ reader visitor
  have others := @accepted_of_not_refused _ _ reader visitor
  generalize reader.visitBlocks visitor = visit at turn refused others ⊢
  cases turn with
  | ended stands _ _ => rwa [others nofun]
  | broken stands _ => rwa [others nofun]
  | refused stands _ all _ =>
    rw [(refused rfl).1, all, List.dropLast_concat]
    exact stands

theorem Stands.visit_all (h : Stands blocks rest done reader) (visitors : List Visitor) :
    Stands blocks rest (done ++ reader.acceptedAll visitors) (reader.visitAll visitors) := by
  induction visitors generalizing reader done with
  | nil => simpa [acceptedAll, visitAll] using h
  | cons visitor others ih =>
    have turns := ih (h.visit visitor)
    rwa [List.append_assoc] at turns

theorem Stands.tells (h : Stands blocks rest done reader) (visitor : Visitor) :
    let visit := reader.visitBlocks visitor
    let total := done ++ reader.accepted visitor
    visit.1 ≠ .overrun ∧ (visit.1 = .done () → total = blocks ∧ rest = []) ∧
      (∀ e, visit.1 = .failed (.failed e) → total = blocks) ∧
      ∀ e, visit.1 = .failed (.refused e) →
        visitor visit.2.1 = some e ∧ visit.2.2.poisoned = false ∧
        visit.2.1.toList = reader.accepted visitor ++ [visit.2.2.pending.toList] ∧
        visit.2.2.pending.toList ≠ [] := by
  intro visit total
  have turn : Turn blocks rest done visit := h.turn visitor
  have refused {e : Error} (no : visit.1 = .failed (.refused e)) :
      reader.accepted visitor = visit.2.1.toList.dropLast ∧ visitor visit.2.1 = some e :=
    accepted_of_refused no
  have others (yes : ∀ e, visit.1 ≠ .failed (.refused e)) :
      total = done ++ visit.2.1.toList := congrArg _ (accepted_of_not_refused yes)
  clear_value total
  generalize visit = ended at turn refused others ⊢
  cases turn with
  | ended _ whole none => exact ⟨nofun, fun _ => ⟨(others nofun).trans whole, none⟩, nofun, nofun⟩
  | broken _ whole => exact ⟨nofun, nofun, fun _ _ => (others nofun).trans whole, nofun⟩
  | refused _ clean all filled =>
    refine ⟨nofun, nofun, nofun, fun e no => ?_⟩
    obtain ⟨front, told⟩ := refused no
    rw [all, List.dropLast_concat] at front
    exact ⟨told, clean, front ▸ all, filled⟩

/-- Over any number of visits each block is accepted once, whole and in its place, whenever visitors
refuse. A refused block comes first in the next visit, and nothing is read before it. A visit that
ends, or meets a bad frame, leaves none of the blocks in front behind. -/
theorem blocks_accepted_once {codec : κ} (promise : Codec.InputOnly codec)
    (policy : ChecksumPolicy) {source : Source} {data : Bytes}
    (carries : source.signals = data.map .byte) :
    ∃ frames rest, data = Frame.wire frames ++ rest ∧
      Frame.Stream (Codec.unpack codec) policy frames ∧
      Frame.Blocked (Codec.unpack codec) policy (! frames.isEmpty) rest ∧
      ∀ visitors visitor,
        let first := ofSource source codec policy
        let now := first.visitAll visitors
        let visit := now.visitBlocks visitor
        let total := first.acceptedAll visitors ++ now.accepted visitor
        total <+: Frame.blocks frames ∧ visit.1 ≠ .overrun ∧
        (visit.1 = .done () → total = Frame.blocks frames ∧ rest = []) ∧
        (∀ e, visit.1 = .failed (.failed e) → total = Frame.blocks frames) ∧
        ∀ e, visit.1 = .failed (.refused e) →
          visitor visit.2.1 = some e ∧ visit.2.2.poisoned = false ∧
          ∃ block, visit.2.1.toList = now.accepted visitor ++ [block] ∧
            ∀ next, (visit.2.2.visitBlocks next).2.1.toList.head? = some block ∧
              ∀ e, next #[block] = some e →
                visit.2.2.visitBlocks next = (.failed (.refused e), #[block], visit.2.2) := by
  obtain ⟨frames, rest, split, stream, blocked⟩ :=
    @Frame.exists_stream (Codec.unpack codec) policy data
  refine ⟨frames, rest, split, stream, blocked, fun visitors visitor => ?_⟩
  intro first now visit total
  have start : Stands (Frame.blocks frames) rest [] first :=
    .going rfl promise.inside (faces_of_stream promise (split ▸ carries) stream blocked) rfl
  have stands : Stands (Frame.blocks frames) rest (first.acceptedAll visitors) now :=
    start.visit_all visitors
  obtain ⟨ends, done, broken, refused⟩ := stands.tells visitor
  refine ⟨(stands.visit visitor).in_front, ends, done, broken, fun e no => ?_⟩
  obtain ⟨told, clean, all, waits⟩ := refused e no
  exact ⟨told, clean, _, all, visit_waiting waits⟩

/-- The first visitor wants nothing to do with the only block, and the second one gets it. -/
theorem refused_block_comes_again :
    let source := Source.ofEvents [.deliver Codec.Scripted.sample] none
    let first := ofSource source Codec.Scripted.honest .verify
    let wary : Visitor := fun _ => some .poisoned
    let eager : Visitor := fun _ => none
    ∃ frames rest, Codec.Scripted.sample = Frame.wire frames ++ rest ∧
      first.accepted wary = [] ∧ first.acceptedAll [wary, eager] = [[0x61, 0x62]] ∧
      Frame.blocks frames = [[0x61, 0x62]] ∧ rest = [] := by
  intro source first wary eager
  obtain ⟨frames, rest, split, -, -, turns⟩ :=
    blocks_accepted_once Codec.Scripted.honest_input_only .verify
      (Source.signals_deliver Codec.Scripted.sample)
  obtain ⟨-, -, done, -⟩ := turns [wary] eager
  obtain ⟨total, none⟩ := done (by decide +kernel)
  refine ⟨frames, rest, split, by decide +kernel, by decide +kernel, ?_, none⟩
  rw [← total]
  decide +kernel

end FramedSnappy.Reader
