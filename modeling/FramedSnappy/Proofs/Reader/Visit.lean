import FramedSnappy.Proofs.Reader.Course
import FramedSnappy.Reader.Client

/-! A visit shows the visitor what waits in the queue and then every block that is not empty, each
as the content of one frame. -/
namespace FramedSnappy.Reader

open FramedSnappy.Frame (Parsed)

variable {κ : Type}

def held (reader : Reader κ) : List Bytes :=
  if reader.pending.toList = [] then [] else [reader.pending.toList]

theorem flatten_held (reader : Reader κ) : reader.held.flatten = reader.pending.toList := by
  unfold held
  split
  · rename_i empty
    exact empty.symm
  · simp

variable [Codec κ]

/-- A visit that has shown the blocks `before` has shown all of `seen` in the end. -/
inductive Visits (visitor : Visitor) (reader : Reader κ) (before : List Bytes) :
    Outcome VisitError Unit × Array Bytes × Reader κ → Prop
  | ended {frames : List Parsed} {middle after : Reader κ} {seen : Array Bytes} :
      Reaches reader frames middle → middle.Halts after → after.pending.toList = [] →
      seen.toList = before ++ Frame.blocks frames →
      Visits visitor reader before (.done (), seen, after)
  | broken {frames : List Parsed} {middle after : Reader κ} {seen : Array Bytes} {e : Error} :
      Reaches reader frames middle → middle.Breaks e after → after.pending.toList = [] →
      seen.toList = before ++ Frame.blocks frames →
      Visits visitor reader before (.failed (.failed e), seen, after)
  | refused {frames : List Parsed} {after : Reader κ} {seen : Array Bytes} {shown : List Bytes}
      {e : Error} :
      Reaches reader frames after →
      before ++ Frame.blocks frames = shown ++ [after.pending.toList] →
      seen.toList = shown ++ [after.pending.toList] → visitor seen = some e →
      Visits visitor reader before (.failed (.refused e), seen, after)
  | overrun {frames : List Parsed} {middle after : Reader κ} {seen : Array Bytes} :
      Reaches reader frames middle → middle.Overruns after →
      Visits visitor reader before (.overrun, seen, after)

variable {visitor : Visitor} {reader middle : Reader κ} {before : List Bytes}

theorem blocks_filled {waiting content : Bytes} {frames : List Parsed} {parsed : Parsed}
    (idle : Idle waiting frames) (carries : parsed.content = some content) (filled : content ≠ []) :
    Frame.blocks (frames ++ [parsed]) = [content] := by
  rw [Frame.blocks_append, blocks_idle idle, Frame.blocks_cons]
  simp [Parsed.data, carries, filled]

theorem Visits.after {frames : List Parsed}
    {result : Outcome VisitError Unit × Array Bytes × Reader κ}
    (reaches : Reaches reader frames middle)
    (h : Visits visitor middle (before ++ Frame.blocks frames) result) :
    Visits visitor reader before result := by
  have shown (more : List Parsed) : before ++ Frame.blocks frames ++ Frame.blocks more =
      before ++ Frame.blocks (frames ++ more) := by
    rw [Frame.blocks_append, List.append_assoc]
  cases h with
  | ended rest halts empty seen =>
    exact .ended (reaches.trans rest) halts empty (seen.trans (shown _))
  | broken rest breaks empty seen =>
    exact .broken (reaches.trans rest) breaks empty (seen.trans (shown _))
  | refused rest last seen told =>
    exact .refused (reaches.trans rest) ((shown _).symm.trans last) seen told
  | overrun rest overruns => exact .overrun (reaches.trans rest) overruns

theorem visit_rest_visits {seen : Array Bytes} (fit : reader.Fit) (fresh : reader.poisoned = false)
    (empty : reader.pending.toList = []) :
    Visits visitor reader seen.toList (reader.visitRest visitor seen) := by
  fun_induction visitRest reader visitor seen with
  | case1 reader seen e after h =>
    have decodes := refill_decodes fit fresh
    rw [h] at decodes
    cases decodes with
    | broken reaches idle breaks kept =>
      exact .broken reaches breaks (kept.trans empty) (by simp [blocks_idle idle])
  | case2 reader seen after h =>
    have decodes := refill_decodes fit fresh
    rw [h] at decodes
    cases decodes with
    | overrun reaches idle overruns kept => exact .overrun reaches overruns
  | case3 reader seen after h =>
    have decodes := refill_decodes fit fresh
    rw [h] at decodes
    cases decodes with
    | ended reaches idle halts kept =>
      exact .ended reaches halts (kept.trans empty) (by simp [blocks_idle idle])
  | case4 reader seen after h _ shown e told =>
    have decodes := refill_decodes fit fresh
    rw [h] at decodes
    cases decodes with
    | filled reaches idle carries pending waits =>
      rw [empty, List.nil_append] at pending
      have block := blocks_filled idle carries (pending ▸ waits)
      rw [← pending] at block
      exact .refused reaches (congrArg _ block) (by simp [shown]) told
  | case5 reader seen after h _ shown told ih =>
    have decodes := refill_decodes fit fresh
    rw [h] at decodes
    cases decodes with
    | filled reaches idle carries pending waits =>
      rw [empty, List.nil_append] at pending
      have block := blocks_filled idle carries (pending ▸ waits)
      have fine := reaches.keeps.poisoned.trans fresh
      have visits := ih ⟨(reaches.fit fit).body, (reaches.fit fit).decoded⟩ fine rfl
      have emptied : Reaches reader _ { after with pending := .empty } :=
        reaches.trans (.here after .empty)
      refine .after emptied ?_
      simpa [block, pending, shown] using visits

theorem visit_blocks_visits (fit : reader.Fit) (fresh : reader.poisoned = false) :
    Visits visitor reader reader.held (reader.visitBlocks visitor) := by
  unfold visitBlocks held
  by_cases empty : reader.pending.toList = []
  · rw [if_pos empty, if_pos ((ByteQueue.is_empty_to_list _).mpr empty)]
    exact visit_rest_visits fit fresh empty
  · rw [if_neg empty, if_neg (mt (ByteQueue.is_empty_to_list _).mp empty)]
    dsimp only
    split
    · rename_i told
      exact @Visits.refused _ _ visitor reader _ [] _ _ [] _ (.refl reader) rfl rfl told
    · have visits := @visit_rest_visits _ _ visitor { reader with pending := .empty }
        #[reader.pending.toList] ⟨fit.body, fit.decoded⟩ fresh rfl
      exact .after (.here reader .empty) (by simpa using visits)

theorem visit_rest_poisoned (poisoned : reader.poisoned = true) (seen : Array Bytes) :
    reader.visitRest visitor seen = (.failed (.failed .poisoned), seen, reader) := by
  rw [visitRest]
  split
  all_goals
    rename_i h
    rw [refill_poisoned poisoned] at h
    cases h
  rfl

theorem visit_blocks_poisoned (poisoned : reader.poisoned = true) :
    ∃ e seen queue, reader.visitBlocks visitor =
        (.failed e, seen, { reader with pending := queue }) ∧
      reader.pending.Passed queue ∧
      (e = .failed .poisoned ∧ seen.toList = reader.held ∧ queue.toList = [] ∨
        ∃ why, e = .refused why ∧ seen.toList = [reader.pending.toList] ∧
          queue = reader.pending) := by
  unfold visitBlocks held
  by_cases empty : reader.pending.toList = []
  · rw [if_pos empty, if_pos ((ByteQueue.is_empty_to_list _).mpr empty),
      visit_rest_poisoned poisoned]
    exact ⟨_, _, reader.pending, rfl, .none, .inl ⟨rfl, rfl, empty⟩⟩
  · rw [if_neg empty, if_neg (mt (ByteQueue.is_empty_to_list _).mp empty)]
    dsimp only
    split
    · exact ⟨_, _, reader.pending, rfl, .none, .inr ⟨_, rfl, rfl, rfl⟩⟩
    · rw [@visit_rest_poisoned _ _ visitor { reader with pending := .empty } poisoned]
      exact ⟨_, _, .empty, rfl, ByteQueue.passed_empty _, .inl ⟨rfl, rfl, rfl⟩⟩

end FramedSnappy.Reader
