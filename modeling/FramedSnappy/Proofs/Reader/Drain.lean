import FramedSnappy.Proofs.Reader.Facing

/-! Reading in a loop, with buffers of any sizes, until a call hands nothing over. -/
namespace FramedSnappy.Reader

open FramedSnappy.Frame (Parsed)

variable {κ : Type}

variable {reader : Reader κ} {frames : List Parsed}

def owed (reader : Reader κ) (frames : List Parsed) : Bytes :=
  reader.pending.toList ++ Frame.payload frames

theorem serve_dry {size : Nat} (positive : 0 < size) (none : (reader.serve size).1 = []) :
    reader.pending.toList = [] := by
  simp only [serve, ByteQueue.to_list_take] at none
  rcases List.take_eq_nil_iff.mp none with zero | empty
  · exact absurd zero (Nat.ne_of_gt positive)
  · exact empty

theorem serve_enough {size : Nat} (positive : 0 < size) (enough : ¬ reader.pending.length < size) :
    (reader.serve size).1 ≠ [] := by
  intro none
  rw [← ByteQueue.length_to_list, serve_dry positive none] at enough
  exact enough positive

theorem serve_at_most (reader : Reader κ) (size : Nat) : (reader.serve size).1.length ≤ size := by
  simp only [serve, ByteQueue.length_take]
  exact Nat.min_le_left _ _

theorem serve_owed (reader : Reader κ) (size : Nat) (frames : List Parsed) :
    (reader.serve size).1 ++ (reader.serve size).2.owed frames = reader.owed frames := by
  simp only [owed, serve, ByteQueue.to_list_take, ByteQueue.to_list_take_rest]
  rw [← List.append_assoc, List.take_append_drop]

theorem owed_append (reader : Reader κ) (frames more : List Parsed) :
    reader.owed (frames ++ more) = reader.owed frames ++ Frame.payload more := by
  rw [owed, owed, Frame.payload_append, List.append_assoc]

variable [Codec κ]

/-- The loop ends well and has collected `data`. The buffer of the n-th call has `sizes n` bytes. -/
inductive Drains : Reader κ → (Nat → Nat) → Bytes → Reader κ → Prop
  | dry {reader after : Reader κ} {sizes : Nat → Nat} :
      reader.read (sizes 0) = (.done [], after) → Drains reader sizes [] after
  | more {reader middle after : Reader κ} {sizes : Nat → Nat} {data rest : Bytes} :
      reader.read (sizes 0) = (.done data, middle) → data ≠ [] →
      Drains middle (fun call => sizes (call + 1)) rest after →
      Drains reader sizes (data ++ rest) after

/-- What a refill comes to in front of `frames` and `rest`. Then something waits, or there was
nothing at all; or all frames are passed, and what is behind them is bad. -/
inductive Tops (reader : Reader κ) (frames : List Parsed) (rest : Bytes) :
    Outcome Error Bool × Reader κ → Prop
  | served {passed more : List Parsed} {waiting : Bool} {after : Reader κ} :
      Reaches reader passed after → frames = passed ++ more → after.Faces more rest →
      after.owed more = reader.owed frames →
      (after.pending.toList = [] → reader.owed frames = [] ∧ rest = []) →
      Tops reader frames rest (.done waiting, after)
  | broken {middle after : Reader κ} {e : Error} :
      Reaches reader frames middle → middle.Breaks e after →
      after.pending.toList = reader.owed frames →
      after.pending.length = reader.pending.length →
      Tops reader frames rest (.failed e, after)
  | overrun {middle after : Reader κ} :
      Reaches reader frames middle → middle.Overruns after →
      Tops reader frames rest (.overrun, after)

theorem refill_tops {rest : Bytes} (faces : reader.Faces frames rest)
    (fresh : reader.poisoned = false) : Tops reader frames rest reader.refill := by
  have decodes := refill_decodes faces.fit fresh
  generalize reader.refill = result at decodes ⊢
  cases decodes with
  | @filled quiet parsed content middle reaches idle carries pending waits =>
    obtain ⟨more, rfl, behind⟩ := faces.reaches reaches
    have owes : middle.owed more = reader.owed (quiet ++ [parsed] ++ more) := by
      simp [owed, pending, payload_idle idle, Parsed.data, carries]
    exact .served reaches rfl behind owes fun none => absurd none waits
  | @ended quiet middle last reaches idle halts kept =>
    obtain ⟨more, rfl, behind⟩ := faces.reaches reaches
    obtain ⟨rfl, rfl, spent⟩ := behind.halts halts
    have owes : last.owed [] = reader.owed (quiet ++ []) := by
      simp [owed, kept, payload_idle idle]
    refine .served (by simpa using reaches.trans (.halt halts (.refl last))) rfl spent owes ?_
    intro none
    rw [← owes, owed, none]
    exact ⟨rfl, rfl⟩
  | @broken quiet middle last e reaches idle breaks kept =>
    obtain ⟨more, rfl, behind⟩ := faces.reaches reaches
    obtain ⟨rfl, -⟩ := behind.breaks breaks
    have owes : last.pending.toList = reader.owed (quiet ++ []) := by
      simp [owed, kept, payload_idle idle]
    have length := congrArg List.length kept
    rw [ByteQueue.length_to_list, ByteQueue.length_to_list] at length
    exact .broken (by simpa using reaches) breaks owes length
  | overrun reaches idle overruns kept =>
    obtain ⟨more, rfl, behind⟩ := faces.reaches reaches
    obtain ⟨rfl, -⟩ := behind.overruns overruns
    exact .overrun (by simpa using reaches) overruns

/-- What a read comes to in front of `frames` and `rest`. It hands something over, or nothing at the
very end; or it has passed all frames and what is behind them is bad, and then all that is owed
waits and is less than it wants. -/
inductive Reads (reader : Reader κ) (frames : List Parsed) (rest : Bytes) (size : Nat) :
    Outcome StreamError Bytes × Reader κ → Prop
  | served {passed more : List Parsed} {data : Bytes} {after : Reader κ} :
      Reaches reader passed after → frames = passed ++ more → after.Faces more rest →
      data ++ after.owed more = reader.owed frames →
      (data = [] → reader.owed frames = [] ∧ rest = []) →
      Reads reader frames rest size (.done data, after)
  | broken {middle after : Reader κ} {e : Error} :
      Reaches reader frames middle → middle.Breaks e after →
      after.pending.toList = reader.owed frames → after.pending.length < size →
      Reads reader frames rest size (.failed e.toStreamError, after)
  | overrun {middle after : Reader κ} :
      Reaches reader frames middle → middle.Overruns after →
      Reads reader frames rest size (.overrun, after)

theorem read_reads {rest : Bytes} (faces : reader.Faces frames rest)
    (fresh : reader.poisoned = false) {size : Nat} (positive : 0 < size) :
    Reads reader frames rest size (reader.read size) := by
  unfold read
  split
  · rename_i short
    have tops := refill_tops faces fresh
    generalize reader.refill = result at tops ⊢
    cases tops with
    | @served passed more _ last reaches split behind owes nothing =>
      exact .served (by simpa using reaches.trans (.here last _)) split (behind.with_queue _)
        ((serve_owed _ _ _).trans owes) fun none => nothing (serve_dry positive none)
    | broken reaches breaks owes length => exact .broken reaches breaks owes (length ▸ short)
    | overrun reaches overruns => exact .overrun reaches overruns
  · rename_i enough
    exact .served (.here reader _) rfl (faces.with_queue _) (serve_owed _ _ _)
      fun none => absurd none (serve_enough positive enough)

section Whole

variable (faces : reader.Faces frames [])

include faces

/-- Behind whole frames and nothing else there is nothing to fail at. -/
theorem sound_behind {middle : Reader κ} (reaches : Reaches reader frames middle) :
    (∀ e after, ¬ middle.Breaks e after) ∧ ∀ after, ¬ middle.Overruns after := by
  obtain ⟨more, split, behind⟩ := faces.reaches reaches
  constructor
  · intro e after breaks
    obtain ⟨-, left, judged⟩ := behind.breaks breaks
    cases judged
  · intro after overruns
    obtain ⟨-, left, judged⟩ := behind.overruns overruns
    cases judged

theorem refill_whole (fresh : reader.poisoned = false) :
    ∃ waiting after more, reader.refill = (.done waiting, after) ∧ after.Faces more [] ∧
      after.poisoned = false ∧ after.owed more = reader.owed frames ∧
      (after.pending.toList = [] → reader.owed frames = []) := by
  have tops := refill_tops faces fresh
  generalize reader.refill = result at tops ⊢
  cases tops with
  | served reaches split behind owes nothing =>
    exact ⟨_, _, _, rfl, behind, reaches.keeps.poisoned.trans fresh, owes,
      fun none => (nothing none).1⟩
  | broken reaches breaks => exact absurd breaks ((sound_behind faces reaches).1 _ _)
  | overrun reaches overruns => exact absurd overruns ((sound_behind faces reaches).2 _)

/-- In front of whole frames and nothing else a read succeeds, and it hands over nothing only when
there is nothing left. -/
theorem read_whole (fresh : reader.poisoned = false) {size : Nat} (positive : 0 < size) :
    ∃ data after more, reader.read size = (.done data, after) ∧ after.Faces more [] ∧
      after.poisoned = false ∧ data ++ after.owed more = reader.owed frames ∧
      (data = [] → reader.owed frames = []) := by
  have reads := read_reads faces fresh positive
  generalize reader.read size = result at reads ⊢
  cases reads with
  | served reaches split behind total last =>
    exact ⟨_, _, _, rfl, behind, reaches.keeps.poisoned.trans fresh, total, fun none => (last none).1⟩
  | broken reaches breaks => exact absurd breaks ((sound_behind faces reaches).1 _ _)
  | overrun reaches overruns => exact absurd overruns ((sound_behind faces reaches).2 _)

/-- The same for a peek, which leaves what it shows. -/
theorem peek_whole (fresh : reader.poisoned = false) :
    ∃ after more, reader.peek = (.done after.pending.toList, after) ∧ after.Faces more [] ∧
      after.poisoned = false ∧ after.owed more = reader.owed frames ∧
      (after.pending.toList = [] → reader.owed frames = []) := by
  unfold peek
  split
  · obtain ⟨waiting, after, more, refilled, behind⟩ := refill_whole faces fresh
    rw [refilled]
    exact ⟨after, more, rfl, behind⟩
  · rename_i waits
    exact ⟨reader, frames, rfl, faces, fresh, rfl,
      fun none => absurd ((ByteQueue.is_empty_to_list _).mpr none) waits⟩

end Whole

theorem read_at_most {size : Nat} {data : Bytes} {after : Reader κ}
    (h : reader.read size = (.done data, after)) : data.length ≤ size := by
  unfold read at h
  split at h
  · split at h
    · cases h
    · cases h
    · rename_i waiting filled _
      cases h
      exact serve_at_most filled size
  · cases h
    exact serve_at_most reader size

theorem drains_whole (faces : reader.Faces frames []) (fresh : reader.poisoned = false)
    {sizes : Nat → Nat} (positive : ∀ call, 0 < sizes call) :
    ∃ after, Drains reader sizes (reader.owed frames) after := by
  -- every call that hands something over leaves less to be owed
  induction h : (reader.owed frames).length using Nat.strongRecOn
    generalizing reader frames sizes with
  | ind count ih =>
    obtain ⟨data, middle, more, call, behind, fine, total, last⟩ :=
      read_whole faces fresh (positive 0)
    by_cases none : data = []
    · subst none
      rw [last rfl]
      exact ⟨middle, .dry call⟩
    · have shorter : (middle.owed more).length < count := by
        have := List.length_pos_iff.mpr none
        rw [← h, ← total, List.length_append]
        omega
      obtain ⟨after, rest⟩ :=
        ih _ shorter behind fine (fun call => positive (call + 1)) rfl
      exact ⟨after, total ▸ .more call none rest⟩

end FramedSnappy.Reader
