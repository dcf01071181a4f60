import FramedSnappy.Proofs.Snappy.Element
import FramedSnappy.Snappy.Matching

/-! The search for repetitions finds elements that build up the block it has searched, and they take
little more room than the block. A table is trusted with one thing only, that it names earlier
positions; the bytes there are compared. -/
namespace FramedSnappy.Snappy

namespace Element

/-- Bytes that repeat those `offset` before them are what a copy from there gives. -/
theorem repeat_back_extract {block : Array UInt8} {offset length position : Nat}
    (back : 0 < offset) (known : offset ≤ position) (inside : position + length ≤ block.size)
    (same : ∀ index < length,
      block.getD (position + index) 0 = block.getD (position - offset + index) 0) :
    repeatBack offset length (block.extract 0 position) = block.extract 0 (position + length) := by
  induction length generalizing position with
  | zero => rfl
  | succ length ih =>
    have there : position < block.size := by omega
    have size : (block.extract 0 position).size = position := by
      rw [Array.size_extract]
      omega
    have byte : (block.extract 0 position).getD (position - offset) 0 = block.getD position 0 := by
      have first := same 0 (Nat.succ_pos _)
      rw [Nat.add_zero, Nat.add_zero] at first
      have early : position - offset < block.size := by omega
      have before : position - offset < position := by omega
      rw [first]
      simp [Array.getD, size, early, before]
    have pushed : (block.extract 0 position).push (block.getD position 0) =
        block.extract 0 (position + 1) := by
      rw [Array.getD_eq_getD_getElem?, Array.getElem?_eq_getElem there, Option.getD_some]
      simp
    rw [repeatBack, size, byte, pushed, ih]
    · congr 1
      omega
    · omega
    · omega
    · intro index inner
      have next := same (index + 1) (by omega)
      have mine : position + 1 + index = position + (index + 1) := by omega
      have yours : position + 1 - offset + index = position - offset + (index + 1) := by omega
      rw [mine, yours, next]

theorem copies_build {offset length : Nat} {block : Array UInt8} (back : 0 < offset)
    (known : offset ≤ block.size) (near : offset < 65536) (least : 4 ≤ length) :
    Builds block (copies offset length) (repeatBack offset length block) := by
  have one {count : Nat} {block : Array UInt8} (known : offset ≤ block.size) (some : 0 < count)
      (most : count ≤ 64) : Builds block [copy offset count] (repeatBack offset count block) :=
    .one ⟨back, known, near, some, most⟩
  fun_induction copies offset length generalizing block with
  | case1 length long ih =>
    have first := @one 64 block known (by omega) (by omega)
    have further : offset ≤ (repeatBack offset 64 block).size := by
      rw [size_repeat_back]
      omega
    have rest := ih further (by omega)
    rw [← repeat_back_add, Nat.add_sub_cancel' (by omega)] at rest
    exact first.append rest
  | case2 length long middle =>
    have first := @one 60 block known (by omega) (by omega)
    have further : offset ≤ (repeatBack offset 60 block).size := by
      rw [size_repeat_back]
      omega
    have rest := @one (length - 60) _ further (by omega) (by omega)
    rw [← repeat_back_add, Nat.add_sub_cancel' (by omega)] at rest
    exact first.append rest
  | case3 length long middle => exact one known (by omega) (by omega)

theorem length_encode_copy (offset length : Nat) : (copy offset length).encode.length ≤ 3 := by
  unfold encode
  dsimp only
  split
  · simp
  · simp

/-- Copies take fewer bytes than they stand for. -/
theorem length_copies {offset length : Nat} (least : 4 ≤ length) :
    ((copies offset length).flatMap encode).length + 1 ≤ length := by
  have most := length_encode_copy offset
  fun_induction copies offset length with
  | case1 length long ih =>
    have rest := ih (by omega)
    have first := most 64
    rw [List.flatMap_cons, List.length_append]
    omega
  | case2 length long middle =>
    have first := most 60
    have second := most (length - 60)
    simp only [List.flatMap_cons, List.flatMap_nil, List.length_append, List.length_nil]
    omega
  | case3 length long middle =>
    have first := most length
    simp only [List.flatMap_cons, List.flatMap_nil, List.length_append, List.length_nil]
    omega

/-- A literal takes at most a byte more than it has, and for every 60 bytes after the first 60 one
more. -/
theorem length_encode_literal {bytes : Bytes} (some : 0 < bytes.length) :
    60 * (literal bytes).encode.length ≤ 61 * bytes.length + 60 := by
  have tag : 60 * (literalTag (bytes.length - 1)).length ≤ bytes.length + 60 := by
    unfold literalTag
    split
    · simp
    · split
      · simp only [List.length_cons, List.length_nil]
        omega
      · simp only [List.length_cons, Bytes.length_little_endian]
        omega
  rw [encode_literal, List.length_append]
  omega

end Element

open Element (Builds)

namespace Matching

/-- All positions that can be looked up are earlier ones. -/
def Table.Before (table : Table) (position : Nat) : Prop := ∀ slot, table.get slot < position

theorem Table.before_empty (size : Nat) : (Table.empty size).Before 1 := by
  intro slot
  simp only [Table.get, Table.empty, Array.getD_eq_getD_getElem?, Array.getElem?_replicate]
  split
  · exact Nat.one_pos
  · exact Nat.one_pos

theorem Table.Before.set {table : Table} {position later : Nat} (before : table.Before position)
    (slot : Nat) {stored : Nat} (ahead : position ≤ later) (early : stored < later) :
    (table.set slot stored).Before later := by
  intro other
  have kept := before other
  simp only [Table.get, Table.set, Array.getD_eq_getD_getElem?, Array.getElem?_setIfInBounds]
    at kept ⊢
  split
  · split
    · exact early
    · exact Nat.lt_of_le_of_lt (Nat.zero_le _) early
  · omega

/-- The `length` bytes at the two positions are the same. -/
def Repeats (block : Array UInt8) (position candidate length : Nat) : Prop :=
  ∀ index < length, block.getD (position + index) 0 = block.getD (candidate + index) 0

theorem repeats_of_agree {block : Array UInt8} {position candidate : Nat}
    (h : agree block position candidate = true) : Repeats block position candidate 4 := by
  simp only [agree, Bool.and_eq_true, beq_iff_eq] at h
  obtain ⟨⟨⟨first, second⟩, third⟩, fourth⟩ := h
  intro index inner
  match index, inner with
  | 0, _ => exact first
  | 1, _ => exact second
  | 2, _ => exact third
  | 3, _ => exact fourth

theorem Repeats.append {block : Array UInt8} {position candidate first second : Nat}
    (front : Repeats block position candidate first)
    (back : Repeats block (position + first) (candidate + first) second) :
    Repeats block position candidate (first + second) := by
  intro index inner
  rcases Nat.lt_or_ge index first with early | late
  · exact front index early
  · have same := back (index - first) (by omega)
    rw [Nat.add_assoc, Nat.add_assoc, Nat.add_sub_cancel' late] at same
    exact same

theorem run_end_repeats {block : Array UInt8} {position candidate : Nat}
    (inside : position ≤ block.size) :
    runEnd block position candidate ≤ block.size ∧
      Repeats block position candidate (runEnd block position candidate - position) := by
  fun_induction runEnd block position candidate with
  | case1 position candidate goes ih =>
    obtain ⟨stops, repeats⟩ := ih (by omega)
    have further := le_run_end block (position + 1) (candidate + 1)
    refine ⟨stops, ?_⟩
    have length : runEnd block (position + 1) (candidate + 1) - position =
        1 + (runEnd block (position + 1) (candidate + 1) - (position + 1)) := by omega
    rw [length]
    apply Repeats.append _ repeats
    intro index inner
    obtain rfl : index = 0 := by omega
    exact goes.2
  | case2 position candidate ends =>
    refine ⟨inside, ?_⟩
    intro index inner
    omega

/-- The elements found build up the block as far as `stop`. They may take one byte in 60 more than
that, and `slack` sixtieths of a byte. -/
structure Covers (block : Array UInt8) (slack stop : Nat) (found : Array Element) : Prop where
  inside : stop ≤ block.size
  builds : Builds #[] found.toList (block.extract 0 stop)
  short : 60 * (found.toList.flatMap Element.encode).length ≤ 61 * stop + slack

variable {block : Array UInt8} {start position candidate limit : Nat} {table : Table}
  {found : Array Element}

theorem covers_nothing (block : Array UInt8) : Covers block 0 0 #[] where
  inside := Nat.zero_le _
  builds := by
    rw [Array.extract_zero]
    exact .done #[]
  short := Nat.zero_le _

theorem Covers.weaken (covers : Covers block 0 start found) : Covers block 60 start found :=
  ⟨covers.inside, covers.builds, Nat.le_trans covers.short (Nat.le_add_right _ _)⟩

theorem Covers.literal (covers : Covers block 0 start found) (further : start < position)
    (inside : position ≤ block.size) (small : block.size ≤ 65536) :
    Covers block 60 position (found.push (literalBetween block start position)) := by
  have length : (block.extract start position).toList.length = position - start := by
    rw [Array.length_toList, Array.size_extract]
    omega
  have some : 0 < (block.extract start position).toList.length := by omega
  refine ⟨inside, ?_, ?_⟩
  · have fits : (literalBetween block start position).Fits (block.extract 0 start).size :=
      ⟨some, by omega⟩
    have joined : (literalBetween block start position).appendTo (block.extract 0 start) =
        block.extract 0 position := by
      have ahead : max start position = position := Nat.max_eq_right (Nat.le_of_lt further)
      apply Array.toList_inj.mp
      rw [literalBetween, Element.appendTo, Array.toList_appendList, ← Array.toList_append,
        Array.extract_append_extract, Nat.zero_min, ahead]
    rw [Array.toList_push, ← joined]
    exact covers.builds.append (.one fits)
  · have short := covers.short
    have literal := Element.length_encode_literal some
    rw [length] at literal
    simp only [Array.toList_push, List.flatMap_append, List.flatMap_cons, List.flatMap_nil,
      List.length_append, List.length_nil, literalBetween]
    omega

theorem Covers.copies (covers : Covers block 60 position found) (small : block.size ≤ 65536)
    (earlier : candidate < position) {length : Nat}
    (least : 4 ≤ length) (inside : position + length ≤ block.size)
    (repeats : Repeats block position candidate length) :
    Covers block 0 (position + length) (found ++ Element.copies (position - candidate) length) := by
  have size : (block.extract 0 position).size = position := by
    rw [Array.size_extract]
    omega
  have from_candidate : position - (position - candidate) = candidate := by omega
  refine ⟨inside, ?_, ?_⟩
  · have built := @Element.copies_build (position - candidate) length (block.extract 0 position)
      (by omega) (by omega) (by omega) least
    rw [Element.repeat_back_extract (by omega) (by omega) inside
      (by rwa [from_candidate])] at built
    rw [Array.toList_appendList]
    exact covers.builds.append built
  · have short := covers.short
    have copied := @Element.length_copies (position - candidate) length least
    rw [Array.toList_appendList, List.flatMap_append, List.length_append]
    omega

/-- Where a search has come to: what it has found so far, and a table of what it has passed. -/
structure Reached (block : Array UInt8) (limit : Nat) (next : Chain) : Prop where
  covers : Covers block 0 next.stop next.found
  goes : ∀ table, next.table = some table → next.stop < limit ∧ table.Before (next.stop + 1)

theorem seek_hit {passed slot : Nat} {hit : Hit} (before : table.Before position)
    (h : seek block limit passed position slot table = some hit) :
    hit.candidate < hit.position ∧ agree block hit.position hit.candidate = true ∧
      hit.table.Before (hit.position + 1) := by
  fun_induction seek block limit passed position slot table with
  | case1 => contradiction
  | case2 passed position slot table step inside candidate stored same =>
    cases h
    exact ⟨before slot, same, before.set slot (Nat.le_succ _) (Nat.lt_succ_self _)⟩
  | case3 passed position slot table step inside candidate stored other next ih =>
    apply ih _ h
    apply before.set slot
    · omega
    · omega

/-- A copy goes as far as the bytes agree. -/
theorem Covers.run (covers : Covers block 60 position found) (small : block.size ≤ 65536)
    (room : position + 4 ≤ block.size) (earlier : candidate < position)
    (same : agree block position candidate = true) :
    let stop := runEnd block (position + 4) (candidate + 4)
    position + 4 ≤ stop ∧
      Covers block 0 stop (found ++ Element.copies (position - candidate) (stop - position)) := by
  intro stop
  have further : position + 4 ≤ stop := le_run_end block (position + 4) (candidate + 4)
  obtain ⟨ends, longer⟩ := @run_end_repeats block (position + 4) (candidate + 4) room
  have repeats := (repeats_of_agree same).append longer
  have length : 4 + (stop - (position + 4)) = stop - position := by omega
  have whole : position + (stop - position) = stop := by omega
  rw [length] at repeats
  have covered := covers.copies small earlier (by omega) (by omega) repeats
  rw [whole] at covered
  exact ⟨further, covered⟩

theorem chain_reaches (covers : Covers block 60 position found) (small : block.size ≤ 65536)
    (room : limit + 4 ≤ block.size) (inside : position < limit) (earlier : candidate < position)
    (same : agree block position candidate = true) (before : table.Before (position + 1)) :
    Reached block limit (chain block limit position candidate table found) := by
  fun_induction chain block limit position candidate table found with
  | case1 position candidate table found stop longer beyond =>
    obtain ⟨-, covered⟩ := covers.run small (by omega) earlier same
    refine ⟨covered, fun table told => ?_⟩
    cases told
  | case2 position candidate table found stop longer more stored slot next marked again ih =>
    obtain ⟨further, covered⟩ := covers.run small (by omega) earlier same
    have behind : stored.Before stop := before.set _ (by omega) (by omega)
    have ahead : marked.Before (stop + 1) :=
      behind.set slot (Nat.le_succ _) (Nat.lt_succ_self _)
    exact ih covered.weaken (by omega) (behind slot) again ahead
  | case3 position candidate table found stop longer more stored slot next marked other =>
    obtain ⟨further, covered⟩ := covers.run small (by omega) earlier same
    have behind : stored.Before stop := before.set _ (by omega) (by omega)
    have ahead : marked.Before (stop + 1) :=
      behind.set slot (Nat.le_succ _) (Nat.lt_succ_self _)
    refine ⟨covered, fun table told => ?_⟩
    cases told
    exact ⟨Nat.not_le.mp more, ahead⟩

theorem scan_covers (covers : Covers block 0 start found) (small : block.size ≤ 65536)
    (room : limit + 4 ≤ block.size) (behind : start < position) (before : table.Before position) :
    Covers block 0 (scan block limit start position table found).2
      (scan block limit start position table found).1 := by
  -- the chain behind a hit pays for the literal in front of it
  have step {start position slot : Nat} {table : Table} {found : Array Element} {hit : Hit}
      (covers : Covers block 0 start found) (behind : start < position)
      (before : table.Before position)
      (h : seek block limit 0 position slot table = some hit) :
      Reached block limit (chain block limit hit.position hit.candidate hit.table
        (found.push (literalBetween block start hit.position))) := by
    obtain ⟨further, inside⟩ := seek_position h
    obtain ⟨earlier, same, ahead⟩ := seek_hit before h
    have literal : Covers block 60 hit.position _ := covers.literal (by omega) (by omega) small
    exact chain_reaches literal small room inside earlier same ahead
  fun_induction scan block limit start position table found with
  | case1 => exact covers
  | case2 start position table found hit h literal next beyond =>
    exact (step covers behind before h).covers
  | case3 start position table found hit h literal next more goes _ ih =>
    have reached : Reached block limit next := step covers behind before h
    exact ih reached.covers (Nat.lt_succ_self _) (reached.goes more goes).2

/-- The elements of a block build it up, and take little more room than the block. -/
theorem elements_cover (some : 0 < block.size) (small : block.size ≤ 65536) :
    Covers block 60 block.size (elements block) := by
  have whole : block.extract 0 block.size = block := Array.extract_size
  unfold elements
  split
  · have literal := (covers_nothing block).literal some (Nat.le_refl _) small
    unfold literalBetween at literal
    rw [whole] at literal
    exact literal
  · rename_i long
    have room : block.size - 15 + 4 ≤ block.size := by omega
    have covered :=
      scan_covers (covers_nothing block) small room Nat.one_pos (Table.before_empty block.size)
    generalize scan block (block.size - 15) 0 1 (Table.empty block.size) #[] = result at covered ⊢
    obtain ⟨found, start⟩ := result
    dsimp only at covered ⊢
    split
    · rename_i more
      exact covered.literal more (Nat.le_refl _) small
    · rename_i none
      obtain rfl : start = block.size := Nat.le_antisymm covered.inside (Nat.not_lt.mp none)
      exact covered.weaken

end Matching

end FramedSnappy.Snappy
