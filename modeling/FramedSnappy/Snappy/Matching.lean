import FramedSnappy.Snappy.Element

/-! The search for repetitions inside one block of at most 65536 bytes. A table remembers, for
hashes of four bytes, a position where such bytes stood. A candidate from the table is compared
before it is used, so the table decides how well a block compresses and never what it means. -/
namespace FramedSnappy.Snappy.Matching

/-- The four bytes at a position as a little-endian number. -/
def word (block : Array UInt8) (position : Nat) : UInt32 :=
  (block.getD position 0).toUInt32 |||
    (block.getD (position + 1) 0).toUInt32 <<< 8 |||
    (block.getD (position + 2) 0).toUInt32 <<< 16 |||
    (block.getD (position + 3) 0).toUInt32 <<< 24

/-- The first four bytes at both positions are the same. -/
def agree (block : Array UInt8) (left right : Nat) : Bool :=
  block.getD left 0 == block.getD right 0 &&
    block.getD (left + 1) 0 == block.getD (right + 1) 0 &&
    block.getD (left + 2) 0 == block.getD (right + 2) 0 &&
    block.getD (left + 3) 0 == block.getD (right + 3) 0

structure Table where
  /-- The number of high bits of a hash that are kept. -/
  bits : Nat
  slots : Array Nat

namespace Table

/-- At least 256 slots and at most 16384, and within these bounds as many as the block has
bytes. -/
def empty (size : Nat) : Table :=
  let bits := ((List.range' 8 6).find? fun bits => size ≤ 1 <<< bits).getD 14
  ⟨bits, Array.replicate (1 <<< bits) 0⟩

def slot (table : Table) (bytes : UInt32) : Nat :=
  ((bytes * 0x1e35a7bd) >>> UInt32.ofNat (32 - table.bits)).toNat

/-- A position never stored reads as the start of the block. -/
def get (table : Table) (slot : Nat) : Nat := table.slots.getD slot 0

def set (table : Table) (slot position : Nat) : Table :=
  { table with slots := table.slots.setIfInBounds slot position }

end Table

/-- Where the bytes from `position` stop to repeat those from `candidate`. -/
def runEnd (block : Array UInt8) (position candidate : Nat) : Nat :=
  if position < block.size ∧ block.getD position 0 = block.getD candidate 0 then
    runEnd block (position + 1) (candidate + 1)
  else position
termination_by block.size - position

theorem le_run_end (block : Array UInt8) (position candidate : Nat) :
    position ≤ runEnd block position candidate := by
  fun_induction runEnd block position candidate with
  | case1 _ _ _ ih => omega
  | case2 => omega

structure Hit where
  position : Nat
  candidate : Nat
  table : Table

/-- The next position whose four bytes agree with their candidate. The steps grow by one byte for
every 32 bytes passed in vain. -/
def seek (block : Array UInt8) (limit passed position slot : Nat) (table : Table) : Option Hit :=
  let step := 1 + passed / 32
  if limit < position + step then none
  else
    let candidate := table.get slot
    let table := table.set slot position
    if agree block position candidate then some ⟨position, candidate, table⟩
    else
      let next := position + step
      seek block limit (passed + step) next (table.slot (word block next)) table
termination_by limit - position

theorem seek_position {block : Array UInt8} {limit passed position slot : Nat} {table : Table}
    {hit : Hit} (h : seek block limit passed position slot table = some hit) :
    position ≤ hit.position ∧ hit.position < limit := by
  fun_induction seek block limit passed position slot table with
  | case1 => contradiction
  | case2 =>
    cases h
    simp only [Nat.le_refl, true_and]
    omega
  | case3 _ _ _ _ _ _ _ _ _ _ ih =>
    have := ih h
    omega

/-- What a chain of copies leaves: where the last one ended, and the table if the search goes on. -/
structure Chain where
  stop : Nat
  table : Option Table
  found : Array Element

/-- Copies follow each other without literals between them while the bytes behind one agree with a
candidate of their own. -/
def chain (block : Array UInt8) (limit position candidate : Nat) (table : Table)
    (found : Array Element) : Chain :=
  let stop := runEnd block (position + 4) (candidate + 4)
  let found := found ++ Element.copies (position - candidate) (stop - position)
  if limit ≤ stop then ⟨stop, none, found⟩
  else
    let table := table.set (table.slot (word block (stop - 1))) (stop - 1)
    let slot := table.slot (word block stop)
    let candidate := table.get slot
    let table := table.set slot stop
    if agree block stop candidate then chain block limit stop candidate table found
    else ⟨stop, some table, found⟩
termination_by limit - position
decreasing_by
  have : position + 4 ≤ stop := le_run_end block (position + 4) _
  omega

theorem chain_stop (block : Array UInt8) (limit position candidate : Nat) (table : Table)
    (found : Array Element) :
    position < (chain block limit position candidate table found).stop := by
  fun_induction chain block limit position candidate table found with
  | case1 position candidate table found stop =>
    have : position + 4 ≤ stop := le_run_end block (position + 4) _
    simp only
    omega
  | case2 position candidate table found stop _ _ _ _ _ _ _ ih =>
    have : position + 4 ≤ stop := le_run_end block (position + 4) _
    omega
  | case3 position candidate table found stop =>
    have : position + 4 ≤ stop := le_run_end block (position + 4) _
    simp only
    omega

def literalBetween (block : Array UInt8) (start stop : Nat) : Element :=
  .literal (block.extract start stop).toList

/-- The elements found, and the start of the bytes behind the last of them. -/
def scan (block : Array UInt8) (limit start position : Nat) (table : Table)
    (found : Array Element) : Array Element × Nat :=
  match h : seek block limit 0 position (table.slot (word block position)) table with
  | none => (found, start)
  | some hit =>
    let found := found.push (literalBetween block start hit.position)
    let next := chain block limit hit.position hit.candidate hit.table found
    match next.table with
    | none => (next.found, next.stop)
    | some table =>
      have : limit - (next.stop + 1) < limit - position :=
        Nat.sub_lt_sub_left (Nat.lt_of_le_of_lt (seek_position h).1 (seek_position h).2)
          (Nat.lt_of_le_of_lt (seek_position h).1 (Nat.lt_succ_of_lt (chain_stop ..)))
      scan block limit next.stop (next.stop + 1) table next.found
termination_by limit - position

/-- The elements of one block. A block too short for a search is one literal. -/
def elements (block : Array UInt8) : Array Element :=
  if block.size < 17 then #[.literal block.toList]
  else
    let (found, start) := scan block (block.size - 15) 0 1 (Table.empty block.size) #[]
    if start < block.size then found.push (literalBetween block start block.size)
    else found

end FramedSnappy.Snappy.Matching
