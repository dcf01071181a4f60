import FramedSnappy.Error

/-! The elements of a raw block: literal bytes, and copies of bytes that the block already holds.
`appendTo` says what an element means, `encode` how it is written, and `read` checks it against the
bytes that are left before it is believed. -/
namespace FramedSnappy.Snappy

inductive Element where
  | literal (bytes : Bytes)
  | copy (offset length : Nat)
  deriving DecidableEq

namespace Element

/-- Byte by byte, so that a copy may reach into what it has just written. -/
def repeatBack (offset : Nat) : Nat → Array UInt8 → Array UInt8
  | 0, block => block
  | length + 1, block =>
    repeatBack offset length (block.push (block.getD (block.size - offset) 0))

def appendTo (block : Array UInt8) : Element → Array UInt8
  | literal bytes => block ++ bytes
  | copy offset length => repeatBack offset length block

/-- Up to sixty bytes the tag holds the length; longer literals spell it out behind the tag. -/
def literalTag (last : Nat) : Bytes :=
  if last < 60 then [UInt8.ofNat (last * 4)]
  else if last < 256 then [240, UInt8.ofNat last]
  else 244 :: Bytes.littleEndian 2 last

/-- A short and near copy takes two bytes, any other three. -/
def encode : Element → Bytes
  | literal bytes => literalTag (bytes.length - 1) ++ bytes
  | copy offset length =>
    if 4 ≤ length ∧ length ≤ 11 ∧ offset ≤ 2047 then
      [UInt8.ofNat (offset / 256 * 32 + (length - 4) * 4 + 1), UInt8.ofNat offset]
    else UInt8.ofNat ((length - 1) * 4 + 2) :: Bytes.littleEndian 2 offset

/-- A run longer than one copy can express, in copies of at most 64 bytes, none shorter than 4. -/
def copies (offset length : Nat) : List Element :=
  if 68 ≤ length then copy offset 64 :: copies offset (length - 64)
  else if 64 < length then [copy offset 60, copy offset (length - 60)]
  else [copy offset length]
termination_by length

/- `written` bytes of the block are there and `room` are missing. -/

def readLiteralBody (room length : Nat) (rest : Bytes) : Except BlockError (Element × Bytes) :=
  if room < length then .error (.literal length rest.length room)
  else match rest.splitExactly length with
    | none => .error (.literal length rest.length room)
    | some (bytes, rest) => .ok (literal bytes, rest)

def readLiteral (room last : Nat) (rest : Bytes) : Except BlockError (Element × Bytes) :=
  if last < 60 then readLiteralBody room (last + 1) rest
  else match rest.splitExactly (last - 59) with
    | none => .error (.literal (last - 59) rest.length room)
    | some (field, rest) => readLiteralBody room (Bytes.ofLittleEndian field + 1) rest

def readCopy (written room length high width : Nat) (rest : Bytes) :
    Except BlockError (Element × Bytes) :=
  match rest.splitExactly width with
  | none => .error (.copyRead width rest.length)
  | some (field, rest) =>
    let offset := high + Bytes.ofLittleEndian field
    if offset = 0 ∨ written < offset then .error (.offset offset written)
    else if room < length then .error (.copyWrite length room)
    else .ok (copy offset length, rest)

/-- The element that starts with `tag`, and the bytes after it. -/
def read (written room : Nat) (tag : UInt8) (rest : Bytes) : Except BlockError (Element × Bytes) :=
  let code := tag.toNat
  match code % 4 with
  | 0 => readLiteral room (code / 4) rest
  | 1 => readCopy written room (4 + code / 4 % 8) (code / 32 * 256) 1 rest
  | 2 => readCopy written room (1 + code / 4) 0 2 rest
  | _ => readCopy written room (1 + code / 4) 0 4 rest

theorem read_literal_body_rest {room length : Nat} {rest after : Bytes} {element : Element}
    (h : readLiteralBody room length rest = .ok (element, after)) :
    after.length ≤ rest.length := by
  simp only [readLiteralBody] at h
  split at h
  · contradiction
  · split at h
    · contradiction
    · rename_i hs
      cases h
      exact Bytes.split_exactly_rest hs

theorem read_literal_rest {room last : Nat} {rest after : Bytes} {element : Element}
    (h : readLiteral room last rest = .ok (element, after)) : after.length ≤ rest.length := by
  simp only [readLiteral] at h
  split at h
  · exact read_literal_body_rest h
  · split at h
    · contradiction
    · rename_i hs
      exact Nat.le_trans (read_literal_body_rest h) (Bytes.split_exactly_rest hs)

theorem read_copy_rest {written room length high width : Nat} {rest after : Bytes}
    {element : Element} (h : readCopy written room length high width rest = .ok (element, after)) :
    after.length ≤ rest.length := by
  simp only [readCopy] at h
  split at h
  · contradiction
  · rename_i hs
    split at h
    · contradiction
    · split at h
      · contradiction
      · cases h
        exact Bytes.split_exactly_rest hs

theorem read_rest {written room : Nat} {tag : UInt8} {rest after : Bytes} {element : Element}
    (h : read written room tag rest = .ok (element, after)) : after.length ≤ rest.length := by
  simp only [read] at h
  split at h
  · exact read_literal_rest h
  · exact read_copy_rest h
  · exact read_copy_rest h
  · exact read_copy_rest h

end Element

end FramedSnappy.Snappy
