import FramedSnappy.Snappy.Element
import FramedSnappy.Snappy.Varint

/-! From a raw block to its bytes. The block opens with the number of bytes it stands for; its
elements must produce exactly that many. -/
namespace FramedSnappy.Snappy

/-- The longest input, compressed or not, that the codec deals with. -/
def maxInput : Nat := 0xffffffff

/-- The announced number of bytes, and the elements. -/
def readHeader (input : Bytes) : Except BlockError (Nat × Bytes) :=
  match Varint.decode 5 input with
  | none => .error .header
  | some (size, rest) =>
    if size > maxInput then .error (.tooBig size maxInput) else .ok (size, rest)

/-- The announced number of bytes; an empty input announces none. -/
def decodedLength : Bytes → Except BlockError Nat
  | [] => .ok 0
  | input =>
    match readHeader input with
    | .error e => .error e
    | .ok (size, _) => .ok size

def decodeElements (size : Nat) (elements : Bytes) (block : Array UInt8) :
    Except BlockError (Array UInt8) :=
  match elements with
  | [] => .ok block
  | tag :: rest =>
    match h : Element.read block.size (size - block.size) tag rest with
    | .error e => .error e
    | .ok (element, after) =>
      have := Element.read_rest h
      decodeElements size after (element.appendTo block)
termination_by elements.length
decreasing_by exact Nat.lt_succ_of_le this

/-- Decodes into a window of `capacity` bytes. -/
def decode (capacity : Nat) (input : Bytes) : Except BlockError Bytes :=
  if input.isEmpty then .error .empty
  else match readHeader input with
    | .error e => .error e
    | .ok (size, elements) =>
      if size > capacity then .error (.bufferTooSmall capacity size)
      else match decodeElements size elements #[] with
        | .error e => .error e
        | .ok block =>
          if block.size < size then .error (.headerMismatch size block.size)
          else .ok block.toList

end FramedSnappy.Snappy
