import FramedSnappy.Snappy.Decoding
import FramedSnappy.Snappy.Matching

/-! From bytes to a raw block: their number, then the elements of every 65536 of them. -/
namespace FramedSnappy.Snappy

/-- The most bytes the compressed form of `size` bytes takes; 0 where the codec gives up. -/
def maxEncodedLength (size : Nat) : Nat :=
  let bound := 32 + size + size / 6
  if size > maxInput ∨ bound > maxInput then 0 else bound

def encodeElements (data : Bytes) : Bytes :=
  (Matching.elements data.toArray).toList.flatMap Element.encode

def encodeAll (data : Bytes) : Bytes :=
  Varint.encode data.length ++ (Bytes.pieces 65536 (by decide) data).flatMap encodeElements

/-- Encodes into a window of `capacity` bytes, which must hold the longest result. -/
def encode (capacity : Nat) (data : Bytes) : Except BlockError Bytes :=
  let bound := maxEncodedLength data.length
  if bound = 0 then .error (.tooBig data.length maxInput)
  else if capacity < bound then .error (.bufferTooSmall capacity bound)
  else .ok (encodeAll data)

end FramedSnappy.Snappy
