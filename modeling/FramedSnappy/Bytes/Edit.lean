import FramedSnappy.Bytes

/-! Damage done to a byte string on its way. An edit past the end of the string changes nothing
there. -/
namespace FramedSnappy

inductive Edit where
  | invert (position : Nat) (bits : UInt8)
  | truncate (length : Nat)
  | insert (position : Nat) (bytes : Bytes)
  | remove (position count : Nat)

namespace Edit

def apply (data : Bytes) : Edit → Bytes
  | invert position bits => data.modify position (· ^^^ bits)
  | truncate length => data.take length
  | insert position bytes => data.take position ++ bytes ++ data.drop position
  | remove position count => data.take position ++ data.drop (position + count)

end Edit

/-- One edit after the other. -/
def Bytes.edit (data : Bytes) (edits : List Edit) : Bytes := edits.foldl Edit.apply data

end FramedSnappy
