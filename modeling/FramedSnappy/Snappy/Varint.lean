import FramedSnappy.Bytes

/-! Numbers as bytes of seven bits each, lowest first, every byte but the last with its high bit
set. A number may be written with more bytes than it needs, up to the number allowed. -/
namespace FramedSnappy.Snappy.Varint

def encode (value : Nat) : Bytes :=
  if value < 128 then [UInt8.ofNat value]
  else UInt8.ofNat (value % 128 + 128) :: encode (value / 128)
termination_by value
decreasing_by omega

/-- The number at the front and the bytes after it, when one ends within `allowed` bytes. -/
def decode : Nat → Bytes → Option (Nat × Bytes)
  | 0, _ => none
  | _ + 1, [] => none
  | allowed + 1, byte :: rest =>
    if byte.toNat < 128 then some (byte.toNat, rest)
    else (decode allowed rest).map fun (high, after) => (byte.toNat - 128 + 128 * high, after)

end FramedSnappy.Snappy.Varint
