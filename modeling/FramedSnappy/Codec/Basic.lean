import FramedSnappy.Error

/-! What the framing layer asks of a block codec. A codec is a value that every call replaces, so
it may remember its past; it is handed a window of existing bytes and may write anything into it
and claim any number of bytes written. Nothing here says that a codec keeps its promises. -/
namespace FramedSnappy

structure Codec.Reply (κ : Type) where
  /-- The number of bytes the codec says it produced. -/
  count : Except Error Nat
  /-- The bytes it really wrote, from the start of the window on. -/
  written : Bytes
  codec : κ

class Codec (κ : Type) where
  /-- A bound for the compressed form of a block of the given length. -/
  bound : κ → Nat → Nat × κ
  compress : κ → Bytes → Bytes → Codec.Reply κ
  /-- The decoded length a compressed block announces. -/
  decodedLength : κ → Bytes → Except Error Nat × κ
  decompress : κ → Bytes → Bytes → Codec.Reply κ

namespace Codec.Reply

/-- The window after the call. -/
def window {κ : Type} (reply : Codec.Reply κ) (before : Bytes) : Bytes :=
  Bytes.overlay reply.written before

end Codec.Reply

end FramedSnappy
